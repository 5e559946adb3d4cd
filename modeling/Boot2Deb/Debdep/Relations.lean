import Boot2Deb.Debdep.Version

/-!
# Dependency relations (`core/src/debdep.rs`)

The relation-field parser and `unsatisfied`. The source's hash maps are maps here, and the offsets
of its slices are counted in characters.
-/

namespace Boot2Deb.Debdep
open Rust Std

/-- One installed package, as read from a `dpkg` status stanza. -/
structure Package where
  name : Str
  version : Str
  /-- `Depends` and `Pre-Depends` joined. -/
  depends : Str
  provides : Str
deriving DecidableEq, Repr

/-- A dependency that no installed package satisfies. -/
structure Unsatisfied where
  package : Str
  packageVersion : Str
  required : Str
  installed : Option Str
deriving DecidableEq, Repr

/-- The loop of `split_top`: `depth` is that of the brackets, `piece` the text since the last
separator. -/
def splitTopFrom (sep : Char) : Int → Str → Str → List Str
  | _, piece, [] => [trim piece]
  | depth, piece, c :: s =>
    if c = '(' ∨ c = '[' then splitTopFrom sep (depth + 1) (piece ++ [c]) s
    else if c = ')' ∨ c = ']' then splitTopFrom sep (depth - 1) (piece ++ [c]) s
    else if c = sep ∧ depth ≤ 0 then trim piece :: splitTopFrom sep depth [] s
    else splitTopFrom sep depth (piece ++ [c]) s

/-- `split_top`: the trimmed non-empty pieces between separators that stand outside brackets. -/
def splitTop (s : Str) (sep : Char) : List Str :=
  (splitTopFrom sep 0 [] s).filter (!·.isEmpty)

/-- The relation and the version of a constraint, from the text behind its parenthesis. -/
def parseConstraint (inner : Str) : Str × Str :=
  let split := (inner.findIdx? fun c => c.isDigit || c.isAlpha).getD inner.length
  (trim (inner.take split), trim (inner.drop split))

/-- The part of an atom before its build restriction. -/
def withoutBrackets (atom : Str) : Str :=
  match find atom '[' with
  | some i => atom.take i
  | none => atom

/-- The head of an atom and the constraint in its parentheses. -/
def splitConstraint (atom : Str) : Str × Option (Str × Str) :=
  match find atom '(' with
  | some i =>
    let close := (find atom ')').getD atom.length
    let inner := trim ((atom.drop (i + 1)).take (max close (i + 1) - (i + 1)))
    (atom.take i, some (parseConstraint inner))
  | none => (atom, none)

/-- `parse_atom`: the package name of one alternative and its version constraint. The architecture
qualifier and what stands from the first `[` on are dropped. -/
def parseAtom (atom : Str) : Str × Option (Str × Str) :=
  let (head, constraint) := splitConstraint (withoutBrackets (trim atom))
  (trim ((trim head).takeWhile (· ≠ ':')), constraint)

/-- `relation_holds`: an unrecognised relation holds of no version. -/
def relationHolds (installed rel want : Str) : Bool :=
  let ord := compareVersions installed want
  if rel = "<<".toList then ord == .lt
  else if rel = "<=".toList then ord != .gt
  else if rel = "=".toList then ord == .eq
  else if rel = ">=".toList then ord != .lt
  else if rel = ">>".toList then ord == .gt
  else if rel = "<".toList then ord != .gt
  else if rel = ">".toList then ord != .lt
  else false

abbrev InstalledMap := ExtTreeMap Str Str compare

abbrev ProvidesMap := ExtTreeMap Str (List Str) compare

/-- The installed version of each name. -/
def installedMap (packages : List Package) : InstalledMap :=
  ExtTreeMap.ofList (packages.map fun p => (p.name, p.version)) compare

/-- The name and the version one item of a `Provides` field provides, the version empty when the
item declares none. -/
def provided (item : Str) : Str × Str :=
  let (name, version) := parseAtom item
  (name, (version.map (·.2)).getD [])

def pushProvided (provides : ProvidesMap) (entry : Str × Str) : ProvidesMap :=
  provides.insert entry.1 ((provides[entry.1]?).getD [] ++ [entry.2])

/-- Virtual name to the versions it is provided at. -/
def providesMap (packages : List Package) : ProvidesMap :=
  packages.foldl (fun provides p =>
    (splitTop p.provides ',').foldl (fun provides item => pushProvided provides (provided item))
      provides) ∅

/-- `satisfied`: one alternative of a dependency group against the installed set. -/
def satisfied (atom : Str) (installed : InstalledMap) (provides : ProvidesMap) : Bool :=
  let (name, constraint) := parseAtom atom
  name.isEmpty ||
    (match installed[name]?, constraint with
      | some _, none => true
      | some version, some (rel, want) => relationHolds version rel want
      | none, _ => false) ||
    (match provides[name]?, constraint with
      | some _, none => true
      | some versions, some (rel, want) =>
        versions.any fun v => !v.isEmpty && relationHolds v rel want
      | none, _ => false)

/-- What `unsatisfied` reports for one group of one package. -/
def reportGroup (installed : InstalledMap) (provides : ProvidesMap) (p : Package) (group : Str) :
    Option Unsatisfied :=
  if (trim group).isEmpty then none
  else
    let alternatives := splitTop group '|'
    if alternatives.any fun alt => satisfied alt installed provides then none
    else
      let first := parseAtom (alternatives.head?.getD [])
      some { package := p.name
             packageVersion := p.version
             required := trim group
             installed := installed[first.1]? }

/-- The order of the report: by package, then by the declared group. -/
def Unsatisfied.order (a b : Unsatisfied) : Ordering :=
  (compare a.package b.package).then (compare a.required b.required)

/-- `unsatisfied`: every hard dependency of `packages` that `packages` does not satisfy. -/
def unsatisfied (packages : List Package) : List Unsatisfied :=
  let installed := installedMap packages
  let provides := providesMap packages
  (packages.flatMap fun p =>
    (splitTop p.depends ',').filterMap (reportGroup installed provides p)).mergeSort
      fun a b => (a.order b).isLE

end Boot2Deb.Debdep
