import Boot2Deb.Config.Loader
import Boot2Deb.Config.Toml

/-!
# Reading a config layer (`core/src/loader.rs`)

`merge_value` reads every copy of a layer file along the search path and merges each over those
before it: what it answers is the last-wins merge of the copies, in the order of the roots
(`value_mergeValue`).
-/

namespace Boot2Deb.Config
open Rust Lib

/-! ### The names of a layer -/

/-- `Path::extension` of a last component. -/
def extension (name : Str) : Option Str :=
  match rfind name '.' with
  | some (i + 1) => some (name.drop (i + 2))
  | _ => none

/-- The stems of the `*.toml` files among names. -/
def tomlStems (names : List Str) : List Str :=
  (names.filter fun name => extension name = some "toml".toList).map fileStem

/-- The loop of `list` over the roots. -/
def listFrom (subdir : Str) (t : Tree) :
    List (Str × Unit) → List Path → Outcome ConfigError (List Str)
  | names, [] => .ok (names.map Prod.fst)
  | names, r :: roots =>
    match t.readDir (Path.join r subdir) with
    | .absent => listFrom subdir t names roots
    | .unreadable => .err (.io (Path.join r subdir))
    | .names found =>
      listFrom subdir t ((tomlStems found).foldl (fun set n => insertRow n () set) names) roots

/-- `list`: the names of a flat layer in every root, sorted, each once. -/
def ConfigRoot.list (root : ConfigRoot) (subdir : Str) (t : Tree) : Outcome ConfigError (List Str) :=
  listFrom subdir t [] root.roots

/-- The row of the distances behind another character of `b`, from the one before it. -/
def distanceRow (bc : Char) (left : ℕ) : Str → List ℕ → List ℕ
  | ac :: a, above :: next :: prev =>
    let here := min (min (next + 1) (left + 1)) (above + if ac ≠ bc then 1 else 0)
    here :: distanceRow bc here a (next :: prev)
  | _, _ => []

/-- `edit_distance`: the distance of Levenshtein, by rows. -/
def editDistance (a b : Str) : ℕ :=
  let rows := b.zipIdx.foldl (fun prev (bc, j) => (j + 1) :: distanceRow bc (j + 1) a prev)
    (List.range (a.length + 1))
  rows.getLastD 0

/-- How close a candidate is to a name, where it is close enough. -/
def likeness (name candidate : Str) : Option (ℕ × Str) :=
  let budget := if name.length ≤ 4 then 1 else if name.length ≤ 9 then 2 else 3
  if name <:+: candidate ∨ candidate <:+: name then some (0, candidate)
  else
    let d := editDistance name candidate
    if d ≤ budget then some (d, candidate) else none

/-- `similar_names`: at most three, best first. -/
def similarNames (name : Str) (candidates : List Str) : List Str :=
  let scored := (candidates.filter (· ≠ name)).filterMap (likeness name)
  let sorted := scored.insertionSort fun a b => a.1 < b.1 ∨ (a.1 = b.1 ∧ a.2 ≤ b.2)
  (sorted.take 3).map Prod.snd

/-- `near_names` of a flat layer. -/
def ConfigRoot.nearNames (root : ConfigRoot) (subdir name : Str) (t : Tree) : List Str :=
  similarNames name ((root.list subdir t).toOption.getD [])

/-! ### The copies of a layer -/

/-- `read_file`. -/
def readFile (path : Path) : Lookup (Option Str) := fun t =>
  match t.entry path with
  | .absent => (.ok none, [])
  | .text s => (.ok (some s), [])
  | .unreadable => (.err (.io path), [])

/-- The loop of `merge_value` over the roots, behind what the lower ones gave. -/
def mergeFrom (parse : Str → Option Document) (rel : Str) :
    Option (Toml × Path) → List Path → Lookup (Option (Toml × Path))
  | merged, [] => pure merged
  | merged, r :: roots => do
    let path := Path.join r rel
    Recorded.note path
    match ← readFile path with
    | none => mergeFrom parse rel merged roots
    | some text =>
      let doc ← Recorded.lift (Outcome.okOr (parse text) (.parse path))
      let value := match merged with
        | some (base, _) => base.merge doc.value
        | none => doc.value
      mergeFrom parse rel (some (value, path)) roots

/-- `merge_value`: the merged value, and the highest path that contributed. -/
def ConfigRoot.mergeValue (root : ConfigRoot) (parse : Str → Option Document) (kind : String)
    (name rel : Str) : Lookup (Toml × Path) := do
  match ← mergeFrom parse rel none root.roots with
  | some merged => pure merged
  | none =>
    let similar ← Recorded.read fun t =>
      match splitOnce rel '/' with
      | some (subdir, _) => root.nearNames subdir name t
      | none => []
    let last := Path.join (root.roots.getLastD root.primary) rel
    Recorded.lift (.err (.notFound kind name last similar))

/-! ### What the copies merge to -/

/-- The copies of a layer file with their paths, from the lowest root up. -/
def copiesFrom (parse : Str → Option Document) (t : Tree) (rel : Str) :
    List Path → Outcome ConfigError (List (Document × Path))
  | [] => .ok []
  | r :: roots =>
    let path := Path.join r rel
    match t.entry path with
    | .absent => copiesFrom parse t rel roots
    | .unreadable => .err (.io path)
    | .text s => do
      let doc ← Outcome.okOr (parse s) (.parse path)
      let copies ← copiesFrom parse t rel roots
      .ok ((doc, path) :: copies)

/-- What the copies of a layer merge to. -/
def layerValue (copies : List (Document × Path)) : Document := .lastWins (copies.map Prod.fst)

/-- The path of the highest copy. -/
def topPath (copies : List (Document × Path)) : Path := (copies.map Prod.snd).getLastD []

/-- The error where no root has the file. -/
def ConfigRoot.notFound (root : ConfigRoot) (kind : String) (name rel : Str) (t : Tree) :
    ConfigError :=
  .notFound kind name (Path.join (root.roots.getLastD root.primary) rel)
    (match splitOnce rel '/' with
      | some (subdir, _) => root.nearNames subdir name t
      | none => [])

/-- One round of `mergeFrom`: a copy comes over what is merged so far. -/
def mergeCopy (merged : Option (Toml × Path)) (copy : Document × Path) : Option (Toml × Path) :=
  match merged with
  | some (base, _) => some (base.merge copy.1.value, copy.2)
  | none => some (copy.1.value, copy.2)

variable {parse : Str → Option Document} {t : Tree} {rel : Str} {copies : List (Document × Path)}

theorem value_mergeFrom (merged : Option (Toml × Path)) (roots : List Path) :
    (mergeFrom parse rel merged roots).value t =
      (copiesFrom parse t rel roots).bind fun copies => .ok (copies.foldl mergeCopy merged) := by
  induction roots generalizing merged with
  | nil => rfl
  | cons r roots ih =>
    rw [mergeFrom, copiesFrom]
    simp only [Recorded.value_bind, Recorded.value_note, Outcome.ok_bind]
    cases hentry : t.entry (Path.join r rel) with
    | absent =>
      have hread : (readFile (Path.join r rel)).value t = .ok none := by
        simp [Recorded.value, readFile, hentry]
      rw [hread]
      exact ih merged
    | unreadable =>
      have hread : (readFile (Path.join r rel)).value t = .err (.io (Path.join r rel)) := by
        simp [Recorded.value, readFile, hentry]
      rw [hread]
      rfl
    | text s =>
      have hread : (readFile (Path.join r rel)).value t = .ok (some s) := by
        simp [Recorded.value, readFile, hentry]
      rw [hread, Outcome.ok_bind]
      simp only [Recorded.value_bind, Recorded.value_lift]
      cases parse s with
      | none => rfl
      | some doc =>
        refine (ih _).trans ?_
        cases copiesFrom parse t rel roots with
        | ok copies => cases merged <;> rfl
        | err e => rfl
        | panic => rfl

theorem foldl_mergeCopy (d : Document) (path : Path) (copies : List (Document × Path)) :
    copies.foldl mergeCopy (some (d.value, path)) =
      some (((copies.map Prod.fst).foldl Document.merge d).value,
        (copies.map Prod.snd).getLastD path) := by
  induction copies generalizing d path with
  | nil => rfl
  | cons copy copies ih =>
    rw [List.foldl_cons, mergeCopy, ← Document.value_merge, ih, List.map_cons, List.map_cons,
      List.getLastD_cons]
    rfl

/-- `merge_value` reads the copies and answers what they merge to, with the path of the last. -/
theorem value_mergeValue (root : ConfigRoot) (kind : String) (name : Str) :
    (root.mergeValue parse kind name rel).value t =
      (copiesFrom parse t rel root.roots).bind fun copies =>
        if copies = [] then .err (root.notFound kind name rel t)
        else .ok ((layerValue copies).value, topPath copies) := by
  unfold ConfigRoot.mergeValue
  rw [Recorded.value_bind, value_mergeFrom]
  cases copiesFrom parse t rel root.roots with
  | ok copies =>
    cases copies with
    | nil => rfl
    | cons copy rest =>
      have hfold : (copy :: rest).foldl mergeCopy none =
          some ((layerValue (copy :: rest)).value, topPath (copy :: rest)) := by
        rw [topPath, List.map_cons, List.getLastD_cons]
        exact foldl_mergeCopy copy.1 copy.2 rest
      show ((Outcome.ok ((copy :: rest).foldl mergeCopy none) : Outcome ConfigError _) >>= _) = _
      rw [hfold]
      rfl
  | err e => rfl
  | panic => rfl

end Boot2Deb.Config
