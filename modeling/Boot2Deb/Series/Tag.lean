import Boot2Deb.Error
import Boot2Deb.Rust.Outcome
import Boot2Deb.Lib.Semver

/-!
# Version tags (`core/src/version.rs`)

The version read out of a tag, and the same normalization of a requirement. `S` is the `semver`
crate; the error it gives is not kept.
-/

namespace Boot2Deb.Version
open Rust Semver

/-- `LIBRE_SUFFIX`. -/
def libreSuffix : Str := "-gnu".toList

/-- `RELEASE_PREFIXES`. -/
def releasePrefixes : List Char := ['v', 'n']

/-- `split_prefix`: the release prefix of a tag leaf, when a digit follows it. -/
def splitPrefix (leaf : Str) : Option Char × Str :=
  match leaf with
  | p :: d :: rest =>
    if p ∈ releasePrefixes ∧ d.isDigit then (some p, d :: rest) else (none, leaf)
  | _ => (none, leaf)

/-- `split_core`: the numeric core, and the rest from the first `-` or `+` on. -/
def splitCore (s : Str) : Str × Str := s.span fun c => c ≠ '-' && c ≠ '+'

/-- One component without its leading zeroes, when it is a number. -/
def normalizeComponent (c : Str) : Str :=
  if c.isEmpty || !c.all Char.isDigit then c
  else
    let trimmed := c.dropWhile (· = '0')
    if trimmed.isEmpty then ['0'] else trimmed

/-- `normalize_core`. -/
def normalizeCore (core : Str) : Str :=
  join ['.'] ((core.splitOn '.').map normalizeComponent)

/-- `parse_tag`. -/
def parseTag (S : Crate) (s : Str) : Outcome ConfigError Semver.Version :=
  let stripped := s.rtakeWhile (· ≠ '/')
  let stripped := (splitPrefix stripped).2
  let stripped := (stripSuffix stripped libreSuffix).getD stripped
  let (core, rest) := splitCore stripped
  let core := normalizeCore core
  let padded := if (core.splitOn '.').length = 2 then core ++ ".0".toList else core
  Outcome.okOr (S.parseVersion (padded ++ rest)) (.invalidVersion s)

/-- `TagShape`: how a tag is spelled, apart from its numbers. -/
structure TagShape where
  namespaceOf : Option Str
  prefixOf : Option Char
  libre : Bool
deriving DecidableEq

/-- `TagShape::of`. -/
def TagShape.of (tag : Str) : TagShape :=
  let (ns, leaf) := match rsplitOnce tag ['/'] with
    | some (ns, leaf) => (some ns, leaf)
    | none => (none, tag)
  ⟨ns, (splitPrefix leaf).1, libreSuffix.isSuffixOf leaf⟩

/-- `TagShape::matches`. -/
def TagShape.accepts (shape : TagShape) (tag : Str) : Bool := TagShape.of tag = shape

/-- One comparator of a requirement, its version core normalized. -/
def normalizeComparator (comparator : Str) : Str :=
  let trimmed := trim comparator
  let isOp (c : Char) : Bool := c ∈ ['=', '>', '<', '^', '~']
  let version := trimStart (trimmed.dropWhile isOp)
  let (core, suffix) := splitCore (splitPrefix version).2
  trimmed.takeWhile isOp ++ normalizeCore core ++ suffix

/-- `normalize_req`. -/
def normalizeReq (range : Str) : Str :=
  join ", ".toList ((range.splitOn ',').map normalizeComparator)

/-! ### Tags of releases -/

theorem normalizeComponent_toDigits (n : Nat) :
    normalizeComponent (Nat.toDigits 10 n) = Nat.toDigits 10 n := by
  have hdigits : (Nat.toDigits 10 n).all Char.isDigit = true :=
    List.all_eq_true.mpr fun c hc => isDigit_of_mem_toDigits hc
  rw [normalizeComponent, if_neg (by simp [hdigits, Nat.toDigits_ne_nil])]
  by_cases hzero : (Nat.toDigits 10 n).head? = some '0'
  · rw [toDigits_eq_of_head_zero hzero]
    rfl
  · have hdrop : (Nat.toDigits 10 n).dropWhile (· = '0') = Nat.toDigits 10 n := by
      cases h : Nat.toDigits 10 n with
      | nil => rfl
      | cons c ds =>
        rw [h] at hzero
        exact List.dropWhile_cons_of_neg (by simpa using hzero)
    rw [hdrop]
    simp [Nat.toDigits_ne_nil]

theorem splitPrefix_of_isDigit {c : Char} {s : Str} (h : s.head? = some c) (hc : c.isDigit = true) :
    (splitPrefix s).2 = s := by
  obtain ⟨t, rfl⟩ := List.head?_eq_some_iff.mp h
  cases t with
  | nil => rfl
  | cons d t =>
    rw [splitPrefix, if_neg]
    rintro ⟨hmem, -⟩
    simp only [releasePrefixes, List.mem_cons, List.not_mem_nil, or_false] at hmem
    rcases hmem with rfl | rfl
    · exact absurd hc (by decide)
    · exact absurd hc (by decide)

theorem releaseText_head? (a b c : Nat) :
    ∃ d, (releaseText a b c).head? = some d ∧ d.isDigit = true := by
  have hne : Nat.toDigits 10 a ≠ [] := Nat.toDigits_ne_nil
  refine ⟨(Nat.toDigits 10 a).head hne, ?_, isDigit_of_mem_toDigits (List.head_mem hne)⟩
  rw [releaseText, List.head?_append_of_ne_nil _ hne, List.head?_eq_some_head hne]

theorem stripSuffix_releaseText (a b c : Nat) : stripSuffix (releaseText a b c) libreSuffix = none := by
  rw [stripSuffix, if_neg]
  intro h
  have hmem : '-' ∈ releaseText a b c := h.subset (by decide)
  rcases releaseText_chars hmem with h | h
  · exact absurd h (by decide)
  · exact absurd h (by decide)

/-- The text of a release is a tag of that release. -/
theorem parseTag_releaseText {S : Crate} (hS : S.Documented) (a b c : UInt64) :
    parseTag S (releaseText a.toNat b.toNat c.toNat) = .ok ⟨a, b, c, [], []⟩ := by
  have hslash : (releaseText a.toNat b.toNat c.toNat).rtakeWhile (· ≠ '/') =
      releaseText a.toNat b.toNat c.toNat := by
    rw [List.rtakeWhile_eq_self_iff]
    intro d hd
    rcases releaseText_chars hd with h | rfl
    · have : d ≠ '/' := by rintro rfl; exact absurd h (by decide)
      simpa using this
    · decide
  obtain ⟨d, hhead, hd⟩ := releaseText_head? a.toNat b.toNat c.toNat
  have hcore : normalizeCore (releaseText a.toNat b.toNat c.toNat) =
      releaseText a.toNat b.toNat c.toNat := by
    rw [normalizeCore, releaseText_splitOn]
    simp [normalizeComponent_toDigits, join, releaseText, List.intercalate]
  have hsplit : splitCore (releaseText a.toNat b.toNat c.toNat) =
      (releaseText a.toNat b.toNat c.toNat, []) := splitSuffix_releaseText _ _ _
  simp only [parseTag, hslash, splitPrefix_of_isDigit hhead hd, stripSuffix_releaseText,
    Option.getD_none, hsplit, hcore, releaseText_splitOn]
  simp [hS.parse_release]

end Boot2Deb.Version
