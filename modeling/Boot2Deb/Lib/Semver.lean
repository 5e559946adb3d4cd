import Mathlib.Data.Prod.Lex
import Boot2Deb.Rust.Str

/-!
# Semantic versions

The data of a semver library and what it documents. A `Crate` is an implementation: the two parsers
and the match. `Crate.Documented` is the part of its documentation that bounds releases: a release
satisfies a requirement of bounding comparators when it is in the span of each, and a pre-release
satisfies no such requirement. `Crate.evaluating` is an implementation that has these properties.
-/

namespace Boot2Deb.Semver
open Rust

inductive Op where
  | exact | greater | greaterEq | less | lessEq | tilde | caret | wildcard
deriving DecidableEq, Repr

structure Comparator where
  op : Op
  major : UInt64
  minor : Option UInt64
  patch : Option UInt64
  pre : Str
deriving DecidableEq, Repr

structure VersionReq where
  comparators : List Comparator
deriving DecidableEq, Repr

structure Version where
  major : UInt64
  minor : UInt64
  patch : UInt64
  pre : Str
  build : Str
deriving DecidableEq, Repr

/-- The numbers of a release, in the order of precedence. -/
abbrev Core := Nat ×ₗ Nat ×ₗ Nat

def core (major minor patch : Nat) : Core := toLex (major, toLex (minor, patch))

def Version.core (v : Version) : Core := Semver.core v.major.toNat v.minor.toNat v.patch.toNat

theorem core_lt {a b c a' b' c' : Nat} : core a b c < core a' b' c' ↔
    a < a' ∨ a = a' ∧ (b < b' ∨ b = b' ∧ c < c') := by
  simp [core, Prod.Lex.toLex_lt_toLex]

theorem core_le {a b c a' b' c' : Nat} : core a b c ≤ core a' b' c' ↔
    a < a' ∨ a = a' ∧ (b < b' ∨ b = b' ∧ c ≤ c') := by
  simp [core, Prod.Lex.toLex_le_toLex]

namespace Comparator

/-- The first version a comparator names, its omitted components zero. -/
def first (c : Comparator) : Core :=
  Semver.core c.major.toNat ((c.minor.getD 0).toNat) ((c.patch.getD 0).toNat)

/-- The first version past everything it names. -/
def past (c : Comparator) : Core :=
  match c.minor, c.patch with
  | some minor, some patch => Semver.core c.major.toNat minor.toNat (patch.toNat + 1)
  | some minor, none => Semver.core c.major.toNat (minor.toNat + 1) 0
  | none, _ => Semver.core (c.major.toNat + 1) 0 0

/-- Every prefix of the components may be stated, no other selection. -/
def WellFormed (c : Comparator) : Prop := c.minor = none → c.patch = none

/-- One of `=`, `>`, `>=`, `<`, `<=` on a release. -/
def IsBounding (c : Comparator) : Prop :=
  c.pre = [] ∧ c.op ∈ [Op.exact, Op.greater, Op.greaterEq, Op.less, Op.lessEq]

/-- The releases a bounding comparator documents: a partial one spans the component it omits. -/
def Admits (c : Comparator) (v : Core) : Prop :=
  match c.op with
  | .exact => c.first ≤ v ∧ v < c.past
  | .greater => c.past ≤ v
  | .greaterEq => c.first ≤ v
  | .less => v < c.first
  | .lessEq => v < c.past
  | .tilde | .caret | .wildcard => False

end Comparator

/-- An implementation: `Version::parse`, `VersionReq::parse` and `VersionReq::matches`. -/
structure Crate where
  parseVersion : Str → Option Version
  parseReq : Str → Option VersionReq
  isMatch : VersionReq → Version → Bool

/-- The text of a release. -/
def releaseText (a b c : Nat) : Str :=
  Nat.toDigits 10 a ++ '.' :: (Nat.toDigits 10 b ++ '.' :: Nat.toDigits 10 c)

/-- What the library documents of releases and of the bounding operators. -/
structure Crate.Documented (S : Crate) : Prop where
  parse_release : ∀ a b c : UInt64,
    S.parseVersion (releaseText a.toNat b.toNat c.toNat) = some ⟨a, b, c, [], []⟩
  wellFormed : ∀ text req, S.parseReq text = some req → ∀ c ∈ req.comparators, c.WellFormed
  isMatch_iff : ∀ (req : VersionReq) (v : Version),
    (∀ c ∈ req.comparators, c.IsBounding ∧ c.WellFormed) →
      (S.isMatch req v = true ↔ v.pre = [] ∧ ∀ c ∈ req.comparators, c.Admits v.core)

/-! ### An implementation -/

/-- One dot-separated identifier of a pre-release against another: numbers before the rest. -/
def compareIdentifier (a b : Str) : Ordering :=
  match a.all Char.isDigit, b.all Char.isDigit with
  | true, true => compare (decimal a) (decimal b)
  | true, false => .lt
  | false, true => .gt
  | false, false => compare a b

/-- The precedence of pre-releases, a release being above all of them. -/
def comparePre (a b : Str) : Ordering :=
  match a, b with
  | [], [] => .eq
  | [], _ => .gt
  | _, [] => .lt
  | a, b => List.compareLex compareIdentifier (a.splitOn '.') (b.splitOn '.')

/-- One component of a comparator against the version's: go on when they are equal. -/
def decideOn (mine : Option UInt64) (theirs : UInt64) (omitted : Bool)
    (differ : UInt64 → Bool) (equal : Bool) : Bool :=
  match mine with
  | none => omitted
  | some n => if theirs = n then equal else differ n

def Comparator.isExact (c : Comparator) (v : Version) : Bool :=
  v.major == c.major && c.minor.all (· == v.minor) && c.patch.all (· == v.patch) && v.pre == c.pre

def Comparator.isGreater (c : Comparator) (v : Version) : Bool :=
  decideOn (some c.major) v.major false (· < v.major) <|
    decideOn c.minor v.minor false (· < v.minor) <|
      decideOn c.patch v.patch false (· < v.patch) (comparePre v.pre c.pre == .gt)

def Comparator.isLess (c : Comparator) (v : Version) : Bool :=
  decideOn (some c.major) v.major false (v.major < ·) <|
    decideOn c.minor v.minor false (v.minor < ·) <|
      decideOn c.patch v.patch false (v.patch < ·) (comparePre v.pre c.pre == .lt)

def Comparator.isTilde (c : Comparator) (v : Version) : Bool :=
  v.major == c.major && c.minor.all (· == v.minor) &&
    decideOn c.patch v.patch (comparePre v.pre c.pre != .lt) (· < v.patch)
      (comparePre v.pre c.pre != .lt)

def Comparator.isCaret (c : Comparator) (v : Version) : Bool :=
  v.major == c.major &&
    match c.minor, c.patch with
    | none, _ => true
    | some minor, none => if 0 < c.major then minor ≤ v.minor else v.minor == minor
    | some minor, some patch =>
      if v.minor = minor ∧ v.patch = patch then comparePre v.pre c.pre != .lt
      else if 0 < c.major then minor < v.minor || (v.minor == minor && patch < v.patch)
      else 0 < minor && v.minor == minor && patch < v.patch

def Comparator.isMatch (c : Comparator) (v : Version) : Bool :=
  match c.op with
  | .exact | .wildcard => c.isExact v
  | .greater => c.isGreater v
  | .greaterEq => c.isExact v || c.isGreater v
  | .less => c.isLess v
  | .lessEq => c.isExact v || c.isLess v
  | .tilde => c.isTilde v
  | .caret => c.isCaret v

/-- A pre-release matches only beside a comparator that names one of the same numbers. -/
def VersionReq.isMatch (req : VersionReq) (v : Version) : Bool :=
  req.comparators.all (·.isMatch v) &&
    (v.pre.isEmpty || req.comparators.any fun c =>
      v.major == c.major && c.minor == some v.minor && c.patch == some v.patch && !c.pre.isEmpty)

/-- A component: digits without leading zeroes. -/
def parseNumber (s : Str) : Option UInt64 :=
  if s.head? = some '+' ∨ (s.head? = some '0' ∧ s ≠ ['0']) then none else parseU64 s

/-- The part of a version from the first `-` or `+` on. -/
def splitSuffix (s : Str) : Str × Str := s.span fun c => c ≠ '-' && c ≠ '+'

/-- Dot-separated identifiers, each of ASCII letters, digits and hyphens. -/
def areIdentifiers (s : Str) : Bool :=
  (s.splitOn '.').all fun i => !i.isEmpty && i.all fun c => c.isDigit || c.isAlpha || c == '-'

/-- `a.b.c`, with a pre-release or build identifier behind it. -/
def parseVersion (s : Str) : Option Version :=
  let (numbers, suffix) := splitSuffix s
  let (pre, build) := match suffix with
    | '-' :: rest => rest.span (· ≠ '+')
    | rest => ([], rest)
  if (suffix.head? = some '-' ∧ areIdentifiers pre = false) ∨
      (build ≠ [] ∧ areIdentifiers build.tail = false) then none
  else match (numbers.splitOn '.').map parseNumber with
    | [some a, some b, some c] => some ⟨a, b, c, pre, build.tail⟩
    | _ => none

/-- The operator a comparator starts with, `^` when it states none. -/
def parseOp : Str → Op × Str
  | '>' :: '=' :: rest => (.greaterEq, rest)
  | '>' :: rest => (.greater, rest)
  | '<' :: '=' :: rest => (.lessEq, rest)
  | '<' :: rest => (.less, rest)
  | '=' :: rest => (.exact, rest)
  | '~' :: rest => (.tilde, rest)
  | '^' :: rest => (.caret, rest)
  | rest => (.caret, rest)

/-- One comparator; wildcards and build identifiers are refused. -/
def parseComparator (s : Str) : Option Comparator :=
  let (op, rest) := parseOp (trim s)
  let (numbers, suffix) := splitSuffix (trimStart rest)
  match (numbers.splitOn '.').map parseNumber, suffix with
  | [some a], [] => some ⟨op, a, none, none, []⟩
  | [some a, some b], [] => some ⟨op, a, some b, none, []⟩
  | [some a, some b, some c], [] => some ⟨op, a, some b, some c, []⟩
  | [some a, some b, some c], '-' :: pre =>
    if areIdentifiers pre then some ⟨op, a, some b, some c, pre⟩ else none
  | _, _ => none

def parseReq (s : Str) : Option VersionReq :=
  if trim s = ['*'] then some ⟨[]⟩
  else ((s.splitOn ',').mapM parseComparator).map VersionReq.mk

def Crate.evaluating : Crate where
  parseVersion := Semver.parseVersion
  parseReq := Semver.parseReq
  isMatch := VersionReq.isMatch

theorem parseNumber_toDigits (n : UInt64) : parseNumber (Nat.toDigits 10 n.toNat) = some n := by
  have hplus : (Nat.toDigits 10 n.toNat).head? ≠ some '+' := by
    intro h
    exact absurd (isDigit_of_mem_toDigits (List.mem_of_head? h)) (by decide)
  have hzero : ¬((Nat.toDigits 10 n.toNat).head? = some '0' ∧ Nat.toDigits 10 n.toNat ≠ ['0']) :=
    fun h => h.2 (toDigits_eq_of_head_zero h.1)
  rw [parseNumber, if_neg (not_or.mpr ⟨hplus, hzero⟩), parseU64_toDigits]

theorem not_mem_toDigits {c : Char} {n : Nat} (hc : c.isDigit = false) : c ∉ Nat.toDigits 10 n :=
  fun h => by simp [isDigit_of_mem_toDigits h] at hc

theorem releaseText_chars {a b c : Nat} {d : Char} (h : d ∈ releaseText a b c) :
    d.isDigit = true ∨ d = '.' := by
  simp only [releaseText, List.mem_append, List.mem_cons] at h
  rcases h with h | h | h | h | h
  · exact Or.inl (isDigit_of_mem_toDigits h)
  · exact Or.inr h
  · exact Or.inl (isDigit_of_mem_toDigits h)
  · exact Or.inr h
  · exact Or.inl (isDigit_of_mem_toDigits h)

theorem releaseText_splitOn (a b c : Nat) :
    (releaseText a b c).splitOn '.' = [Nat.toDigits 10 a, Nat.toDigits 10 b, Nat.toDigits 10 c] := by
  rw [releaseText, List.splitOn_append_cons_self_of_not_mem (not_mem_toDigits (by decide)),
    List.splitOn_append_cons_self_of_not_mem (not_mem_toDigits (by decide)),
    List.splitOn_eq_singleton (not_mem_toDigits (by decide))]

theorem splitSuffix_releaseText (a b c : Nat) :
    splitSuffix (releaseText a b c) = (releaseText a b c, []) := by
  have hall : ∀ d ∈ releaseText a b c, (d ≠ '-' && d ≠ '+') = true := by
    intro d hd
    rcases releaseText_chars hd with h | rfl
    · have h1 : d ≠ '-' := by rintro rfl; exact absurd h (by decide)
      have h2 : d ≠ '+' := by rintro rfl; exact absurd h (by decide)
      simp [h1, h2]
    · decide
  rw [splitSuffix, List.span_eq_takeWhile_dropWhile, List.takeWhile_eq_self_iff.mpr hall,
    List.dropWhile_eq_nil_iff.mpr hall]

theorem parseVersion_releaseText (a b c : UInt64) :
    parseVersion (releaseText a.toNat b.toNat c.toNat) = some ⟨a, b, c, [], []⟩ := by
  rw [parseVersion, splitSuffix_releaseText]
  simp [releaseText_splitOn, parseNumber_toDigits]

theorem parseComparator_wellFormed {s : Str} {c : Comparator} (h : parseComparator s = some c) :
    c.WellFormed := by
  simp only [parseComparator] at h
  split at h
  · obtain rfl := Option.some.inj h
    exact fun _ => rfl
  · obtain rfl := Option.some.inj h
    exact fun _ => rfl
  · obtain rfl := Option.some.inj h
    exact fun hm => absurd hm (by simp)
  · split at h
    · obtain rfl := Option.some.inj h
      exact fun hm => absurd hm (by simp)
    · simp at h
  · simp at h

theorem exists_of_mem_mapM {α β : Type} {f : α → Option β} {as : List α} {bs : List β}
    (h : as.mapM f = some bs) {b : β} (hb : b ∈ bs) : ∃ a ∈ as, f a = some b := by
  induction as generalizing bs with
  | nil =>
    obtain rfl : [] = bs := by simpa using h
    simp at hb
  | cons a as ih =>
    simp only [List.mapM_cons, Option.bind_eq_bind, Option.bind_eq_some_iff, Option.pure_def,
      Option.some.injEq] at h
    obtain ⟨b', hb', bs', hbs', rfl⟩ := h
    rcases List.mem_cons.mp hb with rfl | hb
    · exact ⟨a, List.mem_cons_self .., hb'⟩
    · obtain ⟨a', ha', hf⟩ := ih hbs' hb
      exact ⟨a', List.mem_cons_of_mem _ ha', hf⟩

theorem parseReq_wellFormed {s : Str} {req : VersionReq} (h : parseReq s = some req) :
    ∀ c ∈ req.comparators, c.WellFormed := by
  intro c hc
  rw [parseReq] at h
  split_ifs at h
  · obtain rfl := Option.some.inj h
    exact absurd hc List.not_mem_nil
  · obtain ⟨cs, hcs, rfl⟩ := Option.map_eq_some_iff.mp h
    obtain ⟨t, -, ht⟩ := exists_of_mem_mapM hcs hc
    exact parseComparator_wellFormed ht

namespace Comparator
variable {c : Comparator} {v : Version}

theorem first_lt_past (c : Comparator) : c.first < c.past := by
  obtain ⟨op, major, minor, patch, pre⟩ := c
  cases minor <;> cases patch <;> simp [first, past, core_lt]

theorem isExact_iff (hw : c.WellFormed) (hpre : c.pre = []) (hv : v.pre = []) :
    c.isExact v = true ↔ c.first ≤ v.core ∧ v.core < c.past := by
  obtain ⟨op, major, minor, patch, pre⟩ := c
  simp only at hpre
  subst hpre
  cases minor with
  | none =>
    obtain rfl : patch = none := hw rfl
    simp only [isExact, first, past, Version.core, core_lt, core_le, hv, Option.all_none,
      Option.getD_none, UInt64.toNat_zero, Bool.and_true, beq_iff_eq, BEq.rfl,
      ← UInt64.toNat_inj]
    omega
  | some minor =>
    cases patch with
    | none =>
      simp only [isExact, first, past, Version.core, core_lt, core_le, hv, Option.all_none,
        Option.all_some, Option.getD_none, Option.getD_some, UInt64.toNat_zero, Bool.and_true,
        Bool.and_eq_true, beq_iff_eq, BEq.rfl, ← UInt64.toNat_inj]
      omega
    | some patch =>
      simp only [isExact, first, past, Version.core, core_lt, core_le, hv, Option.all_some,
        Option.getD_some, Bool.and_true, Bool.and_eq_true, beq_iff_eq, BEq.rfl,
        ← UInt64.toNat_inj]
      omega

theorem decideOn_none {theirs : UInt64} {omitted equal : Bool} {differ : UInt64 → Bool} :
    decideOn none theirs omitted differ equal = omitted := rfl

theorem decideOn_some {n theirs : UInt64} {omitted equal : Bool} {differ : UInt64 → Bool} :
    decideOn (some n) theirs omitted differ equal = true ↔
      (theirs.toNat = n.toNat ∧ equal = true) ∨ (theirs.toNat ≠ n.toNat ∧ differ n = true) := by
  rw [decideOn, ne_eq, UInt64.toNat_inj]
  by_cases h : theirs = n <;> simp [h]

theorem isGreater_iff (hw : c.WellFormed) (hpre : c.pre = []) (hv : v.pre = []) :
    c.isGreater v = true ↔ c.past ≤ v.core := by
  obtain ⟨op, major, minor, patch, pre⟩ := c
  simp only at hpre
  subst hpre
  have hpre : (comparePre v.pre [] == .gt) = false := by rw [hv]; rfl
  cases minor with
  | none =>
    simp only [isGreater, past, Version.core, core_le, decideOn_some, decideOn_none, decide_eq_true_eq,
      UInt64.lt_iff_toNat_lt, Bool.false_eq_true, and_false, false_or]
    omega
  | some minor =>
    cases patch with
    | none =>
      simp only [isGreater, past, Version.core, core_le, decideOn_some, decideOn_none,
        decide_eq_true_eq, UInt64.lt_iff_toNat_lt, Bool.false_eq_true, and_false, false_or]
      omega
    | some patch =>
      simp only [isGreater, past, Version.core, core_le, decideOn_some, decide_eq_true_eq, hpre,
        UInt64.lt_iff_toNat_lt, Bool.false_eq_true, and_false, false_or]
      omega

theorem isLess_iff (hw : c.WellFormed) (hpre : c.pre = []) (hv : v.pre = []) :
    c.isLess v = true ↔ v.core < c.first := by
  obtain ⟨op, major, minor, patch, pre⟩ := c
  simp only at hpre
  subst hpre
  have hpre : (comparePre v.pre [] == .lt) = false := by rw [hv]; rfl
  cases minor with
  | none =>
    obtain rfl : patch = none := hw rfl
    simp only [isLess, first, Version.core, core_lt, decideOn_some, decideOn_none, decide_eq_true_eq,
      UInt64.lt_iff_toNat_lt, Bool.false_eq_true, and_false, false_or, Option.getD_none, UInt64.toNat_zero]
    omega
  | some minor =>
    cases patch with
    | none =>
      simp only [isLess, first, Version.core, core_lt, decideOn_some, decideOn_none, decide_eq_true_eq,
        UInt64.lt_iff_toNat_lt, Bool.false_eq_true, and_false, false_or, Option.getD_none, Option.getD_some,
        UInt64.toNat_zero]
      omega
    | some patch =>
      simp only [isLess, first, Version.core, core_lt, decideOn_some, decide_eq_true_eq, hpre,
        UInt64.lt_iff_toNat_lt, Bool.false_eq_true, and_false, false_or, Option.getD_some]
      omega

/-- A bounding comparator matches the releases it documents. -/
theorem isMatch_iff (hb : c.IsBounding) (hw : c.WellFormed) (hv : v.pre = []) :
    c.isMatch v = true ↔ c.Admits v.core := by
  have hexact := isExact_iff hw hb.1 hv
  have hgreater := isGreater_iff hw hb.1 hv
  have hless := isLess_iff hw hb.1 hv
  have hlt := c.first_lt_past
  have hop := hb.2
  rw [isMatch, Admits]
  cases hc : c.op with
  | exact => exact hexact
  | greater => exact hgreater
  | greaterEq =>
    rw [Bool.or_eq_true, hexact, hgreater]
    constructor
    · exact fun h => h.elim And.left hlt.le.trans
    · exact fun h => (lt_or_ge v.core c.past).imp (fun hp => ⟨h, hp⟩) id
  | less => exact hless
  | lessEq =>
    rw [Bool.or_eq_true, hexact, hless]
    constructor
    · exact fun h => h.elim And.right hlt.trans'
    · exact fun h => (lt_or_ge v.core c.first).elim Or.inr fun hp => Or.inl ⟨hp, h⟩
  | tilde => simp [hc] at hop
  | caret => simp [hc] at hop
  | wildcard => simp [hc] at hop

end Comparator

theorem VersionReq.isMatch_iff (req : VersionReq) (v : Version)
    (h : ∀ c ∈ req.comparators, c.IsBounding ∧ c.WellFormed) :
    req.isMatch v = true ↔ v.pre = [] ∧ ∀ c ∈ req.comparators, c.Admits v.core := by
  have hnone : (req.comparators.any fun c => v.major == c.major && c.minor == some v.minor &&
      c.patch == some v.patch && !c.pre.isEmpty) = false := by
    rw [List.any_eq_false]
    intro c hc
    simp [(h c hc).1.1]
  rw [VersionReq.isMatch, hnone, Bool.or_false, Bool.and_eq_true, List.all_eq_true,
    List.isEmpty_iff, and_comm]
  refine and_congr_right fun hv => forall₂_congr fun c hc => ?_
  exact Comparator.isMatch_iff (h c hc).1 (h c hc).2 hv

theorem Crate.evaluating_documented : Crate.evaluating.Documented where
  parse_release := parseVersion_releaseText
  wellFormed := fun _ _ => parseReq_wellFormed
  isMatch_iff := VersionReq.isMatch_iff

end Boot2Deb.Semver
