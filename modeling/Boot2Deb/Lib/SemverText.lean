import Boot2Deb.Lib.Semver

/-!
# The text of a version

The grammar of a version, and what a semver library documents of a requirement that states one
behind `=`. `Crate.Textual` holds of a library that follows the grammar; `Crate.strict` is one.
-/

namespace Boot2Deb.Semver
open Rust

/-- Dot-separated identifiers, the numeric ones without leading zeroes. -/
def isPrerelease (s : Str) : Bool :=
  areIdentifiers s && (s.splitOn '.').all fun i =>
    !(i.all Char.isDigit && i.head? == some '0' && i != ['0'])

namespace Version

/-- The pre-release and the build identifiers as written. -/
def suffix (v : Version) : Str :=
  (if v.pre = [] then [] else '-' :: v.pre) ++ if v.build = [] then [] else '+' :: v.build

/-- `a.b.c-pre+build`. -/
def text (v : Version) : Str :=
  releaseText v.major.toNat v.minor.toNat v.patch.toNat ++ v.suffix

def IsStated (v : Version) : Prop :=
  (v.pre = [] ∨ isPrerelease v.pre = true) ∧ (v.build = [] ∨ areIdentifiers v.build = true)

instance (v : Version) : Decidable v.IsStated := by unfold IsStated; infer_instance

/-- The comparator `=` states with a whole version: build identifiers do not count. -/
def exactly (v : Version) : Comparator := ⟨.exact, v.major, some v.minor, some v.patch, v.pre⟩

end Version

/-- `a.b`. -/
def lineText (a b : Nat) : Str := Nat.toDigits 10 a ++ '.' :: Nat.toDigits 10 b

/-- What the library documents of the texts it accepts and of `=`. -/
structure Crate.Textual (S : Crate) : Prop where
  parseVersion_iff : ∀ t v, S.parseVersion t = some v ↔ t = v.text ∧ v.IsStated
  parseReq_exactly : ∀ v : Version, v.IsStated → S.parseReq ('=' :: v.text) = some ⟨[v.exactly]⟩
  parseReq_line : ∀ a b : UInt64, S.parseReq ('=' :: lineText a.toNat b.toNat) =
    some ⟨[⟨.exact, a, some b, none, []⟩]⟩
  /-- Only a comparator with a patch number states a pre-release or a build. -/
  parseReq_line_suffix : ∀ (a b : UInt64) (c : Char) (s : Str), c = '-' ∨ c = '+' →
    S.parseReq ('=' :: (lineText a.toNat b.toNat ++ c :: s)) = none
  not_mem_parseReq : ∀ t req, S.parseReq t = some req → '/' ∉ t
  isMatch_exact : ∀ (c : Comparator) (v : Version), c.op = .exact →
    (S.isMatch ⟨[c]⟩ v = true ↔ c.isExact v = true ∧
      (v.pre = [] ∨ c.minor = some v.minor ∧ c.patch = some v.patch ∧ c.pre ≠ []))

/-! ### Characters -/

/-- A character of a version: of its numbers, of its identifiers, or between them. -/
def IsVersionChar (c : Char) : Prop :=
  c.isDigit = true ∨ c.isAlpha = true ∨ c = '.' ∨ c = '-' ∨ c = '+'

theorem of_mem_identifiers {s : Str} {c : Char} (h : areIdentifiers s = true) (hc : c ∈ s) :
    IsVersionChar c ∧ c ≠ '+' := by
  by_cases hdot : c = '.'
  · exact ⟨Or.inr (Or.inr (Or.inl hdot)), by rw [hdot]; decide⟩
  · obtain ⟨i, hi, hci⟩ := exists_mem_splitOn hc hdot
    have hident := List.all_eq_true.mp h i hi
    simp only [Bool.and_eq_true, List.all_eq_true, Bool.or_eq_true, beq_iff_eq] at hident
    rcases hident.2 c hci with (h | h) | rfl
    · exact ⟨Or.inl h, by rintro rfl; exact absurd h (by decide)⟩
    · exact ⟨Or.inr (Or.inl h), by rintro rfl; exact absurd h (by decide)⟩
    · exact ⟨Or.inr (Or.inr (Or.inr (Or.inl rfl))), by decide⟩

theorem areIdentifiers_of_isPrerelease {s : Str} (h : isPrerelease s = true) :
    areIdentifiers s = true := by
  rw [isPrerelease, Bool.and_eq_true] at h
  exact h.1

namespace Version
variable {v : Version}

theorem suffix_cases (v : Version) : v.suffix = [] ∨ ∃ c s, (c = '-' ∨ c = '+') ∧ v.suffix = c :: s := by
  rw [suffix]
  split_ifs with hpre hbuild
  · exact Or.inl rfl
  · exact Or.inr ⟨'+', _, Or.inr rfl, rfl⟩
  · exact Or.inr ⟨'-', _, Or.inl rfl, rfl⟩
  · exact Or.inr ⟨'-', _, Or.inl rfl, rfl⟩

theorem suffix_of_pre (h : v.pre ≠ []) : ∃ s, v.suffix = '-' :: s := by
  rw [suffix, if_neg h]
  exact ⟨_, rfl⟩

theorem IsStated.of_mem_suffix (h : v.IsStated) {c : Char} (hc : c ∈ v.suffix) :
    IsVersionChar c := by
  rw [suffix, List.mem_append] at hc
  rcases hc with hc | hc
  · split_ifs at hc with hpre
    · cases hc
    · rcases List.mem_cons.mp hc with rfl | hc
      · exact Or.inr (Or.inr (Or.inr (Or.inl rfl)))
      · exact (of_mem_identifiers (areIdentifiers_of_isPrerelease (h.1.resolve_left hpre)) hc).1
  · split_ifs at hc with hbuild
    · cases hc
    · rcases List.mem_cons.mp hc with rfl | hc
      · exact Or.inr (Or.inr (Or.inr (Or.inr rfl)))
      · exact (of_mem_identifiers (h.2.resolve_left hbuild) hc).1

theorem IsStated.of_mem_text (h : v.IsStated) {c : Char} (hc : c ∈ v.text) : IsVersionChar c := by
  rw [text, List.mem_append] at hc
  rcases hc with hc | hc
  · rcases releaseText_chars hc with hc | hc
    · exact Or.inl hc
    · exact Or.inr (Or.inr (Or.inl hc))
  · exact h.of_mem_suffix hc

/-- A build identifier is the only place of a `+`. -/
theorem IsStated.mem_suffix_plus (h : v.IsStated) : '+' ∈ v.suffix ↔ v.build ≠ [] := by
  rw [suffix, List.mem_append]
  constructor
  · rintro (hc | hc)
    · split_ifs at hc with hpre
      · cases hc
      · rcases List.mem_cons.mp hc with hc | hc
        · exact absurd hc (by decide)
        · exact absurd rfl
            (of_mem_identifiers (areIdentifiers_of_isPrerelease (h.1.resolve_left hpre)) hc).2
    · rintro hbuild
      rw [if_pos hbuild] at hc
      cases hc
  · intro hbuild
    rw [if_neg hbuild]
    exact Or.inr (List.mem_cons_self ..)

end Version

theorem IsVersionChar.toNat {c : Char} (h : IsVersionChar c) :
    c.toNat = 43 ∨ c.toNat = 45 ∨ c.toNat = 46 ∨ (48 ≤ c.toNat ∧ c.toNat ≤ 57) ∨
      (65 ≤ c.toNat ∧ c.toNat ≤ 90) ∨ (97 ≤ c.toNat ∧ c.toNat ≤ 122) := by
  rcases h with h | h | rfl | rfl | rfl
  · rw [Char.isDigit_iff_toNat] at h
    have h0 : 48 ≤ c.toNat := h.1
    have h9 : c.toNat ≤ 57 := h.2
    omega
  · simp only [Char.isAlpha, Char.isUpper, Char.isLower, Bool.or_eq_true, Bool.and_eq_true,
      decide_eq_true_eq, UInt32.le_iff_toNat_le, ge_iff_le] at h
    have hc : c.val.toNat = c.toNat := rfl
    rcases h with ⟨h0, h9⟩ | ⟨h0, h9⟩
    · have h0 : 65 ≤ c.val.toNat := h0
      have h9 : c.val.toNat ≤ 90 := h9
      omega
    · have h0 : 97 ≤ c.val.toNat := h0
      have h9 : c.val.toNat ≤ 122 := h9
      omega
  · exact Or.inr (Or.inr (Or.inl rfl))
  · exact Or.inr (Or.inl rfl)
  · exact Or.inl rfl

theorem IsVersionChar.not_isWhitespace {c : Char} (h : IsVersionChar c) : isWhitespace c = false := by
  have hrange := h.toNat
  exact isWhitespace_of_graphic (by omega) (by omega)

/-! ### Numbers and suffix apart -/

theorem splitSuffix_append {a s : Str} (ha : ∀ c ∈ a, c ≠ '-' ∧ c ≠ '+')
    (hs : s = [] ∨ ∃ c t, (c = '-' ∨ c = '+') ∧ s = c :: t) : splitSuffix (a ++ s) = (a, s) := by
  have hall : ∀ c ∈ a, (c ≠ '-' && c ≠ '+') = true := fun c hc => by simp [ha c hc]
  rw [splitSuffix, List.span_eq_takeWhile_dropWhile, List.takeWhile_append_of_pos hall,
    List.dropWhile_append_of_pos hall]
  rcases hs with rfl | ⟨c, t, hc, rfl⟩
  · simp
  · rw [List.takeWhile_cons_of_neg (by rcases hc with rfl | rfl <;> decide),
      List.dropWhile_cons_of_neg (by rcases hc with rfl | rfl <;> decide), List.append_nil]

theorem digits_ne_suffix {n : Nat} : ∀ c ∈ Nat.toDigits 10 n, c ≠ '-' ∧ c ≠ '+' := by
  intro c hc
  have hdigit := isDigit_of_mem_toDigits hc
  constructor
  · rintro rfl
    exact absurd hdigit (by decide)
  · rintro rfl
    exact absurd hdigit (by decide)

theorem releaseText_ne_suffix {a b c : Nat} : ∀ d ∈ releaseText a b c, d ≠ '-' ∧ d ≠ '+' := by
  intro d hd
  simp only [releaseText, List.mem_append, List.mem_cons] at hd
  rcases hd with hd | rfl | hd | rfl | hd
  · exact digits_ne_suffix d hd
  · decide
  · exact digits_ne_suffix d hd
  · decide
  · exact digits_ne_suffix d hd

theorem lineText_ne_suffix {a b : Nat} : ∀ d ∈ lineText a b, d ≠ '-' ∧ d ≠ '+' := by
  intro d hd
  simp only [lineText, List.mem_append, List.mem_cons] at hd
  rcases hd with hd | rfl | hd
  · exact digits_ne_suffix d hd
  · decide
  · exact digits_ne_suffix d hd

theorem lineText_splitOn (a b : Nat) :
    (lineText a b).splitOn '.' = [Nat.toDigits 10 a, Nat.toDigits 10 b] := by
  rw [lineText, List.splitOn_append_cons_self_of_not_mem (not_mem_toDigits (by decide)),
    List.splitOn_eq_singleton (not_mem_toDigits (by decide))]

theorem splitSuffix_text (v : Version) : splitSuffix v.text =
    (releaseText v.major.toNat v.minor.toNat v.patch.toNat, v.suffix) :=
  splitSuffix_append releaseText_ne_suffix v.suffix_cases

/-! ### A library that follows the grammar -/

def strictVersion (t : Str) : Option Version :=
  (parseVersion t).filter fun v => t = v.text ∧ v.IsStated

/-- One comparator: a whole version behind its operator, or a part of one. -/
def strictComparator (s : Str) : Option Comparator :=
  let (op, rest) := parseOp (trim s)
  let rest := trimStart rest
  match strictVersion rest with
  | some v => some ⟨op, v.major, some v.minor, some v.patch, v.pre⟩
  | none =>
    match (splitSuffix rest).2, ((splitSuffix rest).1.splitOn '.').map parseNumber with
    | [], [some a] => some ⟨op, a, none, none, []⟩
    | [], [some a, some b] => some ⟨op, a, some b, none, []⟩
    | _, _ => none

/-- The characters a requirement is written in. -/
def isReqChar (c : Char) : Bool :=
  c.isDigit || c.isAlpha || c ∈ ['.', '-', '+', ',', ' ', '*', '=', '<', '>', '~', '^']

def strictReq (s : Str) : Option VersionReq :=
  if !s.all isReqChar then none
  else if trim s = ['*'] then some ⟨[]⟩
  else ((s.splitOn ',').mapM strictComparator).map VersionReq.mk

def Crate.strict : Crate where
  parseVersion := strictVersion
  parseReq := strictReq
  isMatch := VersionReq.isMatch

theorem parseVersion_text {v : Version} (h : v.IsStated) : parseVersion v.text = some v := by
  obtain ⟨major, minor, patch, pre, build⟩ := v
  obtain ⟨hpre, hbuild⟩ := h
  simp only at hpre hbuild
  have hplus : pre ≠ [] → ∀ c ∈ pre, (c ≠ '+' : Bool) = true := by
    intro hne c hc
    have hident := areIdentifiers_of_isPrerelease (hpre.resolve_left hne)
    simpa using (of_mem_identifiers hident hc).2
  rw [parseVersion, splitSuffix_text]
  by_cases hp : pre = []
  · subst hp
    by_cases hb : build = []
    · subst hb
      simp [Version.suffix, releaseText_splitOn, parseNumber_toDigits]
    · simp [Version.suffix, hb, hbuild.resolve_left hb, releaseText_splitOn, parseNumber_toDigits]
  · have hident := areIdentifiers_of_isPrerelease (hpre.resolve_left hp)
    by_cases hb : build = []
    · subst hb
      have hspan : pre.span (· ≠ '+') = (pre, []) := by
        rw [List.span_eq_takeWhile_dropWhile, List.takeWhile_eq_self_iff.mpr (hplus hp),
          List.dropWhile_eq_nil_iff.mpr (hplus hp)]
      simp only [Version.suffix, hp, if_false, if_true, List.append_nil, hspan]
      simp [hident, releaseText_splitOn, parseNumber_toDigits]
    · have hspan : (pre ++ '+' :: build).span (· ≠ '+') = (pre, '+' :: build) := by
        rw [List.span_eq_takeWhile_dropWhile, List.takeWhile_append_of_pos (hplus hp),
          List.dropWhile_append_of_pos (hplus hp), List.takeWhile_cons_of_neg (by decide),
          List.dropWhile_cons_of_neg (by decide), List.append_nil]
      simp only [Version.suffix, hp, hb, if_false, List.cons_append, hspan]
      simp [hident, hbuild.resolve_left hb, releaseText_splitOn, parseNumber_toDigits]

theorem strictVersion_iff (t : Str) (v : Version) :
    strictVersion t = some v ↔ t = v.text ∧ v.IsStated := by
  rw [strictVersion, Option.filter_eq_some_iff]
  constructor
  · rintro ⟨-, h⟩
    simpa using h
  · rintro ⟨rfl, h⟩
    exact ⟨parseVersion_text h, by simp [h]⟩

theorem strictVersion_line {a b : Nat} {s : Str}
    (hs : s = [] ∨ ∃ c t, (c = '-' ∨ c = '+') ∧ s = c :: t) :
    strictVersion (lineText a b ++ s) = none := by
  cases h : strictVersion (lineText a b ++ s) with
  | none => rfl
  | some v =>
    obtain ⟨htext, -⟩ := (strictVersion_iff _ _).mp h
    have hsplit := congrArg splitSuffix htext
    rw [splitSuffix_append lineText_ne_suffix hs, splitSuffix_text] at hsplit
    have hlen := congrArg (fun p : Str × Str => (p.1.splitOn '.').length) hsplit
    simp [lineText_splitOn, releaseText_splitOn] at hlen

theorem IsVersionChar.isReqChar {c : Char} (h : IsVersionChar c) : isReqChar c = true := by
  rcases h with h | h | rfl | rfl | rfl
  · simp [Semver.isReqChar, h]
  · simp [Semver.isReqChar, h]
  · decide
  · decide
  · decide

theorem isVersionChar_lineText {a b : Nat} {c : Char} (hc : c ∈ lineText a b) : IsVersionChar c := by
  simp only [lineText, List.mem_append, List.mem_cons] at hc
  rcases hc with hc | rfl | hc
  · exact Or.inl (isDigit_of_mem_toDigits hc)
  · exact Or.inr (Or.inr (Or.inl rfl))
  · exact Or.inl (isDigit_of_mem_toDigits hc)

theorem parseOp_exact (s : Str) : parseOp ('=' :: s) = (.exact, s) := rfl

/-- A requirement of one comparator behind `=`. -/
theorem strictReq_exact {t : Str} (ht : ∀ c ∈ t, IsVersionChar c) :
    strictReq ('=' :: t) = (strictComparator ('=' :: t)).map fun c => ⟨[c]⟩ := by
  have hall : ('=' :: t).all isReqChar = true := by
    rw [List.all_cons, Bool.and_eq_true, List.all_eq_true]
    exact ⟨by decide, fun c hc => (ht c hc).isReqChar⟩
  have hcomma : ',' ∉ '=' :: t := by
    intro hc
    rcases List.mem_cons.mp hc with hc | hc
    · exact absurd hc (by decide)
    · have := (ht _ hc).toNat
      have hval : ','.toNat = 44 := rfl
      omega
  have htrim : trim ('=' :: t) = '=' :: t :=
    trim_of_inked (List.forall_mem_cons.mpr ⟨by decide, fun c hc => (ht c hc).not_isWhitespace⟩)
  rw [strictReq, hall, Bool.not_true, if_neg Bool.false_ne_true, htrim, if_neg (by simp),
    List.splitOn_eq_singleton hcomma]
  cases h : strictComparator ('=' :: t) <;> simp [h]

theorem strictComparator_exact {t : Str} (ht : ∀ c ∈ t, isWhitespace c = false) :
    parseOp (trim ('=' :: t)) = (.exact, t) ∧ trimStart t = t := by
  have htrim : trim ('=' :: t) = '=' :: t :=
    trim_of_inked (List.forall_mem_cons.mpr ⟨by decide, ht⟩)
  refine ⟨by rw [htrim, parseOp_exact], ?_⟩
  rcases t with - | ⟨c, t⟩
  · rfl
  · exact List.dropWhile_cons_of_neg (by simp [ht c])

theorem strictReq_exactly {v : Version} (h : v.IsStated) :
    strictReq ('=' :: v.text) = some ⟨[v.exactly]⟩ := by
  obtain ⟨hop, hstart⟩ := strictComparator_exact
    fun c (hc : c ∈ v.text) => (h.of_mem_text hc).not_isWhitespace
  rw [strictReq_exact fun c hc => h.of_mem_text hc, strictComparator, hop]
  simp only [hstart, (strictVersion_iff _ _).mpr ⟨rfl, h⟩, Option.map_some, Version.exactly]

theorem strictReq_line (a b : UInt64) : strictReq ('=' :: lineText a.toNat b.toNat) =
    some ⟨[⟨.exact, a, some b, none, []⟩]⟩ := by
  obtain ⟨hop, hstart⟩ := strictComparator_exact
    fun c (hc : c ∈ lineText a.toNat b.toNat) => (isVersionChar_lineText hc).not_isWhitespace
  have hnone : strictVersion (lineText a.toNat b.toNat) = none := by
    simpa using @strictVersion_line a.toNat b.toNat [] (Or.inl rfl)
  have hsplit : splitSuffix (lineText a.toNat b.toNat) = (lineText a.toNat b.toNat, []) := by
    simpa using @splitSuffix_append (lineText a.toNat b.toNat) [] lineText_ne_suffix (Or.inl rfl)
  rw [strictReq_exact fun c hc => isVersionChar_lineText hc, strictComparator, hop]
  simp only [hstart, hnone, hsplit, lineText_splitOn, List.map_cons, List.map_nil,
    parseNumber_toDigits, Option.map_some]

theorem trim_line_suffix {a b : Nat} {c : Char} (hc : c = '-' ∨ c = '+') (s : Str) :
    trim ('=' :: (lineText a b ++ c :: s)) = '=' :: (lineText a b ++ c :: trimEnd s) := by
  have hink : isWhitespace c = false := by rcases hc with rfl | rfl <;> decide
  rw [trim, trimStart, List.dropWhile_cons_of_neg (by decide)]
  exact @trimEnd_append_cons ('=' :: lineText a b) s c hink

/-- A comparator without a patch number is refused with anything behind it. -/
theorem strictComparator_line_suffix {a b : Nat} {c : Char} (hc : c = '-' ∨ c = '+') (s : Str) :
    strictComparator ('=' :: (lineText a b ++ c :: s)) = none := by
  have hink : isWhitespace c = false := by rcases hc with rfl | rfl <;> decide
  have hstart : trimStart (lineText a b ++ c :: trimEnd s) = lineText a b ++ c :: trimEnd s := by
    cases ht : lineText a b with
    | nil => exact List.dropWhile_cons_of_neg (by simp [hink])
    | cons d t =>
      have hd : IsVersionChar d := isVersionChar_lineText (a := a) (b := b) (ht ▸ List.mem_cons_self ..)
      exact List.dropWhile_cons_of_neg (by simp [hd.not_isWhitespace])
  have hsuffix : c :: trimEnd s = [] ∨ ∃ d t, (d = '-' ∨ d = '+') ∧ c :: trimEnd s = d :: t :=
    Or.inr ⟨c, _, hc, rfl⟩
  rw [strictComparator, trim_line_suffix hc, parseOp_exact]
  simp only [hstart, strictVersion_line hsuffix, splitSuffix_append lineText_ne_suffix hsuffix]

theorem strictReq_line_suffix (a b : UInt64) (c : Char) (s : Str) (hc : c = '-' ∨ c = '+') :
    strictReq ('=' :: (lineText a.toNat b.toNat ++ c :: s)) = none := by
  have hsplit : ∃ s₁ pieces, ('=' :: (lineText a.toNat b.toNat ++ c :: s)).splitOn ',' =
      ('=' :: (lineText a.toNat b.toNat ++ c :: s₁)) :: pieces := by
    have hfront : ',' ∉ '=' :: (lineText a.toNat b.toNat ++ [c]) := by
      simp only [List.mem_cons, List.mem_append, List.not_mem_nil, or_false, not_or]
      refine ⟨by decide, fun h => ?_, by rcases hc with rfl | rfl <;> decide⟩
      have := (isVersionChar_lineText h).toNat
      have hval : ','.toNat = 44 := rfl
      omega
    by_cases hcomma : ',' ∈ s
    · obtain ⟨s₁, s₂, rfl, hs₁⟩ := List.eq_append_cons_of_mem hcomma
      refine ⟨s₁, s₂.splitOn ',', ?_⟩
      have hnot : ',' ∉ '=' :: (lineText a.toNat b.toNat ++ c :: s₁) := by
        simp only [List.mem_cons, List.mem_append, not_or, List.not_mem_nil, or_false] at hfront ⊢
        exact ⟨hfront.1, hfront.2.1, hfront.2.2, hs₁⟩
      have := @List.splitOn_append_cons_self_of_not_mem _ _ _ _ _ hnot s₂
      simpa using this
    · refine ⟨s, [], List.splitOn_eq_singleton ?_⟩
      simp only [List.mem_cons, List.mem_append, not_or, List.not_mem_nil, or_false] at hfront ⊢
      exact ⟨hfront.1, hfront.2.1, hfront.2.2, hcomma⟩
  obtain ⟨s₁, pieces, hsplit⟩ := hsplit
  rw [strictReq, trim_line_suffix hc, if_neg (show ¬('=' :: _ = ['*']) by simp), hsplit]
  split_ifs
  · rfl
  · simp [strictComparator_line_suffix hc]

theorem Crate.strict_textual : Crate.strict.Textual where
  parseVersion_iff := strictVersion_iff
  parseReq_exactly := fun _ => strictReq_exactly
  parseReq_line := strictReq_line
  parseReq_line_suffix := strictReq_line_suffix
  not_mem_parseReq := by
    intro t req h hc
    have hall : t.all isReqChar = false := List.all_eq_false.mpr ⟨'/', hc, by decide⟩
    have hnone : strictReq t = none := by rw [strictReq, hall]; rfl
    exact absurd (hnone.symm.trans h) (by simp)
  isMatch_exact := by
    intro c v hop
    show VersionReq.isMatch ⟨[c]⟩ v = true ↔ _
    rw [VersionReq.isMatch, List.all_cons, List.all_nil, Bool.and_true, List.any_cons,
      List.any_nil, Bool.or_false, Comparator.isMatch, hop]
    simp only [Comparator.isExact, Bool.and_eq_true, Bool.or_eq_true, List.isEmpty_iff, beq_iff_eq,
      Bool.not_eq_true', List.isEmpty_eq_false_iff, ne_eq]
    constructor
    · rintro ⟨h, hv | ⟨⟨⟨-, hminor⟩, hpatch⟩, hpre⟩⟩
      · exact ⟨h, Or.inl hv⟩
      · exact ⟨h, Or.inr ⟨hminor, hpatch, hpre⟩⟩
    · rintro ⟨h, hv | ⟨hminor, hpatch, hpre⟩⟩
      · exact ⟨h, Or.inl hv⟩
      · exact ⟨h, Or.inr ⟨⟨⟨h.1.1.1, hminor⟩, hpatch⟩, hpre⟩⟩

end Boot2Deb.Semver
