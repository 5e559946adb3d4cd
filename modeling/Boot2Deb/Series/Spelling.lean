import Boot2Deb.Series.Manifest
import Boot2Deb.Lib.SemverText
import Boot2Deb.Rust.Lines
import Boot2Deb.Rust.Pattern

/-!
# Ranges in a tag's own spelling (`core/src/version.rs`, `core/src/series.rs`)

A tag and a range reach the crate through two normalizations. They agree on every release prefix
and on every zero padding, so no spelling of either changes an answer. They do not agree on the
rest of a tag: `normalize_req` keeps a namespace and the `-gnu` marker, and does not pad two
components to three.
-/

namespace Boot2Deb.Series
open Rust Semver Version

/-! ### Spellings of one version -/

/-- Two spellings of a component: the same text, or the same digits behind other zeroes. -/
def SameComponent (c c' : Str) : Prop :=
  c = c' ∨ ∃ (digits : Str) (m n : ℕ), digits ≠ [] ∧ (∀ d ∈ digits, d.isDigit = true) ∧
    c = List.replicate m '0' ++ digits ∧ c' = List.replicate n '0' ++ digits

/-- `v` is `s` behind a release prefix, or `s` itself and it has none. -/
def Marks (v s : Str) : Prop :=
  (∃ p d t, p ∈ releasePrefixes ∧ d.isDigit = true ∧ s = d :: t ∧ v = p :: s) ∨
    (v = s ∧ ¬∃ p d t, p ∈ releasePrefixes ∧ d.isDigit = true ∧ v = p :: d :: t)

/-- A numeric core ends before the first `-` or `+`. -/
def Parted (core rest : Str) : Prop :=
  (∀ c ∈ core, c ≠ '-' ∧ c ≠ '+') ∧ (rest = [] ∨ ∃ c t, (c = '-' ∨ c = '+') ∧ rest = c :: t)

/-- Two spellings of one version: they differ in the release prefix and in the padding. -/
def SameVersion (v v' : Str) : Prop :=
  ∃ core core' rest, Marks v (core ++ rest) ∧ Marks v' (core' ++ rest) ∧
    List.Forall₂ SameComponent (core.splitOn '.') (core'.splitOn '.') ∧
    Parted core rest ∧ Parted core' rest

/-- Two tags whose last segments spell one version. -/
def SameTag (t t' : Str) : Prop :=
  SameVersion (t.rtakeWhile (· ≠ '/')) (t'.rtakeWhile (· ≠ '/'))

/-- No operator and no blank in front, no blank behind. -/
def Plain (v : Str) : Prop :=
  (∀ c ∈ v.head?, isWhitespace c = false ∧ c ∉ ['=', '>', '<', '^', '~']) ∧
    ∀ c ∈ v.getLast?, isWhitespace c = false

/-- Two comparators with one operator and the same blanks, whose versions are spellings of one. -/
def SameComparator (c c' : Str) : Prop :=
  ∃ front op gap v v' back, c = front ++ op ++ gap ++ v ++ back ∧
    c' = front ++ op ++ gap ++ v' ++ back ∧
    (∀ x ∈ front ++ gap ++ back, isWhitespace x = true) ∧
    (∀ x ∈ op, x ∈ ['=', '>', '<', '^', '~']) ∧ Plain v ∧ Plain v' ∧ SameVersion v v'

/-- Two ranges of the same comparators, spelled one by one. -/
def SameRange (r r' : Str) : Prop :=
  List.Forall₂ SameComparator (r.splitOn ',') (r'.splitOn ',')

/-! ### One text for every spelling -/

theorem normalizeComponent_digits {digits : Str} (hne : digits ≠ [])
    (h : ∀ d ∈ digits, d.isDigit = true) (n : ℕ) :
    normalizeComponent (List.replicate n '0' ++ digits) =
      if (digits.dropWhile (· = '0')).isEmpty then ['0'] else digits.dropWhile (· = '0') := by
  have hall : (List.replicate n '0' ++ digits).all Char.isDigit = true := by
    rw [List.all_append, Bool.and_eq_true, List.all_eq_true, List.all_eq_true]
    exact ⟨fun c hc => by rw [List.eq_of_mem_replicate hc]; decide, h⟩
  rw [normalizeComponent, if_neg (by simp [hall, hne]),
    List.dropWhile_append_of_pos fun c hc => by simp [List.eq_of_mem_replicate hc]]

theorem SameComponent.normalize {c c' : Str} (h : SameComponent c c') :
    normalizeComponent c = normalizeComponent c' := by
  rcases h with rfl | ⟨digits, m, n, hne, hdigits, rfl, rfl⟩
  · rfl
  · rw [normalizeComponent_digits hne hdigits, normalizeComponent_digits hne hdigits]

theorem normalizeCore_congr {core core' : Str}
    (h : List.Forall₂ SameComponent (core.splitOn '.') (core'.splitOn '.')) :
    normalizeCore core = normalizeCore core' := by
  have heq : List.Forall₂ (· = ·) ((core.splitOn '.').map normalizeComponent)
      ((core'.splitOn '.').map normalizeComponent) := by
    rw [List.forall₂_map_left_iff, List.forall₂_map_right_iff]
    exact h.imp fun _ _ => SameComponent.normalize
  rw [List.forall₂_eq_eq_eq] at heq
  rw [normalizeCore, heq, normalizeCore]

theorem Marks.splitPrefix {v s : Str} (h : Marks v s) : (splitPrefix v).2 = s := by
  rcases h with ⟨p, d, t, hp, hd, rfl, rfl⟩ | ⟨rfl, hnone⟩
  · rw [Version.splitPrefix, if_pos ⟨hp, hd⟩]
  · rcases v with - | ⟨p, - | ⟨d, t⟩⟩
    · rfl
    · rfl
    · rw [Version.splitPrefix, if_neg fun h => hnone ⟨p, d, t, h.1, h.2, rfl⟩]

theorem Parted.splitCore {core rest : Str} (h : Parted core rest) :
    splitCore (core ++ rest) = (core, rest) := splitSuffix_append h.1 h.2

/-- The core of a version and what follows it stand apart. -/
theorem parted_splitCore (s : Str) : Parted (splitCore s).1 (splitCore s).2 := by
  rw [Version.splitCore, List.span_eq_takeWhile_dropWhile]
  constructor
  · intro c hc
    simpa using List.mem_takeWhile_imp hc
  · cases h : s.dropWhile fun c => c ≠ '-' && c ≠ '+' with
    | nil => exact Or.inl rfl
    | cons c t =>
      have hc := List.head?_dropWhile_not (fun c => c ≠ '-' && c ≠ '+') s
      rw [h] at hc
      simp only [List.head?_cons, ne_eq, decide_not, Bool.and_eq_false_imp, Bool.not_eq_true',
        decide_eq_false_iff_not, Bool.not_eq_false', decide_eq_true_eq] at hc
      refine Or.inr ⟨c, t, ?_, rfl⟩
      by_cases hminus : c = '-'
      · exact Or.inl hminus
      · exact Or.inr (hc hminus)

theorem splitCore_append (s : Str) : (splitCore s).1 ++ (splitCore s).2 = s := by
  rw [Version.splitCore, List.span_eq_takeWhile_dropWhile, List.takeWhile_append_dropWhile]

theorem suffix_of_libre {core rest : Str} (h : Parted core rest)
    (hlibre : libreSuffix <:+ core ++ rest) : libreSuffix <:+ rest := by
  rcases List.suffix_or_suffix_of_suffix hlibre (List.suffix_append core rest) with hs | hs
  · exact hs
  · obtain ⟨front, hfront⟩ := hs
    rcases h.2 with rfl | ⟨c, t, hc, rfl⟩
    · -- the whole marker would lie in the core
      rw [List.append_nil] at hlibre
      exact absurd rfl (h.1 '-' (hlibre.subset (by decide))).1
    · have hmem : front = [] := by
        rcases front with - | ⟨d, front⟩
        · rfl
        · rw [List.cons_append] at hfront
          have hgnu : front ++ c :: t = "gnu".toList := (List.cons.inj hfront).2
          have hc' : c ∈ "gnu".toList := hgnu ▸ List.mem_append_right _ (List.mem_cons_self ..)
          rcases hc with rfl | rfl
          · exact absurd hc' (by decide)
          · exact absurd hc' (by decide)
      rw [← hfront, hmem, List.nil_append]

/-- The marker of a deblobbed tree is no part of a core. -/
theorem stripSuffix_parted {core rest : Str} (h : Parted core rest) :
    (stripSuffix (core ++ rest) libreSuffix).getD (core ++ rest) =
        core ++ (stripSuffix rest libreSuffix).getD rest ∧
      Parted core ((stripSuffix rest libreSuffix).getD rest) := by
  by_cases hlibre : libreSuffix <:+ rest
  · obtain ⟨front, rfl⟩ := hlibre
    have hfront : stripSuffix (front ++ libreSuffix) libreSuffix = some front :=
      stripSuffix_eq_some.mpr rfl
    have hwhole : stripSuffix (core ++ (front ++ libreSuffix)) libreSuffix = some (core ++ front) := by
      rw [← List.append_assoc]
      exact stripSuffix_eq_some.mpr rfl
    rw [hwhole, hfront]
    refine ⟨rfl, h.1, ?_⟩
    rcases front with - | ⟨c, front⟩
    · exact Or.inl rfl
    · rcases h.2 with hnil | ⟨d, t, hd, ht⟩
      · exact absurd hnil (by simp)
      · rw [List.cons_append] at ht
        exact Or.inr ⟨c, front, (List.cons.inj ht).1 ▸ hd, rfl⟩
  · rw [stripSuffix_eq_none hlibre, stripSuffix_eq_none fun hs => hlibre (suffix_of_libre h hs)]
    exact ⟨rfl, h⟩

/-- The text of a tag's version as it is read: prefix and marker off, the core padded. -/
def padCore (core : Str) : Str :=
  if ((normalizeCore core).splitOn '.').length = 2 then normalizeCore core ++ ".0".toList
  else normalizeCore core

theorem parseTag_eq_ok {S : Crate} {t core rest : Str} {v : Semver.Version}
    (h : (splitPrefix (t.rtakeWhile (· ≠ '/'))).2 = core ++ rest) (hp : Parted core rest) :
    parseTag S t = .ok v ↔
      S.parseVersion (padCore core ++ (stripSuffix rest libreSuffix).getD rest) = some v := by
  obtain ⟨hstrip, hparted⟩ := stripSuffix_parted hp
  simp only [parseTag, h, hstrip, hparted.splitCore, Outcome.okOr_eq_ok, padCore]

theorem SameTag.parseTag {S : Crate} {t t' : Str} (h : SameTag t t') (v : Semver.Version) :
    parseTag S t = .ok v ↔ parseTag S t' = .ok v := by
  obtain ⟨core, core', rest, hv, hv', hcore, hp, hp'⟩ := h
  rw [parseTag_eq_ok hv.splitPrefix hp, parseTag_eq_ok hv'.splitPrefix hp', padCore, padCore,
    normalizeCore_congr hcore]

/-! ### Comparators -/

theorem plain_dropWhile {v : Str} (hv : Plain v) (op gap : Str)
    (hop : ∀ x ∈ op, x ∈ ['=', '>', '<', '^', '~']) (hgap : ∀ x ∈ gap, isWhitespace x = true) :
    (op ++ gap ++ v).takeWhile (fun c => c ∈ ['=', '>', '<', '^', '~']) = op ∧
      trimStart ((op ++ gap ++ v).dropWhile fun c => c ∈ ['=', '>', '<', '^', '~']) = v := by
  have hop' : ∀ x ∈ op, decide (x ∈ ['=', '>', '<', '^', '~']) = true := fun x hx =>
    decide_eq_true (hop x hx)
  have hstop : ∀ x ∈ (gap ++ v).head?, decide (x ∈ ['=', '>', '<', '^', '~']) = false := by
    intro x hx
    rcases gap with - | ⟨g, gap⟩
    · exact decide_eq_false (hv.1 x hx).2
    · obtain rfl : g = x := by simpa using hx
      refine decide_eq_false fun hmem => ?_
      have hspace := hgap g (List.mem_cons_self ..)
      simp only [List.mem_cons, List.not_mem_nil, or_false] at hmem
      rcases hmem with rfl | rfl | rfl | rfl | rfl <;> exact absurd hspace (by decide)
  have hsplit : (gap ++ v).takeWhile (fun c => c ∈ ['=', '>', '<', '^', '~']) = [] ∧
      (gap ++ v).dropWhile (fun c => c ∈ ['=', '>', '<', '^', '~']) = gap ++ v := by
    rcases h : gap ++ v with - | ⟨x, t⟩
    · exact ⟨rfl, rfl⟩
    · have hx := hstop x (by rw [h]; rfl)
      exact ⟨List.takeWhile_cons_of_neg (by simpa using hx),
        List.dropWhile_cons_of_neg (by simpa using hx)⟩
  rw [List.append_assoc, List.takeWhile_append_of_pos hop', List.dropWhile_append_of_pos hop',
    hsplit.1, hsplit.2, List.append_nil, trimStart_append_left hgap]
  refine ⟨rfl, ?_⟩
  rcases v with - | ⟨x, t⟩
  · rfl
  · exact List.dropWhile_cons_of_neg (by simp [(hv.1 x rfl).1])

theorem not_isWhitespace_of_op {x : Char} (h : x ∈ ['=', '>', '<', '^', '~']) :
    isWhitespace x = false := by
  simp only [List.mem_cons, List.not_mem_nil, or_false] at h
  rcases h with rfl | rfl | rfl | rfl | rfl <;> decide

/-- What is left of a comparator between its blanks. -/
theorem trim_comparator {front op gap v back : Str} (hv : Plain v)
    (hblank : ∀ x ∈ front ++ gap ++ back, isWhitespace x = true)
    (hop : ∀ x ∈ op, x ∈ ['=', '>', '<', '^', '~']) :
    ∃ gap', trim (front ++ op ++ gap ++ v ++ back) = op ++ gap' ++ v ∧
      ∀ x ∈ gap', isWhitespace x = true := by
  have hfront : ∀ x ∈ front, isWhitespace x = true := fun x hx =>
    hblank x (List.mem_append_left _ (List.mem_append_left _ hx))
  have hgap : ∀ x ∈ gap, isWhitespace x = true := fun x hx =>
    hblank x (List.mem_append_left _ (List.mem_append_right _ hx))
  have hback : ∀ x ∈ back, isWhitespace x = true := fun x hx =>
    hblank x (List.mem_append_right _ hx)
  rw [trim_append_right hback, List.append_assoc, List.append_assoc, trim_append_left hfront]
  rcases v with - | ⟨c, v⟩
  · refine ⟨[], ?_, by simp⟩
    rw [List.append_nil, trim_append_right hgap, List.append_nil, List.append_nil]
    exact trim_of_inked fun x hx => not_isWhitespace_of_op (hop x hx)
  · obtain ⟨d, hd⟩ : ∃ d, (c :: v).getLast? = some d :=
      ⟨_, List.getLast?_eq_some_getLast (List.cons_ne_nil c v)⟩
    have hlast := hv.2 d hd
    rcases op with - | ⟨o, op⟩
    · refine ⟨[], ?_, by simp⟩
      rw [List.nil_append, trim_append_left hgap]
      exact trim_eq_self (hv.1 c rfl).1 hlast rfl hd
    · refine ⟨gap, ?_, hgap⟩
      rw [← List.append_assoc]
      refine trim_eq_self (not_isWhitespace_of_op (hop o (List.mem_cons_self ..))) hlast rfl ?_
      rw [List.getLast?_append_of_ne_nil _ (List.cons_ne_nil c v), hd]

theorem normalizeComparator_eq {front op gap v back : Str} (hv : Plain v)
    (hblank : ∀ x ∈ front ++ gap ++ back, isWhitespace x = true)
    (hop : ∀ x ∈ op, x ∈ ['=', '>', '<', '^', '~']) :
    normalizeComparator (front ++ op ++ gap ++ v ++ back) =
      op ++ normalizeCore (splitCore (splitPrefix v).2).1 ++ (splitCore (splitPrefix v).2).2 := by
  obtain ⟨gap', htrim, hgap'⟩ := trim_comparator hv hblank hop
  obtain ⟨htake, hdrop⟩ := plain_dropWhile hv op gap' hop hgap'
  simp only [normalizeComparator, htrim, htake, hdrop]

theorem SameComparator.normalize {c c' : Str} (h : SameComparator c c') :
    normalizeComparator c = normalizeComparator c' := by
  obtain ⟨front, op, gap, v, v', back, rfl, rfl, hblank, hop, hv, hv', hsame⟩ := h
  obtain ⟨core, core', rest, hmark, hmark', hcore, hp, hp'⟩ := hsame
  rw [normalizeComparator_eq hv hblank hop, normalizeComparator_eq hv' hblank hop,
    hmark.splitPrefix, hmark'.splitPrefix, hp.splitCore, hp'.splitCore]
  simp only [normalizeCore_congr hcore]

theorem SameRange.normalize {r r' : Str} (h : SameRange r r') : normalizeReq r = normalizeReq r' := by
  have heq : List.Forall₂ (· = ·) ((r.splitOn ',').map normalizeComparator)
      ((r'.splitOn ',').map normalizeComparator) := by
    rw [List.forall₂_map_left_iff, List.forall₂_map_right_iff]
    exact h.imp fun _ _ => SameComparator.normalize
  rw [List.forall₂_eq_eq_eq] at heq
  rw [normalizeReq, heq, normalizeReq]

theorem matchesRange_eq_ok {S : Crate} {series range version : Str} {mode : RangeMatch} {b : Bool} :
    matchesRange S series range version mode = .ok b ↔
      ∃ req ver, S.parseReq (normalizeReq range) = some req ∧ parseTag S version = .ok ver ∧
        S.isMatch req (if mode = .candidate then { ver with pre := [] } else ver) = b := by
  rw [matchesRange, Outcome.bind_eq_ok]
  constructor
  · rintro ⟨req, hreq, h⟩
    obtain ⟨ver, hver, h⟩ := Outcome.bind_eq_ok.mp h
    exact ⟨req, ver, Outcome.okOr_eq_ok.mp hreq, hver, Outcome.ok.inj h⟩
  · rintro ⟨req, ver, hreq, hver, rfl⟩
    exact ⟨req, Outcome.okOr_eq_ok.mpr hreq, Outcome.bind_eq_ok.mpr ⟨ver, hver, rfl⟩⟩

/-- No spelling of the range or of the tag changes an answer. -/
theorem matchesRange_congr {S : Crate} {series r r' t t' : Str} {mode : RangeMatch} {b : Bool}
    (hr : SameRange r r') (ht : SameTag t t') :
    matchesRange S series r t mode = .ok b ↔ matchesRange S series r' t' mode = .ok b := by
  rw [matchesRange_eq_ok, matchesRange_eq_ok, hr.normalize]
  simp only [ht.parseTag]

/-! ### The text of a tag that is accepted -/

theorem mem_normalizeComponent {c : Str} {x : Char} (h : x ∈ normalizeComponent c) :
    x ∈ c ∨ x = '0' := by
  rw [normalizeComponent] at h
  split_ifs at h with hkeep
  · exact Or.inl h
  · extract_lets trimmed at h
    split_ifs at h
    · exact Or.inr (List.mem_singleton.mp h)
    · exact Or.inl ((List.dropWhile_sublist _).mem h)

theorem mem_of_mem_splitOn {s piece : Str} {sep x : Char} (h : piece ∈ s.splitOn sep)
    (hx : x ∈ piece) : x ∈ s := by
  rw [List.splitOn_eq_splitOnP] at h
  exact mem_of_mem_splitOnP h hx

theorem splitOn_normalizeCore (core : Str) :
    (normalizeCore core).splitOn '.' = (core.splitOn '.').map normalizeComponent := by
  refine List.splitOn_intercalate '.' ?_ (by simp [List.splitOn_ne_nil])
  intro piece hpiece hdot
  obtain ⟨c, hc, rfl⟩ := List.mem_map.mp hpiece
  rcases mem_normalizeComponent hdot with hdot | hdot
  · exact not_mem_of_mem_splitOn hc hdot
  · exact absurd hdot (by decide)

theorem mem_normalizeCore {core : Str} {x : Char} (h : x ∈ normalizeCore core) :
    x ∈ core ∨ x = '0' ∨ x = '.' := by
  by_cases hdot : x = '.'
  · exact Or.inr (Or.inr hdot)
  · obtain ⟨piece, hpiece, hx⟩ := exists_mem_splitOn h hdot
    rw [splitOn_normalizeCore] at hpiece
    obtain ⟨c, hc, rfl⟩ := List.mem_map.mp hpiece
    rcases mem_normalizeComponent hx with hx | hx
    · exact Or.inl (mem_of_mem_splitOn hc hx)
    · exact Or.inr (Or.inl hx)

/-- A core is of digits and dots once its normal form is. -/
theorem of_mem_core {core : Str} (h : ∀ x ∈ normalizeCore core, x.isDigit = true ∨ x = '.')
    {x : Char} (hx : x ∈ core) : x.isDigit = true ∨ x = '.' := by
  by_cases hdot : x = '.'
  · exact Or.inr hdot
  · obtain ⟨c, hc, hxc⟩ := exists_mem_splitOn hx hdot
    by_cases hdigits : c.all Char.isDigit = true
    · exact Or.inl (List.all_eq_true.mp hdigits x hxc)
    · have hkeep : normalizeComponent c = c := by rw [normalizeComponent, if_pos (by simp [hdigits])]
      have hmem : c ∈ (normalizeCore core).splitOn '.' := by
        rw [splitOn_normalizeCore]
        exact List.mem_map.mpr ⟨c, hc, hkeep⟩
      exact h x (mem_of_mem_splitOn hmem hxc)

theorem parted_padCore {core rest : Str} (h : Parted core rest) : Parted (padCore core) rest := by
  refine ⟨fun c hc => ?_, h.2⟩
  have hmem : c ∈ normalizeCore core ∨ c ∈ ".0".toList := by
    rw [padCore] at hc
    split_ifs at hc
    · exact List.mem_append.mp hc
    · exact Or.inl hc
  rcases hmem with hmem | hmem
  · rcases mem_normalizeCore hmem with hcore | rfl | rfl
    · exact h.1 c hcore
    · decide
    · decide
  · have hzero : c = '.' ∨ c = '0' := by simpa using hmem
    rcases hzero with rfl | rfl <;> decide

/-- The parts of a tag whose version is read. -/
structure Reads (core rest : Str) (v : Semver.Version) : Prop where
  core_eq : padCore core = releaseText v.major.toNat v.minor.toNat v.patch.toNat
  rest_eq : (stripSuffix rest libreSuffix).getD rest = v.suffix
  stated : v.IsStated

theorem reads_of_parse {S : Crate} (hS : S.Textual) {core rest : Str} {v : Semver.Version}
    (hp : Parted core rest)
    (h : S.parseVersion (padCore core ++ (stripSuffix rest libreSuffix).getD rest) = some v) :
    Reads core rest v := by
  obtain ⟨htext, hstated⟩ := (hS.parseVersion_iff _ _).mp h
  have hsplit := congrArg splitSuffix htext
  have hparted := parted_padCore (stripSuffix_parted hp).2
  rw [splitSuffix_text, splitSuffix_append hparted.1 hparted.2] at hsplit
  exact ⟨(Prod.mk.inj hsplit).1, (Prod.mk.inj hsplit).2, hstated⟩

namespace Reads
variable {core rest : Str} {v : Semver.Version}

/-- What follows the core is that of the version, with the marker of a deblobbed tree or without. -/
theorem rest_cases (h : Reads core rest v) :
    (libreSuffix <:+ rest ∧ rest = v.suffix ++ libreSuffix) ∨
      (¬libreSuffix <:+ rest ∧ rest = v.suffix) := by
  by_cases hlibre : libreSuffix <:+ rest
  · obtain ⟨front, rfl⟩ := hlibre
    have hfront := h.rest_eq
    rw [stripSuffix_eq_some.mpr rfl, Option.getD_some] at hfront
    exact Or.inl ⟨List.suffix_append .., by rw [hfront]⟩
  · have hrest := h.rest_eq
    rw [stripSuffix_eq_none hlibre, Option.getD_none] at hrest
    exact Or.inr ⟨hlibre, hrest⟩

/-- Two components are a line of releases, three a release. -/
theorem normalizeCore_cases (h : Reads core rest v) :
    ((core.splitOn '.').length = 2 ∧
        normalizeCore core = lineText v.major.toNat v.minor.toNat) ∨
      ((core.splitOn '.').length ≠ 2 ∧
        normalizeCore core = releaseText v.major.toNat v.minor.toNat v.patch.toNat) := by
  have hlen : ((normalizeCore core).splitOn '.').length = (core.splitOn '.').length := by
    rw [splitOn_normalizeCore, List.length_map]
  have hcore := h.core_eq
  rw [padCore, hlen] at hcore
  split_ifs at hcore with htwo
  · refine Or.inl ⟨htwo, ?_⟩
    rw [← hlen] at htwo
    obtain ⟨x, y, hxy⟩ := List.length_eq_two.mp htwo
    have hx : '.' ∉ x := not_mem_of_mem_splitOn (hxy ▸ List.mem_cons_self ..)
    have hy : '.' ∉ y := not_mem_of_mem_splitOn (hxy ▸ List.mem_cons_of_mem _ (List.mem_cons_self ..))
    have hjoin : join ['.'] ((normalizeCore core).splitOn '.') = normalizeCore core :=
      List.intercalate_splitOn '.'
    have heq : normalizeCore core = x ++ '.' :: y := by
      rw [← hjoin, hxy]
      simp [join, List.intercalate]
    have hsplit := congrArg (List.splitOn '.') hcore
    rw [releaseText_splitOn, heq, List.append_assoc, List.cons_append,
      List.splitOn_append_cons_self_of_not_mem hx] at hsplit
    have htail : (y ++ ".0".toList).splitOn '.' = [y, ['0']] :=
      (List.splitOn_append_cons_self_of_not_mem hy _).trans rfl
    rw [htail] at hsplit
    simp only [List.cons.injEq] at hsplit
    rw [heq, lineText, hsplit.1, hsplit.2.1]
  · exact Or.inr ⟨htwo, hcore⟩

theorem of_mem_rest (h : Reads core rest v) {x : Char} (hx : x ∈ rest) : IsVersionChar x := by
  rcases h.rest_cases with ⟨-, hrest⟩ | ⟨-, hrest⟩
  · rw [hrest, List.mem_append] at hx
    rcases hx with hx | hx
    · exact h.stated.of_mem_suffix hx
    · have hgnu : x = '-' ∨ x = 'g' ∨ x = 'n' ∨ x = 'u' := by simpa [libreSuffix] using hx
      rcases hgnu with rfl | rfl | rfl | rfl
      · exact Or.inr (Or.inr (Or.inr (Or.inl rfl)))
      · exact Or.inr (Or.inl (by decide))
      · exact Or.inr (Or.inl (by decide))
      · exact Or.inr (Or.inl (by decide))
  · exact h.stated.of_mem_suffix (hrest ▸ hx)

theorem of_mem_core (h : Reads core rest v) {x : Char} (hx : x ∈ core) : IsVersionChar x := by
  have hnorm : ∀ y ∈ normalizeCore core, y.isDigit = true ∨ y = '.' := by
    intro y hy
    rcases h.normalizeCore_cases with ⟨-, hcore⟩ | ⟨-, hcore⟩
    · rw [hcore, lineText, List.mem_append, List.mem_cons] at hy
      rcases hy with hy | hy | hy
      · exact Or.inl (isDigit_of_mem_toDigits hy)
      · exact Or.inr hy
      · exact Or.inl (isDigit_of_mem_toDigits hy)
    · exact releaseText_chars (hcore ▸ hy)
  rcases Series.of_mem_core hnorm hx with hx | rfl
  · exact Or.inl hx
  · exact Or.inr (Or.inr (Or.inl rfl))

end Reads

/-! ### The range of a tag -/

theorem splitPrefix_cases (leaf : Str) :
    (splitPrefix leaf).2 = leaf ∨ ∃ p ∈ releasePrefixes, leaf = p :: (splitPrefix leaf).2 := by
  rcases leaf with - | ⟨p, - | ⟨d, t⟩⟩
  · exact Or.inl rfl
  · exact Or.inl rfl
  · rw [splitPrefix]
    split_ifs with h
    · exact Or.inr ⟨p, h.1, rfl⟩
    · exact Or.inl rfl

theorem Reads.of_mem_tag {t core rest : Str} {v : Semver.Version} (h : Reads core rest v)
    (ht : (splitPrefix t).2 = core ++ rest) {x : Char} (hx : x ∈ t) : IsVersionChar x := by
  have hleaf : ∀ y ∈ (splitPrefix t).2, IsVersionChar y := by
    intro y hy
    rw [ht, List.mem_append] at hy
    exact hy.elim h.of_mem_core h.of_mem_rest
  rcases splitPrefix_cases t with heq | ⟨p, hp, heq⟩
  · exact hleaf x (by rw [heq]; exact hx)
  · rw [heq] at hx
    rcases List.mem_cons.mp hx with rfl | hx
    · refine Or.inr (Or.inl ?_)
      simp only [releasePrefixes, List.mem_cons, List.not_mem_nil, or_false] at hp
      rcases hp with rfl | rfl <;> decide
    · exact hleaf x hx

theorem plain_of_forall {t : Str} (h : ∀ x ∈ t, IsVersionChar x) : Plain t := by
  refine ⟨fun x hx => ?_, fun x hx => (h x (List.mem_of_getLast? hx)).not_isWhitespace⟩
  have hchar := h x (List.mem_of_head? hx)
  refine ⟨hchar.not_isWhitespace, fun hop => ?_⟩
  have hrange := hchar.toNat
  simp only [List.mem_cons, List.not_mem_nil, or_false] at hop
  rcases hop with rfl | rfl | rfl | rfl | rfl <;> exact absurd hrange (by decide)

theorem normalizeReq_tag {t core rest : Str} (h : ∀ x ∈ t, IsVersionChar x)
    (ht : (splitPrefix t).2 = core ++ rest) (hp : Parted core rest) :
    normalizeReq ('=' :: t) = '=' :: (normalizeCore core ++ rest) := by
  have hcomma : ',' ∉ '=' :: t := by
    intro hc
    rcases List.mem_cons.mp hc with hc | hc
    · exact absurd hc (by decide)
    · exact absurd (h _ hc).toNat (by decide)
  have hcomparator := @normalizeComparator_eq [] ['='] [] t [] (plain_of_forall h) (by simp) (by simp)
  rw [ht, hp.splitCore] at hcomparator
  rw [normalizeReq, List.splitOn_eq_singleton hcomma]
  simpa [join] using hcomparator

/-! ### Namespaces -/

theorem mem_dropWhile {p : Char → Bool} {s : Str} {c : Char} (hc : c ∈ s) (hp : p c = false) :
    c ∈ s.dropWhile p := by
  rw [← List.takeWhile_append_dropWhile (p := p) (l := s), List.mem_append] at hc
  rcases hc with hc | hc
  · exact absurd (List.mem_takeWhile_imp hc) (by simp [hp])
  · exact hc

theorem mem_trim {s : Str} {c : Char} (hc : c ∈ s) (hp : isWhitespace c = false) : c ∈ trim s := by
  rw [trim, trimEnd, List.rdropWhile, List.mem_reverse]
  exact mem_dropWhile (List.mem_reverse.mpr (mem_dropWhile hc hp)) hp

theorem mem_join_of_mem {sep piece : Str} {pieces : List Str} (h : piece ∈ pieces) {c : Char}
    (hc : c ∈ piece) : c ∈ join sep pieces := by
  induction pieces with
  | nil => cases h
  | cons first pieces ih =>
    by_cases hnil : pieces = []
    · subst hnil
      rw [List.mem_singleton.mp h] at hc
      simpa [join] using hc
    · rw [join_cons _ _ hnil]
      rcases List.mem_cons.mp h with rfl | h
      · simp [hc]
      · simp [ih h]

theorem slash_mem_normalizeCore {core : Str} (h : '/' ∈ core) : '/' ∈ normalizeCore core := by
  obtain ⟨c, hc, hslash⟩ := exists_mem_splitOn h (by decide : '/' ≠ '.')
  have hkeep : normalizeComponent c = c := by
    rw [normalizeComponent, if_pos]
    have : c.all Char.isDigit = false := List.all_eq_false.mpr ⟨'/', hslash, by decide⟩
    simp [this]
  exact mem_join_of_mem (List.mem_map.mpr ⟨c, hc, hkeep⟩) hslash

theorem slash_mem_normalizeComparator {c : Str} (h : '/' ∈ c) : '/' ∈ normalizeComparator c := by
  unfold normalizeComparator
  extract_lets trimmed isOp version
  have hversion : '/' ∈ version :=
    mem_dropWhile (mem_dropWhile (mem_trim h (by decide)) (by decide)) (by decide)
  have hleaf : '/' ∈ (splitPrefix version).2 := by
    rcases splitPrefix_cases version with heq | ⟨p, hp, heq⟩
    · rw [heq]
      exact hversion
    · rw [heq] at hversion
      rcases List.mem_cons.mp hversion with rfl | hmem
      · exact absurd hp (by decide)
      · exact hmem
  rw [← splitCore_append (splitPrefix version).2, List.mem_append] at hleaf
  rw [List.mem_append, List.mem_append]
  exact hleaf.imp (fun hcore => Or.inr (slash_mem_normalizeCore hcore)) id

theorem slash_mem_normalizeReq {r : Str} (h : '/' ∈ r) : '/' ∈ normalizeReq r := by
  obtain ⟨c, hc, hslash⟩ := exists_mem_splitOn h (by decide : '/' ≠ ',')
  exact mem_join_of_mem (List.mem_map_of_mem hc) (slash_mem_normalizeComparator hslash)

/-! ### Which tags a range names -/

/-- `=t` names the tag: no namespace, nothing behind two components, no marker of a deblobbed tree
before a build identifier, and no pre-release where it is matched as its release. -/
structure NamesItself (t : Str) (mode : RangeMatch) : Prop where
  slash : '/' ∉ t
  padded : ((splitCore (splitPrefix t).2).1.splitOn '.').length = 2 →
    (splitCore (splitPrefix t).2).2 = []
  libre : libreSuffix <:+ (splitCore (splitPrefix t).2).2 → '+' ∈ (splitCore (splitPrefix t).2).2
  release : mode = .candidate → (splitCore (splitPrefix t).2).2.head? ≠ some '-'

/-- What the comparator of a whole version matches. -/
theorem isMatch_exactly {S : Crate} (hS : S.Textual) (v w : Semver.Version) :
    S.isMatch ⟨[v.exactly]⟩ w = true ↔
      w.major = v.major ∧ w.minor = v.minor ∧ w.patch = v.patch ∧ w.pre = v.pre := by
  rw [hS.isMatch_exact _ _ rfl]
  simp only [Comparator.isExact, Version.exactly, Option.all_some, Bool.and_eq_true, beq_iff_eq]
  constructor
  · rintro ⟨⟨⟨⟨hmajor, hminor⟩, hpatch⟩, hpre⟩, -⟩
    exact ⟨hmajor, hminor.symm, hpatch.symm, hpre⟩
  · rintro ⟨hmajor, hminor, hpatch, hpre⟩
    refine ⟨⟨⟨⟨hmajor, hminor.symm⟩, hpatch.symm⟩, hpre⟩, ?_⟩
    by_cases hnil : w.pre = []
    · exact Or.inl hnil
    · exact Or.inr ⟨by rw [hminor], by rw [hpatch], hpre ▸ hnil⟩

theorem isMatch_line {S : Crate} (hS : S.Textual) (a b : UInt64) (w : Semver.Version) :
    S.isMatch ⟨[⟨.exact, a, some b, none, []⟩]⟩ w = true ↔
      w.major = a ∧ w.minor = b ∧ w.pre = [] := by
  rw [hS.isMatch_exact _ _ rfl]
  simp only [Comparator.isExact, Option.all_some, Option.all_none, Bool.and_eq_true, beq_iff_eq,
    Bool.and_true]
  constructor
  · rintro ⟨⟨⟨hmajor, hminor⟩, hpre⟩, -⟩
    exact ⟨hmajor, hminor.symm, hpre⟩
  · rintro ⟨hmajor, hminor, hpre⟩
    exact ⟨⟨⟨hmajor, hminor.symm⟩, hpre⟩, Or.inl hpre⟩

/-- The version a mode matches. -/
def matched (mode : RangeMatch) (v : Semver.Version) : Semver.Version :=
  if mode = .candidate then { v with pre := [] } else v

theorem matched_cases (mode : RangeMatch) (v : Semver.Version) :
    (matched mode v).major = v.major ∧ (matched mode v).minor = v.minor ∧
      (matched mode v).patch = v.patch ∧
      (matched mode v).pre = if mode = .candidate then [] else v.pre := by
  rw [matched]
  split_ifs
  · exact ⟨rfl, rfl, rfl, rfl⟩
  · exact ⟨rfl, rfl, rfl, rfl⟩

/-- The comparator of a version with the same numbers, by its pre-release. -/
theorem isMatch_matched {S : Crate} (hS : S.Textual) {v w : Semver.Version} (mode : RangeMatch)
    (hmajor : w.major = v.major) (hminor : w.minor = v.minor) (hpatch : w.patch = v.patch) :
    S.isMatch ⟨[w.exactly]⟩ (matched mode v) = true ↔
      (if mode = .candidate then [] else v.pre) = w.pre := by
  obtain ⟨h₁, h₂, h₃, h₄⟩ := matched_cases mode v
  rw [isMatch_exactly hS, h₁, h₂, h₃, h₄, hmajor, hminor, hpatch]
  simp

/-- Identifiers with the marker of a deblobbed tree behind them are identifiers, no number last. -/
theorem identifiers_libre (s : Str) :
    (areIdentifiers s = true → areIdentifiers (s ++ libreSuffix) = true) ∧
      (isPrerelease s = true → isPrerelease (s ++ libreSuffix) = true) := by
  obtain ⟨init, last, hs, hst⟩ := splitOn_append_of_not_mem s (by decide : '.' ∉ libreSuffix)
  have hident : areIdentifiers s = true → areIdentifiers (s ++ libreSuffix) = true := by
    intro h
    rw [areIdentifiers, hs, List.all_append, List.all_cons, List.all_nil, Bool.and_true,
      Bool.and_eq_true, Bool.and_eq_true] at h
    rw [areIdentifiers, hst, List.all_append, List.all_cons, List.all_nil, Bool.and_true,
      Bool.and_eq_true, Bool.and_eq_true, List.all_append, h.1, h.2.2]
    exact ⟨rfl, by simp [libreSuffix], by decide⟩
  refine ⟨hident, fun h => ?_⟩
  rw [isPrerelease, Bool.and_eq_true, hs, List.all_append, Bool.and_eq_true] at h
  rw [isPrerelease, Bool.and_eq_true, hst, List.all_append, Bool.and_eq_true, h.2.1]
  refine ⟨hident h.1, rfl, ?_⟩
  have hminus : (last ++ libreSuffix).all Char.isDigit = false :=
    List.all_eq_false.mpr ⟨'-', by simp [libreSuffix], by decide⟩
  simp [hminus]

/-- The numbers of a version before other identifiers. -/
theorem parseReq_release {S : Crate} (hS : S.Textual) {core rest : Str} {w : Semver.Version}
    (hcore : core = releaseText w.major.toNat w.minor.toNat w.patch.toNat)
    (hrest : rest = w.suffix) (hw : w.IsStated) :
    S.parseReq ('=' :: (core ++ rest)) = some ⟨[w.exactly]⟩ := by
  rw [hcore, hrest]
  exact hS.parseReq_exactly w hw

namespace Reads
variable {core rest : Str} {v : Semver.Version} {mode : RangeMatch}

/-- A pre-release is what begins with `-` behind the core, the marker alone apart. -/
theorem head_rest (h : Reads core rest v) (hplus : libreSuffix <:+ rest → '+' ∈ rest) :
    rest.head? = some '-' ↔ v.pre ≠ [] := by
  have hsuffix : v.suffix.head? = some '-' ↔ v.pre ≠ [] := by
    rw [Version.suffix]
    split_ifs with hpre hbuild <;> simp [hpre]
  rcases h.rest_cases with ⟨hlibre, hrest⟩ | ⟨-, hrest⟩
  · have hmem : '+' ∈ v.suffix := by
      have := hplus hlibre
      rw [hrest, List.mem_append] at this
      exact this.resolve_right (by decide)
    rw [hrest, List.head?_append_of_ne_nil _ (List.ne_nil_of_mem hmem), hsuffix]
  · rw [hrest, hsuffix]

/-- The version a whole range states, its identifiers as the range has them. -/
theorem exists_stated (h : Reads core rest v) : ∃ w : Semver.Version, rest = w.suffix ∧ w.IsStated ∧
    w.major = v.major ∧ w.minor = v.minor ∧ w.patch = v.patch ∧
    ((libreSuffix <:+ rest → '+' ∈ rest) → w.pre = v.pre) ∧
    (¬(libreSuffix <:+ rest → '+' ∈ rest) → w.pre ≠ v.pre ∧ w.pre ≠ []) := by
  rcases h.rest_cases with ⟨hlibre, hrest⟩ | ⟨hnone, hrest⟩
  · have hplus : '+' ∈ rest ↔ v.build ≠ [] := by
      rw [hrest, List.mem_append, or_iff_left (by decide), h.stated.mem_suffix_plus]
    by_cases hbuild : v.build = []
    · refine ⟨{ v with pre := v.suffix.tail ++ libreSuffix.drop (1 - v.suffix.length) }, ?_⟩
      have hnot : ¬(libreSuffix <:+ rest → '+' ∈ rest) := fun himp => hplus.mp (himp hlibre) hbuild
      by_cases hpre : v.pre = []
      · have hsuffix : v.suffix = [] := by simp [Version.suffix, hpre, hbuild]
        rw [hsuffix] at hrest ⊢
        have hgnu : isPrerelease (libreSuffix.drop 1) = true ∧ libreSuffix.drop 1 ≠ [] := by decide
        refine ⟨?_, ⟨Or.inr hgnu.1, h.stated.2⟩, rfl, rfl, rfl, fun himp => absurd himp hnot,
          fun _ => ⟨?_, hgnu.2⟩⟩
        · rw [hrest]
          simp [Version.suffix, hbuild, libreSuffix]
        · rw [hpre]
          exact hgnu.2
      · have hsuffix : v.suffix = '-' :: v.pre := by simp [Version.suffix, hpre, hbuild]
        rw [hsuffix] at hrest ⊢
        have hlibre' := (identifiers_libre v.pre).2 (h.stated.1.resolve_left hpre)
        refine ⟨?_, ⟨Or.inr (by simpa using hlibre'), h.stated.2⟩, rfl, rfl, rfl,
          fun himp => absurd himp hnot, fun _ => ⟨?_, ?_⟩⟩
        · rw [hrest]
          simp [Version.suffix, hbuild, hpre]
        · simp [libreSuffix]
        · simp [hpre]
    · refine ⟨{ v with build := v.build ++ libreSuffix }, ?_,
        ⟨h.stated.1, Or.inr ((identifiers_libre v.build).1 (h.stated.2.resolve_left hbuild))⟩,
        rfl, rfl, rfl, fun _ => rfl, fun hnot => absurd (fun _ => hplus.mpr hbuild) hnot⟩
      rw [hrest]
      simp [Version.suffix, hbuild]
  · exact ⟨v, hrest, h.stated, rfl, rfl, rfl, fun _ => rfl,
      fun hnot => absurd (fun hlibre => absurd hlibre hnone) hnot⟩

end Reads

/-- `=t` names the tag `t` exactly where the two normalizations read the same out of it. -/
theorem parseReq_tag_iff {S : Crate} (hS : S.Textual) {t core rest : Str} {v : Semver.Version}
    {mode : RangeMatch} (hr : Reads core rest v) (hslash : '/' ∉ t)
    (ht : (splitPrefix t).2 = core ++ rest) (hp : Parted core rest) :
    (∃ req, S.parseReq ('=' :: (normalizeCore core ++ rest)) = some req ∧
      S.isMatch req (matched mode v) = true) ↔ NamesItself t mode := by
  have hsplit : splitCore (splitPrefix t).2 = (core, rest) := by rw [ht, hp.splitCore]
  have hnames : NamesItself t mode ↔ ((core.splitOn '.').length = 2 → rest = []) ∧
      (libreSuffix <:+ rest → '+' ∈ rest) ∧ (mode = .candidate → rest.head? ≠ some '-') := by
    constructor
    · rintro ⟨-, hpad, hlibre, hrelease⟩
      rw [hsplit] at hpad hlibre hrelease
      exact ⟨hpad, hlibre, hrelease⟩
    · rintro ⟨hpad, hlibre, hrelease⟩
      exact ⟨hslash, by rwa [hsplit], by rwa [hsplit], by rwa [hsplit]⟩
  rw [hnames]
  rcases hr.normalizeCore_cases with ⟨hlen, hcore⟩ | ⟨hlen, hcore⟩
  · rw [hcore]
    rcases hp.2 with rfl | ⟨c, s, hc, rfl⟩
    · have hpre : v.pre = [] := by
        by_contra hne
        exact absurd ((hr.head_rest (fun h => absurd (List.suffix_nil.mp h) (by decide))).mpr hne)
          (by simp)
      rw [List.append_nil, hS.parseReq_line]
      simp only [Option.some.injEq, exists_eq_left', isMatch_line hS]
      obtain ⟨h₁, h₂, -, h₄⟩ := matched_cases mode v
      refine ⟨fun _ => ⟨fun _ => trivial, fun h => absurd (List.suffix_nil.mp h) (by decide), by simp⟩,
        fun _ => ⟨h₁, h₂, ?_⟩⟩
      rw [h₄, hpre, ite_self]
    · rw [hS.parseReq_line_suffix _ _ _ _ hc]
      simp [hlen]
  · obtain ⟨w, hrest, hw, hmajor, hminor, hpatch, hsame, hother⟩ := hr.exists_stated
    rw [parseReq_release hS (by rw [hcore, hmajor, hminor, hpatch]) hrest hw]
    simp only [Option.some.injEq, exists_eq_left', isMatch_matched hS mode hmajor hminor hpatch]
    by_cases hplus : libreSuffix <:+ rest → '+' ∈ rest
    · have hhead := hr.head_rest hplus
      rw [hsame hplus]
      constructor
      · intro h
        refine ⟨fun htwo => absurd htwo hlen, hplus, fun hmode hminus => ?_⟩
        rw [if_pos hmode] at h
        exact hhead.mp hminus h.symm
      · rintro ⟨-, -, hrelease⟩
        split_ifs with hmode
        · by_contra hne
          exact hrelease hmode (hhead.mpr fun hnil => hne hnil.symm)
        · rfl
    · obtain ⟨hpre, hnil⟩ := hother hplus
      constructor
      · intro h
        split_ifs at h
        · exact absurd h.symm hnil
        · exact absurd h.symm hpre
      · rintro ⟨-, hlibre, -⟩
        exact absurd hlibre hplus

/-- A range in a tag's own spelling: which tags it names, and that no spelling changes an answer. -/
theorem range_in_tag_spelling {S : Crate} (hS : S.Textual) :
    (∀ (series t : Str) (mode : RangeMatch) (v : Semver.Version), parseTag S t = .ok v →
      (matchesRange S series ('=' :: t) t mode = .ok true ↔ NamesItself t mode)) ∧
    ∀ (series r r' t t' : Str) (mode : RangeMatch) (b : Bool), SameRange r r' → SameTag t t' →
      (matchesRange S series r t mode = .ok b ↔ matchesRange S series r' t' mode = .ok b) := by
  refine ⟨fun series t mode v hv => ?_, fun _ _ _ _ _ _ _ hr ht => matchesRange_congr hr ht⟩
  rw [matchesRange_eq_ok]
  by_cases hslash : '/' ∈ t
  · constructor
    · rintro ⟨req, -, hreq, -⟩
      exact absurd (slash_mem_normalizeReq (List.mem_cons_of_mem _ hslash))
        (hS.not_mem_parseReq _ _ hreq)
    · exact fun h => absurd hslash h.slash
  · have hleaf : t.rtakeWhile (· ≠ '/') = t := by
      rw [List.rtakeWhile_eq_self_iff]
      intro c hc
      have hne : c ≠ '/' := fun heq => hslash (heq ▸ hc)
      simpa using hne
    have hp := parted_splitCore (splitPrefix t).2
    have ht := (splitCore_append (splitPrefix t).2).symm
    have hr := reads_of_parse hS hp ((parseTag_eq_ok (by rw [hleaf]; exact ht) hp).mp hv)
    rw [← parseReq_tag_iff hS hr hslash ht hp,
      normalizeReq_tag (fun x hx => hr.of_mem_tag ht hx) ht hp]
    constructor
    · rintro ⟨req, ver, hreq, hver, hmatch⟩
      obtain rfl : v = ver := Outcome.ok.inj (hv.symm.trans hver)
      exact ⟨req, hreq, hmatch⟩
    · rintro ⟨req, hreq, hmatch⟩
      exact ⟨req, v, hreq, hv, hmatch⟩

theorem range_in_tag_spelling_padded :
    matchesRange Crate.strict [] "=v7.01".toList "v7.01".toList .release = .ok true ∧
      matchesRange Crate.strict [] "=7.1".toList "n7.1".toList .release = .ok true := by
  have hnames := ((range_in_tag_spelling Crate.strict_textual).1 [] "v7.01".toList .release
    ⟨7, 1, 0, [], []⟩ (by decide +kernel)).mpr ⟨by decide, by decide, by decide, by decide⟩
  have hcore : List.Forall₂ SameComponent ("7.01".toList.splitOn '.') ("7.1".toList.splitOn '.') :=
    .cons (Or.inl rfl) (.cons (Or.inr ⟨['1'], 1, 0, by simp, by simp, rfl, rfl⟩) .nil)
  have hparted : Parted "7.01".toList [] ∧ Parted "7.1".toList [] :=
    ⟨⟨by simp, Or.inl rfl⟩, ⟨by simp, Or.inl rfl⟩⟩
  have hmarked : Marks "v7.01".toList ("7.01".toList ++ []) :=
    Or.inl ⟨'v', '7', ".01".toList, by simp [releasePrefixes], rfl, rfl, rfl⟩
  have hbare : Marks "7.1".toList ("7.1".toList ++ []) := by
    refine Or.inr ⟨rfl, ?_⟩
    rintro ⟨p, d, t, hp, -, heq⟩
    obtain rfl : '7' = p := (List.cons.inj heq).1
    simp [releasePrefixes] at hp
  have hplain : Plain "v7.01".toList ∧ Plain "7.1".toList := by
    simp [Plain, isWhitespace]
  have hrange : SameRange "=v7.01".toList "=7.1".toList :=
    .cons ⟨[], ['='], [], _, _, [], rfl, rfl, by simp, by simp, hplain.1, hplain.2, _, _, [],
      hmarked, hbare, hcore, hparted.1, hparted.2⟩ .nil
  have htag : SameTag "v7.01".toList "n7.1".toList :=
    ⟨_, _, [], hmarked, Or.inl ⟨'n', '7', ".1".toList, by simp [releasePrefixes], rfl, rfl, rfl⟩,
      hcore, hparted.1, hparted.2⟩
  exact ⟨hnames, ((range_in_tag_spelling Crate.strict_textual).2 [] _ _ _ _ .release true hrange
    htag).mp hnames⟩

/-- A release candidate of two components is refused in its own spelling. -/
theorem candidate_refused :
    parseTag Crate.strict "v7.2-rc1".toList = .ok ⟨7, 2, 0, "rc1".toList, []⟩ ∧
      matchesRange Crate.strict [] "=v7.2-rc1".toList "v7.2-rc1".toList .release =
        .err (.invalidVersionReq [] "=v7.2-rc1".toList) := by
  decide +kernel

end Boot2Deb.Series
