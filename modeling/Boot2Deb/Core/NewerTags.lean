import Mathlib
import Boot2Deb.Core.Outdated

/-!
# The search for newer tags

The verdict on a pinned tag names the greatest of the tags above the pin and counts them, in the order
of the `semver` crate. That order reads the `rcN` of a release candidate as text. The verdict is exact
in the order of the candidates' numbers where their leading digits stand in that order too, which they
do where all numbers have equally many digits.
-/

namespace Boot2Deb.Core.Outdated

open Rust
open Std (ExtTreeMap TransCmp ReflCmp OrientedCmp LawfulEqCmp)
open Boot2Deb.Version (parseTag TagShape)
open Semver (Version VersionOrder LeadingBelow)

/-! ### Release candidates -/

/-- The number of a version `X-rcN`. -/
def rcNumber (v : Version) : Option Str :=
  match v.pre with
  | 'r' :: 'c' :: ds => if ds ≠ [] ∧ ds.all Char.isDigit ∧ v.build = [] then some ds else none
  | _ => none

/-- The numbers of two candidates of one release. -/
def rcPair (v w : Version) : Option (Str × Str) :=
  if v.major = w.major ∧ v.minor = w.minor ∧ v.patch = w.patch then do
    let x ← rcNumber v
    let y ← rcNumber w
    return (x, y)
  else none

/-- The order of versions, candidates of one release by their numbers. -/
def numeric (O : VersionOrder) (v w : Version) : Ordering :=
  match rcPair v w with
  | some (x, y) => compare (decimal x) (decimal y)
  | none => O.cmp v w

theorem of_rcNumber {v : Version} {x : Str} (h : rcNumber v = some x) :
    v.pre = 'r' :: 'c' :: x ∧ x.all Char.isDigit ∧ v.build = [] := by
  unfold rcNumber at h
  split at h
  case h_1 ds hpre =>
    split at h
    case isTrue hds =>
      obtain rfl := Option.some.inj h
      exact ⟨hpre, hds.2⟩
    case isFalse => exact nomatch h
  case h_2 => exact nomatch h

theorem of_rcPair {v w : Version} {x y : Str} (h : (x, y) ∈ rcPair v w) :
    (v.major = w.major ∧ v.minor = w.minor ∧ v.patch = w.patch) ∧
      rcNumber v = some x ∧ rcNumber w = some y := by
  unfold rcPair at h
  split at h
  case isTrue hsame =>
    simp only [Option.mem_def, Option.bind_eq_bind, Option.bind_eq_some_iff, Option.pure_def,
      Option.some.injEq, Prod.mk.injEq] at h
    obtain ⟨x, hx, y, hy, rfl, rfl⟩ := h
    exact ⟨hsame, hx, hy⟩
  case isFalse => exact nomatch h

theorem rcPair_swap {v w : Version} {x y : Str} (h : (x, y) ∈ rcPair v w) : (y, x) ∈ rcPair w v := by
  obtain ⟨⟨hmajor, hminor, hpatch⟩, hx, hy⟩ := of_rcPair h
  simp [rcPair, hmajor, hminor, hpatch, hx, hy]

theorem comparePre_rc {x y : Str} (hx : x.all Char.isDigit) (hy : y.all Char.isDigit) :
    Semver.comparePre ('r' :: 'c' :: x) ('r' :: 'c' :: y) = compare x y := by
  have hsplit (z : Str) (hz : z.all Char.isDigit) :
      ('r' :: 'c' :: z).splitOn '.' = ['r' :: 'c' :: z] := by
    refine List.splitOn_eq_singleton ?_
    intro hmem
    simp only [List.mem_cons] at hmem
    rcases hmem with hmem | hmem | hmem
    · exact absurd hmem (by decide)
    · exact absurd hmem (by decide)
    · have := List.all_eq_true.mp hz _ hmem
      exact absurd this (by decide)
  simp [Semver.comparePre, hsplit x hx, hsplit y hy, List.compareLex_cons_cons,
    List.compareLex_nil_nil, Semver.compareIdentifier, List.compare_cons_cons]

/-- Between candidates of one release the order of versions is that of the numbers as text. -/
theorem cmp_of_rcPair {O : VersionOrder} (hO : O.Documented) {v w : Version} {x y : Str}
    (h : (x, y) ∈ rcPair v w) : O.cmp v w = compare x y := by
  have := hO.transBuild
  obtain ⟨⟨hmajor, hminor, hpatch⟩, hx, hy⟩ := of_rcPair h
  obtain ⟨hprex, hdx, hbx⟩ := of_rcNumber hx
  obtain ⟨hprey, hdy, hby⟩ := of_rcNumber hy
  have hbuild : O.cmpBuild [] [] = .eq := ReflCmp.compare_self
  rw [hO.cmp_eq, hbx, hby, hbuild, Ordering.then_eq]
  simp [Semver.precedence, compareLex, compareOn, hmajor, hminor, hpatch, hprex, hprey,
    comparePre_rc hdx hdy]

theorem cmp_lt_of_rcPair {O : VersionOrder} (hO : O.Documented) {v w : Version} {x y : Str}
    (h : (x, y) ∈ rcPair v w) : O.cmp v w = .lt ↔ LeadingBelow x y := by
  obtain ⟨-, hx, hy⟩ := of_rcPair h
  rw [cmp_of_rcPair hO h, Semver.compare_digits_lt (of_rcNumber hx).2.1 (of_rcNumber hy).2.1]

/-! ### What the verdict says -/

/-- The greatest of the candidates, with their number. -/
def Newest (cmp : Version → Version → Ordering) (newer : List (Candidate Version)) (n : Newer) :
    Prop :=
  n.count = newer.length ∧
    ∃ c ∈ newer, n.tag = c.name ∧ n.commit = c.commit ∧ ∀ d ∈ newer, (cmp d.key c.key).isLE

/-- The greatest of the candidates, and the greatest of those of the line. -/
def Reports (cmp : Version → Version → Ordering) (line : Version → Bool)
    (newer : List (Candidate Version)) : Upgrade → Prop
  | .current => newer = []
  | .behind none latest => Newest cmp newer latest ∧ (newer.filter fun c => line c.key) = []
  | .behind (some n) latest =>
    Newest cmp newer latest ∧ Newest cmp (newer.filter fun c => line c.key) n
  | .tipMoved _ => False
  | .unknown _ => False

section Verdict
variable {cmp : Version → Version → Ordering}

instance [TransCmp cmp] : TransCmp (compareCandidates (κ := Version) cmp) := by
  have hkey : TransCmp fun a b : Candidate Version => cmp a.key b.key :=
    transCmp_comap cmp Candidate.key
  have hname : TransCmp fun a b : Candidate Version => compare a.name b.name :=
    transCmp_comap compare Candidate.name
  exact inferInstanceAs (TransCmp (compareLex _ _))

theorem isLE_key {a b : Candidate Version} (h : (compareCandidates cmp a b).isLE) :
    (cmp a.key b.key).isLE := by
  rw [compareCandidates, Ordering.isLE_then_iff_or] at h
  rcases h with h | ⟨h, -⟩ <;> simp [h]

/-- The last of a sorted list is the greatest of what it was sorted from. -/
theorem newest_getLast [TransCmp cmp] {sorted newer : List (Candidate Version)}
    {c : Candidate Version} (hsorted : sorted.Pairwise fun a b => (compareCandidates cmp a b).isLE)
    (hperm : sorted.Perm newer) (hlast : sorted.getLast? = some c) :
    Newest cmp newer ⟨c.name, c.commit, sorted.length⟩ := by
  obtain ⟨front, rfl⟩ := List.getLast?_eq_some_iff.mp hlast
  refine ⟨hperm.length_eq, c, hperm.mem_iff.mp (by simp), rfl, rfl, ?_⟩
  intro d hd
  rcases List.mem_append.mp (hperm.mem_iff.mpr hd) with hd | hd
  · exact isLE_key ((List.pairwise_append.mp hsorted).2.2 d hd c (by simp))
  · obtain rfl := List.mem_singleton.mp hd
    simp [ReflCmp.compare_self]

theorem getLast?_zipIdx {l : List (Candidate Version)} :
    (l.zipIdx.map fun (c, within) => Newer.mk c.name c.commit (within + 1)).getLast? =
      l.getLast?.map fun c => ⟨c.name, c.commit, l.length⟩ := by
  rcases List.eq_nil_or_concat l with rfl | ⟨front, c, rfl⟩
  · rfl
  · simp [List.zipIdx_append]

theorem reports_verdict [TransCmp cmp] (newer : List (Candidate Version)) (line : Version → Bool) :
    Reports cmp line newer (verdict cmp newer line) := by
  have hsorted := @pairwise_sortBy _ (compareCandidates cmp) _ newer
  have hperm := sortBy_perm (compareCandidates cmp) newer
  unfold verdict
  dsimp only
  split
  case h_1 hlast =>
    rw [List.getLast?_eq_none_iff] at hlast
    rw [hlast] at hperm
    exact hperm.nil_eq.symm
  case h_2 newest hlast =>
    have hlatest := newest_getLast hsorted hperm hlast
    rw [getLast?_zipIdx]
    have hline := hperm.filter fun c => line c.key
    rcases hin : ((sortBy (compareCandidates cmp) newer).filter fun c => line c.key).getLast? with
      - | ⟨c⟩
    · rw [List.getLast?_eq_none_iff] at hin
      rw [hin] at hline
      rw [hin]
      exact ⟨hlatest, hline.nil_eq.symm⟩
    · rw [hin]
      exact ⟨hlatest, newest_getLast (hsorted.filter _) hline hin⟩

/-- Two orders agree on a verdict when they agree on the candidates. -/
theorem Reports.congr {cmp' : Version → Version → Ordering} {line : Version → Bool}
    {newer : List (Candidate Version)} {u : Upgrade}
    (hcmp : ∀ c ∈ newer, ∀ d ∈ newer, (cmp d.key c.key).isLE → (cmp' d.key c.key).isLE)
    (h : Reports cmp line newer u) : Reports cmp' line newer u := by
  have hnewest {l : List (Candidate Version)} {n : Newer} (hl : l ⊆ newer) (h : Newest cmp l n) :
      Newest cmp' l n := by
    obtain ⟨hcount, c, hc, htag, hcommit, hmax⟩ := h
    exact ⟨hcount, c, hc, htag, hcommit, fun d hd => hcmp c (hl hc) d (hl hd) (hmax d hd)⟩
  match u, h with
  | .current, h => exact h
  | .behind none _, h => exact ⟨hnewest (List.Subset.refl _) h.1, h.2⟩
  | .behind (some _) _, h =>
    exact ⟨hnewest (List.Subset.refl _) h.1, hnewest (List.filter_subset_self _) h.2⟩

end Verdict

/-! ### The search is exact -/

section Search
variable (S : Semver.Crate) (O : VersionOrder) (reference : Str) (pinned : Version)
  (tags : ExtTreeMap Str Str compare)

/-- The comparable tags above the pin, candidates of one release by their numbers. -/
def numericallyNewer : List (Candidate Version) :=
  (comparable S reference pinned tags).filter fun c => numeric O c.key pinned == .gt

/-- The releases a verdict names. -/
def Upgrade.offered : Upgrade → List Newer
  | .behind line latest => latest :: line.toList
  | _ => []

/-- The verdict is the greatest of the newer tags and their number, on the line as overall, it names
no pre-release for a release, and candidates of one release stand by their numbers. -/
structure ExactSearch : Prop where
  reports : Reports (numeric O) (inLine pinned) (numericallyNewer S O reference pinned tags)
    (compareTag S O reference tags)
  release : pinned.pre = [] → ∀ n ∈ (compareTag S O reference tags).offered,
    ∃ v, parseTag S n.tag = .ok v ∧ v.pre = []
  newer_iff : ∀ c ∈ comparable S reference pinned tags, ∀ p ∈ rcPair pinned c.key,
    (c ∈ newerTags S O reference pinned tags ↔ decimal p.1 < decimal p.2)
  ascending : (sortBy (compareCandidates O.cmp) (newerTags S O reference pinned tags)).Pairwise
    fun c d => ∀ p ∈ rcPair c.key d.key, decimal p.1 ≤ decimal p.2

/-- The leading digits of the numbers stand as the numbers do. -/
def LeadingDigitsOrdered : Prop :=
  (∀ c ∈ comparable S reference pinned tags, ∀ p ∈ rcPair pinned c.key,
    (LeadingBelow p.1 p.2 ↔ decimal p.1 < decimal p.2)) ∧
  ∀ c ∈ numericallyNewer S O reference pinned tags,
    ∀ d ∈ numericallyNewer S O reference pinned tags,
      ∀ p ∈ rcPair c.key d.key, LeadingBelow p.1 p.2 → decimal p.1 ≤ decimal p.2

instance : Decidable (LeadingDigitsOrdered S O reference pinned tags) := by
  unfold LeadingDigitsOrdered
  infer_instance

end Search

section Search
variable {S : Semver.Crate} {O : VersionOrder} {reference : Str} {pinned : Version}
  {tags : ExtTreeMap Str Str compare}

/-- Numbers of equally many digits stand as text the way they stand as numbers. -/
theorem leadingDigitsOrdered_of_length
    (hpin : ∀ c ∈ comparable S reference pinned tags, ∀ p ∈ rcPair pinned c.key,
      p.1.length = p.2.length)
    (htags : ∀ c ∈ comparable S reference pinned tags, ∀ d ∈ comparable S reference pinned tags,
      ∀ p ∈ rcPair c.key d.key, p.1.length = p.2.length) :
    LeadingDigitsOrdered S O reference pinned tags := by
  refine ⟨?_, ?_⟩
  · intro c hc p hp
    exact Semver.leadingBelow_of_length (hpin c hc p hp)
  · intro c hc d hd p hp hbelow
    have hlen := htags c (List.mem_filter.mp hc).1 d (List.mem_filter.mp hd).1 p hp
    exact ((Semver.leadingBelow_of_length hlen).mp hbelow).le

theorem of_mem_comparable {c : Candidate Version} (h : c ∈ comparable S reference pinned tags) :
    parseTag S c.name = .ok c.key ∧ (pinned.pre = [] → c.key.pre = []) := by
  unfold comparable at h
  obtain ⟨h, hpre⟩ := List.mem_filter.mp h
  obtain ⟨⟨tag, commit⟩, -, h⟩ := List.mem_filterMap.mp h
  obtain ⟨v, hv, rfl⟩ := Option.map_eq_some_iff.mp h
  refine ⟨?_, ?_⟩
  · rcases hparse : parseTag S tag with w | e | -
    · rw [hparse] at hv
      exact congrArg Outcome.ok (Option.some.inj hv)
    · rw [hparse] at hv
      exact nomatch hv
    · rw [hparse] at hv
      exact nomatch hv
  · intro hpin
    simpa [hpin] using hpre

theorem compareTag_eq (hpin : parseTag S reference = .ok pinned) : compareTag S O reference tags =
    verdict O.cmp (newerTags S O reference pinned tags) (inLine pinned) := by
  simp [compareTag, hpin, Outcome.toOption]

theorem mem_newerTags {c : Candidate Version} : c ∈ newerTags S O reference pinned tags ↔
    c ∈ comparable S reference pinned tags ∧ O.cmp c.key pinned = .gt := by
  simp [newerTags]

/-- What a verdict names is among the newer tags. -/
theorem exists_of_offered {cmp : Version → Version → Ordering} {line : Version → Bool}
    {newer : List (Candidate Version)} {u : Upgrade} (h : Reports cmp line newer u) {n : Newer}
    (hn : n ∈ u.offered) : ∃ c ∈ newer, n.tag = c.name := by
  match u, h with
  | .current, _ => simp [Upgrade.offered] at hn
  | .behind none latest, h =>
    obtain rfl : n = latest := by simpa [Upgrade.offered] using hn
    obtain ⟨-, c, hc, htag, -⟩ := h.1
    exact ⟨c, hc, htag⟩
  | .behind (some m) latest, h =>
    have hn : n = latest ∨ n = m := by simpa [Upgrade.offered] using hn
    rcases hn with rfl | rfl
    · obtain ⟨-, c, hc, htag, -⟩ := h.1
      exact ⟨c, hc, htag⟩
    · obtain ⟨-, c, hc, htag, -⟩ := h.2
      exact ⟨c, (List.mem_filter.mp hc).1, htag⟩

theorem rel_of_pairwise {α : Type} {R : α → α → Prop} {l : List α} (h : l.Pairwise R) {a b : α}
    (ha : a ∈ l) (hb : b ∈ l) (hne : a ≠ b) : R a b ∨ R b a := by
  have hsymm : Std.Symm fun a b => R a b ∨ R b a := ⟨fun _ _ => Or.symm⟩
  have hor : l.Pairwise fun a b => R a b ∨ R b a := h.imp Or.inl
  exact hor.forall ha hb hne

theorem mem_sortBy_newerTags {c : Candidate Version} :
    c ∈ sortBy (compareCandidates O.cmp) (newerTags S O reference pinned tags) ↔
      c ∈ newerTags S O reference pinned tags :=
  (sortBy_perm _ _).mem_iff

variable (hO : O.Documented)
include hO

theorem cmp_gt_of_rcPair {v w : Version} {x y : Str} (h : (x, y) ∈ rcPair v w) :
    O.cmp w v = .gt ↔ LeadingBelow x y := by
  have := VersionOrder.transCmp hO
  rw [← cmp_lt_of_rcPair hO h, OrientedCmp.gt_iff_lt]

/-- The pin's own candidates are newer by their numbers exactly when the code takes them to be. -/
theorem numericallyNewer_eq (h : ∀ c ∈ comparable S reference pinned tags,
      ∀ p ∈ rcPair pinned c.key, (LeadingBelow p.1 p.2 ↔ decimal p.1 < decimal p.2)) :
    numericallyNewer S O reference pinned tags = newerTags S O reference pinned tags := by
  unfold numericallyNewer newerTags
  refine List.filter_congr fun c hc => ?_
  rcases hp : rcPair c.key pinned with - | ⟨y, x⟩
  · simp [numeric, hp]
  · have hpair : (x, y) ∈ rcPair pinned c.key := rcPair_swap hp
    have hiff := h c hc _ hpair
    rw [Bool.eq_iff_iff, beq_iff_eq, beq_iff_eq, cmp_gt_of_rcPair hO hpair, hiff]
    simp only [numeric, hp, Nat.compare_eq_gt]

theorem decimal_le {v w : Version}
    (h : ∀ p ∈ rcPair v w, LeadingBelow p.1 p.2 → decimal p.1 ≤ decimal p.2)
    (hle : (O.cmp v w).isLE) : ∀ p ∈ rcPair v w, decimal p.1 ≤ decimal p.2 := by
  rintro ⟨x, y⟩ hp
  rw [Ordering.isLE_iff_eq_lt_or_eq_eq, cmp_lt_of_rcPair hO hp, cmp_of_rcPair hO hp] at hle
  rcases hle with hlt | heq
  · exact h _ hp hlt
  · exact le_of_eq (congrArg decimal (LawfulEqCmp.eq_of_compare heq))

theorem isLE_numeric {v w : Version}
    (h : ∀ p ∈ rcPair v w, LeadingBelow p.1 p.2 → decimal p.1 ≤ decimal p.2)
    (hle : (O.cmp v w).isLE) : (numeric O v w).isLE := by
  have hdecimal := decimal_le hO h hle
  rcases hp : rcPair v w with - | ⟨x, y⟩
  · simpa [numeric, hp] using hle
  · simpa [numeric, hp, Nat.isLE_compare] using hdecimal _ hp

/-- The verdict on a pinned tag is exact just when the leading digits of the candidates stand as their
numbers do. -/
theorem exactSearch_iff (hpin : parseTag S reference = .ok pinned) :
    ExactSearch S O reference pinned tags ↔ LeadingDigitsOrdered S O reference pinned tags := by
  have htrans := VersionOrder.transCmp hO
  constructor
  · intro h
    have hfirst : ∀ c ∈ comparable S reference pinned tags, ∀ p ∈ rcPair pinned c.key,
        (LeadingBelow p.1 p.2 ↔ decimal p.1 < decimal p.2) := by
      intro c hc p hp
      rw [← h.newer_iff c hc p hp, mem_newerTags, cmp_gt_of_rcPair hO hp]
      exact (and_iff_right hc).symm
    refine ⟨hfirst, ?_⟩
    rw [numericallyNewer_eq hO hfirst]
    rintro c hc d hd ⟨x, y⟩ hp hbelow
    have hlt : O.cmp c.key d.key = .lt := (cmp_lt_of_rcPair hO hp).mpr hbelow
    have hsorted := (@pairwise_sortBy _ (compareCandidates O.cmp) _ _).and h.ascending
    -- of two tags in a sorted list one stands before the other
    have hne : c ≠ d := by
      rintro rfl
      simp [ReflCmp.compare_self] at hlt
    rcases rel_of_pairwise hsorted (mem_sortBy_newerTags.mpr hc)
        (mem_sortBy_newerTags.mpr hd) hne with ⟨-, hle⟩ | ⟨hle, -⟩
    · exact hle _ hp
    · have hle := isLE_key hle
      have hswap : O.cmp d.key c.key = (O.cmp c.key d.key).swap := OrientedCmp.eq_swap
      simp [hswap, hlt] at hle
  · rintro ⟨hfirst, hpairs⟩
    have hnewer := numericallyNewer_eq hO hfirst
    have hreports : Reports (numeric O) (inLine pinned) (newerTags S O reference pinned tags)
        (compareTag S O reference tags) := by
      rw [compareTag_eq hpin]
      refine (reports_verdict _ _).congr ?_
      intro c hc d hd
      rw [← hnewer] at hc hd
      exact isLE_numeric hO (hpairs d hd c hc)
    refine ⟨?reports, ?release, ?newer_iff, ?ascending⟩
    case reports =>
      rw [hnewer]
      exact hreports
    case release =>
      intro hpre n hn
      obtain ⟨c, hc, htag⟩ := exists_of_offered hreports hn
      obtain ⟨hparse, hrelease⟩ := of_mem_comparable (mem_newerTags.mp hc).1
      exact ⟨c.key, htag ▸ hparse, hrelease hpre⟩
    case newer_iff =>
      intro c hc p hp
      rw [← hfirst c hc p hp, mem_newerTags, cmp_gt_of_rcPair hO hp]
      exact and_iff_right hc
    case ascending =>
      refine (pairwise_sortBy _).imp_of_mem ?_
      intro c d hc hd hle
      rw [mem_sortBy_newerTags, ← hnewer] at hc hd
      exact decimal_le hO (hpairs c hc d hd) (isLE_key hle)

omit hO

/-- Two candidates of 7.2 as a remote advertises them. -/
def candidates (first second : String) : ExtTreeMap Str Str compare :=
  ((∅ : ExtTreeMap Str Str compare).insert first.toList ['a']).insert second.toList ['b']

theorem exactSearch_one_digit : ExactSearch .evaluating .evaluating "v7.2-rc8".toList
    ⟨7, 2, 0, "rc8".toList, []⟩ (candidates "v7.2-rc8" "v7.2-rc9") :=
  (exactSearch_iff VersionOrder.evaluating_documented (by decide +kernel)).mpr (by decide +kernel)

/-- The tenth candidate is no newer than the ninth. -/
theorem tenth_candidate_missed :
    compareTag .evaluating .evaluating "v7.2-rc9".toList (candidates "v7.2-rc9" "v7.2-rc10") =
      .current ∧
    ¬ExactSearch .evaluating .evaluating "v7.2-rc9".toList ⟨7, 2, 0, "rc9".toList, []⟩
      (candidates "v7.2-rc9" "v7.2-rc10") := by
  refine ⟨by decide +kernel, fun h => ?_⟩
  have hnewer := h.newer_iff ⟨⟨7, 2, 0, "rc10".toList, []⟩, "v7.2-rc10".toList, some ['b']⟩
    (by decide +kernel) ("9".toList, "10".toList) (by decide +kernel)
  exact absurd (hnewer.mpr (by decide)) (by decide +kernel)

end Search

end Boot2Deb.Core.Outdated
