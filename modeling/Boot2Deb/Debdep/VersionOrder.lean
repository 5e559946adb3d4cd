import Boot2Deb.Debdep.Version
import Boot2Deb.Lib.Positional

/-!
# The Debian version order

`DebVersion` is a version as policy describes it: a numeric epoch, an upstream version and a
revision, and `DebVersion.cmp` is the order of `dpkg`: the epochs as numbers, then the two other
parts by `verrevcmp`. A part is read as its alternating runs, and `verrevcmp` is the padded
lexicographic order of these. `compareVersions` is that order on every pair of versions whose epochs
fit a `u64`.
-/

namespace Boot2Deb.Debdep
open Rust Std

/-! ### The reference -/

/-- Where a byte of a non-digit run sorts, the end of the run standing at 0. -/
def charWeight (c : UInt8) : Int :=
  if c = '~'.toUInt8 then -1
  else if isAsciiAlphabetic c then c.toNat
  else c.toNat + 256

/-- The number a run of ASCII digits denotes, however long. -/
def runNumber (ds : Bytes) : Nat := ofMsd 10 (ds.map (·.toNat - '0'.toNat))

/-- The alternating runs of a version part: the weights of a non-digit run and the number behind
it. -/
def runs (s : Bytes) : List (List Int × Nat) :=
  if s = [] then []
  else
    ((s.takeWhile (!isAsciiDigit ·)).map charWeight,
      runNumber ((s.dropWhile (!isAsciiDigit ·)).takeWhile isAsciiDigit)) :: runs (behindRuns s)
termination_by s.length
decreasing_by exact length_behindRuns_lt ‹_›

/-- The order of two runs: the non-digits, one that has ended sorting at 0, then the numbers. -/
def cmpRun : List Int × Nat → List Int × Nat → Ordering :=
  compareLex (fun x y => padLex compare 0 x.1 y.1) (fun x y => compare x.2 y.2)

/-- `verrevcmp`: the runs in order, a part that has ended going on with empty runs. -/
def verrevcmp (s t : Bytes) : Ordering := padLex cmpRun ([], 0) (runs s) (runs t)

/-- A Debian version, `[epoch:]upstream[-revision]`. -/
structure DebVersion where
  epoch : Nat
  upstream : Bytes
  revision : Bytes
deriving DecidableEq, Repr

/-- The number an epoch denotes, of any size. A text that is no number counts as no epoch. -/
def epochNumber (s : Str) : Nat :=
  let ds := unsigned s
  if ds ≠ [] ∧ ds.all Char.isDigit then decimal ds else 0

/-- The version a text denotes: the epoch ends at the first colon, the revision starts at the last
hyphen. -/
def DebVersion.read (v : Str) : DebVersion :=
  let v := trim v
  let rest := if ':' ∈ v then (v.dropWhile (· ≠ ':')).tail else v
  { epoch := if ':' ∈ v then epochNumber (v.takeWhile (· ≠ ':')) else 0
    upstream := asBytes (if '-' ∈ rest then (rest.rdropWhile (· ≠ '-')).dropLast else rest)
    revision := asBytes (if '-' ∈ rest then rest.rtakeWhile (· ≠ '-') else []) }

/-- Upstream versions, then revisions. -/
def DebVersion.cmpRest : DebVersion → DebVersion → Ordering :=
  compareLex (fun v w => verrevcmp v.upstream w.upstream)
    (fun v w => verrevcmp v.revision w.revision)

/-- The order of Debian versions. -/
def DebVersion.cmp : DebVersion → DebVersion → Ordering :=
  compareLex (fun v w => compare v.epoch w.epoch) DebVersion.cmpRest

/-! ### It is a total preorder -/

instance : TransCmp cmpRun :=
  have : TransCmp fun x y : List Int × Nat => padLex compare 0 x.1 y.1 :=
    transCmp_comap (padLex compare 0) Prod.fst
  have : TransCmp fun x y : List Int × Nat => compare x.2 y.2 :=
    transCmp_comap compare Prod.snd
  inferInstanceAs (TransCmp (compareLex _ _))

instance : TransCmp verrevcmp := transCmp_comap (padLex cmpRun ([], 0)) runs

instance : TransCmp DebVersion.cmpRest :=
  have : TransCmp fun v w : DebVersion => verrevcmp v.upstream w.upstream :=
    transCmp_comap verrevcmp DebVersion.upstream
  have : TransCmp fun v w : DebVersion => verrevcmp v.revision w.revision :=
    transCmp_comap verrevcmp DebVersion.revision
  inferInstanceAs (TransCmp (compareLex _ _))

instance : TransCmp DebVersion.cmp :=
  have : TransCmp fun v w : DebVersion => compare v.epoch w.epoch :=
    transCmp_comap compare DebVersion.epoch
  inferInstanceAs (TransCmp (compareLex _ _))

/-! ### One part -/

theorem getD_map_charWeight (s : Bytes) (i : Nat) :
    ((s.map charWeight)[i]?).getD 0 = ordinal s[i]? := by
  rw [List.getElem?_map]
  cases s[i]? <;> rfl

theorem compareNondigit_eq (a b : Bytes) :
    compareNondigit a b = padLex compare 0 (a.map charWeight) (b.map charWeight) := by
  rw [padLex.eq_foldr_range, compareNondigit, List.length_map, List.length_map]
  congr 1
  funext i rest
  rw [getD_map_charWeight, getD_map_charWeight]
  cases compare (ordinal a[i]?) (ordinal b[i]?) <;> rfl

/-- The digits of a run, as numbers. -/
def digits (ds : Bytes) : List Nat := ds.map (·.toNat - '0'.toNat)

theorem digits_lt {ds : Bytes} (h : ∀ c ∈ ds, isAsciiDigit c) : ∀ d ∈ digits ds, d < 10 := by
  intro d hd
  obtain ⟨c, hc, rfl⟩ := List.mem_map.mp hd
  have hc := h c hc
  simp only [isAsciiDigit, Bool.and_eq_true, decide_eq_true_eq, UInt8.le_iff_toNat_le] at hc
  have : c.toNat ≤ 0x39 := hc.2
  have h0 : '0'.toNat = 48 := rfl
  omega

theorem significant_digits {ds : Bytes} (h : ∀ c ∈ ds, isAsciiDigit c) :
    significant (digits ds) = digits (ds.dropWhile (· == 0x30)) := by
  induction ds with
  | nil => rfl
  | cons c ds ih =>
    obtain ⟨hc, hds⟩ := List.forall_mem_cons.mp h
    simp only [isAsciiDigit, Bool.and_eq_true, decide_eq_true_eq, UInt8.le_iff_toNat_le] at hc
    have h0 : '0'.toNat = 48 := rfl
    have hc' : 0x30 ≤ c.toNat := hc.1
    by_cases hz : c = 0x30
    · subst hz
      exact ih hds
    · have : c.toNat ≠ 0x30 := fun he => hz (UInt8.toNat_inj.mp he)
      have hne : c.toNat - 48 ≠ 0 := by omega
      simp [significant, digits, hz, h0, hne]

theorem compare_digits {as bs : Bytes} (ha : ∀ c ∈ as, isAsciiDigit c)
    (hb : ∀ c ∈ bs, isAsciiDigit c) : compare (digits as) (digits bs) = compare as bs := by
  induction as generalizing bs with
  | nil => cases bs <;> rfl
  | cons a as ih =>
    cases bs with
    | nil => rfl
    | cons b bs =>
      obtain ⟨ha, has⟩ := List.forall_mem_cons.mp ha
      obtain ⟨hb, hbs⟩ := List.forall_mem_cons.mp hb
      rw [digits, List.map_cons, digits, List.map_cons, List.compare_cons_cons,
        List.compare_cons_cons, ← digits, ← digits, ih has hbs]
      congr 1
      simp only [isAsciiDigit, Bool.and_eq_true, decide_eq_true_eq, UInt8.le_iff_toNat_le] at ha hb
      have ha' : 0x30 ≤ a.toNat := ha.1
      have hb' : 0x30 ≤ b.toNat := hb.1
      have h0 : '0'.toNat = 48 := rfl
      show compareOfLessAndEq (a.toNat - '0'.toNat) (b.toNat - '0'.toNat) = compareOfLessAndEq a b
      simp only [compareOfLessAndEq, UInt8.lt_iff_toNat_lt, ← UInt8.toNat_inj, h0]
      split_ifs <;> first | rfl | omega

theorem length_sub_findIdx? (s : Bytes) :
    s.length - (s.findIdx? (· != 0x30)).getD s.length = (s.dropWhile (· == 0x30)).length := by
  induction s with
  | nil => rfl
  | cons c s ih =>
    by_cases hc : c = 0x30
    · rw [List.findIdx?_cons]
      cases hs : s.findIdx? (· != 0x30) with
      | none => simpa [hc, hs] using ih
      | some i => simpa [hc, hs] using ih
    · simp [List.findIdx?_cons, hc]

theorem compareNumeric_eq {a b : Bytes} (ha : ∀ c ∈ a, isAsciiDigit c)
    (hb : ∀ c ∈ b, isAsciiDigit c) :
    compareNumeric a b = compare (runNumber a) (runNumber b) := by
  have hdrop : ∀ {s : Bytes}, (∀ c ∈ s, isAsciiDigit c) →
      ∀ c ∈ s.dropWhile (· == 0x30), isAsciiDigit c :=
    fun h c hc => h c ((List.dropWhile_sublist _).subset hc)
  rw [runNumber, runNumber, ← digits, ← digits, compare_ofMsd (by decide) (digits_lt ha)
    (digits_lt hb), significant_digits ha, significant_digits hb, digits, digits, List.length_map,
    List.length_map, ← digits, ← digits, compare_digits (hdrop ha) (hdrop hb)]
  simp only [compareNumeric, length_sub_findIdx?]

/-- The run a part starts with. -/
def firstRun (s : Bytes) : List Int × Nat :=
  ((s.takeWhile (!isAsciiDigit ·)).map charWeight,
    runNumber ((s.dropWhile (!isAsciiDigit ·)).takeWhile isAsciiDigit))

theorem runs_headD (s : Bytes) : (runs s).headD ([], 0) = firstRun s := by
  rw [runs]
  split_ifs with h
  · subst h; rfl
  · rfl

theorem runs_tail (s : Bytes) : (runs s).tail = runs (behindRuns s) := by
  rw [runs]
  split_ifs with h
  · subst h; rw [runs]; rfl
  · rfl

theorem verrevcmp_step (s t : Bytes) : verrevcmp s t =
    (cmpRun (firstRun s) (firstRun t)).then (verrevcmp (behindRuns s) (behindRuns t)) := by
  rw [verrevcmp, padLex.step, runs_headD, runs_headD, runs_tail, runs_tail, verrevcmp]

theorem comparePart_step (a b : Bytes) : comparePart a b =
    (cmpRun (firstRun a) (firstRun b)).then
      (if (behindRuns a).isEmpty && (behindRuns b).isEmpty then .eq
        else comparePart (behindRuns a) (behindRuns b)) := by
  have hdigit : ∀ s : Bytes, ∀ c ∈ s.takeWhile isAsciiDigit, isAsciiDigit c :=
    fun s c hc => List.mem_takeWhile_imp hc
  rw [comparePart]
  simp only [behindRuns_eq]
  simp only [takeWhile_eq, compareNondigit_eq,
    compareNumeric_eq (hdigit _) (hdigit _), cmpRun, compareLex, firstRun]
  cases padLex compare 0 ((a.takeWhile (!isAsciiDigit ·)).map charWeight)
    ((b.takeWhile (!isAsciiDigit ·)).map charWeight) with
  | lt => rfl
  | gt => rfl
  | eq =>
    cases compare (runNumber ((a.dropWhile (!isAsciiDigit ·)).takeWhile isAsciiDigit))
      (runNumber ((b.dropWhile (!isAsciiDigit ·)).takeWhile isAsciiDigit)) <;> rfl

/-- The loop is the padded lexicographic order of the runs. -/
theorem comparePart_eq_verrevcmp (a b : Bytes) : comparePart a b = verrevcmp a b := by
  obtain ⟨n, hn⟩ : ∃ n, a.length + b.length < n := ⟨_, Nat.lt_succ_self _⟩
  induction n generalizing a b with
  | zero => exact absurd hn (Nat.not_lt_zero _)
  | succ n ih =>
    rw [comparePart_step, verrevcmp_step]
    congr 1
    split_ifs with h
    · simp only [Bool.and_eq_true, List.isEmpty_iff] at h
      rw [h.1, h.2]
      exact (inferInstance : ReflCmp verrevcmp).compare_self.symm
    · exact ih _ _ (by have := length_behindRuns_add_lt h; omega)

/-! ### The whole version -/

theorem parseU64_toNat (s : Str) : ((parseU64 s).getD 0).toNat =
    if epochNumber s < 2 ^ 64 then epochNumber s else 0 := by
  rw [parseU64, epochNumber]
  by_cases hne : unsigned s = []
  · simp [hne]
  by_cases hall : (unsigned s).all Char.isDigit = true
  · by_cases hlt : decimal (unsigned s) < 2 ^ 64
    · have hmod : decimal (unsigned s) % 2 ^ 64 = decimal (unsigned s) := Nat.mod_eq_of_lt hlt
      simp only [hne, hall, hlt, decide_true, Bool.and_true, ne_eq,
        not_false_eq_true, and_self, if_true]
      simpa [hne] using hmod
    · simp only [hne, hall, hlt, decide_false, Bool.and_false, ne_eq, not_false_eq_true, and_self,
        if_true, if_false]
      rfl
  · simp [hall]

/-- The text before the first colon and behind it. -/
theorem find_colon {v : Str} (h : ':' ∈ v) : ∃ i, find v ':' = some i ∧
    v.take i = v.takeWhile (· ≠ ':') ∧ v.drop (i + 1) = (v.dropWhile (· ≠ ':')).tail := by
  obtain ⟨pre, post, rfl, hpre⟩ := List.eq_append_cons_of_mem h
  refine ⟨pre.length, find_append_cons hpre, ?_, ?_⟩
  · rw [takeWhile_ne_append_cons hpre, List.take_left]
  · rw [dropWhile_ne_append_cons hpre]
    simp

/-- The text before the last hyphen and behind it. -/
theorem rfind_hyphen {v : Str} (h : '-' ∈ v) : ∃ i, rfind v '-' = some i ∧
    v.take i = (v.rdropWhile (· ≠ '-')).dropLast ∧
      v.drop (i + 1) = v.rtakeWhile (· ≠ '-') := by
  obtain ⟨post, pre, hrev, hpost⟩ := List.eq_append_cons_of_mem (List.mem_reverse.mpr h)
  obtain rfl : v = pre.reverse ++ '-' :: post.reverse := by rw [← List.reverse_inj, hrev]; simp
  refine ⟨pre.reverse.length, rfind_append_cons (by simpa using hpost), ?_, ?_⟩
  · rw [List.rdropWhile, hrev, dropWhile_ne_append_cons hpost]
    simp
  · rw [List.rtakeWhile, hrev, takeWhile_ne_append_cons hpost, List.drop_append]
    simp

/-- The version as `split_version` reads it: an epoch too large for a `u64` is lost. -/
def DebVersion.withReadEpoch (v : DebVersion) : DebVersion :=
  { v with epoch := if v.epoch < 2 ^ 64 then v.epoch else 0 }

theorem splitRevision_eq (rest : Str) : splitRevision rest =
    (if '-' ∈ rest then (rest.rdropWhile (· ≠ '-')).dropLast else rest,
      if '-' ∈ rest then rest.rtakeWhile (· ≠ '-') else []) := by
  rw [splitRevision]
  by_cases h : '-' ∈ rest
  · obtain ⟨i, hi, htake, hdrop⟩ := rfind_hyphen h
    rw [hi, if_pos h, if_pos h, ← htake, ← hdrop]
  · rw [rfind_eq_none.mpr h, if_neg h, if_neg h]

theorem splitVersion_read (v : Str) : (DebVersion.read v).withReadEpoch =
    { epoch := (splitVersion v).1.toNat
      upstream := asBytes (splitVersion v).2.1
      revision := asBytes (splitVersion v).2.2 } := by
  rw [splitVersion, splitEpoch, DebVersion.read, DebVersion.withReadEpoch]
  by_cases h : ':' ∈ trim v
  · obtain ⟨i, hi, htake, hdrop⟩ := find_colon h
    simp only [hi, splitRevision_eq, h, if_true, htake, hdrop, parseU64_toNat]
  · simp only [find_eq_none.mpr h, splitRevision_eq, h, if_false]
    rfl

theorem compare_toNat (m n : UInt64) : compare m n = compare m.toNat n.toNat := by
  show compareOfLessAndEq m n = compareOfLessAndEq m.toNat n.toNat
  simp only [compareOfLessAndEq, UInt64.lt_iff_toNat_lt, ← UInt64.toNat_inj]

/-- The code's order is that of the versions as it reads them. -/
theorem compareVersions_eq (a b : Str) : compareVersions a b =
    DebVersion.cmp (DebVersion.read a).withReadEpoch (DebVersion.read b).withReadEpoch := by
  rw [splitVersion_read, splitVersion_read, compareVersions]
  simp only [comparePart_eq_verrevcmp, compare_toNat]
  rfl

instance : TransCmp compareVersions := by
  have : compareVersions = fun a b => DebVersion.cmp ((DebVersion.withReadEpoch ∘ DebVersion.read) a)
      ((DebVersion.withReadEpoch ∘ DebVersion.read) b) := by
    funext a b
    exact compareVersions_eq a b
  rw [this]
  exact transCmp_comap _ _

/-- The epochs of the two versions are read so that their order comes out: they fit a `u64`, or they
are the same, or they are read as the same and the rest of the versions is ordered as they are. -/
def EpochsRead (v w : DebVersion) : Prop :=
  (v.epoch < 2 ^ 64 ∧ w.epoch < 2 ^ 64) ∨ v.epoch = w.epoch ∨
    (v.withReadEpoch.epoch = w.withReadEpoch.epoch ∧
      DebVersion.cmpRest v w = compare v.epoch w.epoch)

theorem then_eq_then_of_ne {m n : Nat} (h : m ≠ n) (o : Ordering) :
    (compare m n).then o = compare m n := by
  rcases Nat.lt_or_gt_of_ne h with h | h
  · rw [Nat.compare_eq_lt.mpr h, Ordering.lt_then]
  · rw [Nat.compare_eq_gt.mpr h, Ordering.gt_then]

/-- An epoch that is lost and one that is read as something else come out the wrong way round. -/
theorem compare_ne_of_epoch_ne {v w : DebVersion} (h : ¬(v.epoch < 2 ^ 64 ∧ w.epoch < 2 ^ 64))
    (hne : v.withReadEpoch.epoch ≠ w.withReadEpoch.epoch) :
    compare v.withReadEpoch.epoch w.withReadEpoch.epoch ≠ compare v.epoch w.epoch := by
  simp only [DebVersion.withReadEpoch] at hne ⊢
  split_ifs at hne ⊢ with hv hw hw
  · exact absurd ⟨hv, hw⟩ h
  · rw [Nat.compare_eq_gt.mpr (by omega), Nat.compare_eq_lt.mpr (by omega)]
    decide
  · rw [Nat.compare_eq_lt.mpr (by omega), Nat.compare_eq_gt.mpr (by omega)]
    decide
  · exact absurd rfl hne

theorem cmp_withReadEpoch_iff (v w : DebVersion) :
    DebVersion.cmp v.withReadEpoch w.withReadEpoch = DebVersion.cmp v w ↔ EpochsRead v w := by
  have hrest : DebVersion.cmpRest v.withReadEpoch w.withReadEpoch = DebVersion.cmpRest v w := rfl
  rw [DebVersion.cmp, compareLex, compareLex, hrest, EpochsRead]
  by_cases hfit : v.epoch < 2 ^ 64 ∧ w.epoch < 2 ^ 64
  · have hv : v.withReadEpoch.epoch = v.epoch := if_pos hfit.1
    have hw : w.withReadEpoch.epoch = w.epoch := if_pos hfit.2
    rw [hv, hw]
    exact iff_of_true rfl (Or.inl hfit)
  rw [or_iff_right hfit]
  by_cases heq : v.epoch = w.epoch
  · have hread : v.withReadEpoch.epoch = w.withReadEpoch.epoch := by
      simp only [DebVersion.withReadEpoch, heq]
    rw [heq, hread, Nat.compare_eq_eq.mpr rfl, Nat.compare_eq_eq.mpr rfl]
    exact iff_of_true rfl (Or.inl rfl)
  rw [or_iff_right heq, then_eq_then_of_ne heq]
  by_cases hread : v.withReadEpoch.epoch = w.withReadEpoch.epoch
  · rw [Nat.compare_eq_eq.mpr hread, Ordering.eq_then, and_iff_right hread]
  · rw [then_eq_then_of_ne hread]
    exact iff_of_false (compare_ne_of_epoch_ne hfit hread) fun h => hread h.1

/-- `compare_versions` is a total preorder on all strings, and it is the order of `dpkg` on two
versions exactly when their epochs are read. -/
theorem compareVersions_order (a b c : Str) :
    compareVersions a b = (compareVersions b a).swap ∧
      ((compareVersions a b).isLE → (compareVersions b c).isLE → (compareVersions a c).isLE) ∧
      (compareVersions a b = DebVersion.cmp (DebVersion.read a) (DebVersion.read b) ↔
        EpochsRead (DebVersion.read a) (DebVersion.read b)) :=
  ⟨OrientedCmp.eq_swap, TransCmp.isLE_trans, by
    rw [compareVersions_eq, cmp_withReadEpoch_iff]⟩

/-- An epoch of `2 ^ 64` is compared as no epoch. -/
theorem compareVersions_ne_cmp :
    compareVersions "18446744073709551616:1".toList "1:1".toList ≠
      DebVersion.cmp (DebVersion.read "18446744073709551616:1".toList)
        (DebVersion.read "1:1".toList) := by
  decide +kernel

end Boot2Deb.Debdep
