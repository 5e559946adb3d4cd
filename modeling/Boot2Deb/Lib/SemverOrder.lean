import Mathlib.Data.List.TakeWhile
import Boot2Deb.Lib.PadLex
import Boot2Deb.Lib.Semver

/-!
# The order of semantic versions

Numbers decide first, then the pre-releases, the build identifiers last. An identifier of digits is a
number; every other one is compared as text, digits at its end included. Two runs of digits are in
their order as text when their leading digits are, as many as both have, and the shorter one where
these agree.
-/

namespace Boot2Deb.Semver
open Rust
open Std (TransCmp)

/-- Precedence, which disregards build identifiers. -/
def precedence : Version → Version → Ordering :=
  compareLex (compareOn Version.major) <| compareLex (compareOn Version.minor) <|
    compareLex (compareOn Version.patch) fun v w => comparePre v.pre w.pre

/-- An implementation of the total order. -/
structure VersionOrder where
  cmp : Version → Version → Ordering
  cmpBuild : Str → Str → Ordering

/-- What the library documents of it. -/
structure VersionOrder.Documented (O : VersionOrder) : Prop where
  transBuild : TransCmp O.cmpBuild
  cmp_eq : ∀ v w, O.cmp v w = (precedence v w).then (O.cmpBuild v.build w.build)

/-! ### The comparisons are orders -/

theorem compareIdentifier_eq : compareIdentifier =
    compareLex (compareOn fun a => !a.all Char.isDigit) (compareLex
      (compareOn fun a => if a.all Char.isDigit then decimal a else 0)
      (compareOn fun a => if a.all Char.isDigit then [] else a)) := by
  funext a b
  unfold compareIdentifier
  cases ha : a.all Char.isDigit <;> cases hb : b.all Char.isDigit
  all_goals simp [compareLex, compareOn, ha, hb]
  · rfl
  · rfl

instance : TransCmp compareIdentifier := by
  rw [compareIdentifier_eq]
  infer_instance

theorem comparePre_eq : comparePre = compareLex (compareOn List.isEmpty) fun a b =>
    List.compareLex compareIdentifier (a.splitOn '.') (b.splitOn '.') := by
  funext a b
  rcases a with - | ⟨c, a⟩ <;> rcases b with - | ⟨d, b⟩
  · rfl
  · rfl
  · rfl
  · simp [comparePre, compareLex, compareOn]

instance : TransCmp comparePre := by
  have hpieces : TransCmp fun a b : Str =>
      List.compareLex compareIdentifier (a.splitOn '.') (b.splitOn '.') :=
    transCmp_comap (List.compareLex compareIdentifier) (List.splitOn '.')
  rw [comparePre_eq]
  infer_instance

instance : TransCmp precedence := by
  have hpre : TransCmp fun v w : Version => comparePre v.pre w.pre :=
    transCmp_comap comparePre Version.pre
  unfold precedence
  infer_instance

namespace VersionOrder
variable {O : VersionOrder}

theorem transCmp (h : O.Documented) : TransCmp O.cmp := by
  have htrans := h.transBuild
  have hbuild : TransCmp fun v w : Version => O.cmpBuild v.build w.build :=
    transCmp_comap O.cmpBuild Version.build
  have heq : O.cmp = compareLex precedence fun v w => O.cmpBuild v.build w.build := by
    funext v w
    exact h.cmp_eq v w
  rw [heq]
  infer_instance

/-- Identifiers as of a pre-release; of two spellings of a number the shorter first. -/
def evaluating : VersionOrder where
  cmp v w := (precedence v w).then (List.compareLex
    (compareLex compareIdentifier (compareOn List.length)) (v.build.splitOn '.') (w.build.splitOn '.'))
  cmpBuild a b := List.compareLex (compareLex compareIdentifier (compareOn List.length))
    (a.splitOn '.') (b.splitOn '.')

theorem evaluating_documented : evaluating.Documented where
  transBuild := transCmp_comap
    (List.compareLex (compareLex compareIdentifier (compareOn List.length))) (List.splitOn '.')
  cmp_eq _ _ := rfl

end VersionOrder

/-! ### Digits as text -/

/-- What decides between two runs of digits as text. -/
def LeadingBelow (x y : Str) : Prop :=
  let k := min x.length y.length
  decimal (x.take k) < decimal (y.take k) ∨
    decimal (x.take k) = decimal (y.take k) ∧ x.length < y.length

instance : DecidableRel LeadingBelow := fun x y => by
  unfold LeadingBelow
  infer_instance

theorem leadingBelow_of_length {x y : Str} (h : x.length = y.length) :
    LeadingBelow x y ↔ decimal x < decimal y := by
  simp [LeadingBelow, h, List.take_of_length_le h.le]

/-- The common length first, the longer list behind the other where they agree on it. -/
theorem compare_eq_take {α : Type*} [Ord α] (x y : List α) : compare x y =
    (compare (x.take (min x.length y.length)) (y.take (min x.length y.length))).then
      (compare x.length y.length) := by
  induction x generalizing y with
  | nil =>
    rcases y with - | ⟨d, y⟩
    · simp
    · simp [List.compare_nil_cons, Nat.compare_eq_lt.mpr]
  | cons c x ih =>
    rcases y with - | ⟨d, y⟩
    · simp [List.compare_cons_nil, Nat.compare_eq_gt.mpr]
    · have hlen : compare (x.length + 1) (y.length + 1) = compare x.length y.length := by
        simp [Nat.compare_eq_ite_lt]
      rw [List.length_cons, List.length_cons, Nat.succ_min_succ, List.take_succ_cons,
        List.take_succ_cons, List.compare_cons_cons, List.compare_cons_cons, ih y, hlen,
        Ordering.then_assoc]

theorem decimal_cons (c : Char) (x : Str) :
    decimal (c :: x) = (c.toNat - '0'.toNat) * 10 ^ x.length + decimal x := by
  induction x using List.reverseRecOn with
  | nil => simp [decimal]
  | append_singleton x d ih =>
    rw [← List.cons_append, decimal_append_singleton, decimal_append_singleton, ih,
      List.length_append, List.length_singleton, pow_succ]
    ring

theorem decimal_lt_pow {x : Str} (h : x.all Char.isDigit) : decimal x < 10 ^ x.length := by
  induction x with
  | nil => simp [decimal]
  | cons c x ih =>
    simp only [List.all_cons, Bool.and_eq_true] at h
    have hx := ih h.2
    have hc : c.toNat - '0'.toNat ≤ 9 := by
      obtain ⟨-, hle⟩ := Char.isDigit_iff_toNat.mp h.1
      exact Nat.sub_le_sub_right hle _
    rw [decimal_cons, List.length_cons, pow_succ]
    have := Nat.mul_le_mul_right (10 ^ x.length) hc
    omega

/-- Runs of one length are in the order of their numbers. -/
theorem compare_digits {x y : Str} (hx : x.all Char.isDigit) (hy : y.all Char.isDigit)
    (hlen : x.length = y.length) : compare x y = compare (decimal x) (decimal y) := by
  induction x generalizing y with
  | nil =>
    obtain rfl := List.eq_nil_of_length_eq_zero hlen.symm
    rfl
  | cons c x ih =>
    rcases y with - | ⟨d, y⟩
    · simp at hlen
    · simp only [List.all_cons, Bool.and_eq_true] at hx hy
      have hlen : x.length = y.length := by simpa using hlen
      have hxlt := decimal_lt_pow hx.2
      have hylt := decimal_lt_pow hy.2
      obtain ⟨hc, -⟩ := Char.isDigit_iff_toNat.mp hx.1
      obtain ⟨hd, -⟩ := Char.isDigit_iff_toNat.mp hy.1
      rw [List.compare_cons_cons, ih hx.2 hy.2 hlen, decimal_cons, decimal_cons, ← hlen]
      rw [← hlen] at hylt
      rcases Nat.lt_trichotomy c.toNat d.toNat with hnat | heq | hnat
      · have hcd : c < d := hnat
        have hmul := Nat.mul_le_mul_right (10 ^ x.length)
          (show c.toNat - '0'.toNat + 1 ≤ d.toNat - '0'.toNat by omega)
        rw [compare_lt_iff_lt.mpr hcd, Ordering.lt_then, eq_comm, Nat.compare_eq_lt]
        rw [Nat.succ_mul] at hmul
        omega
      · obtain rfl := Char.toNat_inj.mp heq
        rw [compare_eq_iff_eq.mpr rfl, Ordering.eq_then, Nat.compare_eq_ite_lt, Nat.compare_eq_ite_lt]
        simp only [Nat.add_lt_add_iff_left]
      · have hcd : d < c := hnat
        have hmul := Nat.mul_le_mul_right (10 ^ x.length)
          (show d.toNat - '0'.toNat + 1 ≤ c.toNat - '0'.toNat by omega)
        rw [compare_gt_iff_gt.mpr hcd, Ordering.gt_then, eq_comm, Nat.compare_eq_gt]
        rw [Nat.succ_mul] at hmul
        omega

theorem compare_digits_lt {x y : Str} (hx : x.all Char.isDigit) (hy : y.all Char.isDigit) :
    compare x y = .lt ↔ LeadingBelow x y := by
  have htake (z : Str) (hz : z.all Char.isDigit) (k : ℕ) : (z.take k).all Char.isDigit := by
    rw [List.all_eq_true] at hz ⊢
    exact fun c hc => hz c (List.mem_of_mem_take hc)
  rw [compare_eq_take, compare_digits (htake x hx _) (htake y hy _) (by simp), LeadingBelow,
    Ordering.then_eq_lt, Nat.compare_eq_lt, Nat.compare_eq_eq, Nat.compare_eq_lt]

end Boot2Deb.Semver
