import Mathlib.Data.Nat.Digits.Lemmas
import Mathlib.Data.List.Lex

/-!
# Numbers of a fixed width

Decimals filled up with zeros to one width are in the order of their numbers, and so are texts of
such fields one after another.
-/

namespace Boot2Deb

/-- A number with zeros before it, to the width. -/
def padded (width n : ℕ) : List Char :=
  List.replicate (width - (Nat.toDigits 10 n).length) '0' ++ Nat.toDigits 10 n

/-- Of two texts of one length, what stands behind them does not matter. -/
theorem append_lt_append {α : Type*} [LT α] {a b : List α} (hlength : a.length = b.length)
    (h : a < b) (u v : List α) : a ++ u < b ++ v := by
  induction a generalizing b with
  | nil =>
    rw [List.length_nil, eq_comm, List.length_eq_zero_iff] at hlength
    rw [hlength] at h
    exact absurd h (List.not_lt_nil _)
  | cons c a ih =>
    cases b with
    | nil => exact absurd h (List.not_lt_nil _)
    | cons d b =>
      rw [List.cons_append, List.cons_append, List.cons_lt_cons_iff]
      rcases List.cons_lt_cons_iff.mp h with hcd | ⟨rfl, htail⟩
      · exact .inl hcd
      · exact .inr ⟨rfl, ih (Nat.succ.inj hlength) htail⟩

theorem padded_succ (width n : ℕ) :
    padded (width + 2) n = padded (width + 1) (n / 10) ++ [(n % 10).digitChar] := by
  unfold padded
  by_cases h : n < 10
  · rw [Nat.toDigits_of_lt_base h, Nat.div_eq_of_lt h, Nat.toDigits_zero, Nat.mod_eq_of_lt h]
    simp only [List.length_singleton, Nat.add_sub_cancel, Nat.reduceSubDiff]
    rw [List.replicate_succ']
  · rw [Nat.toDigits_of_base_le (by decide) (by omega), List.length_append, List.length_singleton,
      List.append_assoc, show ∀ k, width + 2 - (k + 1) = width + 1 - k by omega]

theorem length_padded {width n : ℕ} (h : n < 10 ^ (width + 1)) :
    (padded (width + 1) n).length = width + 1 := by
  induction width generalizing n with
  | zero =>
    rw [padded, Nat.toDigits_of_lt_base (by simpa using h)]
    rfl
  | succ width ih =>
    rw [padded_succ, List.length_append, ih (by rw [pow_succ] at h; omega), List.length_singleton]

theorem padded_lt {width n m : ℕ} (h : n < m) (hm : m < 10 ^ (width + 1)) :
    padded (width + 1) n < padded (width + 1) m := by
  have hdigit : ∀ b < 10, ∀ a < b, Nat.digitChar a < Nat.digitChar b := by decide
  induction width generalizing n m with
  | zero =>
    have hm : m < 10 := by simpa using hm
    rw [padded, padded, Nat.toDigits_of_lt_base (by omega), Nat.toDigits_of_lt_base hm]
    exact List.cons_lt_cons_iff.mpr (.inl (hdigit m hm n h))
  | succ width ih =>
    rw [pow_succ] at hm
    rw [padded_succ, padded_succ]
    by_cases htens : n / 10 < m / 10
    · refine append_lt_append ?_ (ih htens (by omega)) _ _
      rw [length_padded (by omega), length_padded (by omega)]
    · rw [show n / 10 = m / 10 by omega]
      refine List.append_left_lt (List.cons_lt_cons_iff.mpr (.inl ?_))
      exact hdigit _ (Nat.mod_lt m (by decide)) _ (by omega)

/-- Of two texts that begin with a number of one width, the smaller number's is the smaller. -/
theorem padded_append_lt {width n m : ℕ} {u v : List Char} (hm : m < 10 ^ (width + 1))
    (h : n < m ∨ (n = m ∧ u < v)) : padded (width + 1) n ++ u < padded (width + 1) m ++ v := by
  rcases h with h | ⟨rfl, h⟩
  · refine append_lt_append ?_ (padded_lt h hm) u v
    rw [length_padded (h.trans hm), length_padded hm]
  · exact List.append_left_lt h

end Boot2Deb
