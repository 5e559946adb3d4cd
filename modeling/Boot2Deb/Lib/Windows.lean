import Mathlib.Data.List.Infix

/-!
# Windows of a list

The contiguous parts of a fixed length, from the left.
-/

namespace Boot2Deb

variable {α : Type*} {n : ℕ} {l w : List α}

/-- Every contiguous part of `n` elements. -/
def windows (n : ℕ) : List α → List (List α)
  | [] => []
  | a :: l => if n ≤ l.length + 1 then (a :: l).take n :: windows n l else []

theorem mem_windows (hn : 0 < n) : w ∈ windows n l ↔ w.length = n ∧ w <:+: l := by
  induction l with
  | nil =>
    refine iff_of_false List.not_mem_nil ?_
    rintro ⟨hlen, hw⟩
    rw [List.infix_nil.mp hw] at hlen
    exact hn.ne hlen
  | cons a l ih =>
    rw [windows, List.infix_cons_iff]
    split_ifs with hle
    · rw [List.mem_cons, ih]
      constructor
      · rintro (rfl | ⟨hlen, hw⟩)
        · exact ⟨List.length_take_of_le hle, .inl (List.take_prefix ..)⟩
        · exact ⟨hlen, .inr hw⟩
      · rintro ⟨hlen, hw | hw⟩
        · exact .inl (hlen ▸ (List.prefix_iff_eq_take.mp hw))
        · exact .inr ⟨hlen, hw⟩
    · refine iff_of_false List.not_mem_nil ?_
      rintro ⟨hlen, hw | hw⟩
      · have := hw.length_le
        rw [List.length_cons] at this
        omega
      · have := hw.length_le
        omega

end Boot2Deb
