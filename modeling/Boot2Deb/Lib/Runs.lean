import Mathlib.Data.List.Nodup
import Boot2Deb.Rust.Text

/-!
# Runs of equal elements

`dedup` leaves one of each run of equal elements: the same elements are there, and an element is
there once exactly if all its places are in one run (`count_dedup_le_one_iff`).
-/

namespace Boot2Deb.Lib
open Rust

variable {α : Type} {a p : α} {l : List α}

/-- The places of an element in a list are next to one another. -/
def InOneRun (p : α) (l : List α) : Prop :=
  ∃ front n back, l = front ++ List.replicate n p ++ back ∧ p ∉ front ∧ p ∉ back

theorem inOneRun_of_not_mem (h : p ∉ l) : InOneRun p l := ⟨l, 0, [], by simp, h, List.not_mem_nil⟩

theorem inOneRun_cons_of_ne (h : p ≠ a) : InOneRun p (a :: l) ↔ InOneRun p l := by
  constructor
  · rintro ⟨front, n, back, hl, hfront, hback⟩
    cases front with
    | cons b front =>
      obtain ⟨-, rfl⟩ := List.cons.inj hl
      exact ⟨front, n, back, rfl, fun hmem => hfront (List.mem_cons_of_mem _ hmem), hback⟩
    | nil =>
      cases n with
      | zero =>
        obtain rfl : a :: l = back := hl
        exact inOneRun_of_not_mem fun hmem => hback (List.mem_cons_of_mem _ hmem)
      | succ n => exact absurd (List.cons.inj hl).1.symm h
  · rintro ⟨front, n, back, rfl, hfront, hback⟩
    exact ⟨a :: front, n, back, rfl, by simp [h, hfront], hback⟩

/-- One more of the first element is in its run. -/
theorem inOneRun_cons_cons : InOneRun p (p :: p :: l) ↔ InOneRun p (p :: l) := by
  constructor
  · rintro ⟨front, n, back, hl, hfront, hback⟩
    cases front with
    | cons b front => exact absurd ((List.cons.inj hl).1 ▸ List.mem_cons_self) hfront
    | nil =>
      cases n with
      | zero =>
        obtain rfl : p :: p :: l = back := hl
        exact absurd List.mem_cons_self hback
      | succ n => exact ⟨[], n, back, (List.cons.inj hl).2, List.not_mem_nil, hback⟩
  · rintro ⟨front, n, back, hl, hfront, hback⟩
    cases front with
    | cons b front => exact absurd ((List.cons.inj hl).1 ▸ List.mem_cons_self) hfront
    | nil => exact ⟨[], n + 1, back, congrArg (p :: ·) hl, List.not_mem_nil, hback⟩

/-- Behind an end of its run an element is not there again. -/
theorem inOneRun_cons_iff_not_mem (h : l.head? ≠ some p) : InOneRun p (p :: l) ↔ p ∉ l := by
  constructor
  · rintro ⟨front, n, back, hl, hfront, hback⟩
    cases front with
    | cons b front => exact absurd ((List.cons.inj hl).1 ▸ List.mem_cons_self) hfront
    | nil =>
      cases n with
      | zero =>
        obtain rfl : p :: l = back := hl
        exact absurd List.mem_cons_self hback
      | succ n =>
        cases n with
        | zero =>
          obtain ⟨-, rfl⟩ := List.cons.inj hl
          exact hback
        | succ n => exact absurd (by rw [(List.cons.inj hl).2]; rfl) h
  · intro hl
    exact ⟨[], 1, l, rfl, List.not_mem_nil, hl⟩

variable [DecidableEq α]

/-- An element is left once where it was in one run. -/
theorem count_dedup_le_one_iff : (dedup l).count p ≤ 1 ↔ InOneRun p l := by
  fun_induction dedup l with
  | case1 => exact iff_of_true (Nat.zero_le 1) (inOneRun_of_not_mem List.not_mem_nil)
  | case2 a =>
    refine iff_of_true List.count_le_length ?_
    rcases eq_or_ne p a with rfl | h
    · exact (inOneRun_cons_iff_not_mem (by simp)).mpr List.not_mem_nil
    · exact (inOneRun_cons_of_ne h).mpr (inOneRun_of_not_mem List.not_mem_nil)
  | case3 b l ih =>
    rcases eq_or_ne p b with rfl | h
    · rw [ih, inOneRun_cons_cons]
    · exact ih.trans (inOneRun_cons_of_ne h).symm
  | case4 a b l hne ih =>
    rcases eq_or_ne p a with rfl | h
    · have hhead : (b :: l).head? ≠ some p := fun h => hne (Option.some.inj h).symm
      rw [inOneRun_cons_iff_not_mem hhead, List.count_cons_self, ← mem_dedup, ← List.count_eq_zero]
      omega
    · rw [List.count_cons_of_ne h.symm, ih, inOneRun_cons_of_ne h]

/-- Of the elements of a kind none is left twice exactly if each was in one run. -/
theorem nodup_filter_dedup_iff {q : α → Bool} :
    ((dedup l).filter q).Nodup ↔ ∀ p ∈ l, q p → InOneRun p l := by
  rw [List.nodup_iff_count_le_one]
  constructor
  · intro h p _ hq
    have hcount := h p
    rwa [List.count_filter hq, count_dedup_le_one_iff] at hcount
  · intro h p
    by_cases hq : q p
    · rw [List.count_filter hq, count_dedup_le_one_iff]
      by_cases hp : p ∈ l
      · exact h p hp hq
      · exact inOneRun_of_not_mem hp
    · rw [List.count_eq_zero_of_not_mem fun hmem => hq (List.of_mem_filter hmem)]
      exact Nat.zero_le 1

end Boot2Deb.Lib
