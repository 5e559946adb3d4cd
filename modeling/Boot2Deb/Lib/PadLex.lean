import Mathlib.Order.Compare

/-!
# Padded lexicographic order

`padLex cmp p` compares two lists element by element as if the shorter one went on with `p` for
ever. An order of this kind puts an element that is below `p` before the end of the list. The
comparison is oriented and transitive when `cmp` is, and a list may be padded with more `p`s
without changing any comparison.
-/

namespace Boot2Deb
open Std

variable {α : Type*}

/-- Lexicographic comparison under `cmp`, a missing element read as `p`. -/
def padLex (cmp : α → α → Ordering) (p : α) : List α → List α → Ordering
  | [], bs => bs.foldr (fun b o => (cmp p b).then o) .eq
  | a :: as, bs => (cmp a (bs.headD p)).then (padLex cmp p as bs.tail)

namespace padLex
variable {cmp : α → α → Ordering} {p : α}

@[simp] theorem nil_nil : padLex cmp p [] [] = .eq := rfl

@[simp] theorem nil_cons (b : α) (bs : List α) :
    padLex cmp p [] (b :: bs) = (cmp p b).then (padLex cmp p [] bs) := rfl

@[simp] theorem cons_nil (a : α) (as : List α) :
    padLex cmp p (a :: as) [] = (cmp a p).then (padLex cmp p as []) := rfl

@[simp] theorem cons_cons (a b : α) (as bs : List α) :
    padLex cmp p (a :: as) (b :: bs) = (cmp a b).then (padLex cmp p as bs) := rfl

/-- One step of the comparison, whichever of the lists have ended. -/
theorem step [ReflCmp cmp] (as bs : List α) : padLex cmp p as bs =
    (cmp (as.headD p) (bs.headD p)).then (padLex cmp p as.tail bs.tail) := by
  cases as <;> cases bs <;> simp [ReflCmp.compare_self]

theorem self [ReflCmp cmp] (as : List α) : padLex cmp p as as = .eq := by
  induction as with
  | nil => rfl
  | cons a as ih => simp [ih, ReflCmp.compare_self]

theorem eq_swap [hcmp : OrientedCmp cmp] (as bs : List α) :
    padLex cmp p as bs = (padLex cmp p bs as).swap := by
  induction as generalizing bs with
  | nil =>
    induction bs with
    | nil => rfl
    | cons b bs ih =>
      rw [nil_cons, cons_nil, ih, Ordering.swap_then, ← hcmp.eq_swap]
  | cons a as ih =>
    cases bs with
    | nil => rw [nil_cons, cons_nil, ih, Ordering.swap_then, ← hcmp.eq_swap]
    | cons b bs => rw [cons_cons, cons_cons, ih, Ordering.swap_then,
        ← hcmp.eq_swap]

theorem isLE_trans [TransCmp cmp] {as bs cs : List α} (hab : (padLex cmp p as bs).isLE)
    (hbc : (padLex cmp p bs cs).isLE) : (padLex cmp p as cs).isLE := by
  -- the lists end one after another: induct on a bound for all three lengths
  obtain ⟨n, ha, hb, hc⟩ : ∃ n, as.length ≤ n ∧ bs.length ≤ n ∧ cs.length ≤ n :=
    ⟨as.length + bs.length + cs.length, by omega, by omega, by omega⟩
  induction n generalizing as bs cs with
  | zero =>
    rw [List.length_eq_zero_iff.mp (Nat.le_zero.mp ha),
      List.length_eq_zero_iff.mp (Nat.le_zero.mp hc)]
    rfl
  | succ n ih =>
    rw [step, Ordering.isLE_then_iff_and] at hab hbc ⊢
    have htail : ∀ {l : List α}, l.length ≤ n + 1 → l.tail.length ≤ n := fun {l} h => by
      rw [List.length_tail]; omega
    refine ⟨TransCmp.isLE_trans hab.1 hbc.1, ?_⟩
    rcases hab.2 with hab' | hab'
    · exact Or.inl (TransCmp.lt_of_lt_of_isLE hab' hbc.1)
    · rcases hbc.2 with hbc' | hbc'
      · exact Or.inl (TransCmp.lt_of_isLE_of_lt hab.1 hbc')
      · exact Or.inr (ih hab' hbc' (htail ha) (htail hb) (htail hc))

instance [OrientedCmp cmp] : OrientedCmp (padLex cmp p) := ⟨fun {_ _} => eq_swap _ _⟩

instance [TransCmp cmp] : TransCmp (padLex cmp p) := ⟨isLE_trans⟩

/-- The comparison as a loop over the positions of the longer list. -/
theorem eq_foldr_range [ReflCmp cmp] (as bs : List α) : padLex cmp p as bs =
    (List.range (max as.length bs.length)).foldr
      (fun i rest => (cmp (as[i]?.getD p) (bs[i]?.getD p)).then rest) .eq := by
  obtain ⟨n, hn⟩ : ∃ n, n = max as.length bs.length := ⟨_, rfl⟩
  rw [← hn]
  induction n generalizing as bs with
  | zero =>
    rw [List.length_eq_zero_iff.mp (show as.length = 0 by omega),
      List.length_eq_zero_iff.mp (show bs.length = 0 by omega)]
    rfl
  | succ n ih =>
    rw [step, List.range_succ_eq_map, List.foldr_cons, List.foldr_map,
      ih as.tail bs.tail (by simp only [List.length_tail]; omega)]
    cases as <;> cases bs <;> simp

end padLex

/-- A comparison read through a map is as transitive as it was. -/
theorem transCmp_comap {β : Type*} (cmp : β → β → Ordering) [hcmp : TransCmp cmp]
    (f : α → β) :
    TransCmp fun a b => cmp (f a) (f b) where
  eq_swap := hcmp.eq_swap
  isLE_trans := hcmp.isLE_trans

end Boot2Deb
