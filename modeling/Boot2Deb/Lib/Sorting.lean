import Mathlib.Data.List.Sort
import Mathlib.Data.List.Nodup

/-!
# Sorting by a key

What a sort by a key leaves of the order of the rows: nothing where the keys are distinct, and of
the keys themselves nothing in any case.
-/

namespace Boot2Deb

variable {α κ : Type*} [Ord κ] {key : α → κ} {l l' : List α}

/-- The order `Ord` gives a type. -/
def OrdLe (a b : κ) : Prop := (compare a b).isLE

instance : DecidableRel (OrdLe (κ := κ)) := fun a b =>
  inferInstanceAs (Decidable ((compare a b).isLE = true))

/-- A list sorted by the key. -/
def sortByKey (key : α → κ) (l : List α) : List α := l.insertionSort fun a b => OrdLe (key a) (key b)

theorem mem_sortByKey {a : α} : a ∈ sortByKey key l ↔ a ∈ l := List.mem_insertionSort _

theorem sortByKey_perm (key : α → κ) (l : List α) : (sortByKey key l).Perm l :=
  List.perm_insertionSort _ l

section Order
variable [Std.TransOrd κ]

instance : IsTrans κ OrdLe := ⟨fun _ _ _ hab hbc => Std.TransCmp.isLE_trans hab hbc⟩

instance : Std.Total (OrdLe (κ := κ)) :=
  ⟨fun a b => by
    show (compare a b).isLE ∨ (compare b a).isLE
    rw [← Std.OrientedCmp.isGE_iff_isLE (a := a)]
    cases compare a b <;> simp⟩

theorem pairwise_sortByKey (key : α → κ) (l : List α) :
    (sortByKey key l).Pairwise fun a b => OrdLe (key a) (key b) := by
  have htrans : IsTrans α fun a b => OrdLe (key a) (key b) :=
    ⟨fun _ _ _ hab hbc => IsTrans.trans _ _ _ hab hbc⟩
  have htotal : Std.Total fun a b : α => OrdLe (key a) (key b) :=
    ⟨fun a b => Std.Total.total (key a) (key b)⟩
  exact List.pairwise_insertionSort _ l

variable [Std.LawfulEqOrd κ]

instance : Std.Antisymm (OrdLe (κ := κ)) :=
  ⟨fun _ _ hab hba => Std.LawfulEqCmp.eq_of_compare (Std.OrientedCmp.isLE_antisymm hab hba)⟩

/-- The sorted keys depend on the set of rows only. -/
theorem map_sortByKey_perm (h : l.Perm l') : (sortByKey key l).map key = (sortByKey key l').map key := by
  have hperm : ((sortByKey key l).map key).Perm ((sortByKey key l').map key) :=
    ((sortByKey_perm key l).trans (h.trans (sortByKey_perm key l').symm)).map key
  have hleft := List.pairwise_map.mpr (pairwise_sortByKey key l)
  have hright := List.pairwise_map.mpr (pairwise_sortByKey key l')
  exact hperm.eq_of_pairwise (fun a b _ _ hab hba => Std.Antisymm.antisymm a b hab hba) hleft hright

/-- Where the keys are distinct, so do the sorted rows. -/
theorem sortByKey_congr (h : l.Perm l') (hn : (l.map key).Nodup) :
    sortByKey key l = sortByKey key l' := by
  have hperm : (sortByKey key l).Perm (sortByKey key l') :=
    (sortByKey_perm key l).trans (h.trans (sortByKey_perm key l').symm)
  refine hperm.eq_of_pairwise ?_ (pairwise_sortByKey key l) (pairwise_sortByKey key l')
  intro a b ha hb hab hba
  have hb' : b ∈ l := h.mem_iff.mpr (mem_sortByKey.mp hb)
  exact List.inj_on_of_nodup_map hn (mem_sortByKey.mp ha) hb' (Std.Antisymm.antisymm _ _ hab hba)

end Order

section Comparison
variable {cmp : α → α → Ordering}

/-- `sort_by` of a comparison, a stable sort. -/
def sortBy (cmp : α → α → Ordering) (l : List α) : List α :=
  l.insertionSort fun a b => (cmp a b).isLE

theorem sortBy_perm (cmp : α → α → Ordering) (l : List α) : (sortBy cmp l).Perm l :=
  List.perm_insertionSort _ l

theorem pairwise_sortBy [Std.TransCmp cmp] (l : List α) :
    (sortBy cmp l).Pairwise fun a b => (cmp a b).isLE := by
  have htrans : IsTrans α fun a b => (cmp a b).isLE = true :=
    ⟨fun _ _ _ hab hbc => Std.TransCmp.isLE_trans hab hbc⟩
  have htotal : Std.Total fun a b => (cmp a b).isLE = true := by
    refine ⟨fun a b => ?_⟩
    rw [← Std.OrientedCmp.isGE_iff_isLE (a := a)]
    cases cmp a b <;> simp
  exact List.pairwise_insertionSort _ l

end Comparison

end Boot2Deb
