import Mathlib.Data.List.TakeWhile
import Mathlib.Order.Compare

/-!
# Lists in pre-order

Paths compared element by element stand in pre-order: every path whose elements begin with those of
`d` comes after `d` and before every other path above `d`. In a list that rises strictly in this
order, the paths below one of them are therefore one block right behind it.
-/

namespace Boot2Deb

variable {α β : Type*} [Ord α] [Std.LawfulEqOrd α]

theorem isLE_of_prefix {d x : List α} (h : d <+: x) : (compare d x).isLE := by
  obtain ⟨rest, rfl⟩ := h
  induction d with
  | nil => cases rest <;> simp
  | cons a d ih => simpa [List.compare_cons_cons, Std.ReflCmp.compare_self] using ih

variable [Std.TransOrd α]

/-- Nothing that does not begin with `d` stands between `d` and what does. -/
theorem prefix_of_between {d x y : List α} (hdx : (compare d x).isLE) (hxy : (compare x y).isLE)
    (hy : d <+: y) : d <+: x := by
  induction d generalizing x y with
  | nil => exact List.nil_prefix
  | cons a d ih =>
    obtain ⟨rest, rfl⟩ := hy
    rcases x with - | ⟨b, x⟩
    · simp at hdx
    · rw [List.compare_cons_cons, Ordering.isLE_then_iff_or] at hdx
      rw [List.cons_append, List.compare_cons_cons, Ordering.isLE_then_iff_or] at hxy
      have hab : (compare a b).isLE := by
        rcases hdx with h | ⟨h, -⟩ <;> simp [h]
      have hba : (compare b a).isLE := by
        rcases hxy with h | ⟨h, -⟩ <;> simp [h]
      obtain rfl : a = b := Std.LawfulEqCmp.eq_of_compare (Std.OrientedCmp.isLE_antisymm hab hba)
      have hself : compare a a = .eq := Std.ReflCmp.compare_self
      have hdx' : (compare d x).isLE := by simpa [hself] using hdx
      have hxy' : (compare x (d ++ rest)).isLE := by simpa [hself] using hxy
      rw [List.cons_prefix_cons]
      exact ⟨rfl, ih hdx' hxy' (List.prefix_append d rest)⟩

/-- Behind a row stand the rows whose key begins with its key, and no such row stands elsewhere. -/
theorem exists_block {key : β → List α} {l front back : List β} {d : β}
    (h : l.Pairwise fun a b => compare (key a) (key b) = .lt) (hl : l = front ++ d :: back) :
    ∃ block rest, back = block ++ rest ∧ (∀ e ∈ block, key d <+: key e) ∧
      ∀ e ∈ front ++ rest, ¬key d <+: key e := by
  classical
  subst hl
  obtain ⟨-, hback, hfront⟩ := List.pairwise_append.mp h
  obtain ⟨hd, hback⟩ := List.pairwise_cons.mp hback
  let below : β → Bool := fun e => decide (key d <+: key e)
  refine ⟨back.takeWhile below, back.dropWhile below, List.takeWhile_append_dropWhile.symm, ?_, ?_⟩
  · intro e he
    exact of_decide_eq_true (List.mem_takeWhile_imp (p := below) he)
  · intro e he hpre
    rcases List.mem_append.mp he with he | he
    · have hlt := hfront e he d List.mem_cons_self
      have hle := isLE_of_prefix hpre
      rw [@Std.OrientedCmp.eq_swap _ compare, hlt] at hle
      simp at hle
    · -- the first row that is not below stands between `d` and `e`
      rcases hdrop : back.dropWhile below with - | ⟨r, rest⟩
      · simp [hdrop] at he
      · have hnot : ¬key d <+: key r := by
          have hne : back.dropWhile below ≠ [] := by simp [hdrop]
          simpa [hdrop, below] using List.head_dropWhile_not below hne
        have hmem : ∀ x ∈ r :: rest, x ∈ back := by
          intro x hx
          exact (List.dropWhile_suffix below).subset (hdrop ▸ hx)
        have hsorted : (r :: rest).Pairwise fun a b => compare (key a) (key b) = .lt :=
          hback.sublist (hdrop ▸ (List.dropWhile_suffix below).sublist)
        rw [hdrop] at he
        rcases List.mem_cons.mp he with rfl | he
        · exact hnot hpre
        · refine hnot (prefix_of_between ?_ ?_ hpre)
          · simp [hd r (hmem r List.mem_cons_self)]
          · simp [(List.pairwise_cons.mp hsorted).1 e he]

end Boot2Deb
