import Std.Data.ExtTreeMap
import Boot2Deb.Lib.Keyed

/-!
# Maps filled from a list

A lookup behind an insertion, and the map of a list of rows by their key: of several rows with one
key the last stays.
-/

namespace Boot2Deb

open Std

variable {κ α : Type} {cmp : κ → κ → Ordering} [TransCmp cmp] [LawfulEqCmp cmp] [DecidableEq κ]

theorem getElem?_insert_ite {m : ExtTreeMap κ α cmp} {k k' : κ} {v : α} :
    (m.insert k v)[k']? = if k = k' then some v else m[k']? := by
  rw [ExtTreeMap.getElem?_insert]
  by_cases h : k = k'
  · rw [if_pos h, if_pos (by rw [h]; exact ReflCmp.compare_self)]
  · rw [if_neg h, if_neg fun he => h (LawfulEqCmp.eq_of_compare he)]

/-- A value that stands there is kept. -/
theorem getElem?_insertIfNew_ite {m : ExtTreeMap κ α cmp} {k k' : κ} {v : α} :
    (m.insertIfNew k v)[k']? = if k = k' then some (m[k]?.getD v) else m[k']? := by
  rw [ExtTreeMap.getElem?_insertIfNew]
  by_cases h : k = k'
  · subst h
    simp only [ReflCmp.compare_self, true_and, if_true, ExtTreeMap.mem_iff_isSome_getElem?]
    cases m[k]? <;> rfl
  · rw [if_neg h, if_neg fun he => h (LawfulEqCmp.eq_of_compare he.1)]

/-- The value of the last row with the key, and behind the rows the map they were put into. -/
theorem getElem?_foldl_insert_map {β : Type} {key : β → κ} {val : β → α} {rows : List β}
    {m : ExtTreeMap κ α cmp} {k : κ} :
    (rows.foldl (fun m row => m.insert (key row) (val row)) m)[k]? =
      ((firstWith key rows.reverse k).map val).or m[k]? := by
  induction rows generalizing m with
  | nil => rfl
  | cons row rows ih =>
    rw [List.foldl_cons, ih, getElem?_insert_ite, List.reverse_cons, firstWith_append,
      Option.map_or, Option.or_assoc]
    congr 1
    unfold firstWith
    by_cases h : key row = k <;> simp [h]

/-- The last row with the key, and behind the rows the map they were put into. -/
theorem getElem?_foldl_insert {key : α → κ} {rows : List α} {m : ExtTreeMap κ α cmp} {k : κ} :
    (rows.foldl (fun m row => m.insert (key row) row) m)[k]? =
      (firstWith key rows.reverse k).or m[k]? := by
  have h := @getElem?_foldl_insert_map κ α cmp _ _ _ α key id rows m k
  simpa using h

theorem getElem?_erase_ite {m : ExtTreeMap κ α cmp} {k k' : κ} :
    (m.erase k)[k']? = if k = k' then none else m[k']? := by
  rw [ExtTreeMap.getElem?_erase]
  by_cases h : k = k'
  · rw [if_pos h, if_pos (by rw [h]; exact ReflCmp.compare_self)]
  · rw [if_neg h, if_neg fun he => h (LawfulEqCmp.eq_of_compare he)]

theorem getElem?_foldl_erase {keys : List κ} {m : ExtTreeMap κ α cmp} {k : κ} :
    (keys.foldl (fun m k => m.erase k) m)[k]? = if k ∈ keys then none else m[k]? := by
  induction keys generalizing m with
  | nil => rw [if_neg List.not_mem_nil, List.foldl_nil]
  | cons key keys ih =>
    rw [List.foldl_cons, ih, getElem?_erase_ite]
    by_cases hk : key = k
    · rw [if_pos hk, if_pos (List.mem_cons.mpr (Or.inl hk.symm)), ite_self]
    · rw [if_neg hk]
      have hmem : k ∈ key :: keys ↔ k ∈ keys :=
        List.mem_cons.trans (or_iff_right fun h => hk h.symm)
      simp only [hmem]

end Boot2Deb
