import Mathlib.Data.List.Nodup
import Mathlib.Data.List.Sort

/-!
# Looking up a row by its key

The first row of a list with a given key. Where no two rows share a key the lookup finds every row,
and the order of the rows does not matter.
-/

namespace Boot2Deb

variable {α κ : Type*} [DecidableEq κ] {key : α → κ} {l l' : List α} {k : κ} {r : α}

/-- The first row with the key. -/
def firstWith (key : α → κ) (l : List α) (k : κ) : Option α := l.find? fun x => key x = k

theorem mem_of_firstWith (h : firstWith key l k = some r) : r ∈ l ∧ key r = k :=
  ⟨List.mem_of_find?_eq_some h, by simpa using List.find?_some h⟩

theorem firstWith_eq_none : firstWith key l k = none ↔ ∀ x ∈ l, key x ≠ k := by
  simp [firstWith, List.find?_eq_none]

theorem exists_firstWith (key : α → κ) (h : r ∈ l) : ∃ first, firstWith key l (key r) = some first :=
  Option.ne_none_iff_exists'.mp fun hnone => firstWith_eq_none.mp hnone r h rfl

theorem firstWith_append : firstWith key (l ++ l') k =
    (firstWith key l k).or (firstWith key l' k) := by
  simp [firstWith, List.find?_append]

theorem head?_filter_eq_firstWith : (l.filter fun x => key x = k).head? = firstWith key l k :=
  List.head?_filter

theorem firstWith_of_filter {rest : List α} (h : (l.filter fun x => key x = k) = r :: rest) :
    firstWith key l k = some r := by
  rw [← head?_filter_eq_firstWith, h]
  rfl

theorem exists_filter_eq_cons (h : ∃ x ∈ l, key x = k) :
    ∃ r rest, (l.filter fun x => key x = k) = r :: rest := by
  obtain ⟨x, hx, hkey⟩ := h
  refine List.exists_cons_of_ne_nil fun hnil => ?_
  exact absurd hkey (by simpa using List.filter_eq_nil_iff.mp hnil x hx)

/-- Two lists are the same up to order exactly if they are key by key. -/
theorem perm_iff_forall_key [DecidableEq α] (key : α → κ) :
    l.Perm l' ↔ ∀ k, (l.filter fun x => key x = k).Perm (l'.filter fun x => key x = k) := by
  refine ⟨fun h k => h.filter _, fun h => List.perm_iff_count.mpr fun r => ?_⟩
  have hcount : ∀ l : List α, (l.filter fun x => key x = key r).count r = l.count r :=
    fun l => List.count_filter (by simp)
  rw [← hcount l, ← hcount l', (h (key r)).count_eq]

/-- Among rows with distinct keys the lookup finds each. -/
theorem firstWith_eq_some_iff (hn : (l.map key).Nodup) :
    firstWith key l k = some r ↔ r ∈ l ∧ key r = k := by
  refine ⟨mem_of_firstWith, ?_⟩
  rintro ⟨hr, rfl⟩
  cases h : firstWith key l (key r) with
  | none => exact absurd rfl (firstWith_eq_none.mp h r hr)
  | some first =>
    obtain ⟨hfirst, hkey⟩ := mem_of_firstWith h
    rw [List.inj_on_of_nodup_map hn hfirst hr hkey]

/-- Two lists are one map exactly if the first has every row of the second, and no other key. -/
theorem firstWith_map_eq_iff {β γ : Type*} {key' : β → κ} {rows : List β} {f : α → γ} {g : β → γ}
    (hn : (rows.map key').Nodup) :
    (∀ k, (firstWith key l k).map f = (firstWith key' rows k).map g) ↔
      (∀ row ∈ rows, ∃ r, firstWith key l (key' row) = some r ∧ f r = g row) ∧
        ∀ r ∈ l, ∃ row ∈ rows, key' row = key r := by
  constructor
  · intro h
    constructor
    · intro row hrow
      have hlookup := h (key' row)
      rw [(firstWith_eq_some_iff hn).mpr ⟨hrow, rfl⟩, Option.map_some] at hlookup
      exact Option.map_eq_some_iff.mp hlookup
    · intro r hr
      obtain ⟨first, hfirst⟩ := exists_firstWith key hr
      have hlookup := h (key r)
      rw [hfirst, Option.map_some] at hlookup
      obtain ⟨row, hrow, -⟩ := Option.map_eq_some_iff.mp hlookup.symm
      exact ⟨row, mem_of_firstWith hrow⟩
  · rintro ⟨hrows, hkeys⟩ k
    cases hrow : firstWith key' rows k with
    | some row =>
      obtain ⟨hmem, rfl⟩ := mem_of_firstWith hrow
      obtain ⟨r, hr, hval⟩ := hrows row hmem
      rw [hr, Option.map_some, Option.map_some, hval]
    | none =>
      cases hr : firstWith key l k with
      | none => rfl
      | some r =>
        obtain ⟨hmem, rfl⟩ := mem_of_firstWith hr
        obtain ⟨row, hrow', hkey⟩ := hkeys r hmem
        exact absurd hkey (firstWith_eq_none.mp hrow row hrow')

/-- Rows in step are one map. -/
theorem firstWith_map_of_forall₂ {β γ : Type*} {key' : β → κ} {rows : List β} {f : α → γ} {g : β → γ}
    (h : List.Forall₂ (fun r row => key r = key' row ∧ f r = g row) l rows) (k : κ) :
    (firstWith key l k).map f = (firstWith key' rows k).map g := by
  induction h with
  | nil => rfl
  | @cons r row l rows hhead _ ih =>
    unfold firstWith at ih ⊢
    rw [List.find?_cons, List.find?_cons, hhead.1]
    cases decide (key' row = k) with
    | true => exact congrArg some hhead.2
    | false => exact ih

theorem firstWith_perm (hn : (l.map key).Nodup) (h : l.Perm l') :
    firstWith key l k = firstWith key l' k := by
  have hn' : (l'.map key).Nodup := (h.map key).nodup_iff.mp hn
  ext r
  rw [firstWith_eq_some_iff hn, firstWith_eq_some_iff hn', h.mem_iff]

/-- Changing the first row with a key that one row of the front part has. -/
theorem modify_findIdx? {g : α → α} {rest : List α} {i : ℕ} (hn : (l.map key).Nodup)
    (hk : k ∈ l.map key) (hi : (l ++ rest).findIdx? (fun x => key x = k) = some i) :
    (l ++ rest).modify i g = (l.map fun x => if key x = k then g x else x) ++ rest := by
  induction l generalizing i with
  | nil => simp at hk
  | cons x l ih =>
    rw [List.map_cons, List.nodup_cons] at hn
    rw [List.cons_append, List.findIdx?_cons] at hi
    by_cases hx : key x = k
    · rw [if_pos (by simpa using hx)] at hi
      obtain rfl := Option.some.inj hi
      have hrest : ∀ y ∈ l, (if key y = k then g y else y) = y := fun y hy =>
        if_neg fun he => hn.1 (List.mem_map.mpr ⟨y, hy, he.trans hx.symm⟩)
      rw [List.map_cons, if_pos hx, List.map_congr_left hrest, List.map_id']
      rfl
    · rw [if_neg (by simpa using hx), Option.map_eq_some_iff] at hi
      obtain ⟨j, hj, rfl⟩ := hi
      have hkl : k ∈ l.map key := (List.mem_cons.mp hk).resolve_left (Ne.symm hx)
      rw [List.cons_append, List.modify_succ_cons, ih hn.2 hkl hj, List.map_cons, if_neg hx]
      rfl

/-- A sort by the key is stable, so it leaves the rows of one key as they were. -/
theorem filter_insertionSort (s : κ → κ → Prop) [DecidableRel s] [Std.Refl s] :
    (l.insertionSort fun a b => s (key a) (key b)).filter (fun x => key x = k) =
      l.filter fun x => key x = k := by
  have hsorted : (l.filter fun x => key x = k).Pairwise fun a b => s (key a) (key b) := by
    refine List.pairwise_of_forall_mem_list fun a ha b hb => ?_
    rw [of_decide_eq_true (List.mem_filter.mp ha).2, of_decide_eq_true (List.mem_filter.mp hb).2]
    exact Std.Refl.refl k
  have hsub := (List.sublist_insertionSort hsorted List.filter_sublist).filter fun x => key x = k
  simp only [List.filter_filter, Bool.and_self] at hsub
  exact (hsub.eq_of_length ((List.perm_insertionSort _ l).filter _).length_eq.symm).symm

theorem firstWith_insertionSort (s : κ → κ → Prop) [DecidableRel s] [Std.Refl s] :
    firstWith key (l.insertionSort fun a b => s (key a) (key b)) k = firstWith key l k := by
  rw [← head?_filter_eq_firstWith, filter_insertionSort, head?_filter_eq_firstWith]

end Boot2Deb
