import Mathlib.Data.List.Lex
import Mathlib.Order.Basic
import Boot2Deb.Lib.Keyed

/-!
# Maps as ascending rows

A map with ordered keys is the list of its rows in ascending order of the key: what a B-tree map
iterates over. An insertion keeps the order, replaces the row of its key, and leaves every other
lookup alone; putting ascending rows in one after the other gives them back.
-/

namespace Boot2Deb

variable {κ α β : Type*} [LinearOrder κ] {k k' : κ} {v : α} {rows : List (κ × α)}

/-- Put a row in before the first with a greater key, in the place of one with the same key. -/
def insertRow (k : κ) (v : α) : List (κ × α) → List (κ × α)
  | [] => [(k, v)]
  | (k', v') :: rows =>
    if k < k' then (k, v) :: (k', v') :: rows
    else if k = k' then (k, v) :: rows
    else (k', v') :: insertRow k v rows

/-- The value behind the first row with the key. -/
def lookup (k : κ) (rows : List (κ × α)) : Option α := (firstWith Prod.fst rows k).map Prod.snd

/-- The keys ascend, so no two are the same. -/
def Ascending (rows : List (κ × α)) : Prop := (rows.map Prod.fst).Pairwise (· < ·)

instance : DecidablePred (Ascending (κ := κ) (α := α)) :=
  fun rows => inferInstanceAs (Decidable ((rows.map Prod.fst).Pairwise (· < ·)))

/-- A map: its rows, ascending. -/
structure SortedMap (κ α : Type*) [LinearOrder κ] where
  rows : List (κ × α)
  ascending : Ascending rows
deriving DecidableEq

/-- Put a row in if it holds a value. -/
def insertSome (k : κ) : Option α → List (κ × α) → List (κ × α)
  | some v, rows => insertRow k v rows
  | none, rows => rows

/-- Put several rows in, those that hold a value, one after the other. -/
def insertRows (held : List (κ × Option α)) (rows : List (κ × α)) : List (κ × α) :=
  held.foldl (fun rows row => insertSome row.1 row.2 rows) rows

theorem insertSome_ite {c : Prop} [Decidable c] :
    insertSome k (if c then some v else none) rows = if c then insertRow k v rows else rows := by
  split_ifs <;> rfl

theorem insertSome_ite_none {c : Prop} [Decidable c] :
    insertSome k (if c then none else some v) rows = if c then rows else insertRow k v rows := by
  split_ifs <;> rfl

theorem mem_keys_insertRow {j : κ} :
    j ∈ (insertRow k v rows).map Prod.fst ↔ j = k ∨ j ∈ rows.map Prod.fst := by
  induction rows with
  | nil => simp [insertRow]
  | cons row rows ih =>
    obtain ⟨k', v'⟩ := row
    unfold insertRow
    split_ifs with hlt heq
    · simp
    · subst heq
      simp
    · rw [List.map_cons, List.mem_cons, ih, List.map_cons, List.mem_cons]
      tauto

theorem ascending_insertRow (h : Ascending rows) : Ascending (insertRow k v rows) := by
  induction rows with
  | nil => simp [insertRow, Ascending]
  | cons row rows ih =>
    obtain ⟨k', v'⟩ := row
    obtain ⟨hhead, htail⟩ := List.pairwise_cons.mp h
    unfold insertRow
    split_ifs with hlt heq
    · refine List.pairwise_cons.mpr ⟨fun j hj => ?_, h⟩
      rcases List.mem_cons.mp hj with rfl | hj
      · exact hlt
      · exact hlt.trans (hhead j hj)
    · subst heq
      exact h
    · refine List.pairwise_cons.mpr ⟨fun j hj => ?_, ih htail⟩
      rcases mem_keys_insertRow.mp hj with rfl | hj
      · exact lt_of_le_of_ne (not_lt.mp hlt) (Ne.symm heq)
      · exact hhead j hj

theorem lookup_cons {row : κ × α} :
    lookup k (row :: rows) = if row.1 = k then some row.2 else lookup k rows := by
  unfold lookup firstWith
  by_cases h : row.1 = k <;> simp [h]

theorem lookup_insertRow :
    lookup k' (insertRow k v rows) = if k = k' then some v else lookup k' rows := by
  induction rows with
  | nil => rw [insertRow, lookup_cons]
  | cons row rows ih =>
    obtain ⟨j, w⟩ := row
    rw [insertRow]
    by_cases hlt : k < j
    · rw [if_pos hlt, lookup_cons]
    by_cases heq : k = j
    · rw [if_neg hlt, if_pos heq, lookup_cons, lookup_cons, ← heq]
      split_ifs <;> rfl
    · rw [if_neg hlt, if_neg heq, lookup_cons, lookup_cons, ih]
      by_cases hk : k = k'
      · rw [if_neg fun hj => heq (hk.trans hj.symm), if_pos hk, if_pos hk]
      · rw [if_neg hk, if_neg hk]

theorem lookup_eq_none (h : k ∉ rows.map Prod.fst) : lookup k rows = none := by
  unfold lookup
  rw [firstWith_eq_none.mpr fun row hrow hk => h (List.mem_map.mpr ⟨row, hrow, hk⟩)]
  rfl

theorem mem_of_lookup (h : lookup k rows = some v) : (k, v) ∈ rows := by
  unfold lookup at h
  obtain ⟨row, hrow, rfl⟩ := Option.map_eq_some_iff.mp h
  obtain ⟨hmem, rfl⟩ := mem_of_firstWith hrow
  exact hmem

theorem lookup_filter_ne :
    lookup k' (rows.filter fun row => row.1 ≠ k) = if k' = k then none else lookup k' rows := by
  induction rows with
  | nil => simp [lookup, firstWith]
  | cons row rows ih =>
    by_cases hrow : row.1 = k
    · rw [List.filter_cons_of_neg (by simpa using hrow), ih, lookup_cons, hrow]
      by_cases hk : k' = k
      · rw [if_pos hk, if_pos hk]
      · rw [if_neg hk, if_neg hk, if_neg (Ne.symm hk)]
    · rw [List.filter_cons_of_pos (by simpa using hrow), lookup_cons, lookup_cons, ih]
      by_cases hk : row.1 = k'
      · rw [if_pos hk, if_pos hk, if_neg fun h => hrow (hk.trans h)]
      · rw [if_neg hk, if_neg hk]

theorem lookup_of_ascending_cons {row : κ × α} (h : Ascending (row :: rows)) (hk : k ≤ row.1) :
    lookup k rows = none := by
  refine lookup_eq_none fun hmem => ?_
  exact absurd ((List.pairwise_cons.mp h).1 k hmem) (not_lt.mpr hk)

/-- Ascending rows are the same where they hold the same under every key. -/
theorem eq_of_lookup {rows' : List (κ × α)} (h : Ascending rows) (h' : Ascending rows')
    (heq : ∀ k, lookup k rows = lookup k rows') : rows = rows' := by
  induction rows generalizing rows' with
  | nil =>
    cases rows' with
    | nil => rfl
    | cons row rows' =>
      have hrow := heq row.1
      rw [lookup_cons, if_pos rfl] at hrow
      cases hrow
  | cons row rows ih =>
    cases rows' with
    | nil =>
      have hrow := heq row.1
      rw [lookup_cons, if_pos rfl] at hrow
      cases hrow
    | cons row' rows' =>
      obtain ⟨j, v⟩ := row
      obtain ⟨j', v'⟩ := row'
      have hj : j = j' := by
        rcases lt_trichotomy j j' with hlt | heq' | hlt
        · have hrow := heq j
          rw [lookup_cons, if_pos rfl, lookup_cons, if_neg hlt.ne',
            lookup_of_ascending_cons h' hlt.le] at hrow
          cases hrow
        · exact heq'
        · have hrow := heq j'
          rw [lookup_cons, if_neg hlt.ne', lookup_of_ascending_cons h hlt.le, lookup_cons,
            if_pos rfl] at hrow
          cases hrow
      subst hj
      have hv := heq j
      rw [lookup_cons, if_pos rfl, lookup_cons, if_pos rfl] at hv
      cases hv
      refine congrArg _ (ih (List.pairwise_cons.mp h).2 (List.pairwise_cons.mp h').2 fun k => ?_)
      by_cases hk : j = k
      · subst hk
        rw [lookup_of_ascending_cons h le_rfl, lookup_of_ascending_cons h' le_rfl]
      · have hrow := heq k
        rwa [lookup_cons, if_neg hk, lookup_cons, if_neg hk] at hrow

theorem map_insertRow (f : α → β) :
    (insertRow k v rows).map (Prod.map id f) = insertRow k (f v) (rows.map (Prod.map id f)) := by
  induction rows with
  | nil => rfl
  | cons row rows ih =>
    obtain ⟨j, w⟩ := row
    simp only [insertRow, List.map_cons, Prod.map_apply, id_eq]
    split_ifs
    · rfl
    · rfl
    · rw [List.map_cons, ih]
      rfl

theorem insertRow_last (h : ∀ row ∈ rows, row.1 < k) : insertRow k v rows = rows ++ [(k, v)] := by
  induction rows with
  | nil => rfl
  | cons row rows ih =>
    obtain ⟨j, w⟩ := row
    have hj : j < k := h (j, w) List.mem_cons_self
    rw [insertRow, if_neg (not_lt.mpr hj.le), if_neg hj.ne', ih fun row hrow =>
      h row (List.mem_cons_of_mem _ hrow)]
    rfl

/-- Ascending rows put in one after the other stand behind the rows of lesser keys. -/
theorem foldl_insertRow {more : List (κ × α)} (h : Ascending (rows ++ more)) :
    more.foldl (fun rows row => insertRow row.1 row.2 rows) rows = rows ++ more := by
  induction more generalizing rows with
  | nil => rw [List.foldl_nil, List.append_nil]
  | cons row more ih =>
    have hlast : ∀ r ∈ rows, r.1 < row.1 := by
      unfold Ascending at h
      rw [List.map_append] at h
      intro r hr
      exact (List.pairwise_append.mp h).2.2 r.1 (List.mem_map_of_mem hr) row.1 (by simp)
    have hmore : rows ++ row :: more = rows ++ [row] ++ more := by simp
    rw [List.foldl_cons, insertRow_last hlast, hmore]
    exact ih (hmore ▸ h)

theorem foldl_insertRow_nil (h : Ascending rows) :
    rows.foldl (fun rows row => insertRow row.1 row.2 rows) [] = rows := foldl_insertRow h

/-! ### Rows that may hold a value -/

theorem ascending_insertSome {o : Option α} (h : Ascending rows) :
    Ascending (insertSome k o rows) := by
  cases o with
  | none => exact h
  | some v => exact ascending_insertRow h

theorem map_insertSome (f : α → β) {o : Option α} : (insertSome k o rows).map (Prod.map id f) =
    insertSome k (o.map f) (rows.map (Prod.map id f)) := by
  cases o with
  | none => rfl
  | some v => exact map_insertRow f

theorem lookup_insertSome {o : Option α} :
    lookup k' (insertSome k o rows) = if k = k' then o.or (lookup k' rows) else lookup k' rows := by
  cases o with
  | none => exact (ite_self _).symm
  | some v => exact lookup_insertRow

variable {held : List (κ × Option α)}

theorem ascending_insertRows (h : Ascending rows) : Ascending (insertRows held rows) := by
  induction held generalizing rows with
  | nil => exact h
  | cons row held ih => exact ih (ascending_insertSome h)

theorem map_insertRows (f : α → β) : (insertRows held rows).map (Prod.map id f) =
    insertRows (held.map (Prod.map id (Option.map f))) (rows.map (Prod.map id f)) := by
  induction held generalizing rows with
  | nil => rfl
  | cons row held ih =>
    refine (@ih (insertSome row.1 row.2 rows)).trans ?_
    rw [map_insertSome]
    rfl

theorem lookup_insertRows_of_not_mem (h : k ∉ held.map Prod.fst) :
    lookup k (insertRows held rows) = lookup k rows := by
  induction held generalizing rows with
  | nil => rfl
  | cons row held ih =>
    rw [List.map_cons, List.mem_cons, not_or] at h
    refine (@ih (insertSome row.1 row.2 rows) h.2).trans ?_
    rw [lookup_insertSome, if_neg (Ne.symm h.1)]

/-- Where no two of the rows share a key, a lookup finds what the row of the key holds. -/
theorem lookup_insertRows {o : Option α} (hn : (held.map Prod.fst).Nodup) (h : (k, o) ∈ held)
    (hrows : lookup k rows = none) : lookup k (insertRows held rows) = o := by
  induction held generalizing rows with
  | nil => cases h
  | cons row held ih =>
    rw [List.map_cons, List.nodup_cons] at hn
    rcases List.mem_cons.mp h with rfl | hmem
    · refine (@lookup_insertRows_of_not_mem _ _ _ _ (insertSome k o rows) _ hn.1).trans ?_
      rw [lookup_insertSome, if_pos rfl, hrows, Option.or_none]
    · have hne : row.1 ≠ k := by
        intro he
        exact hn.1 (he ▸ List.mem_map.mpr ⟨(k, o), hmem, rfl⟩)
      exact ih hn.2 hmem (by rw [lookup_insertSome, if_neg hne, hrows])

theorem mem_insertRow {row : κ × α} (h : row ∈ insertRow k v rows) : row = (k, v) ∨ row ∈ rows := by
  induction rows with
  | nil => exact .inl (List.mem_singleton.mp h)
  | cons head rows ih =>
    obtain ⟨j, w⟩ := head
    unfold insertRow at h
    split_ifs at h
    · exact (List.mem_cons.mp h)
    · exact (List.mem_cons.mp h).imp_right (List.mem_cons_of_mem _)
    · rcases List.mem_cons.mp h with rfl | h
      · exact .inr List.mem_cons_self
      · exact (ih h).imp_right (List.mem_cons_of_mem _)

/-- A row that stands there was put in or stood there before. -/
theorem mem_insertRows {row : κ × α} (h : row ∈ insertRows held rows) :
    (row.1, some row.2) ∈ held ∨ row ∈ rows := by
  induction held generalizing rows with
  | nil => exact .inr h
  | cons head held ih =>
    obtain ⟨j, - | w⟩ := head
    · exact (ih h).imp_left (List.mem_cons_of_mem _)
    · rcases ih h with hmem | hmem
      · exact .inl (List.mem_cons_of_mem _ hmem)
      · refine (mem_insertRow hmem).imp_left fun he => ?_
        rw [he]
        exact List.mem_cons_self

/-! ### Maps -/

namespace SortedMap

def empty : SortedMap κ α := ⟨[], List.Pairwise.nil⟩

def insert (m : SortedMap κ α) (k : κ) (v : α) : SortedMap κ α :=
  ⟨insertRow k v m.rows, ascending_insertRow m.ascending⟩

theorem ext_rows {m m' : SortedMap κ α} (h : m.rows = m'.rows) : m = m' := by
  cases m
  cases m'
  subst h
  rfl

/-- The rows of a map put in one after the other give it back. -/
theorem foldl_insert (m : SortedMap κ α) :
    m.rows.foldl (fun m row => m.insert row.1 row.2) empty = m := by
  have hrows : ∀ (more : List (κ × α)) (m : SortedMap κ α),
      (more.foldl (fun m row => m.insert row.1 row.2) m).rows =
        more.foldl (fun rows row => insertRow row.1 row.2 rows) m.rows := by
    intro more
    induction more with
    | nil => exact fun m => rfl
    | cons row more ih => exact fun m => ih (m.insert row.1 row.2)
  exact ext_rows ((hrows m.rows empty).trans (foldl_insertRow_nil m.ascending))

end SortedMap

end Boot2Deb
