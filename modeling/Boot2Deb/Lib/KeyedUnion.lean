import Mathlib.Data.List.Perm.Basic
import Boot2Deb.Lib.Keyed

/-!
# Unions by a key

Rows that several owners contribute are joined in the order they come, each key once. Rows of one
key must agree, which may be on the row as a whole or on less. The union succeeds exactly if every
two rows of a key agree, and then no order of the rows changes what is in it.
-/

namespace Boot2Deb

variable {α κ β : Type*} {key : α → κ} {face : α → β} {xs ys : List α} {x y : α}

/-- Rows of one key agree. -/
def Agree (key : α → κ) (face : α → β) (xs : List α) : Prop :=
  ∀ x ∈ xs, ∀ y ∈ xs, key x = key y → face x = face y

theorem Agree.perm (h : Agree key face xs) (hperm : xs.Perm ys) : Agree key face ys :=
  fun x hx y hy => h x (hperm.mem_iff.mpr hx) y (hperm.mem_iff.mpr hy)

variable [DecidableEq κ]

/-- The first row of each key, in the order they come. -/
def firsts (key : α → κ) : List α → List α
  | [] => []
  | x :: xs => x :: (firsts key xs).filter (key · ≠ key x)

theorem firsts_sublist : (firsts key xs).Sublist xs := by
  induction xs with
  | nil => exact .slnil
  | cons x xs ih => exact (List.filter_sublist.trans ih).cons_cons x

theorem exists_mem_firsts (hx : x ∈ xs) : ∃ y ∈ firsts key xs, key y = key x := by
  induction xs with
  | nil => cases hx
  | cons first xs ih =>
    by_cases hkey : key first = key x
    · exact ⟨first, List.mem_cons_self, hkey⟩
    · rcases List.mem_cons.mp hx with rfl | hx
      · exact absurd rfl hkey
      · obtain ⟨y, hy, hyx⟩ := ih hx
        have hne : key y ≠ key first := fun h => hkey (h.symm.trans hyx)
        exact ⟨y, List.mem_cons_of_mem _ (List.mem_filter.mpr ⟨hy, decide_eq_true hne⟩), hyx⟩

theorem nodup_firsts : ((firsts key xs).map key).Nodup := by
  induction xs with
  | nil => exact .nil
  | cons x xs ih =>
    rw [firsts, List.map_cons, List.nodup_cons]
    constructor
    · intro h
      obtain ⟨y, hy, hkey⟩ := List.mem_map.mp h
      exact of_decide_eq_true (List.mem_filter.mp hy).2 hkey
    · exact ih.sublist (List.filter_sublist.map key)

/-- Where rows of one key are one row, the union has every row. -/
theorem mem_firsts (h : Agree key id xs) : x ∈ firsts key xs ↔ x ∈ xs := by
  refine ⟨fun hx => firsts_sublist.mem hx, fun hx => ?_⟩
  obtain ⟨y, hy, hkey⟩ : ∃ y ∈ firsts key xs, key y = key x := exists_mem_firsts hx
  obtain rfl : y = x := h y (firsts_sublist.mem hy) x hx hkey
  exact hy

theorem firsts_perm (h : Agree key id xs) (hperm : xs.Perm ys) :
    (firsts key xs).Perm (firsts key ys) := by
  have hnodup : ∀ l : List α, (firsts key l).Nodup := fun l => nodup_firsts.of_map key
  refine (List.perm_ext_iff_of_nodup (hnodup xs) (hnodup ys)).mpr fun x => ?_
  rw [mem_firsts h, mem_firsts (h.perm hperm), hperm.mem_iff]

/-- The faces of the union, of rows that agree on them. -/
theorem face_firsts_perm (h : Agree key face xs) (hperm : xs.Perm ys) :
    ((firsts key xs).map fun x => (key x, face x)).Perm
      ((firsts key ys).map fun x => (key x, face x)) := by
  have hnodup : ∀ l : List α, ((firsts key l).map fun x => (key x, face x)).Nodup := fun l => by
    have hmap : ((firsts key l).map fun x => (key x, face x)).map Prod.fst =
        (firsts key l).map key := by rw [List.map_map]; rfl
    exact List.Nodup.of_map Prod.fst (hmap ▸ nodup_firsts)
  have hsub : ∀ l l' : List α, Agree key face l → (∀ x, x ∈ l → x ∈ l') → Agree key face l' →
      ∀ row ∈ (firsts key l).map fun x => (key x, face x),
        row ∈ (firsts key l').map fun x => (key x, face x) := by
    intro l l' _ hmem hagree row hrow
    obtain ⟨x, hx, rfl⟩ := List.mem_map.mp hrow
    have hx' := hmem x (firsts_sublist.mem hx)
    obtain ⟨y, hy, hkey⟩ : ∃ y ∈ firsts key l', key y = key x := exists_mem_firsts hx'
    have hface := hagree y (firsts_sublist.mem hy) x hx' hkey
    exact List.mem_map.mpr ⟨y, hy, Prod.ext hkey hface⟩
  refine (List.perm_ext_iff_of_nodup (hnodup xs) (hnodup ys)).mpr fun row => ⟨?_, ?_⟩
  · exact hsub xs ys h (fun x => hperm.mem_iff.mp) (h.perm hperm) row
  · exact hsub ys xs (h.perm hperm) (fun x => hperm.mem_iff.mpr) h row

/-! ### Joining one row after another -/

variable [DecidableEq β]

/-- One more row: skipped if it agrees with the row its key has, refused if it does not. -/
def joinRow (key : α → κ) (face : α → β) (merged : List α) (x : α) : Except α (List α) :=
  match firstWith key merged (key x) with
  | some old => if face old = face x then .ok merged else .error old
  | none => .ok (merged ++ [x])

def joinRows (key : α → κ) (face : α → β) (merged : List α) : List α → Except α (List α)
  | [] => .ok merged
  | x :: xs => do joinRows key face (← joinRow key face merged x) xs

/-- Rows behind a union: the first row of each key that the union does not have. -/
theorem joinRows_eq_ok {merged out : List α} (hn : (merged.map key).Nodup) :
    joinRows key face merged xs = .ok out ↔
      (∀ x ∈ xs, ∀ y ∈ merged ++ xs, key x = key y → face x = face y) ∧
        out = merged ++ (firsts key xs).filter (key · ∉ merged.map key) := by
  induction xs generalizing merged with
  | nil =>
    rw [joinRows, Except.ok.injEq]
    simp [firsts, eq_comm]
  | cons x xs ih =>
    rw [joinRows]
    unfold joinRow
    cases hold : firstWith key merged (key x) with
    | some old =>
      obtain ⟨hmem, hkey⟩ := mem_of_firstWith hold
      have hin : key x ∈ merged.map key := hkey ▸ List.mem_map_of_mem hmem
      dsimp only
      split_ifs with hface
      · have hgo : (do joinRows key face (← (.ok merged : Except α _)) xs) =
            joinRows key face merged xs := rfl
        rw [hgo, ih hn]
        have hfilter : (firsts key (x :: xs)).filter (key · ∉ merged.map key) =
            (firsts key xs).filter (key · ∉ merged.map key) := by
          rw [firsts, List.filter_cons_of_neg (by simpa using hin), List.filter_filter]
          refine List.filter_congr fun y _ => ?_
          by_cases hy : key y ∈ merged.map key
          · simp [hy]
          · have hne : key y ≠ key x := fun h => hy (h ▸ hin)
            simp [hy, hne]
        rw [hfilter]
        refine and_congr_left fun _ => ⟨fun h => ?_, fun h => ?_⟩
        · have hfirst : ∀ y ∈ merged ++ x :: xs, key x = key y → face x = face y := by
            intro y hy hxy
            rcases List.mem_append.mp hy with hy | hy
            · have hsame : y = old := List.inj_on_of_nodup_map hn hy hmem (hxy.symm.trans hkey.symm)
              rw [hsame, hface]
            · rcases List.mem_cons.mp hy with rfl | hy
              · rfl
              · exact hface.symm.trans
                  (h y hy old (List.mem_append_left _ hmem) (hxy.symm.trans hkey.symm)).symm
          refine List.forall_mem_cons.mpr ⟨hfirst, fun z hz y hy hzy => ?_⟩
          rcases List.mem_append.mp hy with hy | hy
          · exact h z hz y (List.mem_append_left _ hy) hzy
          · rcases List.mem_cons.mp hy with rfl | hy
            · exact (hfirst z (List.mem_append_right _ (List.mem_cons_of_mem _ hz)) hzy.symm).symm
            · exact h z hz y (List.mem_append_right _ hy) hzy
        · intro z hz y hy hzy
          refine h z (List.mem_cons_of_mem _ hz) y ?_ hzy
          exact (List.mem_append.mp hy).elim (List.mem_append_left _)
            fun hy => List.mem_append_right _ (List.mem_cons_of_mem _ hy)
      · refine iff_of_false (by intro h; cases h) fun h => hface ?_
        exact (h.1 x List.mem_cons_self old (List.mem_append_left _ hmem) hkey.symm).symm
    | none =>
      have hnone := firstWith_eq_none.mp hold
      have hin : key x ∉ merged.map key := fun h => by
        obtain ⟨y, hy, hkey⟩ := List.mem_map.mp h
        exact hnone y hy hkey
      have hn' : ((merged ++ [x]).map key).Nodup := by
        rw [List.map_append, List.nodup_append]
        refine ⟨hn, List.nodup_singleton _, fun a ha b hb hab => hin ?_⟩
        obtain rfl := List.mem_singleton.mp hb
        exact hab ▸ ha
      have hgo : (do joinRows key face (← (.ok (merged ++ [x]) : Except α _)) xs) =
          joinRows key face (merged ++ [x]) xs := rfl
      dsimp only
      rw [hgo, ih hn']
      have hfilter : merged ++ [x] ++ (firsts key xs).filter (key · ∉ (merged ++ [x]).map key) =
          merged ++ (firsts key (x :: xs)).filter (key · ∉ merged.map key) := by
        rw [firsts, List.filter_cons_of_pos (by simpa using hin), List.filter_filter,
          List.append_assoc, List.singleton_append]
        congr 2
        refine List.filter_congr fun y _ => ?_
        have hmap : key y ∈ (merged ++ [x]).map key ↔ key y ∈ merged.map key ∨ key y = key x := by
          rw [List.map_append, List.mem_append, List.map_singleton, List.mem_singleton]
        rw [← Bool.decide_and]
        exact decide_eq_decide.mpr (hmap.not.trans not_or)
      rw [hfilter]
      refine and_congr_left fun _ => ?_
      rw [List.append_assoc, List.singleton_append]
      refine ⟨fun h => List.forall_mem_cons.mpr ⟨fun y hy hxy => ?_, h⟩,
        fun h z hz => h z (List.mem_cons_of_mem _ hz)⟩
      rcases List.mem_append.mp hy with hy | hy
      · exact absurd hxy.symm (hnone y hy)
      · rcases List.mem_cons.mp hy with rfl | hy
        · rfl
        · exact (h y hy x (List.mem_append_right _ List.mem_cons_self) hxy.symm).symm

/-- The union succeeds exactly if rows of one key agree, and is the first row of each. -/
theorem joinRows_nil_eq_ok {out : List α} :
    joinRows key face [] xs = .ok out ↔ Agree key face xs ∧ out = firsts key xs := by
  rw [joinRows_eq_ok (by simp)]
  have hfilter : (firsts key xs).filter (key · ∉ ([] : List α).map key) = firsts key xs :=
    List.filter_eq_self.mpr fun _ _ => by simp
  rw [hfilter, List.nil_append]
  rfl

end Boot2Deb
