import Mathlib.Data.List.Nodup

/-!
# Trees as lists of rows

A tree is a list of rows, each under its own key. The key names the parent, which has to be a row
that can hold others. A row can also be a link to another key, and then it is a second name of what
that key leads to.
-/

namespace Boot2Deb

variable {α β κ : Type*} {key : α → κ} {parent : κ → Option κ} {inner : α → Prop}
  {rows rows' new : List α}

/-- No two rows share a key, and the parent of every row is a row that can hold others. -/
structure IsTree (key : α → κ) (parent : κ → Option κ) (inner : α → Prop) (rows : List α) : Prop where
  nodup : (rows.map key).Nodup
  held : ∀ r ∈ rows, ∀ p ∈ parent (key r), ∃ d ∈ rows, key d = p ∧ inner d

namespace IsTree

instance [DecidableEq κ] [DecidablePred inner] : Decidable (IsTree key parent inner rows) :=
  decidable_of_iff ((rows.map key).Nodup ∧
    ∀ r ∈ rows, ∀ p ∈ parent (key r), ∃ d ∈ rows, key d = p ∧ inner d)
    ⟨fun h => ⟨h.1, h.2⟩, fun h => ⟨h.1, h.2⟩⟩

theorem perm (h : IsTree key parent inner rows) (hperm : rows.Perm rows') :
    IsTree key parent inner rows' where
  nodup := (hperm.map key).nodup_iff.mp h.nodup
  held r hr p hp := by
    obtain ⟨d, hd, hkey, hin⟩ := h.held r (hperm.mem_iff.mpr hr) p hp
    exact ⟨d, hperm.mem_iff.mp hd, hkey, hin⟩

/-- Rows may be replaced in place, as long as none that can hold others stops doing so. -/
theorem map (h : IsTree key parent inner rows) {f : α → α} (hkey : ∀ r ∈ rows, key (f r) = key r)
    (hinner : ∀ r ∈ rows, inner r → inner (f r)) : IsTree key parent inner (rows.map f) where
  nodup := by
    have hkeys : (rows.map f).map key = rows.map key := by
      rw [List.map_map]
      exact List.map_congr_left hkey
    rw [hkeys]
    exact h.nodup
  held := by
    intro r' hr' p hp
    obtain ⟨r, hr, rfl⟩ := List.mem_map.mp hr'
    rw [hkey r hr] at hp
    obtain ⟨d, hd, hdk, hdin⟩ := h.held r hr p hp
    exact ⟨f d, List.mem_map_of_mem hd, by rw [hkey d hd, hdk], hinner d hd hdin⟩

/-- Rows under keys of their own may be added where each finds its parent. -/
theorem append (h : IsTree key parent inner rows) (hnodup : (new.map key).Nodup)
    (hfresh : ∀ r ∈ new, key r ∉ rows.map key)
    (hheld : ∀ r ∈ new, ∀ p ∈ parent (key r), ∃ d ∈ rows ++ new, key d = p ∧ inner d) :
    IsTree key parent inner (rows ++ new) where
  nodup := by
    rw [List.map_append, List.nodup_append']
    refine ⟨h.nodup, hnodup, ?_⟩
    rintro k hk hknew
    obtain ⟨r, hr, rfl⟩ := List.mem_map.mp hknew
    exact hfresh r hr hk
  held := by
    intro r hr p hp
    rcases List.mem_append.mp hr with hr | hr
    · obtain ⟨d, hd, hrest⟩ := h.held r hr p hp
      exact ⟨d, List.mem_append_left _ hd, hrest⟩
    · exact hheld r hr p hp

end IsTree

/-! ### Links -/

variable {link : α → Option κ} {file : α → β} {k q : κ} {t t' : β}

/-- What a key names: what its row holds, or for a link what the key it links to names. -/
inductive LeadsTo (key : α → κ) (link : α → Option κ) (file : α → β) (rows : List α) : κ → β → Prop
  | here {r : α} (hr : r ∈ rows) (hl : link r = none) : LeadsTo key link file rows (key r) (file r)
  | step {r : α} {q : κ} {t : β} (hr : r ∈ rows) (hl : link r = some q)
      (h : LeadsTo key link file rows q t) : LeadsTo key link file rows (key r) t

namespace LeadsTo

/-- The row under the key says which of the two ways it is. -/
theorem cases_row {r : α} (hn : (rows.map key).Nodup) (hr : r ∈ rows)
    (h : LeadsTo key link file rows (key r) t) :
    link r = none ∧ file r = t ∨ ∃ q, link r = some q ∧ LeadsTo key link file rows q t := by
  generalize hk : key r = k at h
  cases h with
  | here hs hl =>
    obtain rfl := List.inj_on_of_nodup_map hn hs hr hk.symm
    exact .inl ⟨hl, rfl⟩
  | step hs hl hq =>
    obtain rfl := List.inj_on_of_nodup_map hn hs hr hk.symm
    exact .inr ⟨_, hl, hq⟩

/-- A key names one thing. -/
theorem unique (hn : (rows.map key).Nodup) (h : LeadsTo key link file rows k t)
    (h' : LeadsTo key link file rows k t') : t = t' := by
  induction h with
  | here hr hl =>
    rcases h'.cases_row hn hr with ⟨-, hf⟩ | ⟨q, hq, -⟩
    · exact hf
    · rw [hl] at hq
      exact absurd hq (by simp)
  | step hr hl _ ih =>
    rcases h'.cases_row hn hr with ⟨hnone, -⟩ | ⟨q, hq, hlead⟩
    · rw [hl] at hnone
      exact absurd hnone (by simp)
    · obtain rfl := Option.some.inj (hl.symm.trans hq)
      exact ih hlead

/-- Where rows keep their key and link under a change, a key leads to the changed row. -/
theorem map_iff {f : α → α} {row : α} (hkey : ∀ r ∈ rows, key (f r) = key r)
    (hlink : ∀ r ∈ rows, link (f r) = link r) :
    LeadsTo key link id (rows.map f) k row ↔ ∃ r, LeadsTo key link id rows k r ∧ row = f r := by
  constructor
  · intro h
    induction h with
    | here hr hl =>
      obtain ⟨r, hmem, rfl⟩ := List.mem_map.mp hr
      rw [hkey r hmem]
      exact ⟨r, .here hmem (by rwa [hlink r hmem] at hl), rfl⟩
    | step hr hl _ ih =>
      obtain ⟨r, hmem, rfl⟩ := List.mem_map.mp hr
      obtain ⟨s, hs, hrow⟩ := ih
      rw [hkey r hmem]
      exact ⟨s, .step hmem (by rwa [hlink r hmem] at hl) hs, hrow⟩
  · rintro ⟨r, h, rfl⟩
    induction h with
    | here hr hl =>
      rw [← hkey _ hr]
      exact .here (List.mem_map_of_mem hr) (by rwa [hlink _ hr])
    | step hr hl _ ih =>
      rw [← hkey _ hr]
      exact .step (List.mem_map_of_mem hr) (by rwa [hlink _ hr]) ih

/-- A key leads to a row that is no link. -/
theorem row_mem {row : α} (h : LeadsTo key link id rows k row) : row ∈ rows ∧ link row = none := by
  induction h with
  | here hr hl => exact ⟨hr, hl⟩
  | step _ _ _ ih => exact ih

/-- Where the rows outside `touched` stay, and no link out of them into `touched` comes to name
something else, every key outside `touched` names what it did. -/
theorem frame (touched : Set κ) (hkeep : ∀ r ∈ rows, key r ∉ touched → r ∈ rows')
    (hlinks : ∀ r ∈ rows, key r ∉ touched → ∀ q ∈ touched, link r = some q →
      ∀ t, LeadsTo key link file rows q t → LeadsTo key link file rows' q t)
    (h : LeadsTo key link file rows k t) (hk : k ∉ touched) : LeadsTo key link file rows' k t := by
  induction h with
  | here hr hl => exact .here (hkeep _ hr hk) hl
  | step hr hl hlead ih =>
    rename_i q _
    by_cases hq : q ∈ touched
    · exact .step (hkeep _ hr hk) hl (hlinks _ hr hk q hq hl _ hlead)
    · exact .step (hkeep _ hr hk) hl (ih hq)

end LeadsTo

end Boot2Deb
