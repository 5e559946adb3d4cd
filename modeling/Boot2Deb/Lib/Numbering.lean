import Mathlib

/-!
# Numbers given in the order of first appearance

The elements of a list carry numbers, zero for none. They are numbered in order where every number
is one that stands before, or the next. Such numbers are determined by which elements share one:
`map_eq_of_numbered`.
-/

namespace Boot2Deb

variable {α : Type*} {tok tok' : α → ℕ} {l front back : List α} {a : α}

/-- How many numbers a list has, zero left out. -/
def distinct (tok : α → ℕ) (l : List α) : ℕ := ((l.map tok).toFinset.erase 0).card

def NumberedInOrder (tok : α → ℕ) (l : List α) : Prop :=
  ∀ front a back, l = front ++ a :: back → tok a ≠ 0 →
    (∃ b ∈ front, tok b = tok a) ∨ tok a = distinct tok front + 1

theorem distinct_concat_old (h : tok a = 0 ∨ ∃ b ∈ l, tok b = tok a) :
    distinct tok (l ++ [a]) = distinct tok l := by
  unfold distinct
  congr 1
  ext t
  simp only [List.map_append, List.map_cons, List.map_nil, Finset.mem_erase, List.mem_toFinset,
    List.mem_append, List.mem_singleton, and_congr_right_iff, or_iff_left_iff_imp]
  rintro hne rfl
  rcases h with h | ⟨b, hb, h⟩
  · exact absurd h hne
  · exact h ▸ List.mem_map_of_mem hb

theorem distinct_concat_new (hne : tok a ≠ 0) (h : ¬∃ b ∈ l, tok b = tok a) :
    distinct tok (l ++ [a]) = distinct tok l + 1 := by
  have hmem : tok a ∉ (l.map tok).toFinset.erase 0 := by
    rw [Finset.mem_erase, List.mem_toFinset, List.mem_map]
    exact fun ⟨_, hb⟩ => h hb
  unfold distinct
  rw [← Finset.card_insert_of_notMem hmem]
  congr 1
  ext t
  simp only [List.map_append, List.map_cons, List.map_nil, Finset.mem_erase, List.mem_toFinset,
    List.mem_append, List.mem_singleton, Finset.mem_insert]
  constructor
  · rintro ⟨hzero, hl | rfl⟩
    · exact .inr ⟨hzero, hl⟩
    · exact .inl rfl
  · rintro (rfl | ⟨hzero, hl⟩)
    · exact ⟨hne, .inr rfl⟩
    · exact ⟨hzero, .inl hl⟩

theorem distinct_le_length : distinct tok l ≤ l.length := by
  have h := (Finset.card_erase_le (s := (l.map tok).toFinset) (a := 0)).trans
    (List.toFinset_card_le (l.map tok))
  rwa [List.length_map] at h

theorem NumberedInOrder.left (h : NumberedInOrder tok (front ++ back)) :
    NumberedInOrder tok front := by
  rintro start a rest rfl
  exact h start a (rest ++ back) (by simp)

/-- No number is greater than the list is long. -/
theorem NumberedInOrder.le_length (h : NumberedInOrder tok l) (ha : a ∈ l) : tok a ≤ l.length := by
  induction l using List.reverseRecOn generalizing a with
  | nil => cases ha
  | append_singleton l b ih =>
    rw [List.length_append, List.length_singleton]
    have hle : ∀ c ∈ l, tok c ≤ l.length := fun c hc => ih h.left hc
    rcases List.mem_append.mp ha with ha | ha
    · exact (hle a ha).trans (Nat.le_succ _)
    · rw [List.mem_singleton.mp ha]
      by_cases hzero : tok b = 0
      · omega
      · rcases h l b [] rfl hzero with ⟨c, hc, heq⟩ | heq
        · exact heq ▸ (hle c hc).trans (Nat.le_succ _)
        · have : distinct tok l ≤ l.length := distinct_le_length
          omega

theorem numbered_of_map {β : Type*} {f : β → α} {l : List β}
    (h : NumberedInOrder tok (l.map f)) : NumberedInOrder (fun b => tok (f b)) l := by
  rintro front b back rfl hne
  have hdistinct : distinct (fun b => tok (f b)) front = distinct tok (front.map f) := by
    unfold distinct
    rw [List.map_map]
    rfl
  rcases h (front.map f) (f b) (back.map f) (by simp) hne with ⟨a, ha, heq⟩ | heq
  · obtain ⟨c, hc, rfl⟩ := List.mem_map.mp ha
    exact .inl ⟨c, hc, heq⟩
  · exact .inr (heq.trans (by rw [hdistinct]))

/-- Two numberings in order are the same where the same elements share a number. -/
theorem map_eq_of_numbered (h : NumberedInOrder tok l) (h' : NumberedInOrder tok' l)
    (hzero : ∀ a ∈ l, tok a = 0 ↔ tok' a = 0)
    (hsame : ∀ a ∈ l, ∀ b ∈ l, tok a ≠ 0 → (tok b = tok a ↔ tok' b = tok' a)) :
    l.map tok = l.map tok' := by
  induction l using List.reverseRecOn with
  | nil => rfl
  | append_singleton l a ih =>
    have hl : l.map tok = l.map tok' := ih h.left h'.left
      (fun b hb => hzero b (List.mem_append_left _ hb)) fun b hb c hc =>
        hsame b (List.mem_append_left _ hb) c (List.mem_append_left _ hc)
    have hmem : a ∈ l ++ [a] := List.mem_append_right _ List.mem_cons_self
    rw [List.map_append, List.map_append, hl, List.map_singleton, List.map_singleton]
    congr 2
    by_cases ha : tok a = 0
    · rw [ha, (hzero a hmem).mp ha]
    have ha' : tok' a ≠ 0 := fun h => ha ((hzero a hmem).mpr h)
    have heq : ∀ b ∈ l, tok b = tok' b := List.map_inj_left.mp hl
    rcases h l a [] rfl ha with ⟨b, hb, hab⟩ | hnext
    · -- the number stands before, on an element that shares it on the other side as well
      have hab' := (hsame a hmem b (List.mem_append_left _ hb) ha).mp hab
      rw [← hab, ← hab', heq b hb]
    · rcases h' l a [] rfl ha' with ⟨b, hb, hab'⟩ | hnext'
      · have hab := (hsame a hmem b (List.mem_append_left _ hb) ha).mpr hab'
        rw [← hab, ← hab', heq b hb]
      · have hdistinct : distinct tok l = distinct tok' l := by
          unfold distinct
          rw [hl]
        rw [hnext, hnext', hdistinct]

end Boot2Deb
