import Boot2Deb.Lib.Overwrite

/-!
# Writes in order

Parts that are written one behind the other lie in places of their own, so each of them is read back
from what all of them leave.
-/

namespace Boot2Deb

variable {α : Type*} {l w : List α} {lo hi n size : ℕ} {parts : List (ℕ × List α)}

/-- The parts lie one behind the other, from `lo` on, and end at `size` at most. -/
def Ascends (size : ℕ) : ℕ → List (ℕ × List α) → Prop
  | lo, [] => lo ≤ size
  | lo, p :: parts => lo ≤ p.1 ∧ Ascends size (p.1 + p.2.length) parts

theorem Ascends.le_size (h : Ascends size lo parts) : lo ≤ size := by
  induction parts generalizing lo with
  | nil => exact h
  | cons p parts ih =>
    have hfirst := h.1
    have hrest := ih h.2
    omega

theorem Ascends.inside (h : Ascends size lo parts) :
    ∀ p ∈ parts, lo ≤ p.1 ∧ p.1 + p.2.length ≤ size := by
  induction parts generalizing lo with
  | nil => exact fun p hp => absurd hp List.not_mem_nil
  | cons p parts ih =>
    refine List.forall_mem_cons.mpr ⟨⟨h.1, h.2.le_size⟩, fun q hq => ?_⟩
    obtain ⟨hlo, hsize⟩ := ih h.2 q hq
    have hfirst := h.1
    exact ⟨by omega, hsize⟩

theorem Ascends.fits (h : Ascends size lo parts) : Fits size parts := by
  refine ⟨fun p hp => (h.inside p hp).2, ?_⟩
  induction parts generalizing lo with
  | nil => exact List.Pairwise.nil
  | cons p parts ih =>
    exact List.pairwise_cons.mpr ⟨fun q hq => .inl (h.2.inside q hq).1, ih h.2⟩

/-- What is written in its own place is read back. -/
theorem Fits.part_overlay (h : Fits l.length parts) (hmem : (n, w) ∈ parts)
    (hhi : hi = n + w.length) : part (overlay l parts) n hi = w := by
  obtain ⟨front, back, rfl⟩ := List.append_of_mem hmem
  have hinside : ∀ p ∈ front, p.1 + p.2.length ≤ l.length := fun p hp => h.inside p (by simp [hp])
  have hlen : (overlay l (front ++ [(n, w)])).length = l.length := by
    refine length_overlay fun p hp => h.inside p ?_
    rcases List.mem_append.mp hp with hp | hp
    · simp [hp]
    · simp [List.mem_singleton.mp hp]
  have hsplit : overlay l (front ++ (n, w) :: back) =
      overlay (overlay l (front ++ [(n, w)])) back := by
    rw [overlay, overlay, overlay, ← List.foldl_append, List.append_assoc]
    rfl
  rw [hsplit, part_overlay_of_apart]
  · rw [overlay_concat]
    refine part_overwrite_self ?_ hhi
    rw [length_overlay hinside]
    exact h.inside (n, w) (by simp)
  · intro p hp
    rw [hlen]
    exact h.inside p (by simp [hp])
  · intro p hp
    have hapart := (List.pairwise_append.mp h.apart).2.1
    rcases (List.pairwise_cons.mp hapart).1 p hp with h1 | h1
    · exact .inl (hhi ▸ h1)
    · exact .inr h1

theorem part_append_left {m : List α} (h : hi ≤ l.length) : part (l ++ m) lo hi = part l lo hi := by
  rw [part, part, List.take_append_of_le_length h]

end Boot2Deb
