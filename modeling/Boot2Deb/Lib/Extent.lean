import Mathlib

/-!
# Extents of a medium

An `Extent` is a run of bytes; `Laid lo hi es` says the extents `es` follow one another between `lo`
and `hi`, each starting at or past the end of the one before. That one relation gives the pairwise
disjointness and the bounds of a whole layout.
-/

namespace Boot2Deb

/-- The bytes `[start, start + len)`. -/
structure Extent where
  start : Nat
  len : Nat
deriving DecidableEq, Repr

namespace Extent

def stop (e : Extent) : Nat := e.start + e.len

/-- The bytes of the extent, as a set. -/
def bytes (e : Extent) : Set Nat := Set.Ico e.start e.stop

theorem start_le_stop (e : Extent) : e.start ≤ e.stop := Nat.le_add_right _ _

theorem disjoint_of_le {e f : Extent} (h : e.stop ≤ f.start) : Disjoint e.bytes f.bytes :=
  Set.Ico_disjoint_Ico.mpr ((min_le_left _ _).trans (h.trans (le_max_right _ _)))

/-- The extents follow one another from `lo` on and end at or before `hi`. -/
def Laid : Nat → Nat → List Extent → Prop
  | lo, hi, [] => lo ≤ hi
  | lo, hi, e :: es => lo ≤ e.start ∧ Laid e.stop hi es

namespace Laid
variable {lo lo' hi mid : Nat} {es fs : List Extent}

theorem mono_left (h : Laid lo hi es) (hlo : lo' ≤ lo) : Laid lo' hi es := by
  cases es with
  | nil => exact hlo.trans h
  | cons e es => exact ⟨hlo.trans h.1, h.2⟩

theorem le (h : Laid lo hi es) : lo ≤ hi := by
  induction es generalizing lo with
  | nil => exact h
  | cons e es ih => exact h.1.trans (e.start_le_stop.trans (ih h.2))

theorem append (h : Laid lo mid es) (h' : Laid mid hi fs) : Laid lo hi (es ++ fs) := by
  induction es generalizing lo with
  | nil => exact h'.mono_left h
  | cons e es ih => exact ⟨h.1, ih h.2⟩

theorem bounds (h : Laid lo hi es) : ∀ e ∈ es, lo ≤ e.start ∧ e.stop ≤ hi := by
  induction es generalizing lo with
  | nil => simp
  | cons e es ih =>
    intro f hf
    rcases List.mem_cons.mp hf with rfl | hf
    · exact ⟨h.1, le h.2⟩
    · obtain ⟨h1, h2⟩ := ih h.2 f hf
      exact ⟨h.1.trans (e.start_le_stop.trans h1), h2⟩

theorem sorted (h : Laid lo hi es) : es.Pairwise fun e f => e.stop ≤ f.start := by
  induction es generalizing lo with
  | nil => exact List.Pairwise.nil
  | cons e es ih => exact List.pairwise_cons.mpr ⟨fun f hf => (h.2.bounds f hf).1, ih h.2⟩

theorem disjoint (h : Laid lo hi es) : es.Pairwise fun e f => Disjoint e.bytes f.bytes :=
  h.sorted.imp disjoint_of_le

end Laid
end Extent

end Boot2Deb
