import Mathlib.Order.BoundedOrder.Basic
import Mathlib.Order.MinMax
import Mathlib.Tactic.Tauto

/-!
# Half-open spans of a linear order

A span has an inclusive lower and an exclusive upper bound, either of which may be missing.
`intersects` compares bounds crosswise, without looking for a common point. It holds of any two
spans with a common point; on spans that each have a point it holds of no others.
-/

namespace Boot2Deb

/-- `[lo, hi)`, unbounded where a bound is missing. -/
structure HalfOpen (α : Type*) where
  lo : Option α
  hi : Option α
deriving DecidableEq, Repr

namespace HalfOpen
variable {α : Type*} [LinearOrder α] {i j : HalfOpen α} {x : α}

def Mem (i : HalfOpen α) (x : α) : Prop := (∀ l ∈ i.lo, l ≤ x) ∧ ∀ h ∈ i.hi, x < h

/-- The span everything is in. -/
def all : HalfOpen α := ⟨none, none⟩

/-- Keep the larger of two lower bounds. -/
def raise (i : HalfOpen α) (l : α) : HalfOpen α :=
  { i with lo := some (match i.lo with
      | some cur => max cur l
      | none => l) }

/-- Keep the smaller of two upper bounds. -/
def lower (i : HalfOpen α) (h : α) : HalfOpen α :=
  { i with hi := some (match i.hi with
      | some cur => min cur h
      | none => h) }

/-- A lower bound is below an upper one, an absent one below and above everything. -/
def below : Option α → Option α → Bool
  | some lo, some hi => lo < hi
  | _, _ => true

def intersects (i j : HalfOpen α) : Bool := below i.lo j.hi && below j.lo i.hi

theorem mem_all : (all : HalfOpen α).Mem x := by simp [Mem, all]

theorem mem_raise {l : α} : (i.raise l).Mem x ↔ i.Mem x ∧ l ≤ x := by
  obtain ⟨lo, hi⟩ := i
  cases lo <;> simp [Mem, raise] <;> tauto

theorem mem_lower {h : α} : (i.lower h).Mem x ↔ i.Mem x ∧ x < h := by
  obtain ⟨lo, hi⟩ := i
  cases hi with
  | none => simp [Mem, lower]
  | some cur => simp [Mem, lower, and_assoc]

theorem below_of_mem (hi : i.Mem x) (hj : j.Mem x) : below i.lo j.hi = true := by
  cases hlo : i.lo with
  | none => rfl
  | some l =>
    cases hhi : j.hi with
    | none => rfl
    | some h => exact decide_eq_true ((hi.1 l hlo).trans_lt (hj.2 h hhi))

theorem intersects_of_mem (hi : i.Mem x) (hj : j.Mem x) : i.intersects j = true := by
  rw [intersects, below_of_mem hi hj, below_of_mem hj hi]
  rfl

variable [OrderBot α]

/-- The least point a span can have. -/
def least (i : HalfOpen α) : α := i.lo.getD ⊥

theorem least_le (hi : i.Mem x) : i.least ≤ x := by
  rw [least]
  cases hlo : i.lo with
  | none => exact bot_le
  | some l => exact hi.1 l hlo

theorem le_of_least_le (h : i.least ≤ x) : ∀ l ∈ i.lo, l ≤ x := fun l hl => by
  rwa [least, hl] at h

theorem least_lt (hx : j.Mem x) (h : below i.lo j.hi = true) : ∀ h ∈ j.hi, i.least < h := by
  intro h' hh'
  rw [least]
  cases hlo : i.lo with
  | none => exact bot_le.trans_lt (hx.2 h' hh')
  | some l =>
    rw [hlo, hh'] at h
    exact of_decide_eq_true h

/-- Two spans that each have a point and whose bounds do not close share the larger of their least
points. -/
theorem exists_mem_of_intersects {y : α} (hx : i.Mem x) (hy : j.Mem y)
    (h : i.intersects j = true) : ∃ z, i.Mem z ∧ j.Mem z ∧ (z = i.least ∨ z = j.least) := by
  obtain ⟨hij, hji⟩ := Bool.and_eq_true_iff.mp h
  refine ⟨max i.least j.least, ⟨le_of_least_le (le_max_left _ _), fun h hh => ?_⟩,
    ⟨le_of_least_le (le_max_right _ _), fun h hh => ?_⟩, max_choice _ _⟩
  · exact max_lt ((least_le hx).trans_lt (hx.2 h hh)) (least_lt hx hji h hh)
  · exact max_lt (least_lt hy hij h hh) ((least_le hy).trans_lt (hy.2 h hh))

end HalfOpen

end Boot2Deb
