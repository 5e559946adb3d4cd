import Mathlib.Logic.Basic

/-!
# Runs under a condition

A machine takes one operation after another. A run meets a condition when each of its operations
does in the state it is taken in; what such operations keep then holds in every state of the run.
-/

namespace Boot2Deb

variable {σ ι : Type*} {step : σ → ι → σ} {cond : σ → ι → Prop}

/-- What every operation keeps holds at the end of a run. -/
theorem foldl_invariant {inv : σ → Prop} {s : σ} {ops : List ι}
    (hstep : ∀ s op, inv s → inv (step s op)) (hs : inv s) : inv (ops.foldl step s) := by
  induction ops generalizing s with
  | nil => exact hs
  | cons op ops ih => exact ih (hstep s op hs)

/-- The condition holds of every operation, in the state it is taken in. -/
def AllMeet (step : σ → ι → σ) (cond : σ → ι → Prop) : σ → List ι → Prop
  | _, [] => True
  | s, op :: ops => cond s op ∧ AllMeet step cond (step s op) ops

instance decidableAllMeet [∀ s op, Decidable (cond s op)] :
    ∀ s ops, Decidable (AllMeet step cond s ops)
  | _, [] => .isTrue trivial
  | s, op :: ops =>
    have := decidableAllMeet (step s op) ops
    inferInstanceAs (Decidable (cond s op ∧ AllMeet step cond (step s op) ops))

theorem AllMeet.imp {cond' : σ → ι → Prop} (himp : ∀ s op, cond s op → cond' s op) {s : σ}
    {ops : List ι} (h : AllMeet step cond s ops) : AllMeet step cond' s ops := by
  induction ops generalizing s with
  | nil => trivial
  | cons op ops ih => exact ⟨himp s op h.1, ih h.2⟩

theorem AllMeet.append_left {s : σ} {ops more : List ι} (h : AllMeet step cond s (ops ++ more)) :
    AllMeet step cond s ops := by
  induction ops generalizing s with
  | nil => trivial
  | cons op ops ih => exact ⟨h.1, ih h.2⟩

theorem AllMeet.last {s : σ} {ops : List ι} {op : ι} (h : AllMeet step cond s (ops ++ [op])) :
    cond (ops.foldl step s) op := by
  induction ops generalizing s with
  | nil => exact h.1
  | cons first ops ih => exact ih h.2

/-- What every operation of a run keeps under the condition holds at the end of the run. -/
theorem AllMeet.invariant {inv : σ → Prop} {s : σ} {ops : List ι}
    (hstep : ∀ s, ∀ op ∈ ops, inv s → cond s op → inv (step s op))
    (h : AllMeet step cond s ops) (hs : inv s) : inv (ops.foldl step s) := by
  induction ops generalizing s with
  | nil => exact hs
  | cons op ops ih =>
    have hnext : inv (step s op) := hstep s op List.mem_cons_self hs h.1
    exact ih (fun s op hop => hstep s op (List.mem_cons_of_mem _ hop)) h.2 hnext

end Boot2Deb
