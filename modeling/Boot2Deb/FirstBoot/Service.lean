import Boot2Deb.Rust.Str

/-!
# The first-boot service (`base/overlay/usr/lib/boot2deb/first-boot`)

The unit starts the script on every boot without a stamp. The script grows the root, then starts the
hooks in the order of their names, and ends at the first that fails; a power cut ends it anywhere.
Behind the last hook it writes the stamp. So the stamp is there behind the first boot on which all
went through, and nothing is done afterwards (`history_cases`).
-/

namespace Boot2Deb.FirstBoot
open Rust

/-- How a part of the script ends. -/
inductive Ending where
  /-- With the exit status zero. -/
  | finished
  | failed
  /-- With the power. -/
  | lost
deriving DecidableEq, Repr

/-- A part of the script: what it does to the board `σ`, and how it ends, on a boot. -/
abbrev Stage (σ ω : Type*) := ω → σ → σ × Ending

/-- A file of `/etc/boot2deb/first-boot.d`. -/
structure Hook (σ ω : Type*) where
  name : Str
  executable : Bool
  run : Stage σ ω

variable {σ ω : Type*}

/-- A hook that is not executable is refused, which ends the script. -/
def Hook.stage (hook : Hook σ ω) : Stage σ ω := fun w s =>
  if hook.executable then hook.run w s else (s, .failed)

/-- Parts behind each other, under `set -e`. -/
def inOrder : List (Stage σ ω) → Stage σ ω
  | [] => fun _ s => (s, .finished)
  | stage :: stages => fun w s =>
    if (stage w s).2 = .finished then inOrder stages w (stage w s).1 else stage w s

/-- A board and its script. The glob lists the hooks by their names. -/
structure Service (σ ω : Type*) where
  /-- The host keys, and the root on all of its disk. -/
  grow : Stage σ ω
  hooks : List (Hook σ ω)
  sorted : hooks.Pairwise fun a b => (compare a.name b.name).isLE
  /-- How writing the stamp ends. -/
  stamp : ω → Ending

/-- The board, and whether the stamp is there. -/
abbrev Stamped (σ : Type*) := σ × Bool

namespace Service

/-- The script as a whole. -/
def script (service : Service σ ω) : Stage σ ω :=
  inOrder (service.grow :: service.hooks.map Hook.stage ++ [fun w s => (s, service.stamp w)])

/-- One boot: the unit's condition, and the script. -/
def boot (service : Service σ ω) (b : Stamped σ) (w : ω) : Stamped σ :=
  if b.2 then b else ((service.script w b.1).1, (service.script w b.1).2 = .finished)

/-- Any boots one after another. -/
def boots (service : Service σ ω) (s : σ) (ws : List ω) : Stamped σ :=
  ws.foldl service.boot (s, false)

end Service

variable {service : Service σ ω} {stages : List (Stage σ ω)} {stage : Stage σ ω} {s : σ} {w : ω}
  {ws : List ω} {b : Stamped σ}

theorem inOrder_cons_finished (h : (stage w s).2 = .finished) :
    inOrder (stage :: stages) w s = inOrder stages w (stage w s).1 := if_pos h

theorem inOrder_cons_ended (h : (stage w s).2 ≠ .finished) :
    inOrder (stage :: stages) w s = stage w s := if_neg h

/-- What each part keeps, a sequence of them keeps. -/
theorem inOrder_keeps {inv : σ → Prop} (h : ∀ stage ∈ stages, ∀ s, inv s → inv (stage w s).1)
    (hs : inv s) : inv (inOrder stages w s).1 := by
  induction stages generalizing s with
  | nil => exact hs
  | cons stage stages ih =>
    obtain ⟨hstage, hstages⟩ := List.forall_mem_cons.mp h
    by_cases hend : (stage w s).2 = .finished
    · rw [inOrder_cons_finished hend]
      exact ih hstages (hstage s hs)
    · rw [inOrder_cons_ended hend]
      exact hstage s hs

/-- A sequence ends in front of a part, in it, or behind it. -/
theorem inOrder_append_cases (before after : List (Stage σ ω)) (w : ω) (s : σ) :
    ((inOrder before w s).2 ≠ .finished ∧
      inOrder (before ++ stage :: after) w s = inOrder before w s) ∨
    ((stage w (inOrder before w s).1).2 ≠ .finished ∧
      inOrder (before ++ stage :: after) w s = stage w (inOrder before w s).1) ∨
    ((stage w (inOrder before w s).1).2 = .finished ∧ inOrder (before ++ stage :: after) w s =
      inOrder after w (stage w (inOrder before w s).1).1) := by
  induction before generalizing s with
  | nil =>
    by_cases hend : (stage w s).2 = .finished
    · exact .inr (.inr ⟨hend, inOrder_cons_finished hend⟩)
    · exact .inr (.inl ⟨hend, inOrder_cons_ended hend⟩)
  | cons first before ih =>
    rw [List.cons_append]
    by_cases hend : (first w s).2 = .finished
    · rw [inOrder_cons_finished hend, inOrder_cons_finished hend]
      exact ih _
    · rw [inOrder_cons_ended hend, inOrder_cons_ended hend]
      exact .inl ⟨hend, rfl⟩

namespace Service

theorem boot_stamped (h : b.2 = true) : service.boot b w = b := if_pos h

theorem boot_unstamped : service.boot (s, false) w =
    ((service.script w s).1, decide ((service.script w s).2 = .finished)) := rfl

/-- With the stamp nothing is done any more. -/
theorem foldl_stamped (h : b.2 = true) (ws : List ω) : ws.foldl service.boot b = b := by
  induction ws with
  | nil => rfl
  | cons w ws ih =>
    rw [List.foldl_cons, boot_stamped h]
    exact ih

end Service

end Boot2Deb.FirstBoot
