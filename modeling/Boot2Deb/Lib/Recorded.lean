import Boot2Deb.Rust.Outcome

/-!
# Lookups that record what they ask

A lookup reads a world and records the keys it asks of it. `Determined` says that the keys decide
the answer: in a world that agrees on every recorded key, a lookup that succeeds answers the same.
Whatever is put together from determined lookups is determined.
-/

namespace Boot2Deb.Lib
open Rust

/-- A lookup in a world `W`: how it ends there, and the keys it asked. -/
def Recorded (W K ε α : Type) := W → Outcome ε α × List K

namespace Recorded
variable {W K ε α β : Type}

def pure (a : α) : Recorded W K ε α := fun _ => (.ok a, [])

def bind (m : Recorded W K ε α) (f : α → Recorded W K ε β) : Recorded W K ε β := fun w =>
  match m w with
  | (.ok a, keys) => ((f a w).1, keys ++ (f a w).2)
  | (.err e, keys) => (.err e, keys)
  | (.panic, keys) => (.panic, keys)

instance : Monad (Recorded W K ε) where
  pure := pure
  bind := bind

/-- Record a key. -/
def note (key : K) : Recorded W K ε Unit := fun _ => (.ok (), [key])

/-- Read the world without recording a key. -/
def read (f : W → α) : Recorded W K ε α := fun w => (.ok (f w), [])

/-- A step that asks nothing. -/
def lift (x : Outcome ε α) : Recorded W K ε α := fun _ => (x, [])

/-- Ask without recording. -/
def unrecorded (m : Recorded W K ε α) : Recorded W K ε α := fun w => ((m w).1, [])

/-- Every element in order, up to the first failure. -/
def mapM (f : α → Recorded W K ε β) : List α → Recorded W K ε (List β)
  | [] => pure []
  | a :: as => do
    let b ← f a
    let bs ← mapM f as
    pure (b :: bs)

/-- How the lookup ends. -/
def value (m : Recorded W K ε α) (w : W) : Outcome ε α := (m w).1

/-- The keys it asks. -/
def keys (m : Recorded W K ε α) (w : W) : List K := (m w).2

variable {m : Recorded W K ε α} {f : α → Recorded W K ε β} {w w' : W} {a : α} {b : β}

@[simp] theorem pure_eq (a : α) : (Pure.pure a : Recorded W K ε α) = pure a := rfl
@[simp] theorem value_pure : value (pure a : Recorded W K ε α) w = .ok a := rfl
@[simp] theorem value_note (k : K) : value (note k : Recorded W K ε Unit) w = .ok () := rfl
@[simp] theorem value_read (g : W → α) : value (read g : Recorded W K ε α) w = .ok (g w) := rfl
@[simp] theorem value_lift (x : Outcome ε α) : value (lift x : Recorded W K ε α) w = x := rfl
@[simp] theorem value_unrecorded : value (unrecorded m) w = value m w := rfl
@[simp] theorem keys_note (k : K) : keys (note k : Recorded W K ε Unit) w = [k] := rfl
@[simp] theorem keys_pure : keys (pure a : Recorded W K ε α) w = [] := rfl
@[simp] theorem keys_lift (x : Outcome ε α) : keys (lift x : Recorded W K ε α) w = [] := rfl

/-- The answer of a sequence is that of its parts. -/
@[simp] theorem value_bind : value (m >>= f) w = (value m w >>= fun a => value (f a) w) := by
  show (bind m f w).1 = Outcome.bind (m w).1 fun a => (f a w).1
  unfold bind
  rcases m w with ⟨_ | _ | _, _⟩ <;> rfl

theorem keys_bind_of_ok (h : value m w = .ok a) : keys (m >>= f) w = keys m w ++ keys (f a) w := by
  show (bind m f w).2 = (m w).2 ++ (f a w).2
  unfold bind
  unfold value at h
  rcases hm : m w with ⟨x, ks⟩
  rw [hm] at h
  cases h
  rfl

theorem value_mapM_note (key : α → K) (as : List α) :
    value (mapM (fun a => (note (key a) : Recorded W K ε Unit)) as) w = .ok (as.map fun _ => ()) := by
  induction as with
  | nil => rfl
  | cons a as ih =>
    rw [mapM, value_bind, value_note, Outcome.ok_bind, value_bind, ih]
    rfl

end Recorded

open Recorded

/-- In every world that agrees on the keys asked, a success is the same success. -/
def Determined {W K ε α : Type} (agree : W → W → K → Prop) (m : Recorded W K ε α) : Prop :=
  ∀ w w' a a', (∀ k ∈ keys m w, agree w w' k) → value m w = .ok a → value m w' = .ok a' → a = a'

namespace Determined
variable {W K ε α β : Type} {agree : W → W → K → Prop} {m : Recorded W K ε α}
  {f : α → Recorded W K ε β}

theorem pure (a : α) : Determined agree (Recorded.pure a : Recorded W K ε α) := by
  intro w w' b b' _ hb hb'
  exact (Outcome.ok.inj hb).symm.trans (Outcome.ok.inj hb')

theorem lift (x : Outcome ε α) : Determined agree (Recorded.lift x : Recorded W K ε α) := by
  intro w w' b b' _ hb hb'
  exact Outcome.ok.inj (hb.symm.trans hb')

theorem note (k : K) : Determined agree (Recorded.note k : Recorded W K ε Unit) := by
  intro w w' b b' _ _ _
  rfl

/-- A sequence is determined where each step is, the second behind whatever the first answers. -/
theorem bind (hm : Determined agree m) (hf : ∀ a, Determined agree (f a)) :
    Determined agree (m >>= f) := by
  intro w w' b b' hkeys hb hb'
  rw [value_bind] at hb hb'
  obtain ⟨a, ha, hb⟩ := Outcome.bind_eq_ok.mp hb
  obtain ⟨a', ha', hb'⟩ := Outcome.bind_eq_ok.mp hb'
  rw [keys_bind_of_ok ha] at hkeys
  obtain rfl := hm w w' a a' (fun k hk => hkeys k (List.mem_append_left _ hk)) ha ha'
  exact hf a w w' b b' (fun k hk => hkeys k (List.mem_append_right _ hk)) hb hb'

theorem mapM (hf : ∀ a, Determined agree (f a)) (as : List α) :
    Determined agree (Recorded.mapM f as) := by
  induction as with
  | nil => exact pure []
  | cons a as ih => exact (hf a).bind fun b => ih.bind fun bs => pure (b :: bs)

theorem ite {c : Prop} [Decidable c] {m n : Recorded W K ε α} (hm : Determined agree m)
    (hn : Determined agree n) : Determined agree (if c then m else n) := by
  split_ifs
  · exact hm
  · exact hn

end Determined

end Boot2Deb.Lib
