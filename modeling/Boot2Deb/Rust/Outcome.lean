import Mathlib

/-!
# Results of Rust functions

`Outcome ε α` is a Rust `Result<α, ε>` together with the third way a call ends: a panic. The `u64`
operators panic where the exact value leaves the type, so a run that ends in `ok` or `err` made
every one of its operations exactly. The `checked_*` operators answer `none` there.
-/

namespace Boot2Deb.Rust

/-- How a call ends: with a value, with an error, or by a panic. -/
inductive Outcome (ε α : Type) where
  | ok (a : α)
  | err (e : ε)
  | panic
deriving Repr, DecidableEq

namespace Outcome
variable {ε α β : Type}

/-- The `?` operator: go on with the value, hand an error or a panic to the caller. -/
def bind (x : Outcome ε α) (f : α → Outcome ε β) : Outcome ε β :=
  match x with
  | ok a => f a
  | err e => err e
  | panic => panic

instance : Monad (Outcome ε) where
  pure := ok
  bind := bind

/-- `Option::ok_or`. -/
def okOr (x : Option α) (e : ε) : Outcome ε α :=
  match x with
  | some a => ok a
  | none => err e

/-- `Result::map_err`, the conversion `?` makes between error types. -/
def mapErr {ε' : Type} (f : ε → ε') : Outcome ε α → Outcome ε' α
  | ok a => ok a
  | err e => err (f e)
  | panic => panic

/-- The value, where there is one. -/
def toOption : Outcome ε α → Option α
  | ok a => some a
  | _ => none

/-- Whether a call panics. -/
def isPanic : Outcome ε α → Bool
  | panic => true
  | _ => false

/-- `Iterator::collect` into a `Result`: the values in order, or the first failure. -/
def mapM (f : α → Outcome ε β) : List α → Outcome ε (List β)
  | [] => ok []
  | a :: as => (f a).bind fun b => (mapM f as).bind fun bs => ok (b :: bs)

/-- `Option::expect`. -/
def expect : Option α → Outcome ε α
  | some a => ok a
  | none => panic

/-- `Option::map` of a fallible function, and `transpose`. -/
def mapOption (f : α → Outcome ε β) : Option α → Outcome ε (Option β)
  | some a => (f a).bind fun b => ok (some b)
  | none => ok none

@[simp] theorem pure_eq (a : α) : (pure a : Outcome ε α) = ok a := rfl
@[simp] theorem ok_bind (a : α) (f : α → Outcome ε β) : (ok a >>= f) = f a := rfl
@[simp] theorem err_bind (e : ε) (f : α → Outcome ε β) : (err e >>= f) = err e := rfl
@[simp] theorem panic_bind (f : α → Outcome ε β) : (panic >>= f) = panic := rfl

theorem mem_toOption {x : Outcome ε α} {a : α} : a ∈ x.toOption ↔ x = ok a := by
  cases x <;> simp [toOption, eq_comm]

theorem isPanic_iff {x : Outcome ε α} : x.isPanic = true ↔ x = panic := by
  cases x <;> simp [isPanic]

theorem bind_eq_ok {x : Outcome ε α} {f : α → Outcome ε β} {b : β} :
    (x >>= f) = ok b ↔ ∃ a, x = ok a ∧ f a = ok b := by
  cases x <;> simp

theorem bind_ne_panic {x : Outcome ε α} {f : α → Outcome ε β} (hx : x ≠ panic)
    (hf : ∀ a, x = ok a → f a ≠ panic) : (x >>= f) ≠ panic := by
  cases x with
  | ok a => exact hf a rfl
  | err e => simp
  | panic => exact absurd rfl hx

/-- What a collected list holds, and that every element was computed. -/
theorem mapM_eq_ok {f : α → Outcome ε β} {as : List α} {bs : List β} (h : mapM f as = ok bs) :
    (∀ a ∈ as, ∃ b ∈ bs, f a = ok b) ∧ ∀ b ∈ bs, ∃ a ∈ as, f a = ok b := by
  induction as generalizing bs with
  | nil =>
    obtain rfl : [] = bs := by simpa [mapM] using h
    simp
  | cons a as ih =>
    obtain ⟨b, hb, h⟩ := bind_eq_ok.mp h
    obtain ⟨bs', hbs, h⟩ := bind_eq_ok.mp h
    obtain rfl := ok.inj h
    obtain ⟨h1, h2⟩ := ih hbs
    refine ⟨List.forall_mem_cons.mpr ⟨⟨b, List.mem_cons_self .., hb⟩, fun a' ha' => ?_⟩,
      List.forall_mem_cons.mpr ⟨⟨a, List.mem_cons_self .., hb⟩, fun b' hb' => ?_⟩⟩
    · obtain ⟨b', hb', hf⟩ := h1 a' ha'
      exact ⟨b', List.mem_cons_of_mem _ hb', hf⟩
    · obtain ⟨a', ha', hf⟩ := h2 b' hb'
      exact ⟨a', List.mem_cons_of_mem _ ha', hf⟩

/-- Position by position, what is collected is what was computed. -/
theorem forall₂_of_mapM {f : α → Outcome ε β} {as : List α} {bs : List β} (h : mapM f as = ok bs) :
    List.Forall₂ (fun a b => f a = ok b) as bs := by
  induction as generalizing bs with
  | nil =>
    obtain rfl : [] = bs := by simpa [mapM] using h
    exact .nil
  | cons a as ih =>
    obtain ⟨b, hb, h⟩ := bind_eq_ok.mp h
    obtain ⟨bs', hbs, h⟩ := bind_eq_ok.mp h
    obtain rfl := ok.inj h
    exact .cons hb (ih hbs)

/-- A list of related values is collected where every value has a related one. -/
theorem exists_mapM_forall₂ {f : α → Outcome ε β} {R : α → β → Prop} {as : List α} :
    (∃ bs, mapM f as = ok bs ∧ List.Forall₂ R as bs) ↔ ∀ a ∈ as, ∃ b, f a = ok b ∧ R a b := by
  induction as with
  | nil => exact iff_of_true ⟨[], rfl, .nil⟩ fun a ha => absurd ha List.not_mem_nil
  | cons a as ih =>
    rw [List.forall_mem_cons, ← ih]
    constructor
    · rintro ⟨bs, hbs, hR⟩
      obtain ⟨b, hb, hbs⟩ := bind_eq_ok.mp hbs
      obtain ⟨bs', hbs', hbs⟩ := bind_eq_ok.mp hbs
      obtain rfl := ok.inj hbs
      obtain ⟨hb', hR⟩ := List.forall₂_cons.mp hR
      exact ⟨⟨b, hb, hb'⟩, bs', hbs', hR⟩
    · rintro ⟨⟨b, hb, hb'⟩, bs, hbs, hR⟩
      refine ⟨b :: bs, ?_, .cons hb' hR⟩
      rw [mapM, hb, hbs]
      rfl

/-- What a step leaves of its value is collected back where every step can be undone. -/
theorem map_of_mapM {f : α → Outcome ε β} {g : β → α} (hf : ∀ a b, f a = ok b → g b = a)
    {as : List α} {bs : List β} (h : mapM f as = ok bs) : bs.map g = as := by
  induction as generalizing bs with
  | nil =>
    obtain rfl : [] = bs := by simpa [mapM] using h
    rfl
  | cons a as ih =>
    obtain ⟨b, hb, h⟩ := bind_eq_ok.mp h
    obtain ⟨bs', hbs, h⟩ := bind_eq_ok.mp h
    obtain rfl := ok.inj h
    rw [List.map_cons, hf a b hb, ih hbs]

theorem mapM_map {f : α → Outcome ε β} {g : β → α} {bs : List β} (h : ∀ b ∈ bs, f (g b) = ok b) :
    mapM f (bs.map g) = ok bs := by
  induction bs with
  | nil => rfl
  | cons b bs ih =>
    rw [List.map_cons, mapM, h b List.mem_cons_self, ih fun b hb => h b (List.mem_cons_of_mem _ hb)]
    rfl

@[simp] theorem expect_eq_ok {x : Option α} {a : α} : (expect x : Outcome ε α) = ok a ↔ x = some a := by
  cases x <;> simp [expect]

/-- What is left of the value of a mapped option. -/
theorem map_of_mapOption {γ : Type} {f : α → Outcome ε β} {g : β → γ} {h : α → γ}
    (hf : ∀ a b, f a = ok b → g b = h a) {x : Option α} {y : Option β}
    (hx : mapOption f x = ok y) : y.map g = x.map h := by
  cases x with
  | none =>
    obtain rfl := ok.inj hx
    rfl
  | some a =>
    obtain ⟨b, hb, hx⟩ := bind_eq_ok.mp hx
    obtain rfl := ok.inj hx
    rw [Option.map_some, Option.map_some, hf a b hb]

@[simp] theorem okOr_eq_ok {x : Option α} {e : ε} {a : α} : okOr x e = ok a ↔ x = some a := by
  cases x <;> simp [okOr]

@[simp] theorem okOr_ne_panic (x : Option α) (e : ε) : okOr x e ≠ panic := by
  cases x <;> simp [okOr]

@[simp] theorem mapErr_eq_ok {ε' : Type} {f : ε → ε'} {x : Outcome ε α} {a : α} :
    mapErr f x = ok a ↔ x = ok a := by
  cases x <;> simp [mapErr]

@[simp] theorem mapErr_eq_panic {ε' : Type} {f : ε → ε'} {x : Outcome ε α} :
    mapErr f x = panic ↔ x = panic := by
  cases x <;> simp [mapErr]

end Outcome

/-! ### `u64` arithmetic -/

namespace U64
variable {ε : Type} {a b c : UInt64}

/-- `u64::checked_add`. -/
def checkedAdd (a b : UInt64) : Option UInt64 :=
  if a.toNat + b.toNat < 2 ^ 64 then some (a + b) else none

/-- `u64::checked_sub`. -/
def checkedSub (a b : UInt64) : Option UInt64 :=
  if b.toNat ≤ a.toNat then some (a - b) else none

/-- `u64::checked_mul`. -/
def checkedMul (a b : UInt64) : Option UInt64 :=
  if a.toNat * b.toNat < 2 ^ 64 then some (a * b) else none

/-- The `+` of `u64`. -/
def add (a b : UInt64) : Outcome ε UInt64 :=
  match checkedAdd a b with
  | some c => .ok c
  | none => .panic

/-- The `-` of `u64`. -/
def sub (a b : UInt64) : Outcome ε UInt64 :=
  match checkedSub a b with
  | some c => .ok c
  | none => .panic

/-- The `*` of `u64`. -/
def mul (a b : UInt64) : Outcome ε UInt64 :=
  match checkedMul a b with
  | some c => .ok c
  | none => .panic

/-- `u64::is_multiple_of`. -/
def isMultipleOf (a b : UInt64) : Bool := a % b == 0

theorem checkedAdd_eq_some : checkedAdd a b = some c ↔ c.toNat = a.toNat + b.toNat := by
  unfold checkedAdd
  have hc := c.toNat_lt
  split
  · rename_i h
    rw [Option.some.injEq, ← UInt64.toNat_inj, UInt64.toNat_add, Nat.mod_eq_of_lt h]
    exact eq_comm
  · simp only [reduceCtorEq, false_iff]; omega

theorem checkedSub_eq_some : checkedSub a b = some c ↔ c.toNat + b.toNat = a.toNat := by
  unfold checkedSub
  split
  · rename_i h
    rw [Option.some.injEq, ← UInt64.toNat_inj, UInt64.toNat_sub_of_le _ _ h]
    omega
  · simp only [reduceCtorEq, false_iff]; omega

theorem checkedMul_eq_some : checkedMul a b = some c ↔ c.toNat = a.toNat * b.toNat := by
  unfold checkedMul
  have hc := c.toNat_lt
  split
  · rename_i h
    rw [Option.some.injEq, ← UInt64.toNat_inj, UInt64.toNat_mul, Nat.mod_eq_of_lt h]
    exact eq_comm
  · simp only [reduceCtorEq, false_iff]; omega

theorem add_eq_ok : add (ε := ε) a b = .ok c ↔ c.toNat = a.toNat + b.toNat := by
  rw [← checkedAdd_eq_some, add]; cases checkedAdd a b <;> simp

theorem sub_eq_ok : sub (ε := ε) a b = .ok c ↔ c.toNat + b.toNat = a.toNat := by
  rw [← checkedSub_eq_some, sub]; cases checkedSub a b <;> simp

theorem mul_eq_ok : mul (ε := ε) a b = .ok c ↔ c.toNat = a.toNat * b.toNat := by
  rw [← checkedMul_eq_some, mul]; cases checkedMul a b <;> simp

theorem add_ne_panic (h : a.toNat + b.toNat < 2 ^ 64) : add (ε := ε) a b ≠ .panic := by
  rw [add, checkedAdd, if_pos h]
  simp

theorem sub_ne_panic (h : b.toNat ≤ a.toNat) : sub (ε := ε) a b ≠ .panic := by
  simp [sub, checkedSub, h]

theorem mul_ne_panic (h : a.toNat * b.toNat < 2 ^ 64) : mul (ε := ε) a b ≠ .panic := by
  rw [mul, checkedMul, if_pos h]
  simp

theorem isMultipleOf_iff : isMultipleOf a b = true ↔ a.toNat % b.toNat = 0 := by
  rw [isMultipleOf, beq_iff_eq, ← UInt64.toNat_inj, UInt64.toNat_mod]; rfl

end U64

end Boot2Deb.Rust
