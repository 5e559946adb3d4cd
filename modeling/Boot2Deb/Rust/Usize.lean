import Boot2Deb.Rust.Outcome

/-!
# `usize` arithmetic

On a 64-bit host. The operators panic where the exact value leaves the type when the profile checks
for that, and wrap around when it does not; `checked_*` answers `none` in either.
-/

namespace Boot2Deb.Rust.Usize

variable {ε : Type} {checks : Bool} {a b c : ℕ}

/-- `usize::checked_add`. -/
def checkedAdd (a b : ℕ) : Option ℕ := if a + b < 2 ^ 64 then some (a + b) else none

/-- `usize::checked_sub`. -/
def checkedSub (a b : ℕ) : Option ℕ := if b ≤ a then some (a - b) else none

/-- `usize::checked_mul`. -/
def checkedMul (a b : ℕ) : Option ℕ := if a * b < 2 ^ 64 then some (a * b) else none

/-- An exact value brought into the type. -/
def fit (checks : Bool) (exact : ℕ) : Outcome ε ℕ :=
  if exact < 2 ^ 64 then .ok exact else if checks then .panic else .ok (exact % 2 ^ 64)

/-- The `+` of `usize`. -/
def add (checks : Bool) (a b : ℕ) : Outcome ε ℕ := fit checks (a + b)

/-- The `*` of `usize`. -/
def mul (checks : Bool) (a b : ℕ) : Outcome ε ℕ := fit checks (a * b)

theorem checkedAdd_eq_some : checkedAdd a b = some c ↔ a + b < 2 ^ 64 ∧ c = a + b := by
  rw [checkedAdd, Option.ite_none_right_eq_some, Option.some.injEq, eq_comm (b := c)]

theorem checkedSub_eq_some : checkedSub a b = some c ↔ b ≤ a ∧ c = a - b := by
  rw [checkedSub, Option.ite_none_right_eq_some, Option.some.injEq, eq_comm (b := c)]

theorem checkedMul_eq_some : checkedMul a b = some c ↔ a * b < 2 ^ 64 ∧ c = a * b := by
  rw [checkedMul, Option.ite_none_right_eq_some, Option.some.injEq, eq_comm (b := c)]

theorem add_of_lt (h : a + b < 2 ^ 64) : add (ε := ε) checks a b = .ok (a + b) := if_pos h

theorem add_of_le (h : 2 ^ 64 ≤ a + b) : add (ε := ε) true a b = .panic := if_neg (not_lt.mpr h)

theorem mul_of_lt (h : a * b < 2 ^ 64) : mul (ε := ε) checks a b = .ok (a * b) := if_pos h

end Boot2Deb.Rust.Usize
