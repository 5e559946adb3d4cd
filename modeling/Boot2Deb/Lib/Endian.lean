import Boot2Deb.Rust.Text

/-!
# Numbers as bytes

What bytes denote, the lowest first. The bytes of a number that fits them denote that number.
-/

namespace Boot2Deb.Lib
open Rust

/-- The number bytes denote, the lowest first. -/
def leNumber (b : Bytes) : ℕ := b.foldr (fun byte n => byte.toNat + 256 * n) 0

/-- The number bytes denote, the highest first. -/
def beNumber (b : Bytes) : ℕ := leNumber b.reverse

variable {b : Bytes}

theorem leNumber_lt (b : Bytes) : leNumber b < 256 ^ b.length := by
  induction b with
  | nil => exact Nat.one_pos
  | cons byte b ih =>
    have hbyte : byte.toNat < 256 := byte.toNat_lt
    rw [List.length_cons, pow_succ]
    show byte.toNat + 256 * leNumber b < _
    omega

theorem beNumber_lt (b : Bytes) : beNumber b < 256 ^ b.length := by
  have h := leNumber_lt b.reverse
  rwa [List.length_reverse] at h

theorem leNumber_leBytes (width n : ℕ) : leNumber (leBytes width n) = n % 256 ^ width := by
  induction width generalizing n with
  | zero => rw [pow_zero, Nat.mod_one]; rfl
  | succ width ih =>
    show (UInt8.ofNat n).toNat + 256 * leNumber (leBytes width (n / 256)) = _
    rw [ih, UInt8.toNat_ofNat', pow_succ' 256, Nat.mod_mul]

/-- The bytes of a number that fits them. -/
theorem leNumber_leBytes_of_lt {width n : ℕ} (h : n < 256 ^ width) :
    leNumber (leBytes width n) = n := by
  rw [leNumber_leBytes, Nat.mod_eq_of_lt h]

end Boot2Deb.Lib
