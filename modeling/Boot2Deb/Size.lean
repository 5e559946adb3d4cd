import Boot2Deb.Error
import Boot2Deb.Rust.Outcome

/-! # Size and offset strings (`core/src/size.rs`) -/

namespace Boot2Deb.Size
open Rust

/-- `unit_multiplier`: the byte multiplier of a trimmed unit suffix. -/
def unitMultiplier (unit : Str) : Option UInt64 :=
  let unit := toAsciiLowercase unit
  if unit ∈ ["".toList, "b".toList] then some 1
  else if unit ∈ ["k".toList, "kb".toList, "kib".toList] then some 1024
  else if unit ∈ ["m".toList, "mb".toList, "mib".toList] then some (1024 * 1024)
  else if unit ∈ ["g".toList, "gb".toList, "gib".toList] then some (1024 * 1024 * 1024)
  else if unit ∈ ["t".toList, "tb".toList, "tib".toList] then some (1024 * 1024 * 1024 * 1024)
  else none

/-- `parse_size`: the byte count of an authored size or offset. -/
def parseSize (input : Str) : Outcome ConfigError UInt64 := do
  let s := trim input
  let num := s.takeWhile Char.isDigit
  let unit := s.dropWhile Char.isDigit
  let value ← Outcome.okOr (parseU64 num) (.invalidSize input)
  let multiplier ← Outcome.okOr (unitMultiplier (trim unit)) (.invalidSize input)
  Outcome.okOr (U64.checkedMul value multiplier) (.invalidSize input)

theorem parseSize_ne_panic (input : Str) : parseSize input ≠ .panic :=
  Outcome.bind_ne_panic (Outcome.okOr_ne_panic _ _) fun _ _ =>
    Outcome.bind_ne_panic (Outcome.okOr_ne_panic _ _) fun _ _ => Outcome.okOr_ne_panic _ _

example : parseSize " 16 MiB ".toList = .ok (16 * 1024 * 1024) := by decide

end Boot2Deb.Size
