import Mathlib
import Boot2Deb.Rust.Text

/-!
# The identifiers an image is stamped with
-/

namespace Boot2Deb.Image
open Rust

/-- A UUID as its sixteen bytes. -/
abbrev Uuid := Vector UInt8 16

/-- A byte as two lowercase hexadecimal digits. -/
def hexByte (b : UInt8) : Str := [Nat.digitChar (b.toNat / 16), Nat.digitChar (b.toNat % 16)]

/-- `Uuid::hyphenated`, which writes lowercase. -/
def Uuid.hyphenated (u : Uuid) : Str :=
  let hex (start stop : ℕ) := ((u.toList.take stop).drop start).flatMap hexByte
  hex 0 4 ++ '-' :: hex 4 6 ++ '-' :: hex 6 8 ++ '-' :: hex 8 10 ++ '-' :: hex 10 16

/-- The most kernel slots a partition table gets. -/
def MAX_KPART_SLOTS : ℕ := 4

/-- The identifiers stamped into the partition table and the superblock. -/
structure ImageIdentity where
  ext4Uuid : Uuid
  diskGuid : Uuid
  rootfsPartuuid : Uuid
  seedPartuuid : Uuid
  kpartGuids : Vector Uuid MAX_KPART_SLOTS
deriving DecidableEq

end Boot2Deb.Image
