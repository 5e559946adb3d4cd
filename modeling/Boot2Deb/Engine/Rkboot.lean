import Boot2Deb.Lib.Endian
import Boot2Deb.Lib.Written
import Boot2Deb.Rust.Usize

/-!
# The Rockchip boot container (`engine/src/build/rkboot.rs`)

`write_maskrom_loader` puts the two payloads of a maskrom boot behind a header, an entry for each
and the `UsbHead` block that describes them once more, in sectors. Its casts cut a number to the
width of its field. `checks` is whether the profile checks for overflow.
-/

namespace Boot2Deb.Engine.Rkboot
open Rust Lib

def HEADER_LEN : ℕ := 102
def ENTRY_LEN : ℕ := 57
def PAGE : ℕ := 4096
def SECTOR : ℕ := 512
def TYPE_471 : ℕ := 1
def TYPE_472 : ℕ := 2
def VERSION : ℕ := 0x164
def MERGER_VERSION : ℕ := 0x1000000

/-- One bit of the checksum. -/
def crcStep (crc : UInt32) : UInt32 :=
  if crc &&& 0x80000000 ≠ 0 then (crc <<< 1) ^^^ 0x04C10DB7 else crc <<< 1

/-- `rk_crc32`. -/
def rkCrc32 (buf : Bytes) : UInt32 :=
  buf.foldl (fun crc b => crcStep^[8] (crc ^^^ (b.toUInt32 <<< (24 : UInt32)))) 0

/-- `padded_len`. -/
def paddedLen (len : ℕ) : ℕ := (len + (PAGE - 1)) / PAGE * PAGE

/-- `to_vec` and `resize` to the padded length. -/
def pad (payload : Bytes) : Outcome Empty Bytes :=
  if paddedLen payload.length ≤ isizeMax then
    .ok (payload ++ List.replicate (paddedLen payload.length - payload.length) 0)
  else .panic

/-- `as u16`. -/
def asU16 (n : ℕ) : ℕ := n % 2 ^ 16

/-- `as u32`. -/
def asU32 (n : ℕ) : ℕ := n % 2 ^ 32

/-- The `+` of `u16`. -/
def addU16 (checks : Bool) (a b : ℕ) : Outcome Empty ℕ :=
  if a + b < 2 ^ 16 then .ok (a + b) else if checks then .panic else .ok (asU16 (a + b))

/-- A SHA-256 digest. -/
abbrev Digest := {d : Bytes // d.length = 32}

/-- The writes of `usb_head`, but for the digest of the head itself. -/
def usbHeadParts (sha256 : Bytes → Digest) (start471 count471 start472 count472 : ℕ)
    (p471 p472 : Bytes) : List (ℕ × Bytes) :=
  [(0, asBytes "RKNS".toList), (8, leBytes 4 0x00020180), (12, [1]), (97, [1]),
    (120, leBytes 2 start471), (122, leBytes 2 count471), (124, leBytes 4 0xffffffff), (132, [1]),
    (144, sha256 p471), (208, leBytes 2 start472), (210, leBytes 2 count472),
    (212, leBytes 4 0xffffffff), (220, [2]), (232, sha256 p472)]

/-- `usb_head`. -/
def usbHead (checks : Bool) (sha256 : Bytes → Digest) (p471 p472 : Bytes) :
    Outcome Empty Bytes := do
  if checks && (p471.length % PAGE ≠ 0 || p472.length % PAGE ≠ 0) then .panic
  else
    let start471 := asU16 (PAGE / SECTOR)
    let count471 := asU16 (p471.length / SECTOR)
    let start472 ← addU16 checks start471 count471
    let count472 := asU16 (p472.length / SECTOR)
    let h := overlay (List.replicate PAGE 0)
      (usbHeadParts sha256 start471 count471 start472 count472 p471 p472)
    .ok (overwrite h 1536 (sha256 (h.take 1536)))

/-- `encode_utf16`. -/
def encodeUtf16 (s : Str) : List ℕ := s.flatMap fun c =>
  let n := c.toNat
  if n < 0x10000 then [n]
  else [0xd800 + (n - 0x10000) / 0x400, 0xdc00 + (n - 0x10000) % 0x400]

/-- `name_field`. -/
def nameField (name : Str) : Bytes :=
  let units := ((encodeUtf16 name).take 20).flatMap (leBytes 2)
  units ++ List.replicate (40 - units.length) 0

/-- The writes of `write_entry`. -/
def entryParts (at_ ty : ℕ) (name : Str) (dataOff dataSize delay : ℕ) : List (ℕ × Bytes) :=
  [(at_, leBytes 1 ENTRY_LEN), (at_ + 1, leBytes 4 ty), (at_ + 5, nameField name),
    (at_ + 45, leBytes 4 dataOff), (at_ + 49, leBytes 4 dataSize), (at_ + 53, leBytes 4 delay)]

/-- The writes of the header. -/
def headerParts (chip : Bytes) (off471 off472 : ℕ) : List (ℕ × Bytes) :=
  [(0, asBytes "LDR ".toList), (4, leBytes 2 (asU16 HEADER_LEN)), (6, leBytes 4 VERSION),
    (10, leBytes 4 MERGER_VERSION), (14, leBytes 2 2026), (16, [1]), (17, [1]),
    (21, leBytes 4 (beNumber chip)), (25, [2]), (26, leBytes 4 off471), (30, leBytes 1 ENTRY_LEN),
    (31, [1]), (32, leBytes 4 off472), (36, leBytes 1 ENTRY_LEN), (37, [0]), (38, leBytes 4 0),
    (42, leBytes 1 ENTRY_LEN), (43, [0]), (44, [1])]

/-- `write_maskrom_loader`. -/
def writeMaskromLoader (checks : Bool) (sha256 : Bytes → Digest) (chip : {c : Bytes // c.length = 4})
    (usb471 usb472 : Bytes) : Outcome Empty Bytes := do
  let p471 ← pad usb471
  let p472 ← pad usb472
  let off471 := asU32 HEADER_LEN
  let off472 := off471 + 2 * ENTRY_LEN
  let dataStart := off472 + ENTRY_LEN
  let headOff := dataStart
  let b471Off := headOff + PAGE
  let b472Off ← Usize.add checks b471Off p471.length
  let bodyLen ← Usize.add checks b472Off p472.length
  -- `vec![0u8; body_len]`
  if isizeMax < bodyLen then .panic
  else
    let head ← usbHead checks sha256 p471 p472
    let buf := overlay (List.replicate bodyLen 0)
      (headerParts chip.1 off471 off472 ++
        entryParts off471 TYPE_471 "UsbHead".toList (asU32 headOff) (asU32 PAGE) 1 ++
        entryParts (off471 + ENTRY_LEN) TYPE_471 "usb471".toList (asU32 b471Off)
          (asU32 p471.length) 1 ++
        entryParts off472 TYPE_472 "usb472".toList (asU32 b472Off) (asU32 p472.length) 0 ++
        [(headOff, head), (b471Off, p471), (b472Off, p472)])
    if isizeMax < bodyLen + 4 then .panic
    else .ok (buf ++ leBytes 4 (rkCrc32 buf).toNat)

end Boot2Deb.Engine.Rkboot
