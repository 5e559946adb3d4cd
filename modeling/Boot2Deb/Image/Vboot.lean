import Boot2Deb.Error
import Boot2Deb.Lib.Overwrite
import Boot2Deb.Rust.Outcome
import Boot2Deb.Rust.Text
import Boot2Deb.Rust.Usize

/-!
# The signed kernel partition

A partition is a keyblock, a preamble and a body, end to end. `parse` reads where each lies from
header fields of the first two and verifies both signatures, and `resign` writes another command
line into the body and signs body and preamble again.
-/

namespace Boot2Deb.Image.Vboot
open Rust

def MAGIC : Bytes := asBytes "CHROMEOS".toList

/-- The size of the command-line area. -/
def CONFIG_BYTES : ℕ := 4096

/-- The size of the parameters area behind it. -/
def PARAMS_BYTES : ℕ := 4096

def STRUCT_VERSION_MAJOR : ℕ := 2

def KB_VERSION_MAJOR : ℕ := 8
def KB_SIZE : ℕ := 16
def KB_DATA_KEY : ℕ := 80
def KEY_OFFSET : ℕ := 0
def KEY_SIZE : ℕ := 8
def KEY_ALGORITHM : ℕ := 16
def KEY_HEADER : ℕ := 32
def PRE_SIZE : ℕ := 0
def PRE_SIGNATURE : ℕ := 8
def PRE_VERSION_MAJOR : ℕ := 32
def PRE_BODY_LOAD : ℕ := 48
def PRE_BOOTLOADER : ℕ := 56
def PRE_BODY_SIGNATURE : ℕ := 72
def SIG_HEADER : ℕ := 24

/-- The preamble header bytes that are read. -/
def PRE_HEADER : ℕ := PRE_BODY_SIGNATURE + SIG_HEADER

/-- The modulus size of the algorithms that hash with SHA-256. -/
def sha256ModulusBits (algorithm : ℕ) : Option ℕ :=
  match algorithm with
  | 1 => some 1024
  | 4 => some 2048
  | 7 => some 4096
  | 10 => some 8192
  | _ => none

/-- A range of bytes. -/
structure Range where
  start : ℕ
  stop : ℕ
deriving DecidableEq, Repr

/-- RSA signatures and the digest they are over. A public key is made of a modulus. -/
structure Rsa (Public Private : Type) where
  sha256 : Bytes → Bytes
  newPublic : ℕ → Except String Public
  modulus : Public → ℕ
  verify : Public → Bytes → Bytes → Bool
  privateModulus : Private → ℕ
  sign : Private → Bytes → Except String Bytes

def resignErr {α : Type} (detail : String) : Outcome EngineError α := .err (.kpartResign detail)

/-! ### Reading fields -/

/-- `start..start + len`, refusing an overflow. -/
def span (start len : ℕ) : Outcome EngineError Range :=
  match Usize.checkedAdd start len with
  | some stop => .ok ⟨start, stop⟩
  | none => resignErr "a field's length overflows"

/-- The bytes of a range, or an error that names it. -/
def within (bytes : Bytes) (range : Range) (what : String) : Outcome EngineError Bytes :=
  if range.start ≤ range.stop ∧ range.stop ≤ bytes.length then
    .ok (part bytes range.start range.stop)
  else resignErr (what ++ " runs past the end of the " ++ toString bytes.length ++ "-byte partition")

/-- `bytes[range]`. -/
def index (bytes : Bytes) (range : Range) : Outcome EngineError Bytes :=
  if range.start ≤ range.stop ∧ range.stop ≤ bytes.length then
    .ok (part bytes range.start range.stop)
  else .panic

/-- Whether two ranges share a byte. -/
def overlaps (a b : Range) : Bool := a.start < b.stop && b.start < a.stop

/-- The value of bytes, the lowest first. -/
def leValue (b : Bytes) : ℕ := b.foldr (fun byte n => byte.toNat + 256 * n) 0

/-- The little-endian number of `width` bytes at `at_`. -/
def leAt (width : ℕ) (bytes : Bytes) (at_ : ℕ) : Outcome EngineError ℕ := do
  let range ← span at_ width
  let field ← within bytes range "a header field"
  .ok (leValue field)

def u64At (bytes : Bytes) (at_ : ℕ) : Outcome EngineError ℕ := leAt 8 bytes at_

def u32At (bytes : Bytes) (at_ : ℕ) : Outcome EngineError ℕ := leAt 4 bytes at_

/-- A size or an offset, which fits a `usize` like every `u64` does. -/
def usizeAt (bytes : Bytes) (at_ : ℕ) : Outcome EngineError ℕ := u64At bytes at_

/-- Read a signature header: the signature's own range, and how much it signs. -/
def signatureAt (checks : Bool) (bytes : Bytes) (at_ : ℕ) (container : Range) (len : ℕ) :
    Outcome EngineError (Range × ℕ) := do
  let offset ← usizeAt bytes at_
  let start ← Outcome.okOr (Usize.checkedAdd at_ offset)
    (.kpartResign "a signature offset overflows")
  let sizeField ← Usize.add checks at_ 8
  let size ← usizeAt bytes sizeField
  let signedField ← Usize.add checks at_ 16
  let signed ← usizeAt bytes signedField
  if size ≠ len then
    resignErr ("a signature is " ++ toString size ++ " bytes, and its key's signatures are " ++
      toString len)
  else do
    let range ← span start size
    if range.start < container.start ∨ container.stop < range.stop then
      resignErr "a signature lies outside the preamble"
    else .ok (range, signed)

/-! ### Parsing -/

variable {Public Private : Type}

/-- Decode a packed public key. -/
def packedPublicKey (rsa : Rsa Public Private) (checks : Bool) (data : Bytes) (bits : ℕ) :
    Outcome EngineError Public := do
  let words ← u32At data 0
  if Usize.checkedMul words 32 ≠ some bits then
    resignErr ("its data key holds " ++ toString words ++ " modulus words, and its algorithm names a "
      ++ toString bits ++ "-bit modulus")
  else do
    let len ← Usize.mul checks words 4
    let range ← span 8 len
    let modulus ← within data range "the data key's modulus"
    match rsa.newPublic (leValue modulus) with
    | .ok key => .ok key
    | .error e => resignErr ("its data key is not a usable RSA key: " ++ e)

/-- What is read of the keyblock. -/
structure Keyblock (Public : Type) where
  len : ℕ
  algorithm : ℕ
  key : Range
  dataKey : Public
  signatureLen : ℕ

/-- The first part of `parse`: the keyblock and the data key in it. -/
def parseKeyblock (rsa : Rsa Public Private) (checks : Bool) (bytes : Bytes) :
    Outcome EngineError (Keyblock Public) :=
  if ¬MAGIC <+: bytes then
    resignErr ("it does not start with the vboot keyblock magic, so it is not a signed " ++
      "kernel partition")
  else do
    let version ← u32At bytes KB_VERSION_MAJOR
    if version ≠ STRUCT_VERSION_MAJOR then
      resignErr ("its keyblock is structure version " ++ toString version ++ ", and only version " ++
        toString STRUCT_VERSION_MAJOR ++ " is read")
    else do
      let len ← usizeAt bytes KB_SIZE
      let keyblock ← within bytes ⟨0, len⟩ "the keyblock"
      let algorithm ← u64At keyblock (KB_DATA_KEY + KEY_ALGORITHM)
      let bits ← Outcome.okOr (sha256ModulusBits algorithm) (.kpartResign
        ("its data key is vboot algorithm " ++ toString algorithm ++
          ", which does not hash with SHA-256"))
      let keyOffset ← usizeAt keyblock (KB_DATA_KEY + KEY_OFFSET)
      let keyStart ← Outcome.okOr (Usize.checkedAdd KB_DATA_KEY keyOffset)
        (.kpartResign "its data key's offset overflows")
      let keyLen ← usizeAt keyblock (KB_DATA_KEY + KEY_SIZE)
      let key ← span keyStart keyLen
      let keyData ← within keyblock key "the data key"
      if keyStart < KB_DATA_KEY + KEY_HEADER then resignErr "its data key overlaps the key header"
      else do
        let dataKey ← packedPublicKey rsa checks keyData bits
        .ok ⟨len, algorithm, key, dataKey, bits / 8⟩

/-- What is read of the preamble, and the body behind it. -/
structure Preamble where
  range : Range
  signature : Range
  signed : Range
  bodySignature : Range
  body : Range
  bodyLen : ℕ

/-- The second part of `parse`: the preamble, both signatures in it and the body behind it. -/
def parsePreamble (checks : Bool) (bytes : Bytes) (start signatureLen : ℕ) :
    Outcome EngineError Preamble := do
  let sizeField ← Usize.add checks start PRE_SIZE
  let len ← usizeAt bytes sizeField
  let preamble ← span start len
  let _ ← within bytes preamble "the preamble"
  if len < PRE_HEADER then
    resignErr ("its preamble is " ++ toString len ++ " bytes, shorter than the " ++
      toString PRE_HEADER ++ "-byte header")
  else do
    let versionField ← Usize.add checks start PRE_VERSION_MAJOR
    let version ← u32At bytes versionField
    if version ≠ STRUCT_VERSION_MAJOR then
      resignErr ("its preamble is structure version " ++ toString version ++ ", and only version " ++
        toString STRUCT_VERSION_MAJOR ++ " is read")
    else do
      let signatureField ← Usize.add checks start PRE_SIGNATURE
      let (signature, signedLen) ← signatureAt checks bytes signatureField preamble signatureLen
      let signed ← span start signedLen
      if preamble.stop < signed.stop then
        resignErr "its preamble signature covers more than the preamble"
      else if overlaps signature signed then
        resignErr "its preamble signature lies inside the bytes it signs"
      else do
        let bodyField ← Usize.add checks start PRE_BODY_SIGNATURE
        let (bodySignature, bodyLen) ← signatureAt checks bytes bodyField preamble signatureLen
        let body ← span preamble.stop bodyLen
        let _ ← within bytes body "the body"
        .ok ⟨preamble, signature, signed, bodySignature, body, bodyLen⟩

/-- The error for a stub that leaves no room for the command line. -/
def stubErr {α : Type} (stub load bodyLen : ℕ) : Outcome EngineError α :=
  resignErr ("its bootloader stub at 0x" ++ String.ofList (Nat.toDigits 16 stub) ++
    " leaves no command-line area in a body of " ++ toString bodyLen ++ " bytes loaded at 0x" ++
    String.ofList (Nat.toDigits 16 load))

/-- The third part of `parse`: the command-line area, placed by the addresses of body and stub. -/
def commandLineArea (checks : Bool) (bytes : Bytes) (start : ℕ) (body : Range) (bodyLen : ℕ) :
    Outcome EngineError Range := do
  let loadField ← Usize.add checks start PRE_BODY_LOAD
  let load ← u64At bytes loadField
  let stubField ← Usize.add checks start PRE_BOOTLOADER
  let stub ← u64At bytes stubField
  match (Usize.checkedSub stub load).bind fun d => Usize.checkedSub d (PARAMS_BYTES + CONFIG_BYTES) with
  | none => stubErr stub load bodyLen
  | some inBody => do
    let first ← Usize.add checks body.start inBody
    let last ← Usize.add checks body.start inBody
    let last ← Usize.add checks last CONFIG_BYTES
    if last ≤ body.stop then .ok ⟨first, last⟩ else stubErr stub load bodyLen

/-- A signed kernel partition, parsed and with both signatures verified. -/
structure KernelPartition (Public : Type) where
  bytes : Bytes
  algorithm : ℕ
  dataKey : Public
  body : Range
  config : Range
  bodySignature : Range
  preambleSigned : Range
  preambleSignature : Range

namespace KernelPartition

/-- Check one signature against the data key. -/
def checkSignature (p : KernelPartition Public) (rsa : Rsa Public Private) (data signature : Range)
    (what : String) : Outcome EngineError Unit := do
  let signed ← index p.bytes data
  let value ← index p.bytes signature
  if rsa.verify p.dataKey (rsa.sha256 signed) value then .ok ()
  else resignErr ("its " ++ what ++ " signature does not verify against its own data key")

/-- Verify the body signature, then the preamble signature. -/
def verify (p : KernelPartition Public) (rsa : Rsa Public Private) : Outcome EngineError Unit := do
  p.checkSignature rsa p.body p.bodySignature "body"
  p.checkSignature rsa p.preambleSigned p.preambleSignature "preamble"

/-- Parse a signed kernel partition and verify both of its signatures. -/
def parse (rsa : Rsa Public Private) (checks : Bool) (bytes : Slice UInt8) :
    Outcome EngineError (KernelPartition Public) := do
  let keyblock ← parseKeyblock rsa checks bytes.1
  let preamble ← parsePreamble checks bytes.1 keyblock.len keyblock.signatureLen
  let config ← commandLineArea checks bytes.1 keyblock.len preamble.body preamble.bodyLen
  let partition : KernelPartition Public := {
    bytes := bytes.1
    algorithm := keyblock.algorithm
    dataKey := keyblock.dataKey
    body := preamble.body
    config
    bodySignature := preamble.bodySignature
    preambleSigned := preamble.signed
    preambleSignature := preamble.signature }
  partition.verify rsa
  .ok partition

/-- The kernel command line, up to its NUL. -/
def cmdline (p : KernelPartition Public) : Outcome EngineError Str := do
  let area ← index p.bytes p.config
  let stop ← Outcome.okOr (area.findIdx? (· == 0))
    (.kpartResign "its command line is not NUL-terminated")
  Outcome.okOr (fromUtf8 (area.take stop)) (.kpartResign "its command line is not UTF-8")

/-- `bytes[range].copy_from_slice(value)`. -/
def copyFromSlice (bytes : Bytes) (range : Range) (value : Bytes) : Outcome EngineError Bytes :=
  if range.start ≤ range.stop ∧ range.stop ≤ bytes.length ∧ range.stop - range.start = value.length then
    .ok (overwrite bytes range.start value)
  else .panic

/-- The private half of a data key, with the algorithm its file declares. -/
structure SigningKey (Private : Type) where
  algorithm : ℕ
  key : Private

/-- Sign data by its digest. -/
def SigningKey.sign (key : SigningKey Private) (rsa : Rsa Public Private) (data : Bytes) :
    Outcome EngineError Bytes :=
  match rsa.sign key.key (rsa.sha256 data) with
  | .ok signature => .ok signature
  | .error e => resignErr ("signing failed: " ++ e)

/-- The partition `resign` replaces its own by when nothing fails. -/
def resigned (p : KernelPartition Public) (rsa : Rsa Public Private) (cmdline : Str)
    (key : SigningKey Private) : Outcome EngineError (KernelPartition Public) :=
  if key.algorithm ≠ p.algorithm then
    resignErr ("the image's signing key is vboot algorithm " ++ toString key.algorithm ++
      ", and the kernel was signed with algorithm " ++ toString p.algorithm)
  else if rsa.privateModulus key.key ≠ rsa.modulus p.dataKey then
    resignErr "the image's signing key is not the key the kernel was signed with"
  else if '\x00' ∈ cmdline then resignErr "the new command line holds a NUL byte"
  else if CONFIG_BYTES ≤ byteLen cmdline then
    resignErr ("the new command line is " ++ toString (byteLen cmdline) ++
      " bytes, and the command-line area holds " ++ toString (CONFIG_BYTES - 1) ++
      " with its terminator")
  else do
    let area ← index p.bytes p.config
    let bytes ← copyFromSlice p.bytes p.config (List.replicate area.length 0)
    let bytes ← copyFromSlice bytes ⟨p.config.start, p.config.start + byteLen cmdline⟩
      (asBytes cmdline)
    let body ← index bytes p.body
    let bodySignature ← key.sign rsa body
    let bytes ← copyFromSlice bytes p.bodySignature bodySignature
    -- signed second, because the bytes it covers include the body signature
    let signed ← index bytes p.preambleSigned
    let preambleSignature ← key.sign rsa signed
    let bytes ← copyFromSlice bytes p.preambleSignature preambleSignature
    let resigned := { p with bytes }
    resigned.verify rsa
    .ok resigned

/-- Replace the command line and sign again: what is answered, and the partition behind it. -/
def resign (p : KernelPartition Public) (rsa : Rsa Public Private) (cmdline : Str)
    (key : SigningKey Private) : Outcome EngineError Unit × KernelPartition Public :=
  match p.resigned rsa cmdline key with
  | .ok resigned => (.ok (), resigned)
  | .err e => (.err e, p)
  | .panic => (.panic, p)

end KernelPartition

end Boot2Deb.Image.Vboot
