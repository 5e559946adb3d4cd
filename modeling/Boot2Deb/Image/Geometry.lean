import Boot2Deb.Size

/-!
# Disk geometry (`engine/src/image/geometry.rs`)

`BootRegion.resolve` fixes the head of the disk from the authored offsets, `BootRegion.checkPayloadFit`
holds the staged boot payloads to it, and `Geometry.resolve` / `Geometry.aroundRootfs` lay out the
rest, from the disk's size or from the filesystem's. Every unguarded `u64` operation of the source is
one of the panicking operators of `Rust.U64`.
-/

namespace Boot2Deb.Image
open Rust

def SECTOR : UInt64 := 512

def EXT4_BLOCK : UInt64 := 4096

/-- `EXT4_BLOCK * 8 * EXT4_BLOCK`, one ext4 block group. -/
def MIN_ROOTFS_BYTES : UInt64 := 4096 * 8 * 4096

def GPT_FRONT_SECTORS : UInt64 := 34

def GPT_BACK_SECTORS : UInt64 := 33

/-- `press::SEED_PARTITION_BYTES`, `1 << 20`. -/
def SEED_PARTITION_BYTES : UInt64 := 1048576

/-- `chromeos::SPARE_KPART_FLAGS`. -/
def SPARE_KPART_FLAGS : UInt64 := 0

/-! ### The resolved boot configuration (`core/src/model.rs`) -/

structure Offsets where
  idbloader : Str
  ubootItb : Str
  rootfs : Str
deriving DecidableEq, Repr

structure Kpart where
  offset : Str
  size : Str
  slots : UInt8
  priority : UInt8
  tries : UInt8
  successful : Bool
deriving DecidableEq, Repr

/-- `ResolvedBoot`, with the fields the geometry reads. -/
inductive ResolvedBoot where
  | rockchipRkbin (offsets : Offsets)
  | depthcharge (kpart : Kpart) (rootfsOffset : Str)
deriving DecidableEq, Repr

def ResolvedBoot.rootfsOffset : ResolvedBoot → Str
  | .rockchipRkbin offsets => offsets.rootfs
  | .depthcharge _ rootfsOffset => rootfsOffset

/-- The `nibble` closure of `kpart_flags`. -/
def nibble (value : UInt8) (field : String) : Outcome ConfigError UInt64 :=
  if value ≤ 0xf then .ok value.toUInt64 else .err (.invalidKpartAttr field value)

/-- `chromeos::kpart_flags`: the attribute word of a ChromeOS kernel partition. -/
def kpartFlags (priority tries : UInt8) (successful : Bool) : Outcome ConfigError UInt64 := do
  let priority ← nibble priority "kpart_priority"
  let tries ← nibble tries "kpart_tries"
  .ok ((priority <<< 48) ||| (tries <<< 52) ||| ((if successful then (1 : UInt64) else 0) <<< 56))

/-! ### The layout -/

/-- One ChromeOS kernel slot's placement and attribute word. -/
structure KpartSlot where
  offset : UInt64
  firstLba : UInt64
  lengthLba : UInt64
  flags : UInt64
deriving DecidableEq, Repr

/-- What the boot method puts ahead of the rootfs. -/
inductive BootGeometry where
  | rawGap (idbloaderOff ubootItbOff : UInt64)
  | kpart (slots : List KpartSlot)
deriving DecidableEq, Repr

/-- The head of the disk, the half of the layout that does not answer to the image's size. -/
structure BootRegion where
  boot : BootGeometry
  seedOff : UInt64
  rootfsOff : UInt64
deriving DecidableEq, Repr

/-- The byte and LBA layout of one image. -/
structure Geometry where
  totalSize : UInt64
  boot : BootGeometry
  seedOff : UInt64
  rootfsOff : UInt64
  rootfsFirstLba : UInt64
  rootfsLengthLba : UInt64
  rootfsBytes : UInt64
deriving DecidableEq, Repr

/-- `geom`: an `EngineError::ImageGeometry` with `detail`. -/
def geom (detail : String) : EngineError := .imageGeometry detail

/-- `parse_size` under the engine's `?`. -/
def size (input : Str) : Outcome EngineError UInt64 := (Size.parseSize input).mapErr .config

/-- The sector-alignment check the boot methods run over their authored offsets. -/
def sectorAligned (what : String) (v : UInt64) : Outcome EngineError Unit :=
  if U64.isMultipleOf v SECTOR then .ok ()
  else .err (geom s!"{what} ({v}) is not a multiple of {SECTOR}")

namespace BootRegion

/-- `BootRegion::raw_gap`: the geometry, and the byte the region ends at. -/
def rawGap (offsets : Offsets) (rootfsOff : UInt64) :
    Outcome EngineError (BootGeometry × UInt64) := do
  let idbloaderOff ← size offsets.idbloader
  let ubootItbOff ← size offsets.ubootItb
  sectorAligned "idbloader offset" idbloaderOff
  sectorAligned "u-boot.itb offset" ubootItbOff
  let front ← U64.mul GPT_FRONT_SECTORS SECTOR
  if idbloaderOff < front then
    .err (geom s!"idbloader offset ({idbloaderOff}) overlaps the primary GPT (first {front} bytes reserved)")
  else if !(idbloaderOff < ubootItbOff && ubootItbOff < rootfsOff) then
    .err (geom s!"raw-gap offsets must increase: idbloader ({idbloaderOff}) < u-boot.itb ({ubootItbOff}) < rootfs ({rootfsOff})")
  else .ok (.rawGap idbloaderOff ubootItbOff, ubootItbOff)

/-- The loop of `kpart`: `n` more slots from slot `i` on, and the byte the last one ends at. -/
def layKpartSlots (size payloadFlags : UInt64) :
    Nat → Nat → UInt64 → Outcome EngineError (List KpartSlot × UInt64)
  | 0, _, start => .ok ([], start)
  | n + 1, i, start => do
    let stop ← Outcome.okOr (U64.checkedAdd start size)
      (geom s!"kernel slot {i} at {start} + size ({size}) overflows the offset arithmetic")
    let (slots, last) ← layKpartSlots size payloadFlags n (i + 1) stop
    .ok (⟨start, start / SECTOR, size / SECTOR,
      if i = 0 then payloadFlags else SPARE_KPART_FLAGS⟩ :: slots, last)

/-- `BootRegion::kpart`: the kernel slots, back to back, and the byte the last one ends at. -/
def kpart (kpart : Kpart) : Outcome EngineError (BootGeometry × UInt64) := do
  let offset ← Image.size kpart.offset
  let size ← Image.size kpart.size
  sectorAligned "kpart offset" offset
  sectorAligned "kpart size" size
  if size = 0 then
    .err (geom "kpart size is zero — nothing could be booted")
  else do
    let front ← U64.mul GPT_FRONT_SECTORS SECTOR
    if offset < front then
      .err (geom s!"kpart offset ({offset}) overlaps the primary GPT (first {front} bytes reserved)")
    else do
      let payloadFlags ← (kpartFlags kpart.priority kpart.tries kpart.successful).mapErr .config
      let (slots, start) ← layKpartSlots size payloadFlags kpart.slots.toNat 0 offset
      .ok (.kpart slots, start)

/-- The seed partition's place, in space the boot method leaves free. -/
def placeSeed (boot : BootGeometry) (rootfsOff : UInt64) : Outcome EngineError UInt64 :=
  match boot with
  | .rawGap _ ubootItbOff => do
    let seedOff ← Outcome.okOr (U64.checkedSub rootfsOff SEED_PARTITION_BYTES)
      (geom s!"rootfs offset ({rootfsOff}) leaves no room for the {SEED_PARTITION_BYTES}-byte seed partition ahead of it")
    if ubootItbOff ≥ seedOff then
      .err (geom s!"the u-boot.itb offset ({ubootItbOff}) leaves no room for the {SEED_PARTITION_BYTES}-byte seed partition before the rootfs ({rootfsOff}) — move the rootfs offset up")
    else .ok seedOff
  | .kpart [] => .err (geom "the depthcharge geometry resolved to no kernel slots")
  | .kpart (firstSlot :: _) => do
    let front ← U64.mul GPT_FRONT_SECTORS SECTOR
    Outcome.okOr ((U64.checkedSub firstSlot.offset SEED_PARTITION_BYTES).filter (front ≤ ·))
      (geom s!"the kernel slot offset ({firstSlot.offset}) leaves no room for the {SEED_PARTITION_BYTES}-byte seed partition between the primary GPT and the slots")

/-- What the boot method occupies at the head, and the byte that ends at. -/
def head (boot : ResolvedBoot) (rootfsOff : UInt64) : Outcome EngineError (BootGeometry × UInt64) :=
  match boot with
  | .rockchipRkbin offsets => rawGap offsets rootfsOff
  | .depthcharge k _ => kpart k

/-- `BootRegion::resolve`. -/
def resolve (boot : ResolvedBoot) : Outcome EngineError BootRegion := do
  let rootfsOff ← size boot.rootfsOffset
  let (bootGeom, bootEnd) ← head boot rootfsOff
  if !U64.isMultipleOf rootfsOff SECTOR then
    .err (geom s!"rootfs offset ({rootfsOff}) is not a multiple of {SECTOR}")
  else if !U64.isMultipleOf rootfsOff EXT4_BLOCK then
    .err (geom s!"rootfs offset ({rootfsOff}) is not a multiple of the ext4 block size {EXT4_BLOCK}")
  else if bootEnd > rootfsOff then
    .err (geom s!"the boot region ends at {bootEnd}, past the rootfs offset ({rootfsOff})")
  else do
    let seedOff ← placeSeed bootGeom rootfsOff
    .ok ⟨bootGeom, seedOff, rootfsOff⟩

/-- The `fits` closure of `check_payload_fit`. -/
def fits (what : String) (len start limit : UInt64) (limitName : String) :
    Outcome EngineError Unit := do
  let stop ← Outcome.okOr (U64.checkedAdd start len)
    (geom s!"{what} length ({len} bytes) overflows the offset arithmetic")
  if stop > limit then
    .err (geom s!"{what} ({len} bytes @ {start}) overruns the {limitName} ({limit})")
  else .ok ()

/-- `BootRegion::check_payload_fit`: the staged payloads, by name and length, in the order the boot
method writes them. -/
def checkPayloadFit (region : BootRegion) (payloads : List (String × UInt64)) :
    Outcome EngineError Unit :=
  match region.boot with
  | .rawGap idbloaderOff ubootItbOff =>
    match payloads with
    | [(_, idbLen), (_, itbLen)] => do
      fits "idbloader.img" idbLen idbloaderOff ubootItbOff "u-boot.itb offset"
      fits "u-boot.itb" itbLen ubootItbOff region.seedOff "seed partition offset"
    | _ => .err (geom s!"the raw-gap boot region takes exactly 2 payloads, got {payloads.length}")
  | .kpart slots =>
    match payloads with
    | [(what, len)] => do
      let payload ← Outcome.okOr slots.head?
        (geom "the depthcharge geometry resolved to no kernel slots")
      let length ← U64.mul payload.lengthLba SECTOR
      let limit ← U64.add payload.offset length
      fits what len payload.offset limit "kernel partition"
    | _ => .err (geom s!"the kernel partition takes exactly 1 payload, got {payloads.length}")

end BootRegion

namespace Geometry

/-- `Geometry::assemble`, where both directions meet. -/
def assemble (region : BootRegion) (totalSize rootfsBytes : UInt64) :
    Outcome EngineError Geometry := do
  let rootfsOff := region.rootfsOff
  if !U64.isMultipleOf rootfsBytes EXT4_BLOCK then
    .err (geom s!"the rootfs filesystem ({rootfsBytes} bytes) is not a multiple of the ext4 block size {EXT4_BLOCK}")
  else if !U64.isMultipleOf totalSize SECTOR then
    .err (geom s!"image size ({totalSize}) is not a multiple of {SECTOR}")
  else do
    let rootfsFirstLba := rootfsOff / SECTOR
    let rootfsLengthLba := rootfsBytes / SECTOR
    let endLba ← Outcome.okOr (U64.checkedAdd rootfsFirstLba rootfsLengthLba)
      (geom "the rootfs partition overflows the LBA arithmetic")
    let _usableEndLba ← Outcome.okOr
      ((U64.checkedSub (totalSize / SECTOR) GPT_BACK_SECTORS).filter (endLba ≤ ·))
      (geom s!"the rootfs partition ends at LBA {endLba}, past what the {totalSize}-byte image leaves usable before the backup GPT")
    .ok {
      totalSize
      boot := region.boot
      seedOff := region.seedOff
      rootfsOff
      rootfsFirstLba
      rootfsLengthLba
      rootfsBytes }

/-- `Geometry::resolve`: the layout of a disk of `totalSize` bytes. -/
def resolve (boot : ResolvedBoot) (totalSize : UInt64) : Outcome EngineError Geometry :=
  if !U64.isMultipleOf totalSize SECTOR then
    .err (geom s!"image size ({totalSize}) is not a multiple of {SECTOR}")
  else do
    let region ← BootRegion.resolve boot
    let rootfsOff := region.rootfsOff
    let totalLba := totalSize / SECTOR
    let rootfsFirstLba := rootfsOff / SECTOR
    let reserve ← U64.add GPT_BACK_SECTORS 1
    let lastUsableLba ← Outcome.okOr
      ((U64.checkedSub totalLba reserve).filter (rootfsFirstLba ≤ ·))
      (geom s!"image size ({totalSize}) is too small for a rootfs partition at offset {rootfsOff}")
    let span ← U64.sub lastUsableLba rootfsFirstLba
    let sectors ← U64.add span 1
    let availableBytes ← U64.mul sectors SECTOR
    let partitionBytes ← U64.mul (availableBytes / EXT4_BLOCK) EXT4_BLOCK
    if partitionBytes < MIN_ROOTFS_BYTES then
      .err (geom s!"usable rootfs area ({availableBytes} bytes) is smaller than the {MIN_ROOTFS_BYTES}-byte minimum")
    else assemble region totalSize partitionBytes

/-- `Geometry::around_rootfs`: the smallest disk that holds a filesystem of `rootfsBytes` bytes. -/
def aroundRootfs (boot : ResolvedBoot) (rootfsBytes : UInt64) : Outcome EngineError Geometry := do
  let region ← BootRegion.resolve boot
  let back ← U64.mul GPT_BACK_SECTORS SECTOR
  let totalSize ← Outcome.okOr
    ((U64.checkedAdd region.rootfsOff rootfsBytes).bind (U64.checkedAdd · back))
    (geom s!"a rootfs of {rootfsBytes} bytes at offset {region.rootfsOff} overflows the offset arithmetic")
  assemble region totalSize rootfsBytes

end Geometry

end Boot2Deb.Image
