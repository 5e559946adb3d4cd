import Boot2Deb.Image.Identity
import Boot2Deb.Image.Geometry
import Boot2Deb.Lib.Overwrite

/-!
# Writing a disk image

`assembleDisk` creates a file of the disk's size, writes the partition table, and splices the seed,
the filesystem and the boot payloads into it. A file read is the list of what its reads return, in
pieces of any size; an image file is its bytes.
-/

namespace Boot2Deb.Image
open Rust

/-! ### Files -/

/-- What one `read` finds: bytes up to the next short read, an interruption, or a failure. -/
inductive Read where
  | data (bytes : Bytes) (ne : bytes ≠ [])
  | interrupted
  | failed
deriving DecidableEq

/-- The bytes reads go through. -/
def content : List Read → Bytes
  | [] => []
  | .data bytes _ :: reads => bytes ++ content reads
  | .interrupted :: reads => content reads
  | .failed :: reads => content reads

/-- A file to copy from, whose length a file offset can name. -/
structure Source where
  path : Str
  reads : List Read
  length_le : (content reads).length ≤ isizeMax

def Source.content (src : Source) : Bytes := Image.content src.reads

/-- `file_len`. -/
def Source.len (src : Source) : UInt64 := UInt64.ofNat src.content.length

/-- `read_chunk`: up to `room` bytes, past short reads and interruptions. -/
def readChunk (path : Str) : List Read → ℕ → Outcome EngineError (Bytes × List Read)
  | [], _ => .ok ([], [])
  | read :: reads, 0 => .ok ([], read :: reads)
  | .interrupted :: reads, room => readChunk path reads room
  | .failed :: _, _ => .err (.io path)
  | .data bytes _ :: reads, room =>
    if h : room < bytes.length then
      .ok (bytes.take room,
        .data (bytes.drop room) (fun hn => h.not_ge (List.drop_eq_nil_iff.mp hn)) :: reads)
    else do
      let (filled, reads) ← readChunk path reads (room - bytes.length)
      .ok (bytes ++ filled, reads)

/-- Write at an offset: nothing for no bytes, and zeroes over a gap behind the end. -/
def writeAt (file : Bytes) (offset : ℕ) (bytes : Bytes) : Bytes :=
  if bytes = [] then file
  else overwrite (file ++ List.replicate (offset - file.length) 0) offset bytes

/-- `create_sized_image`, whose `set_len` refuses what a file offset cannot name. -/
def createSizedImage (path : Str) (size : ℕ) : Outcome EngineError Bytes :=
  if size ≤ isizeMax then .ok (List.replicate size 0) else .err (.io path)

/-- `splice_bytes`. -/
def spliceBytes (image : Bytes) (offset : ℕ) (bytes : Bytes) : Bytes := writeAt image offset bytes

/-- A chunk is what the reads go through first. -/
theorem content_of_readChunk {path : Str} {reads rest : List Read} {room : ℕ} {chunk : Bytes}
    (h : readChunk path reads room = .ok (chunk, rest)) : content reads = chunk ++ content rest := by
  induction reads generalizing room chunk rest with
  | nil =>
    obtain ⟨rfl, rfl⟩ := Prod.mk.inj (Outcome.ok.inj h)
    rfl
  | cons read reads ih =>
    cases room with
    | zero =>
      rw [readChunk] at h
      obtain ⟨rfl, rfl⟩ := Prod.mk.inj (Outcome.ok.inj h)
      rfl
    | succ room =>
      cases read with
      | interrupted => exact ih h
      | failed => exact absurd h nofun
      | data bytes ne =>
        rw [readChunk.eq_5 _ _ _ _ _ (Nat.succ_ne_zero room)] at h
        split_ifs at h with hlt
        · obtain ⟨rfl, rfl⟩ := Prod.mk.inj (Outcome.ok.inj h)
          rw [content, content, ← List.append_assoc, List.take_append_drop]
        · obtain ⟨⟨filled, reads'⟩, hr, h⟩ := Outcome.bind_eq_ok.mp h
          obtain ⟨rfl, rfl⟩ := Prod.mk.inj (Outcome.ok.inj h)
          rw [content, ih hr, List.append_assoc]

/-- An empty chunk is the end of the file. -/
theorem content_eq_nil_of_readChunk {path : Str} {reads rest : List Read} {room : ℕ} (hroom : 0 < room)
    (h : readChunk path reads room = .ok ([], rest)) : content reads = [] := by
  induction reads generalizing rest with
  | nil => rfl
  | cons read reads ih =>
    obtain ⟨room, rfl⟩ := Nat.exists_eq_succ_of_ne_zero hroom.ne'
    cases read with
    | interrupted => exact ih h
    | failed => exact absurd h nofun
    | data bytes ne =>
      rw [readChunk.eq_5 _ _ _ _ _ (Nat.succ_ne_zero room)] at h
      split_ifs at h with hlt
      · have htake := (Prod.mk.inj (Outcome.ok.inj h)).1
        rw [List.take_eq_nil_iff] at htake
        rcases htake with h | h
        · exact absurd h (Nat.succ_ne_zero room)
        · exact absurd h ne
      · obtain ⟨⟨filled, reads'⟩, -, h⟩ := Outcome.bind_eq_ok.mp h
        exact absurd (List.append_eq_nil_iff.mp (Prod.mk.inj (Outcome.ok.inj h)).1).1 ne

/-- The loop of `splice_file` at a position of the image, for a block size: a chunk of zeroes is
sought over, any other is written. -/
def spliceLoop (block : ℕ) (path : Str) (image : Bytes) (pos : ℕ) (reads : List Read) :
    Outcome EngineError Bytes :=
  match _h : readChunk path reads block with
  | .err e => .err e
  | .panic => .panic
  | .ok ([], _) => .ok image
  | .ok (byte :: chunk, rest) =>
    if (byte :: chunk).all (· == 0) then
      spliceLoop block path image (pos + (byte :: chunk).length) rest
    else
      spliceLoop block path (writeAt image pos (byte :: chunk)) (pos + (byte :: chunk).length) rest
termination_by (content reads).length
decreasing_by
  all_goals
    rw [content_of_readChunk _h, List.length_append, List.length_cons]
    omega

/-- The sparse-copy block size. -/
def CHUNK : ℕ := 1048576

/-- `splice_file`. -/
def spliceFile (image : Bytes) (offset : ℕ) (src : Source) : Outcome EngineError Bytes :=
  spliceLoop CHUNK src.path image offset src.reads

/-! ### The partition table (`image/gpt.rs`) -/

inductive PartitionType where
  | basic
  | chromeKernel
  | linuxFs
deriving DecidableEq, Repr

/-- One partition to write. -/
structure PartitionSpec where
  index : ℕ
  name : Str
  firstLba : UInt64
  lengthLba : UInt64
  partType : PartitionType
  flags : UInt64
  guid : Uuid
deriving DecidableEq

def SEED_PARTLABEL : Str := "b2d-seed".toList

def KPART_NAMES : Vector Str MAX_KPART_SLOTS :=
  #v["KERN-A".toList, "KERN-B".toList, "KERN-C".toList, "KERN-D".toList]

def LEGACY_BIOS_BOOTABLE : UInt64 := 4

/-- What serializes a table: the header and the entries for each end of a device of a length, and the
protective MBR. -/
structure Gpt where
  table : ℕ → Uuid → List PartitionSpec → Except (String × String) (Bytes × Bytes)
  protectiveMbr : ℕ → Bytes

/-- The entries of the kernel slots, from slot `i` on. -/
def kpartSpecs (kpartGuids : Vector Uuid MAX_KPART_SLOTS) :
    List KpartSlot → ℕ → Outcome EngineError (List PartitionSpec)
  | [], _ => .ok []
  | slot :: slots, i =>
    if h : i < MAX_KPART_SLOTS then do
      let specs ← kpartSpecs kpartGuids slots (i + 1)
      .ok (⟨0, KPART_NAMES[i], slot.firstLba, slot.lengthLba, .chromeKernel, slot.flags,
        kpartGuids[i]⟩ :: specs)
    else .panic

/-- The entries of the table, in the order they lie on the disk. -/
def partitionSpecs (geom : Geometry) (rootfsLabel : Str) (identity : ImageIdentity) :
    Outcome EngineError (List PartitionSpec) := do
  let seed : PartitionSpec := ⟨0, SEED_PARTLABEL, geom.seedOff / SECTOR,
    SEED_PARTITION_BYTES / SECTOR, .basic, 0, identity.seedPartuuid⟩
  let kparts ← match geom.boot with
    | .kpart slots => kpartSpecs identity.kpartGuids slots 0
    | .rawGap _ _ => .ok []
  let rootfs : PartitionSpec := ⟨0, rootfsLabel, geom.rootfsFirstLba, geom.rootfsLengthLba,
    .linuxFs, LEGACY_BIOS_BOOTABLE, identity.rootfsPartuuid⟩
  let parts := (seed :: kparts ++ [rootfs]).mergeSort fun p q => p.firstLba ≤ q.firstLba
  .ok (parts.mapIdx fun i p => { p with index := i + 1 })

/-- The sectors of a header and its entries. -/
def TABLE_BYTES : ℕ := 33 * 512

/-- `pmbr_size`: what the record of the protective MBR covers. -/
def pmbrSize (geom : Geometry) : ℕ := min ((geom.totalSize / SECTOR).toNat - 1) (2 ^ 32 - 1)

/-- `write_table`: both tables, then the protective MBR at the front. -/
def writeTable (gpt : Gpt) (image : Bytes) (geom : Geometry) (rootfsLabel : Str)
    (identity : ImageIdentity) : Outcome EngineError Bytes := do
  let parts ← partitionSpecs geom rootfsLabel identity
  match gpt.table image.length identity.diskGuid parts with
  | .error (context, detail) => .err (.gpt context detail)
  | .ok (primary, backup) =>
    let image := writeAt image 512 primary
    let image := writeAt image (image.length - TABLE_BYTES) backup
    .ok (writeAt image 0 (gpt.protectiveMbr (pmbrSize geom)))

/-! ### The disk -/

/-- The boot payload to place, per the boot method. -/
inductive BootPayload where
  | rockchipRkbin (idbloader ubootItb : Source)
  | depthcharge

/-- What goes onto a disk beyond its table. -/
structure DiskContents where
  ext4 : Source
  seedImage : Bytes
  kpart : Option Source

def kpartMissing : EngineError :=
  .stageNotApplicable "image" "the signed kernel partition was not extracted from the rootfs"

/-- `boot_payloads`: the payloads by name and length, in the order the boot method writes them. -/
def bootPayloads (boot : BootPayload) (kpart : Option Source) :
    Outcome EngineError (List (String × UInt64)) :=
  match boot, kpart with
  | .rockchipRkbin idbloader ubootItb, _ =>
    .ok [("idbloader.img", idbloader.len), ("u-boot.itb", ubootItb.len)]
  | .depthcharge, some kpart => .ok [("the signed kernel partition", kpart.len)]
  | .depthcharge, none => .err kpartMissing

/-- The boot payloads of `assemble_disk`. -/
def spliceBoot (image : Bytes) (geom : Geometry) (contents : DiskContents) (boot : BootPayload) :
    Outcome EngineError Bytes :=
  match geom.boot, boot with
  | .rawGap idbloaderOff ubootItbOff, .rockchipRkbin idbloader ubootItb => do
    let image ← spliceFile image idbloaderOff.toNat idbloader
    spliceFile image ubootItbOff.toNat ubootItb
  | .kpart slots, .depthcharge => do
    let kpart ← Outcome.okOr contents.kpart kpartMissing
    let payload ← Outcome.okOr slots.head?
      (.stageNotApplicable "image" "the depthcharge geometry resolved to no kernel slots")
    spliceFile image payload.offset.toNat kpart
  | _, _ => .err (.stageNotApplicable "image"
    "the boot payload does not match the resolved boot geometry")

/-- `assemble_disk`: the bytes of the finished image. -/
def assembleDisk (gpt : Gpt) (path : Str) (geom : Geometry) (contents : DiskContents)
    (boot : Option BootPayload) (rootfsLabel : Str) (identity : ImageIdentity) :
    Outcome EngineError Bytes := do
  let image ← createSizedImage path geom.totalSize.toNat
  let image ← writeTable gpt image geom rootfsLabel identity
  let image := spliceBytes image geom.seedOff.toNat contents.seedImage
  let image ← spliceFile image geom.rootfsOff.toNat contents.ext4
  match boot with
  | some boot => spliceBoot image geom contents boot
  | none => .ok image

end Boot2Deb.Image
