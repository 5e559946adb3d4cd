import Boot2Deb.Image.Assemble
import Boot2Deb.Image.Disk

/-!
# A finished disk is its parts

A sparse copy onto zeroes is a plain one. Every part of a resolved disk is written into a place of its
own, so each write finds the zeroes the file was created with, and the finished image is the zero
image overlaid with the parts, in whatever order.
-/

namespace Boot2Deb.Image
open Rust

/-! ### Copying -/

section Copy
variable {path : Str} {reads rest : List Read} {block room pos : ℕ} {chunk image : Bytes}

theorem writeAt_eq {file bytes : Bytes} {offset : ℕ} (h : offset + bytes.length ≤ file.length) :
    writeAt file offset bytes = overwrite file offset bytes := by
  rw [writeAt]
  split_ifs with hnil
  · rw [hnil, overwrite_nil]
  · rw [Nat.sub_eq_zero_of_le (by omega), List.replicate_zero, List.append_nil]

/-- All the bytes of a file, or the failure of a read. -/
def readAll (path : Str) (reads : List Read) : Outcome EngineError Bytes :=
  if .failed ∈ reads then .err (.io path) else .ok (content reads)

theorem readChunk_failed (path : Str) (reads : List Read) (room : ℕ) :
    (∃ chunk rest, readChunk path reads room = .ok (chunk, rest) ∧
        (Read.failed ∈ reads ↔ Read.failed ∈ rest)) ∨
      readChunk path reads room = .err (.io path) ∧ Read.failed ∈ reads := by
  induction reads generalizing room with
  | nil => exact .inl ⟨[], [], rfl, Iff.rfl⟩
  | cons read reads ih =>
    cases room with
    | zero => exact .inl ⟨[], read :: reads, rfl, Iff.rfl⟩
    | succ room =>
      cases read with
      | failed => exact .inr ⟨rfl, List.mem_cons_self⟩
      | interrupted =>
        rcases ih (room + 1) with ⟨chunk, rest, hr, hf⟩ | ⟨he, hf⟩
        · exact .inl ⟨chunk, rest, hr, by simpa using hf⟩
        · exact .inr ⟨he, List.mem_cons_of_mem _ hf⟩
      | data bytes ne =>
        rw [readChunk.eq_5 _ _ _ _ _ (Nat.succ_ne_zero room)]
        split_ifs with hlt
        · exact .inl ⟨_, _, rfl, by simp⟩
        · rcases ih (room + 1 - bytes.length) with ⟨chunk, rest, hr, hf⟩ | ⟨he, hf⟩
          · exact .inl ⟨bytes ++ chunk, rest, by rw [hr]; rfl, by simpa using hf⟩
          · exact .inr ⟨by rw [he]; rfl, List.mem_cons_of_mem _ hf⟩

theorem readChunk_nil_rest (hroom : 0 < room) (h : readChunk path reads room = .ok ([], rest)) :
    rest = [] := by
  induction reads generalizing rest with
  | nil => exact (Prod.mk.inj (Outcome.ok.inj h)).2.symm
  | cons read reads ih =>
    obtain ⟨room, rfl⟩ := Nat.exists_eq_succ_of_ne_zero hroom.ne'
    cases read with
    | interrupted => exact ih h
    | failed => exact absurd h nofun
    | data bytes ne =>
      have hnil := content_eq_nil_of_readChunk hroom h
      exact absurd (List.append_eq_nil_iff.mp hnil).1 ne

theorem eq_replicate_of_all_zero (h : chunk.all (· == 0) = true) :
    chunk = List.replicate chunk.length 0 :=
  List.eq_replicate_iff.mpr ⟨rfl, fun b hb => eq_of_beq (List.all_eq_true.mp h b hb)⟩

theorem part_zero_left {len n : ℕ} (h : part image pos (pos + (n + len)) = List.replicate (n + len) 0) :
    part image pos (pos + n) = List.replicate n 0 := by
  have := @part_part _ image pos (pos + (n + len)) 0 n (by omega)
  rw [h, Nat.add_zero] at this
  rw [← this, part, List.drop_zero, List.take_replicate, Nat.min_eq_left (Nat.le_add_right _ _)]

theorem part_zero_right {len n : ℕ} (h : part image pos (pos + (n + len)) = List.replicate (n + len) 0) :
    part image (pos + n) (pos + n + len) = List.replicate len 0 := by
  have := @part_part _ image pos (pos + (n + len)) n (n + len) (by omega)
  rw [h] at this
  rw [Nat.add_assoc, ← this, part, List.take_replicate, Nat.min_self, List.drop_replicate,
    Nat.add_sub_cancel_left]

theorem spliceLoop_err {e : EngineError} (h : readChunk path reads block = .err e) :
    spliceLoop block path image pos reads = .err e := by
  rw [spliceLoop]
  split
  all_goals simp_all

theorem spliceLoop_nil (h : readChunk path reads block = .ok ([], rest)) :
    spliceLoop block path image pos reads = .ok image := by
  rw [spliceLoop]
  split
  all_goals simp_all

theorem spliceLoop_step (h : readChunk path reads block = .ok (chunk, rest)) (hne : chunk ≠ []) :
    spliceLoop block path image pos reads =
      spliceLoop block path (if chunk.all (· == 0) then image else writeAt image pos chunk)
        (pos + chunk.length) rest := by
  rw [spliceLoop]
  split
  · simp_all
  · simp_all
  · simp_all
  · rename_i byte chunk' rest' heq
    obtain ⟨rfl, rfl⟩ := Prod.mk.inj (Outcome.ok.inj (heq.symm.trans h))
    split_ifs
    · rfl
    · rfl

/-- Onto zeroes, the sparse copy is the plain one, whatever the block size and the reads. -/
theorem spliceLoop_eq (hblock : 0 < block) (hfits : pos + (content reads).length ≤ image.length)
    (hzero : part image pos (pos + (content reads).length) =
      List.replicate (content reads).length 0) :
    spliceLoop block path image pos reads =
      (do
        let bytes ← readAll path reads
        Outcome.ok (overwrite image pos bytes)) := by
  induction hn : (content reads).length using Nat.strong_induction_on generalizing reads image pos with
  | _ n ih =>
    subst hn
    rcases readChunk_failed path reads block with ⟨chunk, rest, hr, hf⟩ | ⟨he, hf⟩
    · by_cases hne : chunk = []
      · subst hne
        obtain rfl := readChunk_nil_rest hblock hr
        rw [spliceLoop_nil hr, readAll, if_neg (by simpa using hf), Outcome.ok_bind,
          content_eq_nil_of_readChunk hblock hr, overwrite_nil]
      · have hcontent := content_of_readChunk hr
        have hpos := List.length_pos_iff.mpr hne
        rw [hcontent, List.length_append] at hfits hzero
        have hchunk : part image pos (pos + chunk.length) = List.replicate chunk.length 0 :=
          part_zero_left hzero
        have hrest := part_zero_right hzero
        -- sought over or written, the image behind the chunk is the same
        have hstep : (if chunk.all (· == 0) then image else writeAt image pos chunk) =
            overwrite image pos chunk := by
          split_ifs with hall
          · rw [overwrite_part (by omega) (hchunk.trans (eq_replicate_of_all_zero hall).symm)]
          · exact writeAt_eq (by omega)
        have hlen : (overwrite image pos chunk).length = image.length := length_overwrite (by omega)
        rw [spliceLoop_step hr hne, hstep, ih (content rest).length
          (by rw [hcontent, List.length_append]; omega) (by omega)
          (by rw [part_overwrite_of_apart (by omega) (.inr le_rfl), hrest]) rfl, readAll, readAll,
          hcontent]
        by_cases hfailed : Read.failed ∈ rest
        · rw [if_pos hfailed, if_pos (hf.mpr hfailed)]
          rfl
        · rw [if_neg hfailed, if_neg fun h => hfailed (hf.mp h), Outcome.ok_bind, Outcome.ok_bind,
            overwrite_append (by omega)]
    · rw [spliceLoop_err he, readAll, if_pos hf]
      rfl

end Copy

/-! ### Writing one part after another -/

section Parts
variable {size offset : ℕ} {parts : List (ℕ × Bytes)} {bytes : Bytes}

/-- An image of a size with the parts written so far. -/
def imageOf (size : ℕ) (parts : List (ℕ × Bytes)) : Bytes := overlay (List.replicate size 0) parts

theorem length_imageOf (h : Fits size parts) : (imageOf size parts).length = size := by
  rw [imageOf, length_overlay (by rw [List.length_replicate]; exact h.inside), List.length_replicate]

theorem writeAt_imageOf (h : Fits size (parts ++ [(offset, bytes)])) :
    writeAt (imageOf size parts) offset bytes = imageOf size (parts ++ [(offset, bytes)]) := by
  have hin : offset + bytes.length ≤ size := h.inside (offset, bytes) (by simp)
  rw [writeAt_eq (by rwa [length_imageOf (h.sublist (List.sublist_append_left ..))]), imageOf, imageOf,
    overlay_concat]

/-- The place of a part not yet written still holds the zeroes of the start. -/
theorem part_imageOf (h : Fits size (parts ++ [(offset, bytes)])) :
    part (imageOf size parts) offset (offset + bytes.length) = List.replicate bytes.length 0 := by
  have hin : offset + bytes.length ≤ size := h.inside (offset, bytes) (by simp)
  have hpre := h.sublist (List.sublist_append_left parts [(offset, bytes)])
  rw [imageOf, part_overlay_of_apart (by rw [List.length_replicate]; exact hpre.inside), part,
    List.take_replicate, Nat.min_eq_left hin, List.drop_replicate, Nat.add_sub_cancel_left]
  intro p hp
  exact ((List.pairwise_append.mp h.apart).2.2 p hp (offset, bytes) (by simp)).symm

/-- Whether every read of a file succeeds. -/
def readable (src : Source) : Outcome EngineError Unit :=
  if .failed ∈ src.reads then .err (.io src.path) else .ok ()

theorem spliceFile_imageOf {src : Source} (h : Fits size (parts ++ [(offset, src.content)])) :
    spliceFile (imageOf size parts) offset src =
      (do
        readable src
        Outcome.ok (imageOf size (parts ++ [(offset, src.content)]))) := by
  have hin : offset + src.content.length ≤ size := h.inside (offset, src.content) (by simp)
  have hlen := length_imageOf (h.sublist (List.sublist_append_left ..))
  rw [spliceFile, spliceLoop_eq (by decide) (by rw [hlen]; exact hin) (part_imageOf h), readAll,
    readable]
  split_ifs
  · rfl
  · rw [Outcome.ok_bind, Outcome.ok_bind, imageOf, imageOf, overlay_concat]
    rfl

end Parts

/-! ### The parts of a disk -/

/-- The header and entries of a table fill the sectors kept for them, and an MBR one sector. -/
structure Gpt.Sized (gpt : Gpt) : Prop where
  table : ∀ len disk parts primary backup, gpt.table len disk parts = .ok (primary, backup) →
    primary.length = TABLE_BYTES ∧ backup.length = TABLE_BYTES
  protectiveMbr : ∀ size, (gpt.protectiveMbr size).length = 512

/-- The boot payloads, each with where it is written. -/
def bootParts (boot : BootGeometry) (kpart : Option Source) (payload : Option BootPayload) :
    List (ℕ × Bytes) :=
  match boot, kpart, payload with
  | .rawGap idbloaderOff ubootItbOff, _, some (.rockchipRkbin idbloader ubootItb) =>
    [(idbloaderOff.toNat, idbloader.content), (ubootItbOff.toNat, ubootItb.content)]
  | .kpart (slot :: _), some kpart, some .depthcharge => [(slot.offset.toNat, kpart.content)]
  | _, _, _ => []

/-- The parts of a disk, each with where it is written. -/
def diskParts (geom : Geometry) (mbr primary backup : Bytes) (contents : DiskContents)
    (payload : Option BootPayload) : List (ℕ × Bytes) :=
  [(512, primary), (geom.totalSize.toNat - TABLE_BYTES, backup), (0, mbr),
    (geom.seedOff.toNat, contents.seedImage), (geom.rootfsOff.toNat, contents.ext4.content)] ++
      bootParts geom.boot contents.kpart payload

def extentOf (p : ℕ × Bytes) : Extent := ⟨p.1, p.2.length⟩

theorem fits_of_laid {size : ℕ} {parts : List (ℕ × Bytes)}
    (h : Extent.Laid 0 size (parts.map extentOf)) : Fits size parts :=
  ⟨fun p hp => (h.bounds (extentOf p) (List.mem_map_of_mem hp)).2,
    (List.pairwise_map.mp h.sorted).imp fun h => .inl h⟩

theorem Source.toNat_len (src : Source) : src.len.toNat = src.content.length := by
  have h : src.content.length ≤ isizeMax := src.length_le
  rw [isizeMax] at h
  rw [len, UInt64.toNat_ofNat', Nat.mod_eq_of_lt (by omega)]

/-- The parts are where the fit check saw them. -/
theorem payloadExtents_eq {boot : BootGeometry} {kpart : Option Source} {payload : BootPayload}
    {lens : List (String × UInt64)} (h : bootPayloads payload kpart = .ok lens) :
    (bootParts boot kpart (some payload)).map extentOf = [] ∨
      (bootParts boot kpart (some payload)).map extentOf = BootRegion.payloadExtents boot lens := by
  cases payload with
  | rockchipRkbin idbloader ubootItb =>
    rw [bootPayloads.eq_1] at h
    obtain rfl := Outcome.ok.inj h
    cases boot with
    | rawGap i u =>
      right
      simp only [bootParts, List.map_cons, List.map_nil, extentOf, BootRegion.payloadExtents,
        Source.toNat_len]
    | kpart slots =>
      left
      cases slots with
      | nil => rfl
      | cons s rest => cases kpart <;> rfl
  | depthcharge =>
    cases kpart with
    | none => exact absurd h nofun
    | some k =>
      obtain rfl := Outcome.ok.inj h
      cases boot with
      | rawGap i u => exact .inl rfl
      | kpart slots =>
        cases slots with
        | nil => exact .inl rfl
        | cons s rest =>
          right
          simp only [bootParts, List.map_cons, List.map_nil, extentOf, BootRegion.payloadExtents,
            Source.toNat_len]

section Disk
variable {region : BootRegion} {t n : UInt64} {contents : DiskContents}
  {payload : Option BootPayload}

/-- What is placed before the seed and what between it and the filesystem. -/
theorem bootParts_laid (h : region.Placed)
    (hfit : ∀ p, payload = some p → ∃ lens, bootPayloads p contents.kpart = .ok lens ∧
      region.checkPayloadFit lens = .ok ()) :
    ∃ before after, bootParts region.boot contents.kpart payload = before ++ after ∧
      Extent.Laid 17408 region.seedOff.toNat (before.map extentOf) ∧
      Extent.Laid (region.seedOff.toNat + 1048576) region.rootfsOff.toNat (after.map extentOf) := by
  have hnone : bootParts region.boot contents.kpart payload = [] →
      ∃ before after, bootParts region.boot contents.kpart payload = before ++ after ∧
        Extent.Laid 17408 region.seedOff.toNat (before.map extentOf) ∧
        Extent.Laid (region.seedOff.toNat + 1048576) region.rootfsOff.toNat
          (after.map extentOf) := by
    intro hnil
    exact ⟨[], [], hnil, h.seed_front, (Geometry.partitions_laid h 0 0).le⟩
  cases payload with
  | none => exact hnone (by unfold bootParts; split <;> simp_all)
  | some p =>
    obtain ⟨lens, hlens, hcheck⟩ := hfit p rfl
    obtain ⟨before, after, hext, hbefore, hafter⟩ := BootRegion.laid_of_fit h hcheck
    rcases @payloadExtents_eq region.boot _ _ _ hlens with hnil | heq
    · exact hnone (List.map_eq_nil_iff.mp hnil)
    · obtain ⟨before', after', hparts, rfl, rfl⟩ := List.map_eq_append_iff.mp (heq.trans hext)
      exact ⟨before', after', hparts, hbefore, hafter⟩

/-- Every part of a resolved disk has a place of its own. -/
theorem diskParts_fits (h : region.Placed)
    (hfit : ∀ p, payload = some p → ∃ lens, bootPayloads p contents.kpart = .ok lens ∧
      region.checkPayloadFit lens = .ok ())
    (ht : region.rootfsOff.toNat + n.toNat + 16896 ≤ t.toNat) {mbr primary backup : Bytes}
    (hmbr : mbr.length = 512) (hprimary : primary.length = TABLE_BYTES)
    (hbackup : backup.length = TABLE_BYTES)
    (hseed : contents.seedImage.length = SEED_PARTITION_BYTES.toNat)
    (hext4 : contents.ext4.content.length = n.toNat) :
    Fits t.toNat (diskParts (Geometry.layout region t n) mbr primary backup contents payload) := by
  obtain ⟨before, after, hparts, hbefore, hafter⟩ := bootParts_laid h hfit
  have hlaid := Geometry.laid_layout hbefore hafter ht
  have hfits : Fits t.toNat ((0, mbr) :: (512, primary) :: (before ++
      ((region.seedOff.toNat, contents.seedImage) :: (after ++
        [(region.rootfsOff.toNat, contents.ext4.content),
          (t.toNat - TABLE_BYTES, backup)])))) := by
    refine fits_of_laid ?_
    simp only [List.map_cons, List.map_append, List.map_nil, extentOf, hmbr, hprimary, hbackup, hseed,
      hext4]
    -- the front of the disk is the MBR and the primary table behind it
    exact ⟨le_rfl, le_rfl, hlaid.2⟩
  refine hfits.perm ?_
  have hdisk : diskParts (Geometry.layout region t n) mbr primary backup contents payload =
      [(512, primary), (t.toNat - TABLE_BYTES, backup), (0, mbr),
        (region.seedOff.toNat, contents.seedImage),
        (region.rootfsOff.toNat, contents.ext4.content)] ++ (before ++ after) := by
    rw [← hparts]
    rfl
  rw [hdisk]
  generalize (region.seedOff.toNat, contents.seedImage) = seed
  generalize (region.rootfsOff.toNat, contents.ext4.content) = rootfs
  generalize (t.toNat - TABLE_BYTES, backup) = back
  generalize (512, primary) = front
  generalize (0, mbr) = mbr
  rw [List.perm_iff_count]
  intro x
  simp only [List.count_append, List.count_cons, List.count_nil]
  omega

end Disk

/-! ### Assembling -/

section Assemble
variable {gpt : Gpt} {path rootfsLabel : Str} {geom : Geometry} {contents : DiskContents}
  {payload : Option BootPayload} {identity : ImageIdentity} {mbr primary backup : Bytes}

/-- Whether the boot payload belongs to the geometry and is read whole. -/
def bootReadable (boot : BootGeometry) (kpart : Option Source) (payload : Option BootPayload) :
    Outcome EngineError Unit :=
  match payload with
  | none => .ok ()
  | some payload =>
    match boot, payload with
    | .rawGap _ _, .rockchipRkbin idbloader ubootItb => do
      readable idbloader
      readable ubootItb
    | .kpart slots, .depthcharge => do
      let kpart ← Outcome.okOr kpart kpartMissing
      let _ ← Outcome.okOr slots.head?
        (.stageNotApplicable "image" "the depthcharge geometry resolved to no kernel slots")
      readable kpart
    | _, _ => .err (.stageNotApplicable "image"
      "the boot payload does not match the resolved boot geometry")

/-- The boot payloads are written where nothing has been yet. -/
theorem spliceBoot_eq {size : ℕ} {parts : List (ℕ × Bytes)} {boot : BootPayload}
    (h : Fits size (parts ++ bootParts geom.boot contents.kpart (some boot))) :
    spliceBoot (imageOf size parts) geom contents boot =
      (do
        bootReadable geom.boot contents.kpart (some boot)
        Outcome.ok (imageOf size (parts ++ bootParts geom.boot contents.kpart (some boot)))) := by
  unfold spliceBoot bootReadable
  generalize geom.boot = g at h ⊢
  cases g with
  | rawGap i u =>
    cases boot with
    | depthcharge => rfl
    | rockchipRkbin idbloader ubootItb =>
      have hpair : parts ++ bootParts (.rawGap i u) contents.kpart (some (.rockchipRkbin idbloader ubootItb)) =
          parts ++ [(i.toNat, idbloader.content)] ++ [(u.toNat, ubootItb.content)] := by
        rw [List.append_assoc]
        rfl
      rw [hpair] at h ⊢
      dsimp only
      rw [spliceFile_imageOf (h.sublist (List.sublist_append_left ..))]
      cases hr : readable idbloader with
      | ok u => exact spliceFile_imageOf h
      | err e => rfl
      | panic => rfl
  | kpart slots =>
    cases boot with
    | rockchipRkbin idbloader ubootItb => cases slots <;> rfl
    | depthcharge =>
      cases hk : contents.kpart with
      | none => rfl
      | some k =>
        rw [hk] at h
        cases slots with
        | nil => rfl
        | cons s rest => exact spliceFile_imageOf h

/-- The three writes of the table. -/
theorem writeTable_eq {size : ℕ} {specs : List PartitionSpec}
    (hspecs : partitionSpecs geom rootfsLabel identity = .ok specs)
    (htable : gpt.table size identity.diskGuid specs = .ok (primary, backup))
    (h : Fits size [(512, primary), (size - TABLE_BYTES, backup),
      (0, gpt.protectiveMbr (pmbrSize geom))]) :
    writeTable gpt (imageOf size []) geom rootfsLabel identity =
      .ok (imageOf size [(512, primary), (size - TABLE_BYTES, backup),
        (0, gpt.protectiveMbr (pmbrSize geom))]) := by
  have hlen : (imageOf size []).length = size := List.length_replicate
  have hone : Fits size ([] ++ [(512, primary)]) :=
    h.sublist (List.Sublist.cons_cons _ (List.nil_sublist _))
  have htwo : Fits size ([(512, primary)] ++ [(size - TABLE_BYTES, backup)]) :=
    h.sublist (List.Sublist.cons_cons _ (List.Sublist.cons_cons _ (List.nil_sublist _)))
  rw [writeTable, hspecs, Outcome.ok_bind, hlen, htable]
  dsimp only
  rw [writeAt_imageOf hone, length_imageOf hone]
  exact congrArg Outcome.ok ((congrArg (writeAt · 0 _) (writeAt_imageOf htwo)).trans
    (writeAt_imageOf h))

/-- What `assemble_disk` answers: the parts overlaid, unless a step fails. -/
theorem assembleDisk_eq (hsized : gpt.Sized)
    (h : ∀ mbr primary backup : Bytes, mbr.length = 512 → primary.length = TABLE_BYTES →
      backup.length = TABLE_BYTES →
        Fits geom.totalSize.toNat (diskParts geom mbr primary backup contents payload)) :
    assembleDisk gpt path geom contents payload rootfsLabel identity =
      if geom.totalSize.toNat ≤ isizeMax then do
        let specs ← partitionSpecs geom rootfsLabel identity
        match gpt.table geom.totalSize.toNat identity.diskGuid specs with
        | .error (context, detail) => .err (.gpt context detail)
        | .ok (primary, backup) => do
          readable contents.ext4
          bootReadable geom.boot contents.kpart payload
          .ok (imageOf geom.totalSize.toNat (diskParts geom (gpt.protectiveMbr (pmbrSize geom))
            primary backup contents payload))
      else .err (.io path) := by
  rw [assembleDisk, createSizedImage]
  split_ifs
  case neg => rfl
  rw [Outcome.ok_bind]
  change (writeTable gpt (imageOf geom.totalSize.toNat []) geom rootfsLabel identity >>= _) = _
  cases hspecs : partitionSpecs geom rootfsLabel identity with
  | err e =>
    rw [writeTable, hspecs]
    rfl
  | panic =>
    rw [writeTable, hspecs]
    rfl
  | ok specs =>
    rw [Outcome.ok_bind]
    cases htable : gpt.table geom.totalSize.toNat identity.diskGuid specs with
    | error e =>
      have hlen : (imageOf geom.totalSize.toNat []).length = geom.totalSize.toNat :=
        List.length_replicate
      rw [writeTable, hspecs, Outcome.ok_bind, hlen, htable]
      rfl
    | ok tables =>
      obtain ⟨primary, backup⟩ := tables
      obtain ⟨hprimary, hbackup⟩ := hsized.table _ _ _ _ _ htable
      have hall := h _ primary backup (hsized.protectiveMbr (pmbrSize geom)) hprimary hbackup
      have hthree : Fits geom.totalSize.toNat ([(512, primary),
          (geom.totalSize.toNat - TABLE_BYTES, backup), (0, gpt.protectiveMbr (pmbrSize geom))] ++
            [(geom.seedOff.toNat, contents.seedImage)]) :=
        hall.sublist (List.IsPrefix.sublist
          ⟨(geom.rootfsOff.toNat, contents.ext4.content) ::
            bootParts geom.boot contents.kpart payload, rfl⟩)
      have hfour : Fits geom.totalSize.toNat ([(512, primary),
          (geom.totalSize.toNat - TABLE_BYTES, backup), (0, gpt.protectiveMbr (pmbrSize geom)),
            (geom.seedOff.toNat, contents.seedImage)] ++
              [(geom.rootfsOff.toNat, contents.ext4.content)]) :=
        hall.sublist (List.sublist_append_left _ _)
      rw [writeTable_eq hspecs htable (hthree.sublist (List.sublist_append_left _ _)),
        Outcome.ok_bind]
      change (spliceFile (writeAt (imageOf _ _) _ _) _ _ >>= _) = _
      rw [writeAt_imageOf hthree]
      change (spliceFile (imageOf _ [_, _, _, _]) _ _ >>= _) = _
      rw [spliceFile_imageOf hfour]
      dsimp only
      cases hread : readable contents.ext4 with
      | err e => rfl
      | panic => rfl
      | ok u =>
        rw [Outcome.ok_bind, Outcome.ok_bind, Outcome.ok_bind]
        cases payload with
        | none =>
          rw [bootReadable, Outcome.ok_bind, diskParts]
          have hnil : bootParts geom.boot contents.kpart none = [] := by
            unfold bootParts
            split <;> simp_all
          rw [hnil]
          rfl
        | some boot => exact spliceBoot_eq hall

/-- The geometry of a resolved boot region, from either direction. -/
theorem diskParts_fits_resolved {boot : ResolvedBoot} {region : BootRegion}
    (hr : BootRegion.resolve boot = .ok region)
    (hg : (∃ t, Geometry.resolve boot t = .ok geom) ∨ ∃ n, Geometry.aroundRootfs boot n = .ok geom)
    (hseed : contents.seedImage.length = SEED_PARTITION_BYTES.toNat)
    (hext4 : contents.ext4.content.length = geom.rootfsBytes.toNat)
    (hfit : ∀ p, payload = some p → ∃ lens, bootPayloads p contents.kpart = .ok lens ∧
      region.checkPayloadFit lens = .ok ())
    (mbr primary backup : Bytes) (hmbr : mbr.length = 512) (hprimary : primary.length = TABLE_BYTES)
    (hbackup : backup.length = TABLE_BYTES) :
    Fits geom.totalSize.toNat (diskParts geom mbr primary backup contents payload) := by
  obtain ⟨t, n, rfl, -, ht⟩ := Geometry.eq_layout hr hg
  exact diskParts_fits (BootRegion.resolve_placed hr) hfit ht hmbr hprimary hbackup hseed hext4

end Assemble

/-! ### A small disk -/

def smallBoot : ResolvedBoot := .rockchipRkbin ⟨"17KiB".toList, "18KiB".toList, "1088KiB".toList⟩

def smallDisk : Geometry :=
  Geometry.layout ⟨.rawGap 17408 18432, 65536, 1114112⟩ 1135104 4096

theorem resolve_smallBoot :
    BootRegion.resolve smallBoot = .ok ⟨.rawGap 17408 18432, 65536, 1114112⟩ := by decide

/-- A file of one repeated byte. -/
def constantSource (n : ℕ) (byte : UInt8) (h : n + 1 ≤ isizeMax) : Source where
  path := "payload".toList
  reads := [.data (List.replicate (n + 1) byte) (by simp)]
  length_le := by simpa [content] using h

theorem constantSource_len (n : ℕ) (byte : UInt8) (h : n + 1 ≤ isizeMax) :
    (constantSource n byte h).content.length = n + 1 := by
  rw [Source.content, constantSource, content, content, List.append_nil, List.length_replicate]

theorem readable_constantSource (n : ℕ) (byte : UInt8) (h : n + 1 ≤ isizeMax) :
    readable (constantSource n byte h) = .ok () := by
  refine if_neg fun hf => ?_
  have hf : Read.failed = .data (List.replicate (n + 1) byte) (by simp) := List.mem_singleton.mp hf
  exact Read.noConfusion hf

def constantGpt : Gpt where
  table _ _ _ := .ok (List.replicate TABLE_BYTES 1, List.replicate TABLE_BYTES 2)
  protectiveMbr _ := List.replicate 512 3

theorem constantGpt_sized : constantGpt.Sized := by
  constructor
  · intro len disk parts primary backup h
    obtain ⟨rfl, rfl⟩ := Prod.mk.inj (Except.ok.inj h)
    exact ⟨List.length_replicate, List.length_replicate⟩
  · intro size
    exact List.length_replicate

def smallContents : DiskContents where
  ext4 := constantSource 4095 4 (by decide)
  seedImage := List.replicate 1048576 5
  kpart := none

def smallPayload : BootPayload :=
  .rockchipRkbin (constantSource 99 6 (by decide)) (constantSource 199 7 (by decide))

def smallIdentity : ImageIdentity :=
  let uuid : Uuid := Vector.replicate 16 9
  ⟨uuid, uuid, uuid, uuid, Vector.replicate 4 uuid⟩

end Boot2Deb.Image
