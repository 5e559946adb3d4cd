import Boot2Deb.Engine.Rkboot

/-!
# Reading a Rockchip boot container back

A reader finds the blobs twice: by the descriptors of the groups, in bytes, and by the sections of
the `UsbHead` block, in sectors of its own. Both denote the same regions, which hold what was
packed, exactly where the sectors of both payloads fit 16 bits.
-/

namespace Boot2Deb.Engine.Rkboot
open Rust Lib

/-- The number in a field of a file. -/
def fieldAt (file : Bytes) (width at_ : ℕ) : ℕ := leNumber (part file at_ (at_ + width))

/-- A stretch of a file. -/
structure Region where
  offset : ℕ
  size : ℕ
deriving DecidableEq

namespace Region

def bytes (r : Region) (file : Bytes) : Bytes := part file r.offset (r.offset + r.size)

def Inside (r : Region) (size : ℕ) : Prop := r.offset + r.size ≤ size

def Disjoint (r s : Region) : Prop := r.offset + r.size ≤ s.offset ∨ s.offset + s.size ≤ r.offset

end Region

/-- What the descriptor at a place says of its blob. -/
def descriptor (file : Bytes) (at_ : ℕ) : Region :=
  ⟨fieldAt file 4 (at_ + 45), fieldAt file 4 (at_ + 49)⟩

/-- The blobs of the group the header describes at a place: how many, from where on, how far
apart their descriptors are. -/
def group (file : Bytes) (at_ : ℕ) : List Region :=
  (List.range (fieldAt file 1 at_)).map fun i =>
    descriptor file (fieldAt file 4 (at_ + 1) + i * fieldAt file 1 (at_ + 5))

/-- The section the `UsbHead` block describes at a place: its first sector, from the block on, and
how many they are. -/
def sectionAt (file : Bytes) (head : Region) (at_ : ℕ) : Region :=
  ⟨head.offset + SECTOR * fieldAt file 2 (head.offset + at_),
    SECTOR * fieldAt file 2 (head.offset + at_ + 2)⟩

/-- The payload with zeros up to the next page. -/
def padded (payload : Bytes) : Bytes :=
  payload ++ List.replicate (paddedLen payload.length - payload.length) 0

/-- The container decodes to the head and both payloads. -/
structure Decodes (checks : Bool) (sha256 : Bytes → Digest) (usb471 usb472 file : Bytes)
    (head r471 r472 : Region) : Prop where
  code471 : group file 25 = [head, r471]
  code472 : group file 31 = [r472]
  loader : group file 37 = []
  section471 : sectionAt file head 120 = r471
  section472 : sectionAt file head 208 = r472
  usbHead : usbHead checks sha256 (padded usb471) (padded usb472) = .ok (head.bytes file)
  payload471 : r471.bytes file = padded usb471
  payload472 : r472.bytes file = padded usb472
  inside : ∀ r ∈ [head, r471, r472], r.Inside (file.length - 4)
  disjoint : [head, r471, r472].Pairwise Region.Disjoint
  digest471 : part file (head.offset + 144) (head.offset + 176) = sha256 (r471.bytes file)
  digest472 : part file (head.offset + 232) (head.offset + 264) = sha256 (r472.bytes file)
  digestHead : part file (head.offset + 1536) (head.offset + 1568) =
    sha256 (part file head.offset (head.offset + 1536))
  checksum : fieldAt file 4 (file.length - 4) = (rkCrc32 (file.take (file.length - 4))).toNat

/-- The sectors of both payloads, and the first of the second one, fit 16 bits. -/
def SectorsFit (usb471 usb472 : Bytes) : Prop :=
  PAGE / SECTOR + paddedLen usb471.length / SECTOR < 2 ^ 16 ∧
    paddedLen usb472.length / SECTOR < 2 ^ 16

variable {checks : Bool} {sha256 : Bytes → Digest} {chip : {c : Bytes // c.length = 4}}
  {payload usb471 usb472 p p471 p472 head file : Bytes}

/-! ### Lengths -/

@[simp] theorem length_digest (d : Digest) : d.1.length = 32 := d.2

theorem length_nameField (name : Str) : (nameField name).length = 40 := by
  have hunits : (((encodeUtf16 name).take 20).flatMap (leBytes 2)).length =
      2 * ((encodeUtf16 name).take 20).length := by
    induction (encodeUtf16 name).take 20 with
    | nil => rfl
    | cons unit units ih =>
      rw [List.flatMap_cons, List.length_append, ih, length_leBytes, List.length_cons]
      omega
  have htake : ((encodeUtf16 name).take 20).length ≤ 20 := by
    rw [List.length_take]
    omega
  rw [nameField, List.length_append, List.length_replicate, hunits]
  omega

theorem paddedLen_mod (len : ℕ) : paddedLen len % PAGE = 0 := Nat.mul_mod_left _ _

theorem le_paddedLen (len : ℕ) : len ≤ paddedLen len := by
  simp only [paddedLen, PAGE]
  omega

theorem length_padded : (padded payload).length = paddedLen payload.length := by
  have h := le_paddedLen payload.length
  rw [padded, List.length_append, List.length_replicate]
  omega

theorem pad_eq_ok :
    pad payload = .ok p ↔ paddedLen payload.length ≤ isizeMax ∧ p = padded payload := by
  unfold pad
  split_ifs with h
  · rw [Outcome.ok.injEq, and_iff_right h, eq_comm]
    rfl
  · simp [h]

/-! ### The head -/

theorem ascends_usbHeadParts {start471 count471 start472 count472 : ℕ} {d : Digest} :
    Ascends PAGE 0 (usbHeadParts sha256 start471 count471 start472 count472 p471 p472 ++
      [(1536, d.1)]) := by
  simp [usbHeadParts, Ascends, length_leBytes, PAGE]
  decide

/-- What a head holds, where the sums fit as `start472` says. -/
structure HeadFields (sha256 : Bytes → Digest) (p471 p472 head : Bytes) (start472 : ℕ) : Prop where
  length : head.length = PAGE
  start471 : part head 120 122 = leBytes 2 (asU16 (PAGE / SECTOR))
  count471 : part head 122 124 = leBytes 2 (asU16 (p471.length / SECTOR))
  start472 : part head 208 210 = leBytes 2 start472
  count472 : part head 210 212 = leBytes 2 (asU16 (p472.length / SECTOR))
  digest471 : part head 144 176 = sha256 p471
  digest472 : part head 232 264 = sha256 p472
  digestHead : part head 1536 1568 = sha256 (part head 0 1536)

theorem headFields (h : usbHead checks sha256 p471 p472 = .ok head) :
    ∃ start472, addU16 checks (asU16 (PAGE / SECTOR)) (asU16 (p471.length / SECTOR)) =
      .ok start472 ∧ HeadFields sha256 p471 p472 head start472 := by
  unfold usbHead at h
  split_ifs at h
  obtain ⟨start472, hstart, h⟩ := Outcome.bind_eq_ok.mp h
  obtain rfl := Outcome.ok.inj h
  refine ⟨start472, hstart, ?_⟩
  generalize hparts : usbHeadParts sha256 (asU16 (PAGE / SECTOR)) (asU16 (p471.length / SECTOR))
    start472 (asU16 (p472.length / SECTOR)) p471 p472 = parts
  generalize hself : sha256 ((overlay (List.replicate PAGE 0) parts).take 1536) = self
  have hfits : Fits (List.replicate PAGE (0 : UInt8)).length (parts ++ [(1536, self.1)]) := by
    rw [List.length_replicate, ← hparts]
    exact ascends_usbHeadParts.fits
  have hlen := length_overlay fun p hp => hfits.inside p (List.mem_append_left _ hp)
  have htake : (overlay (List.replicate PAGE 0) parts).take 1536 =
      part (overwrite (overlay (List.replicate PAGE 0) parts) 1536 self.1) 0 1536 := by
    rw [part, List.drop_zero, take_overwrite le_rfl]
    rw [hlen, List.length_replicate]
    decide
  rw [htake] at hself
  rw [← overlay_concat] at hself ⊢
  subst hparts
  constructor
  · rw [length_overlay hfits.inside, List.length_replicate]
  · exact hfits.part_overlay (by simp [usbHeadParts]) (by rw [length_leBytes])
  · exact hfits.part_overlay (by simp [usbHeadParts]) (by rw [length_leBytes])
  · exact hfits.part_overlay (by simp [usbHeadParts]) (by rw [length_leBytes])
  · exact hfits.part_overlay (by simp [usbHeadParts]) (by rw [length_leBytes])
  · exact hfits.part_overlay (by simp [usbHeadParts]) (by rw [length_digest])
  · exact hfits.part_overlay (by simp [usbHeadParts]) (by rw [length_digest])
  · rw [hself]
    exact hfits.part_overlay (by simp) (by rw [length_digest])

/-! ### The file -/

/-- All writes of `write_maskrom_loader`. -/
def loaderParts (chip head p471 p472 : Bytes) : List (ℕ × Bytes) :=
  headerParts chip 102 216 ++
    entryParts 102 TYPE_471 "UsbHead".toList 273 PAGE 1 ++
    entryParts 159 TYPE_471 "usb471".toList 4369 (asU32 p471.length) 1 ++
    entryParts 216 TYPE_472 "usb472".toList (asU32 (4369 + p471.length)) (asU32 p472.length) 0 ++
    [(273, head), (4369, p471), (4369 + p471.length, p472)]

/-- The file before its checksum. -/
def body (chip head p471 p472 : Bytes) : Bytes :=
  overlay (List.replicate (4369 + p471.length + p472.length) 0) (loaderParts chip head p471 p472)

theorem ascends_loaderParts {chip : Bytes} (hhead : head.length = PAGE) :
    Ascends (4369 + p471.length + p472.length) 0 (loaderParts chip head p471 p472) := by
  simp [loaderParts, headerParts, entryParts, Ascends, length_leBytes, length_nameField, hhead,
    PAGE]
  decide

theorem fits_loaderParts {chip : Bytes} (hhead : head.length = PAGE) :
    Fits (List.replicate (4369 + p471.length + p472.length) (0 : UInt8)).length
      (loaderParts chip head p471 p472) := by
  rw [List.length_replicate]
  exact (ascends_loaderParts hhead).fits

theorem length_body {chip : Bytes} (hhead : head.length = PAGE) :
    (body chip head p471 p472).length = 4369 + p471.length + p472.length := by
  rw [body, length_overlay (fits_loaderParts hhead).inside, List.length_replicate]

theorem write_eq (h471 : paddedLen usb471.length ≤ isizeMax)
    (h472 : paddedLen usb472.length ≤ isizeMax) :
    writeMaskromLoader checks sha256 chip usb471 usb472 =
      if isizeMax < 4369 + paddedLen usb471.length + paddedLen usb472.length then .panic
      else usbHead checks sha256 (padded usb471) (padded usb472) >>= fun head =>
        if isizeMax < 4369 + paddedLen usb471.length + paddedLen usb472.length + 4 then .panic
        else .ok (body chip.1 head (padded usb471) (padded usb472) ++
          leBytes 4 (rkCrc32 (body chip.1 head (padded usb471) (padded usb472))).toNat) := by
  have hmod471 := paddedLen_mod usb471.length
  have hmod472 := paddedLen_mod usb472.length
  have hadd471 : Usize.add (ε := Empty) checks 4369 (padded usb471).length =
      .ok (4369 + paddedLen usb471.length) := by
    rw [length_padded]
    refine Usize.add_of_lt ?_
    simp only [isizeMax, PAGE] at *
    omega
  have hadd472 : Usize.add (ε := Empty) checks (4369 + paddedLen usb471.length)
      (padded usb472).length = .ok (4369 + paddedLen usb471.length + paddedLen usb472.length) := by
    rw [length_padded]
    refine Usize.add_of_lt ?_
    simp only [isizeMax, PAGE] at *
    omega
  unfold writeMaskromLoader
  rw [pad_eq_ok.mpr ⟨h471, rfl⟩, pad_eq_ok.mpr ⟨h472, rfl⟩]
  show Usize.add checks 4369 (padded usb471).length >>= _ = _
  rw [hadd471]
  show Usize.add checks (4369 + paddedLen usb471.length) (padded usb472).length >>= _ = _
  rw [hadd472]
  simp only [body, loaderParts, length_padded]
  rfl

theorem ite_panic_eq_ok {α : Type} {c : Prop} [Decidable c] {x : Outcome Empty α} {a : α} :
    (if c then .panic else x) = .ok a ↔ ¬c ∧ x = .ok a := by
  split_ifs with h <;> simp [h]

theorem write_eq_ok : writeMaskromLoader checks sha256 chip usb471 usb472 = .ok file ↔
    ∃ head, usbHead checks sha256 (padded usb471) (padded usb472) = .ok head ∧
      4369 + paddedLen usb471.length + paddedLen usb472.length + 4 ≤ isizeMax ∧
      file = body chip.1 head (padded usb471) (padded usb472) ++
        leBytes 4 (rkCrc32 (body chip.1 head (padded usb471) (padded usb472))).toNat := by
  constructor
  · intro h
    obtain ⟨p471, hp471, -⟩ := Outcome.bind_eq_ok.mp h
    have h471 := (pad_eq_ok.mp hp471).1
    have h472 : paddedLen usb472.length ≤ isizeMax := by
      obtain ⟨p472, hp472, -⟩ := Outcome.bind_eq_ok.mp (Outcome.bind_eq_ok.mp h).choose_spec.2
      exact (pad_eq_ok.mp hp472).1
    rw [write_eq h471 h472] at h
    obtain ⟨hbody, h⟩ := ite_panic_eq_ok.mp h
    obtain ⟨head, hhead, h⟩ := Outcome.bind_eq_ok.mp h
    obtain ⟨hfile, h⟩ := ite_panic_eq_ok.mp h
    exact ⟨head, hhead, by omega, (Outcome.ok.inj h).symm⟩
  · rintro ⟨head, hhead, hle, rfl⟩
    rw [write_eq (by omega) (by omega), if_neg (by omega), hhead]
    exact if_neg (by omega)

/-- What a written file holds, and where. -/
structure FileFields (usb471 usb472 head file : Bytes) : Prop where
  length : file.length = 4369 + paddedLen usb471.length + paddedLen usb472.length + 4
  head : part file 273 4369 = head
  payload471 : part file 4369 (4369 + paddedLen usb471.length) = padded usb471
  payload472 : part file (4369 + paddedLen usb471.length)
    (4369 + paddedLen usb471.length + paddedLen usb472.length) = padded usb472
  code471 : group file 25 = [⟨273, PAGE⟩, ⟨4369, asU32 (paddedLen usb471.length)⟩]
  code472 : group file 31 =
    [⟨asU32 (4369 + paddedLen usb471.length), asU32 (paddedLen usb472.length)⟩]
  loader : group file 37 = []
  checksum : fieldAt file 4 (file.length - 4) = (rkCrc32 (file.take (file.length - 4))).toNat

theorem fileFields {chip : Bytes} {crc : ℕ} (hhead : head.length = PAGE)
    (hcrc : crc = (rkCrc32 (body chip head (padded usb471) (padded usb472))).toNat) :
    FileFields usb471 usb472 head
      (body chip head (padded usb471) (padded usb472) ++ leBytes 4 crc) := by
  have hlen := @length_body (padded usb471) (padded usb472) _ chip hhead
  generalize hb : body chip head (padded usb471) (padded usb472) = b at *
  have hlen4 := length_leBytes 4 crc
  have hpart : ∀ n w hi, (n, w) ∈ loaderParts chip head (padded usb471) (padded usb472) →
      hi = n + w.length → part (b ++ leBytes 4 crc) n hi = w := by
    intro n w hi hmem hhi
    have hfits := @fits_loaderParts (padded usb471) (padded usb472) _ chip hhead
    have hinside := hfits.inside (n, w) hmem
    rw [List.length_replicate, ← hlen] at hinside
    rw [part_append_left (by rw [hhi]; exact hinside), ← hb]
    exact hfits.part_overlay hmem hhi
  have hfield : ∀ width at_ n,
      (at_, leBytes width n) ∈ loaderParts chip head (padded usb471) (padded usb472) →
      n < 256 ^ width → fieldAt (b ++ leBytes 4 crc) width at_ = n := by
    intro width at_ n hmem hn
    rw [fieldAt, hpart at_ _ _ hmem (by rw [length_leBytes]), leNumber_leBytes_of_lt hn]
  have hu32 : ∀ n, asU32 n < 256 ^ 4 := fun n => Nat.mod_lt _ (by decide)
  rw [length_padded, length_padded] at hlen
  constructor
  · rw [List.length_append, hlen, hlen4]
  · exact hpart _ _ _ (by simp [loaderParts]) (by rw [hhead]; rfl)
  · exact hpart _ _ _ (by simp [loaderParts]) (by rw [length_padded])
  · exact hpart _ _ _ (by simp [loaderParts, length_padded]) (by rw [length_padded])
  · have hcount := hfield 1 25 2 (by simp [loaderParts, headerParts, leBytes]) (by decide)
    have htable := hfield 4 26 102 (by simp [loaderParts, headerParts]) (by decide)
    have hsize := hfield 1 30 ENTRY_LEN (by simp [loaderParts, headerParts]) (by decide)
    have hoff1 := hfield 4 147 273 (by simp [loaderParts, entryParts]) (by decide)
    have hsize1 := hfield 4 151 PAGE (by simp [loaderParts, entryParts]) (by decide)
    have hoff2 := hfield 4 204 4369 (by simp [loaderParts, entryParts]) (by decide)
    have hsize2 := hfield 4 208 (asU32 (paddedLen usb471.length))
      (by simp [loaderParts, entryParts, length_padded]) (hu32 _)
    rw [group, hcount, htable, hsize]
    show [descriptor _ 102, descriptor _ 159] = _
    rw [descriptor, descriptor, hoff1, hsize1, hoff2, hsize2]
  · have hcount := hfield 1 31 1 (by simp [loaderParts, headerParts, leBytes]) (by decide)
    have htable := hfield 4 32 216 (by simp [loaderParts, headerParts]) (by decide)
    have hsize := hfield 1 36 ENTRY_LEN (by simp [loaderParts, headerParts]) (by decide)
    have hoff := hfield 4 261 (asU32 (4369 + paddedLen usb471.length))
      (by simp [loaderParts, entryParts, length_padded]) (hu32 _)
    have hsize1 := hfield 4 265 (asU32 (paddedLen usb472.length))
      (by simp [loaderParts, entryParts, length_padded]) (hu32 _)
    rw [group, hcount, htable, hsize]
    show [descriptor _ 216] = _
    rw [descriptor, hoff, hsize1]
  · have hcount := hfield 1 37 0 (by simp [loaderParts, headerParts, leBytes]) (by decide)
    rw [group, hcount]
    rfl
  · rw [List.length_append, hlen4, Nat.add_sub_cancel, List.take_left, ← hcrc, fieldAt, part,
      List.take_of_length_le (by rw [List.length_append, hlen4]), List.drop_left,
      leNumber_leBytes_of_lt]
    rw [hcrc]
    exact UInt32.toNat_lt _

theorem FileFields.part_head (h : FileFields usb471 usb472 head file) {i j : ℕ} (hj : j ≤ PAGE) :
    part file (273 + i) (273 + j) = part head i j := by
  rw [← h.head, part_part]
  simp only [PAGE] at hj
  omega

theorem fieldAt_lt (file : Bytes) (width at_ : ℕ) : fieldAt file width at_ < 256 ^ width := by
  refine lt_of_lt_of_le (leNumber_lt _) (Nat.pow_le_pow_right (by decide) ?_)
  rw [part, List.length_drop, List.length_take]
  omega

/-- A region that is in the file is as long as what it holds. -/
theorem Region.size_eq {r : Region} {w : Bytes} (hinside : r.Inside (file.length - 4))
    (h : r.bytes file = w) : r.size = w.length := by
  rw [← h, Region.bytes, length_part (by rw [Region.Inside] at hinside; omega)]
  omega

/-- A container that decodes has no more sectors than its fields count. -/
theorem Decodes.sectorsFit {r r471 r472 : Region}
    (hwrite : writeMaskromLoader checks sha256 chip usb471 usb472 = .ok file)
    (h : Decodes checks sha256 usb471 usb472 file r r471 r472) : SectorsFit usb471 usb472 := by
  obtain ⟨head, hhead, -, hfile⟩ := write_eq_ok.mp hwrite
  obtain ⟨start472, -, hfields⟩ := headFields hhead
  have hfile := hfile ▸ @fileFields usb471 usb472 _ chip.1 _ hfields.length rfl
  have hgroup := h.code471.symm.trans hfile.code471
  simp only [List.cons.injEq, and_true] at hgroup
  obtain ⟨rfl, rfl⟩ := hgroup
  obtain rfl : r472 = _ := (List.cons.inj (h.code472.symm.trans hfile.code472)).1
  have hsize471 : asU32 _ = _ := Region.size_eq (h.inside _ (by simp)) h.payload471
  have hsize472 : asU32 _ = _ := Region.size_eq (h.inside _ (by simp)) h.payload472
  -- The sections are as long as the descriptors say, and their fields have 16 bits.
  have h471 : SECTOR * fieldAt file 2 395 = asU32 _ := congrArg Region.size h.section471
  have h472 : SECTOR * fieldAt file 2 483 = asU32 _ := congrArg Region.size h.section472
  have hstart : 273 + SECTOR * fieldAt file 2 481 = asU32 _ := congrArg Region.offset h.section472
  have hlt471 := fieldAt_lt file 2 395
  have hlt472 := fieldAt_lt file 2 483
  have hltstart := fieldAt_lt file 2 481
  rw [length_padded] at hsize471 hsize472
  simp only [SectorsFit, SECTOR, PAGE, asU32] at *
  omega

theorem usbHead_ok (hmod471 : p471.length % PAGE = 0) (hmod472 : p472.length % PAGE = 0)
    (h471 : PAGE / SECTOR + p471.length / SECTOR < 2 ^ 16) :
    ∃ head, usbHead checks sha256 p471 p472 = .ok head := by
  have hadd : addU16 checks (asU16 (PAGE / SECTOR)) (asU16 (p471.length / SECTOR)) =
      .ok (PAGE / SECTOR + p471.length / SECTOR) := by
    rw [asU16, asU16, Nat.mod_eq_of_lt (lt_of_le_of_lt (Nat.le_add_left _ _) h471)]
    exact if_pos h471
  unfold usbHead
  rw [if_neg (by simp [hmod471, hmod472])]
  simp only [hadd]
  exact ⟨_, rfl⟩

theorem exists_decodes (h : SectorsFit usb471 usb472) :
    ∃ file, writeMaskromLoader checks sha256 chip usb471 usb472 = .ok file ∧
      ∃ r r471 r472, Decodes checks sha256 usb471 usb472 file r r471 r472 := by
  obtain ⟨h471, h472⟩ := h
  have hmod471 := paddedLen_mod usb471.length
  have hmod472 := paddedLen_mod usb472.length
  rw [← length_padded] at hmod471 hmod472 h471 h472
  obtain ⟨head, hhead⟩ := (@usbHead_ok checks sha256) hmod471 hmod472 h471
  obtain ⟨start472, hstart, hfields⟩ := headFields hhead
  rw [length_padded] at hmod471 hmod472 h471 h472
  refine ⟨_, write_eq_ok.mpr ⟨head, hhead, ?_, rfl⟩, ⟨273, PAGE⟩,
    ⟨4369, paddedLen usb471.length⟩, ⟨4369 + paddedLen usb471.length, paddedLen usb472.length⟩, ?_⟩
  · simp only [PAGE, SECTOR, isizeMax] at *
    omega
  have hfile := @fileFields usb471 usb472 _ chip.1 _ hfields.length rfl
  generalize body chip.1 head (padded usb471) (padded usb472) ++
    leBytes 4 (rkCrc32 (body chip.1 head (padded usb471) (padded usb472))).toNat = file at *
  have hlen := hfile.length
  -- No cast cuts anything.
  have hcut471 : asU32 (paddedLen usb471.length) = paddedLen usb471.length :=
    Nat.mod_eq_of_lt (by simp only [PAGE, SECTOR] at *; omega)
  have hcut472 : asU32 (paddedLen usb472.length) = paddedLen usb472.length :=
    Nat.mod_eq_of_lt (by simp only [PAGE, SECTOR] at *; omega)
  have hcutOff : asU32 (4369 + paddedLen usb471.length) = 4369 + paddedLen usb471.length :=
    Nat.mod_eq_of_lt (by simp only [PAGE, SECTOR] at *; omega)
  have hcount471 : asU16 (paddedLen usb471.length / SECTOR) = paddedLen usb471.length / SECTOR :=
    Nat.mod_eq_of_lt (lt_of_le_of_lt (Nat.le_add_left _ _) h471)
  have hcount472 : asU16 (paddedLen usb472.length / SECTOR) = paddedLen usb472.length / SECTOR :=
    Nat.mod_eq_of_lt h472
  have hstart472 : start472 = 8 + paddedLen usb471.length / SECTOR := by
    rw [length_padded, hcount471] at hstart
    exact (Outcome.ok.inj ((if_pos h471).symm.trans hstart)).symm
  have hfield : ∀ n i, i + 2 ≤ PAGE → n < 2 ^ 16 → part head i (i + 2) = leBytes 2 n →
      fieldAt file 2 (273 + i) = n := by
    intro n i hi hn hpart
    rw [fieldAt, Nat.add_assoc, hfile.part_head hi, hpart, leNumber_leBytes_of_lt hn]
  have hrange (len : ℕ) : asU16 len < 2 ^ 16 := Nat.mod_lt _ (by decide)
  have h393 := hfield _ 120 (by decide) (hrange _) hfields.start471
  have h395 := hfield _ 122 (by decide) (hrange _) hfields.count471
  have h481 := hfield _ 208 (by decide) (by rw [hstart472]; exact h471) hfields.start472
  have h483 := hfield _ 210 (by decide) (hrange _) hfields.count472
  rw [length_padded, hcount471] at h395
  rw [length_padded, hcount472] at h483
  have hsectors471 : SECTOR * (paddedLen usb471.length / SECTOR) = paddedLen usb471.length := by
    simp only [PAGE, SECTOR] at *
    omega
  have hsectors472 : SECTOR * (paddedLen usb472.length / SECTOR) = paddedLen usb472.length := by
    simp only [PAGE, SECTOR] at *
    omega
  constructor
  · rw [hfile.code471, hcut471]
  · rw [hfile.code472, hcutOff, hcut472]
  · exact hfile.loader
  · show Region.mk (273 + SECTOR * fieldAt file 2 (273 + 120))
      (SECTOR * fieldAt file 2 (273 + 122)) = _
    rw [h393, h395, hsectors471]
    rfl
  · show Region.mk (273 + SECTOR * fieldAt file 2 (273 + 208))
      (SECTOR * fieldAt file 2 (273 + 210)) = _
    rw [h481, h483, hsectors472, hstart472, Nat.mul_add, hsectors471, ← Nat.add_assoc]
    rfl
  · exact hhead.trans (congrArg _ hfile.head.symm)
  · exact hfile.payload471
  · exact hfile.payload472
  · simp only [Region.Inside, List.forall_mem_cons, PAGE]
    exact ⟨by omega, by omega, by omega, fun r hr => absurd hr List.not_mem_nil⟩
  · simp [Region.Disjoint, PAGE]
  · show part file (273 + 144) (273 + 176) = sha256 (part file _ _)
    rw [hfile.part_head (by decide), hfields.digest471, hfile.payload471]
  · show part file (273 + 232) (273 + 264) = sha256 (part file _ _)
    rw [hfile.part_head (by decide), hfields.digest472, hfile.payload472]
  · show part file (273 + 1536) (273 + 1568) = sha256 (part file (273 + 0) (273 + 1536))
    rw [hfile.part_head (by decide), hfile.part_head (by decide), hfields.digestHead]
  · exact hfile.checksum

/-- The container decodes to its payloads exactly where their sectors fit their fields, whether
sums are checked or wrap. -/
theorem decodes_iff (checks : Bool) (sha256 : Bytes → Digest) (chip : {c : Bytes // c.length = 4})
    (usb471 usb472 : Bytes) :
    (∃ file, writeMaskromLoader checks sha256 chip usb471 usb472 = .ok file ∧
      ∃ head r471 r472, Decodes checks sha256 usb471 usb472 file head r471 r472) ↔
      SectorsFit usb471 usb472 := by
  refine ⟨?_, exists_decodes⟩
  rintro ⟨file, hwrite, head, r471, r472, h⟩
  exact h.sectorsFit hwrite

/-- Of a second payload of 32 MiB the section counts no sector. -/
theorem sectorCount_wraps :
    (∀ checks sha256 chip, ∃ file, writeMaskromLoader checks sha256 chip []
      (List.replicate (2 ^ 25) 0) = .ok file) ∧
    ¬ ∃ checks sha256 chip file head r471 r472,
      writeMaskromLoader checks sha256 chip [] (List.replicate (2 ^ 25) 0) = .ok file ∧
        Decodes checks sha256 [] (List.replicate (2 ^ 25) 0) file head r471 r472 := by
  constructor
  · intro checks sha256 chip
    obtain ⟨head, hhead⟩ := 
      (@usbHead_ok checks sha256 (padded []) (padded (List.replicate (2 ^ 25) 0)))
      (by rw [length_padded, paddedLen_mod]) (by rw [length_padded, paddedLen_mod]) (by decide)
    refine ⟨_, write_eq_ok.mpr ⟨head, hhead, ?_, rfl⟩⟩
    rw [List.length_replicate]
    decide
  · rintro ⟨checks, sha256, chip, file, head, r471, r472, hwrite, h⟩
    have hfit := (h.sectorsFit hwrite).2
    rw [List.length_replicate] at hfit
    exact absurd hfit (by decide)

end Boot2Deb.Engine.Rkboot
