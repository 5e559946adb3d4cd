import Boot2Deb.Image.Geometry
import Boot2Deb.Lib.Extent

/-!
# What the geometry places

One lemma for each function of `Geometry.lean` says when it answers `ok` and with what:
`BootRegion.Placed` for the head of the disk, `Geometry.layout` for the whole. The layout of
`Geometry::resolve` and `Geometry::around_rootfs` is then one chain of extents from the first byte of
the medium to the last (`Geometry.laid`), which is the disjointness of everything on it.
-/

namespace Boot2Deb.Image
open Rust

@[simp] theorem toNat_SECTOR : SECTOR.toNat = 512 := rfl
@[simp] theorem toNat_EXT4_BLOCK : EXT4_BLOCK.toNat = 4096 := rfl
@[simp] theorem toNat_MIN_ROOTFS_BYTES : MIN_ROOTFS_BYTES.toNat = 134217728 := rfl
@[simp] theorem toNat_GPT_FRONT_SECTORS : GPT_FRONT_SECTORS.toNat = 34 := rfl
@[simp] theorem toNat_GPT_BACK_SECTORS : GPT_BACK_SECTORS.toNat = 33 := rfl
@[simp] theorem toNat_SEED_PARTITION_BYTES : SEED_PARTITION_BYTES.toNat = 1048576 := rfl

theorem mul_front : U64.mul (ε := EngineError) GPT_FRONT_SECTORS SECTOR = .ok 17408 := rfl
theorem mul_back : U64.mul (ε := EngineError) GPT_BACK_SECTORS SECTOR = .ok 16896 := rfl
theorem add_reserve : U64.add (ε := EngineError) GPT_BACK_SECTORS 1 = .ok 34 := rfl

theorem size_ne_panic (input : Str) : size input ≠ .panic := by
  rw [size, Ne, Outcome.mapErr_eq_panic]
  exact Size.parseSize_ne_panic input

theorem sectorAligned_eq_ok {what : String} {v : UInt64} {u : Unit} :
    sectorAligned what v = .ok u ↔ v.toNat % 512 = 0 := by
  unfold sectorAligned
  rw [← toNat_SECTOR, ← U64.isMultipleOf_iff]
  split <;> simp [*]

theorem sectorAligned_ne_panic (what : String) (v : UInt64) : sectorAligned what v ≠ .panic := by
  unfold sectorAligned; split <;> simp

theorem kpartFlags_ne_panic (priority tries : UInt8) (successful : Bool) :
    kpartFlags priority tries successful ≠ .panic := by
  have hn : ∀ value field, nibble value field ≠ .panic := by
    intro value field; unfold nibble; split <;> simp
  exact Outcome.bind_ne_panic (hn _ _) fun _ _ => Outcome.bind_ne_panic (hn _ _) fun _ _ => by simp

/-- The bytes a kernel slot's partition spans. -/
def KpartSlot.extent (s : KpartSlot) : Extent := ⟨s.offset.toNat, s.lengthLba.toNat * 512⟩

/-- The slot's byte offset is where its GPT entry says it starts. -/
def KpartSlot.OnSectors (s : KpartSlot) : Prop := s.offset.toNat = s.firstLba.toNat * 512

namespace BootRegion

/-! ### The head of the disk -/

theorem rawGap_eq_ok {offsets : Offsets} {rootfsOff : UInt64} {b : BootGeometry} {stop : UInt64}
    (h : rawGap offsets rootfsOff = .ok (b, stop)) :
    ∃ i u : UInt64, b = .rawGap i u ∧ stop = u ∧ 17408 ≤ i.toNat ∧ i < u ∧ u < rootfsOff := by
  simp only [rawGap, mul_front, Outcome.ok_bind, Outcome.bind_eq_ok] at h
  obtain ⟨i, -, u, -, _, -, _, -, h⟩ := h
  split_ifs at h with h1 h2
  simp only [Bool.not_eq_true', Bool.and_eq_false_iff, decide_eq_false_iff_not, not_or, not_not,
    Outcome.ok.injEq, Prod.mk.injEq] at h1 h2 h
  have h1 : 17408 ≤ i.toNat := UInt64.le_iff_toNat_le.mp (UInt64.not_lt.mp h1)
  exact ⟨i, u, h.1.symm, h.2.symm, h1, h2.1, h2.2⟩

theorem rawGap_ne_panic (offsets : Offsets) (rootfsOff : UInt64) :
    rawGap offsets rootfsOff ≠ .panic := by
  simp only [rawGap, mul_front, Outcome.ok_bind]
  refine Outcome.bind_ne_panic (size_ne_panic _) fun i _ => ?_
  refine Outcome.bind_ne_panic (size_ne_panic _) fun u _ => ?_
  refine Outcome.bind_ne_panic (sectorAligned_ne_panic _ _) fun _ _ => ?_
  refine Outcome.bind_ne_panic (sectorAligned_ne_panic _ _) fun _ _ => ?_
  split_ifs <;> simp

/-- The slots the loop of `kpart` lays: back to back from `start`, on sector boundaries. -/
theorem layKpartSlots_eq_ok {size flags : UInt64} (hsize : size.toNat % 512 = 0) {n i : Nat}
    {start last : UInt64} {slots : List KpartSlot} (hstart : start.toNat % 512 = 0)
    (h : layKpartSlots size flags n i start = .ok (slots, last)) :
    Extent.Laid start.toNat last.toNat (slots.map KpartSlot.extent) ∧
      (∀ s ∈ slots, s.OnSectors) ∧ ∀ s ∈ slots.head?, s.offset = start := by
  induction n generalizing i start slots with
  | zero =>
    simp only [layKpartSlots, Outcome.ok.injEq, Prod.mk.injEq] at h
    obtain ⟨rfl, rfl⟩ := h
    simp [Extent.Laid]
  | succ n ih =>
    simp only [layKpartSlots, Outcome.bind_eq_ok, Outcome.okOr_eq_ok] at h
    obtain ⟨stop, hstop, ⟨rest, last'⟩, hrest, h⟩ := h
    simp only [Outcome.ok.injEq, Prod.mk.injEq] at h
    obtain ⟨rfl, rfl⟩ := h
    have hstop := U64.checkedAdd_eq_some.mp hstop
    obtain ⟨hlaid, hon, -⟩ := ih (by omega) hrest
    have hlen : (size / SECTOR).toNat * 512 = size.toNat := by
      rw [UInt64.toNat_div, toNat_SECTOR]; omega
    have hoff : start.toNat = (start / SECTOR).toNat * 512 := by
      rw [UInt64.toNat_div, toNat_SECTOR]; omega
    refine ⟨⟨Nat.le_refl _, ?_⟩, ?_, by simp⟩
    · show Extent.Laid (start.toNat + (size / SECTOR).toNat * 512) _ _
      rw [hlen, ← hstop]
      exact hlaid
    · intro s hs
      rcases List.mem_cons.mp hs with rfl | hs
      · exact hoff
      · exact hon s hs

theorem layKpartSlots_ne_panic (size flags : UInt64) (n i : Nat) (start : UInt64) :
    layKpartSlots size flags n i start ≠ .panic := by
  induction n generalizing i start with
  | zero => simp [layKpartSlots]
  | succ n ih =>
    exact Outcome.bind_ne_panic (Outcome.okOr_ne_panic _ _) fun _ _ =>
      Outcome.bind_ne_panic (ih _ _) fun _ _ => by simp

theorem kpart_eq_ok {k : Kpart} {b : BootGeometry} {stop : UInt64} (h : kpart k = .ok (b, stop)) :
    ∃ slots start, b = .kpart slots ∧ Extent.Laid start stop.toNat (slots.map KpartSlot.extent) ∧
      (∀ s ∈ slots, s.OnSectors) ∧ ∀ s ∈ slots.head?, s.offset.toNat = start := by
  simp only [kpart, Outcome.bind_eq_ok] at h
  obtain ⟨offset, -, size, -, _, hoff, _, hsize, h⟩ := h
  rw [sectorAligned_eq_ok] at hoff hsize
  split_ifs at h with h0
  simp only [mul_front, Outcome.ok_bind] at h
  split_ifs at h with h1
  simp only [Outcome.bind_eq_ok] at h
  obtain ⟨flags, -, ⟨slots, last⟩, hlay, h⟩ := h
  simp only [Outcome.ok.injEq, Prod.mk.injEq] at h
  obtain ⟨rfl, rfl⟩ := h
  obtain ⟨hlaid, hon, hhead⟩ := layKpartSlots_eq_ok hsize hoff hlay
  exact ⟨slots, offset.toNat, rfl, hlaid, hon, fun s hs => by rw [hhead s hs]⟩

theorem kpart_ne_panic (k : Kpart) : kpart k ≠ .panic := by
  refine Outcome.bind_ne_panic (size_ne_panic _) fun offset _ => ?_
  refine Outcome.bind_ne_panic (size_ne_panic _) fun size _ => ?_
  refine Outcome.bind_ne_panic (sectorAligned_ne_panic _ _) fun _ _ => ?_
  refine Outcome.bind_ne_panic (sectorAligned_ne_panic _ _) fun _ _ => ?_
  split_ifs
  · simp
  rw [mul_front, Outcome.ok_bind]
  split_ifs
  · simp
  refine Outcome.bind_ne_panic ?_ fun flags _ => ?_
  · rw [Ne, Outcome.mapErr_eq_panic]; exact kpartFlags_ne_panic _ _ _
  · exact Outcome.bind_ne_panic (layKpartSlots_ne_panic _ _ _ _ _) fun _ _ => by simp

/-- Where the head of a resolved disk lies. -/
structure Placed (r : BootRegion) : Prop where
  rootfs : r.rootfsOff.toNat % 4096 = 0
  seed : r.seedOff.toNat % 512 = 0
  seed_front : 17408 ≤ r.seedOff.toNat
  rawGap : ∀ i u, r.boot = .rawGap i u →
    17408 ≤ i.toNat ∧ i.toNat ≤ u.toNat ∧ u.toNat ≤ r.seedOff.toNat ∧
      r.seedOff.toNat + 1048576 = r.rootfsOff.toNat
  kpart : ∀ slots, r.boot = .kpart slots →
    Extent.Laid (r.seedOff.toNat + 1048576) r.rootfsOff.toNat (slots.map KpartSlot.extent) ∧
      ∀ s ∈ slots, s.OnSectors

theorem placeSeed_rawGap {i u rootfsOff seedOff : UInt64}
    (h : placeSeed (.rawGap i u) rootfsOff = .ok seedOff) :
    seedOff.toNat + 1048576 = rootfsOff.toNat ∧ u.toNat < seedOff.toNat := by
  simp only [placeSeed, Outcome.bind_eq_ok, Outcome.okOr_eq_ok] at h
  obtain ⟨off, hoff, h⟩ := h
  split_ifs at h with hlt
  obtain rfl : off = seedOff := by simpa using h
  exact ⟨by simpa using U64.checkedSub_eq_some.mp hoff, UInt64.lt_iff_toNat_lt.mp (UInt64.not_le.mp hlt)⟩

theorem placeSeed_kpart {slots : List KpartSlot} {rootfsOff seedOff : UInt64}
    (h : placeSeed (.kpart slots) rootfsOff = .ok seedOff) :
    ∃ s rest, slots = s :: rest ∧ seedOff.toNat + 1048576 = s.offset.toNat ∧
      17408 ≤ seedOff.toNat := by
  cases slots with
  | nil => simp [placeSeed] at h
  | cons s rest =>
    simp only [placeSeed, mul_front, Outcome.ok_bind, Outcome.okOr_eq_ok, Option.filter_eq_some_iff,
      decide_eq_true_eq] at h
    exact ⟨s, rest, rfl, by simpa using U64.checkedSub_eq_some.mp h.1,
      UInt64.le_iff_toNat_le.mp h.2⟩

theorem placeSeed_ne_panic (b : BootGeometry) (rootfsOff : UInt64) :
    placeSeed b rootfsOff ≠ .panic := by
  match b with
  | .rawGap _ _ =>
    refine Outcome.bind_ne_panic (Outcome.okOr_ne_panic _ _) fun _ _ => ?_
    split_ifs <;> simp
  | .kpart [] => simp [placeSeed]
  | .kpart (_ :: _) => simp [placeSeed, mul_front]

/-- The head of a resolved disk is placed, whatever the boot method. -/
theorem resolve_placed {boot : ResolvedBoot} {r : BootRegion} (h : resolve boot = .ok r) :
    r.Placed := by
  simp only [resolve, Outcome.bind_eq_ok] at h
  obtain ⟨rootfsOff, -, ⟨b, stop⟩, hboot, h⟩ := h
  split_ifs at h with h512 h4096 hend
  simp only [Outcome.bind_eq_ok, Outcome.ok.injEq] at h
  obtain ⟨seedOff, hseed, rfl⟩ := h
  have hroot : rootfsOff.toNat % 4096 = 0 := by
    simp only [Bool.not_eq_true', Bool.not_eq_false] at h4096
    simpa using U64.isMultipleOf_iff.mp h4096
  have hle : stop.toNat ≤ rootfsOff.toNat := UInt64.le_iff_toNat_le.mp (UInt64.not_lt.mp hend)
  cases boot with
  | rockchipRkbin offsets =>
    obtain ⟨i, u, rfl, rfl, h1, h2, -⟩ := rawGap_eq_ok hboot
    obtain ⟨h3, h4⟩ := placeSeed_rawGap hseed
    have h2 := UInt64.lt_iff_toNat_lt.mp h2
    refine ⟨hroot, by dsimp only; omega, by dsimp only; omega, ?_, by simp⟩
    rintro _ _ ⟨⟩
    exact ⟨h1, by omega, by dsimp only; omega, h3⟩
  | depthcharge k off =>
    obtain ⟨slots, start, rfl, hlaid, hon, hhead⟩ := kpart_eq_ok hboot
    obtain ⟨s, rest, rfl, hs, hfront⟩ := placeSeed_kpart hseed
    have hstart : s.offset.toNat = start := hhead s rfl
    have hs512 : s.offset.toNat = s.firstLba.toNat * 512 := hon s (List.mem_cons_self ..)
    refine ⟨hroot, by dsimp only; omega, hfront, by simp, ?_⟩
    rintro _ ⟨⟩
    refine ⟨?_, hon⟩
    dsimp only
    rw [hs, hstart]
    have hnil : Extent.Laid _ _ [] := hle
    simpa using hlaid.append hnil

theorem resolve_ne_panic (boot : ResolvedBoot) : resolve boot ≠ .panic := by
  refine Outcome.bind_ne_panic (size_ne_panic _) fun rootfsOff _ => ?_
  refine Outcome.bind_ne_panic ?_ fun ⟨b, stop⟩ _ => ?_
  · cases boot with
    | rockchipRkbin offsets => exact rawGap_ne_panic _ _
    | depthcharge k off => exact kpart_ne_panic k
  · dsimp only
    split_ifs
    any_goals simp
    exact Outcome.bind_ne_panic (placeSeed_ne_panic _ _) fun _ _ => by simp

end BootRegion

end Boot2Deb.Image
