import Boot2Deb.Image.Layout

/-!
# The whole disk

`Geometry.resolve` and `Geometry.aroundRootfs` each answer `ok` exactly under an arithmetic condition
on the boot region and the size they are given (`resolve_eq_ok`, `aroundRootfs_eq_ok`), and then with
the same record, `Geometry.layout`. What holds of every finished layout is proved of `layout` once:
nothing on the disk overlaps (`resolved_sound`), and the two directions agree
(`directions_agree`).
-/

namespace Boot2Deb.Image
open Rust

namespace Geometry

/-- The record `assemble` builds when its checks pass. -/
def layout (region : BootRegion) (totalSize rootfsBytes : UInt64) : Geometry where
  totalSize
  boot := region.boot
  seedOff := region.seedOff
  rootfsOff := region.rootfsOff
  rootfsFirstLba := region.rootfsOff / SECTOR
  rootfsLengthLba := rootfsBytes / SECTOR
  rootfsBytes

/-! ### When the two directions answer -/

theorem assemble_eq_ok {region : BootRegion} {t n : UInt64} {g : Geometry} :
    assemble region t n = .ok g ↔
      n.toNat % 4096 = 0 ∧ t.toNat % 512 = 0 ∧
        region.rootfsOff.toNat / 512 + n.toNat / 512 + 33 ≤ t.toNat / 512 ∧ g = layout region t n := by
  have ht := t.toNat_lt
  have hn := n.toNat_lt
  have hr := region.rootfsOff.toNat_lt
  have ediv : ∀ x : UInt64, (x / SECTOR).toNat = x.toNat / 512 := fun x => by
    rw [UInt64.toNat_div, toNat_SECTOR]
  unfold assemble
  simp only [Bool.not_eq_true', ← Bool.not_eq_true, U64.isMultipleOf_iff, toNat_EXT4_BLOCK,
    toNat_SECTOR]
  split_ifs with h1 h2
  case neg => exact iff_of_false (by simp) fun h => h2 h.2.1
  case neg => exact iff_of_false (by simp) fun h => h1 h.1
  simp only [h1, h2, true_and, Outcome.bind_eq_ok, Outcome.okOr_eq_ok, Option.filter_eq_some_iff,
    decide_eq_true_eq, U64.checkedAdd_eq_some, U64.checkedSub_eq_some, ediv, Outcome.ok.injEq,
    toNat_GPT_BACK_SECTORS, UInt64.le_iff_toNat_le]
  constructor
  · rintro ⟨stop, hstop, usable, ⟨husable, hle⟩, rfl⟩
    exact ⟨by omega, rfl⟩
  · rintro ⟨hle, rfl⟩
    refine ⟨.ofNat (region.rootfsOff.toNat / 512 + n.toNat / 512), ?_,
      .ofNat (t.toNat / 512 - 33), ⟨?_, ?_⟩, rfl⟩
    all_goals simp only [UInt64.toNat_ofNat']; omega

theorem aroundRootfs_eq_ok {boot : ResolvedBoot} {n : UInt64} {g : Geometry} :
    aroundRootfs boot n = .ok g ↔ ∃ region t, BootRegion.resolve boot = .ok region ∧
      t.toNat = region.rootfsOff.toNat + n.toNat + 16896 ∧ n.toNat % 4096 = 0 ∧
        g = layout region t n := by
  simp only [aroundRootfs, mul_back, Outcome.ok_bind, Outcome.bind_eq_ok, Outcome.okOr_eq_ok,
    Option.bind_eq_some_iff, U64.checkedAdd_eq_some, assemble_eq_ok]
  constructor
  · rintro ⟨region, hr, t, ⟨e, he, ht⟩, hn, -, -, rfl⟩
    exact ⟨region, t, hr, by rw [ht, he]; rfl, hn, rfl⟩
  · rintro ⟨region, t, hr, ht, hn, rfl⟩
    have hroot := (BootRegion.resolve_placed hr).rootfs
    have hlt := t.toNat_lt
    refine ⟨region, hr, t, ⟨.ofNat (region.rootfsOff.toNat + n.toNat), ?_, ?_⟩, hn, by omega,
      by omega, rfl⟩
    · simp only [UInt64.toNat_ofNat']; omega
    · rw [ht]; simp only [UInt64.toNat_ofNat']
      show _ = _ + 16896
      omega

theorem resolve_eq_ok {boot : ResolvedBoot} {t : UInt64} {g : Geometry} :
    resolve boot t = .ok g ↔ ∃ region n, BootRegion.resolve boot = .ok region ∧
      t.toNat % 512 = 0 ∧ region.rootfsOff.toNat + 17408 ≤ t.toNat ∧
        n.toNat = (t.toNat - 16896 - region.rootfsOff.toNat) / 4096 * 4096 ∧
          MIN_ROOTFS_BYTES.toNat ≤ n.toNat ∧ g = layout region t n := by
  have ht := t.toNat_lt
  have ediv : ∀ x : UInt64, (x / SECTOR).toNat = x.toNat / 512 := fun x => by
    rw [UInt64.toNat_div, toNat_SECTOR]
  unfold resolve
  simp only [Bool.not_eq_true', ← Bool.not_eq_true, U64.isMultipleOf_iff, toNat_SECTOR]
  split_ifs with h512
  case neg => exact iff_of_false (by simp) fun ⟨_, _, _, h, _⟩ => h512 h
  simp only [add_reserve, Outcome.ok_bind, Outcome.bind_eq_ok, Outcome.okOr_eq_ok,
    Option.filter_eq_some_iff, decide_eq_true_eq, U64.checkedSub_eq_some, U64.sub_eq_ok,
    U64.add_eq_ok, U64.mul_eq_ok, ediv, UInt64.le_iff_toNat_le, toNat_SECTOR, toNat_EXT4_BLOCK,
    UInt64.toNat_div, UInt64.reduceToNat]
  constructor
  · rintro ⟨region, hr, last, ⟨hlast, hle⟩, span, hspan, sectors, hsectors, avail, havail, n, hn, h⟩
    split_ifs at h with hmin
    have hroot := (BootRegion.resolve_placed hr).rootfs
    obtain ⟨-, -, -, rfl⟩ := assemble_eq_ok.mp h
    have havail' : avail.toNat = t.toNat - 16896 - region.rootfsOff.toNat := by omega
    exact ⟨region, n, hr, h512, by omega, by rw [hn, havail'],
      UInt64.le_iff_toNat_le.mp (UInt64.not_lt.mp hmin), rfl⟩
  · rintro ⟨region, n, hr, -, hle, hn, hmin, rfl⟩
    have hroot := (BootRegion.resolve_placed hr).rootfs
    refine ⟨region, hr, .ofNat (t.toNat / 512 - 34), ⟨?_, ?_⟩,
      .ofNat (t.toNat / 512 - 34 - region.rootfsOff.toNat / 512), ?_,
      .ofNat (t.toNat / 512 - 33 - region.rootfsOff.toNat / 512), ?_,
      .ofNat (t.toNat - 16896 - region.rootfsOff.toNat), ?_, n, ?_, ?_⟩
    case refine_6 => rw [hn, UInt64.toNat_ofNat', Nat.mod_eq_of_lt (by omega)]
    any_goals simp only [UInt64.toNat_ofNat']; omega
    rw [if_neg (UInt64.not_lt.mpr (UInt64.le_iff_toNat_le.mpr hmin))]
    exact assemble_eq_ok.mpr ⟨by omega, h512, by omega, rfl⟩

/-! ### No operation overflows -/

theorem assemble_ne_panic (region : BootRegion) (t n : UInt64) : assemble region t n ≠ .panic := by
  unfold assemble
  dsimp only
  split_ifs
  any_goals simp
  exact Outcome.bind_ne_panic (Outcome.okOr_ne_panic _ _) fun _ _ =>
    Outcome.bind_ne_panic (Outcome.okOr_ne_panic _ _) fun _ _ => by simp

theorem aroundRootfs_ne_panic (boot : ResolvedBoot) (n : UInt64) :
    aroundRootfs boot n ≠ .panic := by
  refine Outcome.bind_ne_panic (BootRegion.resolve_ne_panic boot) fun region _ => ?_
  rw [mul_back, Outcome.ok_bind]
  exact Outcome.bind_ne_panic (Outcome.okOr_ne_panic _ _) fun t _ => assemble_ne_panic region t n

theorem resolve_ne_panic (boot : ResolvedBoot) (t : UInt64) : resolve boot t ≠ .panic := by
  have ht := t.toNat_lt
  have ediv : ∀ x : UInt64, (x / SECTOR).toNat = x.toNat / 512 := fun x => by
    rw [UInt64.toNat_div, toNat_SECTOR]
  unfold resolve
  split_ifs
  · simp
  refine Outcome.bind_ne_panic (BootRegion.resolve_ne_panic boot) fun region _ => ?_
  dsimp only
  rw [add_reserve, Outcome.ok_bind]
  refine Outcome.bind_ne_panic (Outcome.okOr_ne_panic _ _) fun last hlast => ?_
  simp only [Outcome.okOr_eq_ok, Option.filter_eq_some_iff, decide_eq_true_eq,
    U64.checkedSub_eq_some, UInt64.le_iff_toNat_le, ediv, UInt64.reduceToNat] at hlast
  refine Outcome.bind_ne_panic (U64.sub_ne_panic (by rw [ediv]; exact hlast.2)) fun span hspan => ?_
  rw [U64.sub_eq_ok, ediv] at hspan
  have hone : (1 : UInt64).toNat = 1 := rfl
  refine Outcome.bind_ne_panic (U64.add_ne_panic (by rw [hone]; omega)) fun sectors hsectors => ?_
  rw [U64.add_eq_ok, hone] at hsectors
  refine Outcome.bind_ne_panic (U64.mul_ne_panic (by rw [toNat_SECTOR]; omega)) fun avail havail => ?_
  rw [U64.mul_eq_ok, toNat_SECTOR] at havail
  refine Outcome.bind_ne_panic (U64.mul_ne_panic ?_) fun n _ => ?_
  · rw [UInt64.toNat_div, toNat_EXT4_BLOCK]; omega
  · split_ifs
    · simp
    · exact assemble_ne_panic _ _ _

end Geometry

namespace BootRegion
variable {region : BootRegion} {payloads : List (String × UInt64)}

theorem fits_eq_ok {what limitName : String} {len start limit : UInt64} {u : Unit} :
    fits what len start limit limitName = .ok u ↔ start.toNat + len.toNat ≤ limit.toNat := by
  simp only [fits, Outcome.bind_eq_ok, Outcome.okOr_eq_ok, U64.checkedAdd_eq_some]
  have hl := limit.toNat_lt
  constructor
  · rintro ⟨stop, hstop, h⟩
    split_ifs at h with hle
    have := UInt64.le_iff_toNat_le.mp (UInt64.not_lt.mp hle)
    omega
  · intro h
    have hstop : (UInt64.ofNat (start.toNat + len.toNat)).toNat = start.toNat + len.toNat := by
      rw [UInt64.toNat_ofNat']; omega
    refine ⟨_, hstop, if_neg (UInt64.not_lt.mpr (UInt64.le_iff_toNat_le.mpr ?_))⟩
    rw [hstop]; exact h

theorem fits_ne_panic (what limitName : String) (len start limit : UInt64) :
    fits what len start limit limitName ≠ .panic := by
  refine Outcome.bind_ne_panic (Outcome.okOr_ne_panic _ _) fun _ _ => ?_
  split_ifs <;> simp

/-- Where the boot payloads are written, each from its own offset for its own length. -/
def payloadExtents (boot : BootGeometry) (payloads : List (String × UInt64)) : List Extent :=
  match boot, payloads with
  | .rawGap i u, [(_, idbLen), (_, itbLen)] => [⟨i.toNat, idbLen.toNat⟩, ⟨u.toNat, itbLen.toNat⟩]
  | .kpart (s :: _), [(_, len)] => [⟨s.offset.toNat, len.toNat⟩]
  | _, _ => []

/-- The end of a placed kernel slot, as the check computes it. -/
theorem Placed.slot_end {s : KpartSlot} {rest : List KpartSlot} (h : region.Placed)
    (hb : region.boot = .kpart (s :: rest)) :
    s.extent.stop ≤ region.rootfsOff.toNat :=
  ((h.kpart _ hb).1.bounds _ (by simp)).2

theorem checkPayloadFit_ne_panic (h : region.Placed) (payloads : List (String × UInt64)) :
    region.checkPayloadFit payloads ≠ .panic := by
  unfold checkPayloadFit
  split
  · split
    · exact Outcome.bind_ne_panic (fits_ne_panic _ _ _ _ _) fun _ _ => fits_ne_panic _ _ _ _ _
    · simp
  · rename_i slots hb
    split
    · refine Outcome.bind_ne_panic (Outcome.okOr_ne_panic _ _) fun s hs => ?_
      rw [Outcome.okOr_eq_ok, List.head?_eq_some_iff] at hs
      obtain ⟨rest, rfl⟩ := hs
      have hend := h.slot_end hb
      have hlt := region.rootfsOff.toNat_lt
      simp only [Extent.stop, KpartSlot.extent] at hend
      refine Outcome.bind_ne_panic (U64.mul_ne_panic (by rw [toNat_SECTOR]; omega)) fun len hlen => ?_
      rw [U64.mul_eq_ok, toNat_SECTOR] at hlen
      exact Outcome.bind_ne_panic (U64.add_ne_panic (by omega)) fun _ _ => fits_ne_panic _ _ _ _ _
    · simp

/-- An accepted payload set lies between the primary GPT and the rootfs, clear of the seed. -/
theorem laid_of_fit (h : region.Placed) (hfit : region.checkPayloadFit payloads = .ok ()) :
    ∃ before after, payloadExtents region.boot payloads = before ++ after ∧
      Extent.Laid 17408 region.seedOff.toNat before ∧
      Extent.Laid (region.seedOff.toNat + 1048576) region.rootfsOff.toNat after := by
  unfold checkPayloadFit at hfit
  split at hfit
  · rename_i i u hb
    obtain ⟨hi, hiu, hu, hseed⟩ := h.rawGap i u hb
    split at hfit
    · rename_i _ idbLen _ itbLen
      simp only [Outcome.bind_eq_ok, fits_eq_ok] at hfit
      obtain ⟨-, hidb, hitb⟩ := hfit
      exact ⟨[⟨i.toNat, idbLen.toNat⟩, ⟨u.toNat, itbLen.toNat⟩], [], by rw [hb]; rfl,
        ⟨hi, hidb, hitb⟩, hseed.le⟩
    · simp at hfit
  · rename_i slots hb
    split at hfit
    · rename_i what len
      simp only [Outcome.bind_eq_ok, Outcome.okOr_eq_ok, List.head?_eq_some_iff, U64.mul_eq_ok,
        U64.add_eq_ok, toNat_SECTOR, fits_eq_ok] at hfit
      obtain ⟨s, ⟨rest, rfl⟩, l, hl, e, he, hfit⟩ := hfit
      have hlaid := (h.kpart _ hb).1
      have hend := h.slot_end hb
      have hstart : region.seedOff.toNat + 1048576 ≤ s.offset.toNat := hlaid.1
      simp only [Extent.stop, KpartSlot.extent] at hend
      refine ⟨[], [_], by rw [hb]; rfl, h.seed_front, hstart, ?_⟩
      show s.offset.toNat + len.toNat ≤ _
      omega
    · simp at hfit

end BootRegion

namespace Geometry
variable {g : Geometry} {payloads : List (String × UInt64)}

/-! ### What lies where -/

def gptFront : Extent := ⟨0, 34 * 512⟩

def gptBack (g : Geometry) : Extent := ⟨g.totalSize.toNat - 33 * 512, 33 * 512⟩

def seed (g : Geometry) : Extent := ⟨g.seedOff.toNat, SEED_PARTITION_BYTES.toNat⟩

def rootfs (g : Geometry) : Extent := ⟨g.rootfsOff.toNat, g.rootfsBytes.toNat⟩

/-- The kernel slots of the layout, none under the raw-gap method. -/
def slots (g : Geometry) : List KpartSlot :=
  match g.boot with
  | .rawGap _ _ => []
  | .kpart slots => slots

/-- Everything written to the disk. -/
def regions (g : Geometry) (payloads : List (String × UInt64)) : List Extent :=
  gptFront :: BootRegion.payloadExtents g.boot payloads ++ [g.seed, g.rootfs, g.gptBack]

/-- The partitions, by the bytes the geometry gives each. -/
def partitions (g : Geometry) : List Extent :=
  g.seed :: g.slots.map KpartSlot.extent ++ [g.rootfs]

/-- `gpt::write_table`: the first LBA and the length in sectors of each GPT entry. -/
def tableEntries (g : Geometry) : List (UInt64 × UInt64) :=
  (g.seedOff / SECTOR, SEED_PARTITION_BYTES / SECTOR) ::
    g.slots.map (fun s => (s.firstLba, s.lengthLba)) ++ [(g.rootfsFirstLba, g.rootfsLengthLba)]

/-- The layout of a finished image is sound for the boot payloads it was checked against. -/
structure Sound (g : Geometry) (payloads : List (String × UInt64)) : Prop where
  disjoint : (g.regions payloads).Pairwise fun e f => Disjoint e.bytes f.bytes
  inside : ∀ e ∈ g.regions payloads, e.stop ≤ g.totalSize.toNat
  partitions_disjoint :
    (gptFront :: g.partitions ++ [g.gptBack]).Pairwise fun e f => Disjoint e.bytes f.bytes
  partitions_inside : ∀ e ∈ g.partitions, e.stop ≤ g.totalSize.toNat
  /-- Each partition is the whole sectors its GPT entry names. -/
  on_sectors : g.partitions = g.tableEntries.map fun p => ⟨p.1.toNat * 512, p.2.toNat * 512⟩
  rootfs_len : g.rootfsBytes.toNat = g.rootfsLengthLba.toNat * 512
  rootfs_blocks : g.rootfsBytes.toNat % 4096 = 0

/-- Both directions answer with the layout of a placed region that leaves the backup table free. -/
theorem eq_layout {boot : ResolvedBoot} {region : BootRegion}
    (hr : BootRegion.resolve boot = .ok region)
    (hg : (∃ t, resolve boot t = .ok g) ∨ ∃ n, aroundRootfs boot n = .ok g) :
    ∃ t n, g = layout region t n ∧ n.toNat % 4096 = 0 ∧
      region.rootfsOff.toNat + n.toNat + 16896 ≤ t.toNat := by
  have hroot := (BootRegion.resolve_placed hr).rootfs
  rcases hg with ⟨t, h⟩ | ⟨n, h⟩
  · obtain ⟨region', n, hr', h512, hle, hn, -, rfl⟩ := resolve_eq_ok.mp h
    obtain rfl : region' = region := by simpa [hr] using hr'.symm
    exact ⟨t, n, rfl, by omega, by omega⟩
  · obtain ⟨region', t, hr', ht, hn, rfl⟩ := aroundRootfs_eq_ok.mp h
    obtain rfl : region' = region := by simpa [hr] using hr'.symm
    exact ⟨t, n, rfl, hn, by omega⟩

/-- The layout as one chain: what is placed before the seed, the seed, what is placed between it and
the rootfs, the rootfs and the backup table. -/
theorem laid_layout {region : BootRegion} {t n : UInt64} {before after : List Extent}
    (hbefore : Extent.Laid 17408 region.seedOff.toNat before)
    (hafter : Extent.Laid (region.seedOff.toNat + 1048576) region.rootfsOff.toNat after)
    (ht : region.rootfsOff.toNat + n.toNat + 16896 ≤ t.toNat) :
    Extent.Laid 0 t.toNat (gptFront :: before ++ ((layout region t n).seed ::
      (after ++ [(layout region t n).rootfs, (layout region t n).gptBack]))) := by
  have hfront : Extent.Laid 0 region.seedOff.toNat (gptFront :: before) := ⟨Nat.le_refl 0, hbefore⟩
  refine hfront.append ⟨Nat.le_refl _, hafter.append ⟨Nat.le_refl _, ?_⟩⟩
  show region.rootfsOff.toNat + n.toNat ≤ t.toNat - 33 * 512 ∧ t.toNat - 33 * 512 + 33 * 512 ≤ t.toNat
  omega

/-- The chain orders the disk otherwise than `regions` lists it; neither notion sees the order. -/
theorem regions_perm {region : BootRegion} {t n : UInt64} {before after : List Extent}
    (h : BootRegion.payloadExtents region.boot payloads = before ++ after) :
    (gptFront :: before ++ ((layout region t n).seed ::
      (after ++ [(layout region t n).rootfs, (layout region t n).gptBack]))).Perm
        ((layout region t n).regions payloads) := by
  show List.Perm _ (gptFront :: BootRegion.payloadExtents region.boot payloads ++ _)
  rw [h, List.cons_append, List.cons_append, List.append_assoc]
  exact (List.Perm.append_left _ List.perm_middle.symm).cons _

theorem disjoint_symm {e f : Extent} (h : Disjoint e.bytes f.bytes) : Disjoint f.bytes e.bytes :=
  h.symm

theorem partitions_laid {region : BootRegion} (h : region.Placed) (t n : UInt64) :
    Extent.Laid (region.seedOff.toNat + 1048576) region.rootfsOff.toNat
      ((layout region t n).slots.map KpartSlot.extent) := by
  unfold slots
  split
  · rename_i i u hb
    exact (h.rawGap i u hb).2.2.2.le
  · rename_i slots hb
    exact (h.kpart slots hb).1

theorem layout_sound {region : BootRegion} {t n : UInt64} (h : region.Placed)
    (hfit : region.checkPayloadFit payloads = .ok ()) (hn : n.toNat % 4096 = 0)
    (ht : region.rootfsOff.toNat + n.toNat + 16896 ≤ t.toNat) :
    (layout region t n).Sound payloads := by
  obtain ⟨before, after, hpay, hbefore, hafter⟩ := BootRegion.laid_of_fit h hfit
  have hlaid := laid_layout hbefore hafter ht
  have hperm := regions_perm (t := t) (n := n) hpay
  have hnil : Extent.Laid 17408 region.seedOff.toNat [] := h.seed_front
  have hparts := laid_layout hnil (partitions_laid h t n) ht
  have hroot := h.rootfs
  have hseed := h.seed
  have ediv : ∀ x : UInt64, (x / SECTOR).toNat = x.toNat / 512 := fun x => by
    rw [UInt64.toNat_div, toNat_SECTOR]
  refine ⟨(hperm.pairwise_iff disjoint_symm).mp hlaid.disjoint, fun e he => ?_, ?_, fun e he => ?_,
    ?_, ?_, hn⟩
  · exact (hlaid.bounds e (hperm.mem_iff.mpr he)).2
  · simpa [partitions] using hparts.disjoint
  · refine (hparts.bounds e ?_).2
    simp only [partitions, List.cons_append, List.mem_cons, List.mem_append,
      List.nil_append] at he ⊢
    rcases he with he | he | he | he
    · exact Or.inr (Or.inl he)
    · exact Or.inr (Or.inr (Or.inl he))
    · exact Or.inr (Or.inr (Or.inr (Or.inl he)))
    · cases he
  · have hslot : ∀ s ∈ (layout region t n).slots,
        s.extent = ⟨s.firstLba.toNat * 512, s.lengthLba.toNat * 512⟩ := by
      intro s hs
      unfold slots at hs
      split at hs
      · simp at hs
      · rename_i slots hb
        rw [KpartSlot.extent, (h.kpart slots hb).2 s hs]
    simp only [partitions, tableEntries, List.map_cons, List.map_append, List.map_map,
      List.map_nil, List.cons_append]
    congr 1
    · simp only [seed, ediv, layout, Extent.mk.injEq]
      exact ⟨by omega, rfl⟩
    · congr 1
      · exact List.map_congr_left hslot
      · simp only [rootfs, layout, ediv, List.cons.injEq, Extent.mk.injEq, and_true]
        omega
  · simp only [layout, ediv]; omega

/-- Nothing on a resolved disk overlaps, whichever direction laid it out, everything lies inside it,
and no operation on the way leaves `u64`, whatever the sizes asked for. -/
theorem resolved_sound (boot : ResolvedBoot) :
    (∀ t, resolve boot t ≠ .panic) ∧ (∀ n, aroundRootfs boot n ≠ .panic) ∧
      ∀ region, BootRegion.resolve boot = .ok region →
        (∀ payloads, region.checkPayloadFit payloads ≠ .panic) ∧
          ∀ payloads, region.checkPayloadFit payloads = .ok () →
            ∀ g, ((∃ t, resolve boot t = .ok g) ∨ ∃ n, aroundRootfs boot n = .ok g) →
              g.Sound payloads := by
  refine ⟨resolve_ne_panic boot, aroundRootfs_ne_panic boot, fun region hr => ?_⟩
  have hplaced := BootRegion.resolve_placed hr
  refine ⟨BootRegion.checkPayloadFit_ne_panic hplaced, fun payloads hfit g hg => ?_⟩
  obtain ⟨t, n, rfl, hn, ht⟩ := eq_layout hr hg
  exact layout_sound hplaced hfit hn ht

/-- The raw-gap layout of the Turing RK1. -/
def rk1Boot : ResolvedBoot := .rockchipRkbin ⟨"32KiB".toList, "8MiB".toList, "16MiB".toList⟩

theorem resolve_rk1Boot : BootRegion.resolve rk1Boot = .ok ⟨.rawGap 32768 8388608, 15728640, 16777216⟩ := by
  decide

theorem resolved_sound_rk1Boot :
    (layout ⟨.rawGap 32768 8388608, 15728640, 16777216⟩ 2147483648 2130685952).Sound
      [("idbloader.img", 262144), ("u-boot.itb", 1048576)] :=
  ((resolved_sound rk1Boot).2.2 _ resolve_rk1Boot).2 _ (by decide) _ (.inl ⟨2147483648, by decide⟩)

/-! ### The two directions agree -/

/-- Laying the disk out around the filesystem `resolve` leaves room for gives the same layout on a
disk at most one ext4 block smaller; resolving the disk `aroundRootfs` sizes gives it back. -/
theorem directions_agree (boot : ResolvedBoot) :
    (∀ t g, resolve boot t = .ok g →
      ∃ g', aroundRootfs boot g.rootfsBytes = .ok g' ∧ g'.boot = g.boot ∧ g'.seedOff = g.seedOff ∧
        g'.rootfsOff = g.rootfsOff ∧ g'.rootfsFirstLba = g.rootfsFirstLba ∧
        g'.rootfsLengthLba = g.rootfsLengthLba ∧ g'.rootfsBytes = g.rootfsBytes ∧
        g'.totalSize ≤ t ∧ t.toNat - g'.totalSize.toNat < 4096) ∧
    ∀ n g', aroundRootfs boot n = .ok g' → MIN_ROOTFS_BYTES ≤ n →
      ∃ g, resolve boot g'.totalSize = .ok g ∧ g.rootfsBytes = g'.rootfsBytes ∧ g = g' := by
  constructor
  · intro t g hg
    obtain ⟨region, n, hr, h512, hle, hn, -, rfl⟩ := resolve_eq_ok.mp hg
    have ht := t.toNat_lt
    obtain ⟨t', ht'⟩ : ∃ t' : UInt64, t'.toNat = region.rootfsOff.toNat + n.toNat + 16896 :=
      ⟨.ofNat (region.rootfsOff.toNat + n.toNat + 16896), by rw [UInt64.toNat_ofNat']; omega⟩
    refine ⟨layout region t' n, aroundRootfs_eq_ok.mpr ⟨region, t', hr, ht', ?_, rfl⟩,
      rfl, rfl, rfl, rfl, rfl, rfl, ?_, ?_⟩
    · show n.toNat % 4096 = 0; omega
    · rw [UInt64.le_iff_toNat_le]
      show t'.toNat ≤ _
      omega
    · show _ - t'.toNat < _
      omega
  · intro n g' hg' hmin
    obtain ⟨region, t, hr, ht, hn, rfl⟩ := aroundRootfs_eq_ok.mp hg'
    have hroot := (BootRegion.resolve_placed hr).rootfs
    have hmin := UInt64.le_iff_toNat_le.mp hmin
    rw [toNat_MIN_ROOTFS_BYTES] at hmin
    have hrest : t.toNat - 16896 - region.rootfsOff.toNat = n.toNat := by omega
    refine ⟨_, resolve_eq_ok.mpr ⟨region, n, hr, ?_, ?_, ?_, hmin, rfl⟩, rfl, rfl⟩
    · show t.toNat % 512 = 0; omega
    · show _ ≤ t.toNat; omega
    · show n.toNat = (t.toNat - 16896 - _) / 4096 * 4096
      rw [hrest]; omega

theorem directions_agree_rk1Boot :
    (∃ g', aroundRootfs rk1Boot 2130685952 = .ok g' ∧ g'.rootfsOff = 16777216 ∧
      g'.totalSize ≤ 2147483648) ∧
    ∃ g, resolve rk1Boot 750797312 = .ok g ∧ g.rootfsBytes = 734003200 := by
  constructor
  · obtain ⟨g', h, -, -, hoff, -, -, -, hle, -⟩ := (directions_agree rk1Boot).1 2147483648
      (layout ⟨.rawGap 32768 8388608, 15728640, 16777216⟩ 2147483648 2130685952) (by decide)
    exact ⟨g', h, hoff, hle⟩
  · obtain ⟨g, h, hbytes, -⟩ := (directions_agree rk1Boot).2 734003200
      (layout ⟨.rawGap 32768 8388608, 15728640, 16777216⟩ 750797312 734003200) (by decide)
      (by decide)
    exact ⟨g, h, hbytes⟩

end Geometry
end Boot2Deb.Image
