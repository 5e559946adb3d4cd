import Boot2Deb.Engine.Pins

/-!
# Where the drift gate is exact

What a lock records from a resolved build is laid out as `PinnedFields`, on the side of the lock and
on that of the build; a lock that `resolveLock` writes has the fields of its build
(`resolveLock_fields`). The gate reads some of them through a text: the series of a u-boot pin
through its first name, those of an app through the joined names, a blob pin up to its first `@`, and
the repository of a kernel or u-boot series not at all.
-/

namespace Boot2Deb.Engine.Pins
open Rust Boot2Deb.Core

/-- What is recorded of an app. -/
@[ext] structure AppFields where
  source : Str
  reference : Str
  patches : Option (List Str × Str)
  dotnet : Option (Str × Str × DotnetSdk)

/-- What a lock records from a resolved build, arrays as maps from their names. -/
@[ext] structure PinnedFields where
  kernel : Option (Str × Str)
  patches : Option (List Str × Str)
  uboot : Option Str
  ubootPatches : Option (List Str × Str)
  userspace : Str → Option Str
  ffmpeg : Option (Str × Option Str)
  kmods : Str → Option Str
  apps : Str → Option AppFields
  rootfs : Option (Str × Str)
  blobs : Option (Str × Str × Option Str)
  extraDebs : List ExtraDeb

/-- The file a blob pin names. -/
def blobFile (pin : Str) : Str := ((rsplitOnce pin "@sha256:".toList).map Prod.fst).getD pin

/-- The blobs of a lock, each through what `file` makes of its pin. -/
def blobsBy (file : Str → Str) (lock : Lock) : Option (Str × Str × Option Str) :=
  lock.blobs.map fun b => (file b.atf, file b.tpl, b.bl32.map file)

def appFields (pin : AppPin) : AppFields where
  source := pin.source
  reference := pin.reference
  patches := pin.patches.map fun p => (p.series, p.source)
  dotnet := pin.dotnet.map fun d => (d.packaging.source, d.packaging.reference, d.sdk)

/-- The fields a lock holds. -/
def lockFields (lock : Lock) : PinnedFields where
  kernel := lock.kernel.map fun p => (p.id, p.source)
  patches := lock.patches.map fun p => (p.series, p.source)
  uboot := lock.uboot.map UbootPin.source
  ubootPatches := lock.ubootPatches.map fun p => (p.series, p.source)
  userspace name := (firstWith UserspacePin.name lock.userspace name).map UserspacePin.source
  ffmpeg := lock.ffmpeg.map fun f => (f.base.source, f.rockchip.map GitPin.source)
  kmods name := (firstWith KmodPin.name lock.kmods name).map KmodPin.source
  apps name := (firstWith AppPin.name lock.apps name).map appFields
  rootfs := lock.rootfs.map fun p => (p.distro, p.suite)
  blobs := blobsBy blobFile lock
  extraDebs := lock.extraDebs

/-- The series of an axis and their repository, where there are any. -/
def PatchAxis.pinned (axis : PatchAxis) : Option (List Str × Str) :=
  if axis.series.isEmpty then none else some (axis.series, axis.url.getD [])

def App.fields (a : App) : AppFields where
  source := a.git
  reference := normalizeRef a.gitRef
  patches := a.patches.pinned
  dotnet := some (a.build.packaging.git, normalizeRef a.build.packaging.gitRef, a.build.sdk)

/-- The fields resolving a build writes. -/
def buildFields (build : ResolvedBuild) : PinnedFields where
  kernel := build.compiledKernel.map fun k => (k.id, (kernelSourceUrl k.source).toOption.getD [])
  patches := build.compiledKernel.bind fun k => k.patches.pinned
  uboot := build.rkbinBoot.map ResolvedRkbinBoot.ubootSource
  ubootPatches := build.rkbinBoot.bind fun boot =>
    boot.ubootSeries.map fun series => ([series], boot.ubootPatchesUrl.getD [])
  userspace name := (firstWith NamedSource.name build.userspace name).map NamedSource.git
  ffmpeg := build.ffmpeg.map fun f => (f.base.git, f.rockchip.map GitSource.git)
  kmods name := (firstWith NamedSource.name build.kmods name).map NamedSource.git
  apps name := (firstWith App.name build.apps name).map App.fields
  rootfs := build.image.map fun image => (build.distro, image.suite)
  blobs := build.rkbinBoot.map fun boot => (boot.rkbin.atf, boot.rkbin.tpl, boot.rkbin.bl32)
  extraDebs := build.extraDebs

/-- The kernel tree of the build is one the gate can name. -/
def KernelKnown (build : ResolvedBuild) : Prop :=
  ∀ k, build.compiledKernel = some k → ∃ url, kernelSourceUrl k.source = .ok url

variable {lock : Lock} {build : ResolvedBuild} {axis l r s : Str} {p q : Bool}

/-! ### The single comparisons -/

/-- One message, where two values differ. -/
theorem ite_ne_eq_nil {α : Type} [DecidableEq α] {a b : α} {message : Str} :
    (if a ≠ b then [message] else []) = [] ↔ a = b := by
  by_cases h : a = b <;> simp [h]

theorem diff_eq_nil : diff axis l r = [] ↔ l = r :=
  ite_ne_eq_nil

theorem presence_eq_nil : presence axis p q = [] ↔ p = q :=
  ite_ne_eq_nil

theorem kernelAxes_eq_nil (h : KernelKnown build) :
    kernelAxes lock build = [] ↔ (lockFields lock).kernel = (buildFields build).kernel := by
  unfold kernelAxes lockFields buildFields
  rw [List.append_eq_nil_iff, presence_eq_nil]
  cases lock.kernel with
  | none => cases build.compiledKernel <;> simp
  | some pin =>
    cases hk : build.compiledKernel with
    | none => simp
    | some kernel =>
      obtain ⟨url, hurl⟩ := h kernel hk
      simp [hurl, List.append_eq_nil_iff, diff_eq_nil, Outcome.toOption]

theorem ubootAxes_eq_nil :
    ubootAxes lock build = [] ↔ (lockFields lock).uboot = (buildFields build).uboot := by
  unfold ubootAxes lockFields buildFields
  rw [List.append_eq_nil_iff, presence_eq_nil]
  cases lock.uboot <;> cases build.rkbinBoot <;> simp [diff_eq_nil]

theorem ffmpegAxes_eq_nil :
    ffmpegAxes lock build = [] ↔ (lockFields lock).ffmpeg = (buildFields build).ffmpeg := by
  unfold ffmpegAxes lockFields buildFields
  rw [List.append_eq_nil_iff, presence_eq_nil]
  cases lock.ffmpeg with
  | none => cases build.ffmpeg <;> simp
  | some pins =>
    cases build.ffmpeg with
    | none => simp
    | some ff =>
      cases hp : pins.rockchip <;> cases hr : ff.rockchip <;>
        simp [List.append_eq_nil_iff, diff_eq_nil, presence_eq_nil, hp, hr]

theorem rootfsAxes_eq_nil :
    rootfsAxes lock build = [] ↔ (lockFields lock).rootfs = (buildFields build).rootfs := by
  unfold rootfsAxes lockFields buildFields
  rw [List.append_eq_nil_iff, presence_eq_nil]
  cases lock.rootfs <;> cases build.image <;>
    simp [List.append_eq_nil_iff, diff_eq_nil]

theorem debAxes_eq_nil : debAxes lock build = [] ↔ lock.extraDebs = build.extraDebs :=
  ite_ne_eq_nil

theorem blobAxes_eq_nil :
    blobAxes lock build = [] ↔ blobsBy blobPinFile lock = (buildFields build).blobs := by
  unfold blobAxes blobsBy buildFields
  rw [List.append_eq_nil_iff, presence_eq_nil]
  cases lock.blobs with
  | none => cases build.rkbinBoot <;> simp
  | some pins =>
    cases build.rkbinBoot with
    | none => simp
    | some boot =>
      obtain ⟨atf, tpl, bl32⟩ := pins
      cases bl32 <;> cases hbl : boot.rkbin.bl32 <;>
        simp [List.append_eq_nil_iff, diff_eq_nil, presence_eq_nil, hbl]

theorem seriesAxes_eq_nil : seriesAxes lock build = [] ↔
    (lock.patches.map PatchesPin.series).getD [] = build.kernelSeries :=
  ite_ne_eq_nil

theorem ubootSeriesAxes_eq_nil : ubootSeriesAxes lock build = [] ↔
    (lock.ubootPatches.bind fun p => p.series.head?) = build.ubootSeries :=
  ite_ne_eq_nil

theorem userspaceAxes_eq_nil :
    userspaceAxes lock build = [] ↔
      (lockFields lock).userspace = (buildFields build).userspace := by
  have hblock : ∀ name, (presence name (firstWith UserspacePin.name lock.userspace name).isSome
      (firstWith NamedSource.name build.userspace name).isSome ++
      (firstWith UserspacePin.name lock.userspace name).elim [] fun p =>
        (firstWith NamedSource.name build.userspace name).elim [] fun t =>
          diff (name ++ " source".toList) p.source t.git) = [] ↔
      (lockFields lock).userspace name = (buildFields build).userspace name := by
    intro name
    rw [List.append_eq_nil_iff, presence_eq_nil]
    unfold lockFields buildFields
    dsimp only
    cases firstWith UserspacePin.name lock.userspace name <;>
      cases firstWith NamedSource.name build.userspace name <;> simp [diff_eq_nil]
  have haxes : userspaceAxes lock build =
      (dedup (sortUnstable (lock.userspace.map UserspacePin.name ++
        build.userspace.map NamedSource.name))).flatMap fun name =>
        presence name (firstWith UserspacePin.name lock.userspace name).isSome
          (firstWith NamedSource.name build.userspace name).isSome ++
        (firstWith UserspacePin.name lock.userspace name).elim [] fun p =>
          (firstWith NamedSource.name build.userspace name).elim [] fun t =>
            diff (name ++ " source".toList) p.source t.git := by
    unfold userspaceAxes
    refine List.flatMap_congr fun name _ => ?_
    dsimp only
    cases firstWith UserspacePin.name lock.userspace name <;>
      cases firstWith NamedSource.name build.userspace name <;> rfl
  rw [haxes, List.flatMap_eq_nil_iff, funext_iff]
  constructor
  · intro h name
    by_cases hmem : name ∈ lock.userspace.map UserspacePin.name ++
        build.userspace.map NamedSource.name
    · exact (hblock name).mp (h name (mem_dedup.mpr (mem_sortUnstable.mpr hmem)))
    · rw [List.mem_append, not_or] at hmem
      have hlock : firstWith UserspacePin.name lock.userspace name = none :=
        firstWith_eq_none.mpr fun x hx he => hmem.1 (List.mem_map.mpr ⟨x, hx, he⟩)
      have hbuild : firstWith NamedSource.name build.userspace name = none :=
        firstWith_eq_none.mpr fun x hx he => hmem.2 (List.mem_map.mpr ⟨x, hx, he⟩)
      unfold lockFields buildFields
      dsimp only
      rw [hlock, hbuild]
      rfl
  · intro h name _
    exact (hblock name).mpr (h name)

/-- The media-accel axis says nothing the userspace trees do not. -/
theorem mediaAxes_eq_nil (h : (lockFields lock).userspace = (buildFields build).userspace) :
    mediaAxes lock build = [] := by
  unfold mediaAxes
  rw [presence_eq_nil, Bool.not_inj_iff, Bool.eq_iff_iff, List.isEmpty_iff, List.isEmpty_iff]
  have hmap : ∀ name, (firstWith UserspacePin.name lock.userspace name).map UserspacePin.source =
      (firstWith NamedSource.name build.userspace name).map NamedSource.git := congrFun h
  constructor
  · intro hnil
    refine List.eq_nil_iff_forall_not_mem.mpr fun t ht => ?_
    obtain ⟨first, hfirst⟩ := exists_firstWith NamedSource.name ht
    have := hmap t.name
    rw [hnil, hfirst] at this
    cases this
  · intro hnil
    refine List.eq_nil_iff_forall_not_mem.mpr fun pin hpin => ?_
    obtain ⟨first, hfirst⟩ := exists_firstWith UserspacePin.name hpin
    have := hmap pin.name
    rw [hnil, hfirst] at this
    cases this

/-- A pin for each row of the build, and none of another name. -/
theorem namedDrift_eq_nil {α β : Type} {what : String} {pinName : α → Str} {name : β → Str}
    {row : β → α → List Str} {locked : List α} {resolved : List β} :
    namedDrift what pinName name row locked resolved = [] ↔
      (∀ res ∈ resolved, ∃ pin, firstWith pinName locked (name res) = some pin ∧
        row res pin = []) ∧ ∀ pin ∈ locked, ∃ res ∈ resolved, name res = pinName pin := by
  unfold namedDrift
  rw [List.append_eq_nil_iff, List.flatMap_eq_nil_iff, List.map_eq_nil_iff,
    List.filter_eq_nil_iff]
  refine and_congr (forall₂_congr fun res _ => ?_) (forall₂_congr fun pin _ => ?_)
  · cases firstWith pinName locked (name res) <;> simp
  · simp

theorem nodup_kmods (build : ResolvedBuild) : (build.kmods.map NamedSource.name).Nodup := by
  unfold ResolvedBuild.kmods
  cases build.image with
  | none => exact List.nodup_nil
  | some image => exact image.kmodNames

theorem nodup_apps (build : ResolvedBuild) : (build.apps.map App.name).Nodup := by
  unfold ResolvedBuild.apps
  cases build.image with
  | none => exact List.nodup_nil
  | some image => exact image.appNames

theorem kmodAxes_eq_nil :
    kmodAxes lock build = [] ↔ (lockFields lock).kmods = (buildFields build).kmods := by
  unfold kmodAxes
  rw [namedDrift_eq_nil, funext_iff]
  unfold lockFields buildFields
  dsimp only
  rw [firstWith_map_eq_iff (nodup_kmods build)]
  simp only [diff_eq_nil]

/-! ### A lock just written -/

/-! ### A lock just written -/

variable {up : Upstream} {opts : UpdateOptions} {commit : Option Commit}

theorem blobFile_of_blobPin {file pin : Str} (h : up.blobPin file = .ok pin) :
    blobFile pin = file := by
  obtain ⟨digest, -, hpin⟩ := Outcome.bind_eq_ok.mp h
  obtain rfl := Outcome.ok.inj hpin
  have hcolon : ':' ∉ digest.text := by
    intro hc
    have := List.all_eq_true.mp digest.hex _ hc
    exact absurd this (by decide)
  have hsplit : rsplitOnce (file ++ ("@sha256".toList ++ [':']) ++ digest.text)
      ("@sha256".toList ++ [':']) = some (file, digest.text) := rsplitOnce_append hcolon
  exact congrArg (fun cut : Option (Str × Str) => (cut.map Prod.fst).getD
    (file ++ "@sha256:".toList ++ digest.text)) hsplit

theorem source_of_gitPin {url reference : Str} {pin : GitPin}
    (h : up.gitPin url reference = .ok pin) :
    pin.source = url ∧ pin.reference = normalizeRef reference := by
  obtain ⟨c, -, hpin⟩ := Outcome.bind_eq_ok.mp h
  obtain rfl := Outcome.ok.inj hpin
  exact ⟨rfl, rfl⟩

theorem pinned_of_patchesPin {a : PatchAxis} {pin : Option PatchesPin}
    (h : patchesPin a commit = .ok pin) :
    (pin.map fun p => (p.series, p.source)) = a.pinned := by
  unfold patchesPin at h
  unfold PatchAxis.pinned
  split_ifs at h ⊢
  · obtain rfl := Outcome.ok.inj h
    rfl
  · obtain ⟨source, hsource, h⟩ := Outcome.bind_eq_ok.mp h
    obtain ⟨reference, -, h⟩ := Outcome.bind_eq_ok.mp h
    obtain ⟨c, -, h⟩ := Outcome.bind_eq_ok.mp h
    obtain rfl := Outcome.ok.inj h
    rw [Outcome.expect_eq_ok.mp hsource]
    rfl

theorem kernelSeries_eq (build : ResolvedBuild) :
    build.kernelSeries = (build.compiledKernel.map fun k => k.patches.series).getD [] := by
  unfold ResolvedBuild.kernelSeries ResolvedBuild.compiledKernel ResolvedKernel.patchSeries
  cases build.image <;> rfl

theorem patches_of_kernelPatches {pin : Option PatchesPin}
    (h : kernelPatches build commit = .ok pin) :
    (pin.map fun p => (p.series, p.source)) = (buildFields build).patches := by
  unfold kernelPatches at h
  unfold buildFields
  dsimp only
  rw [kernelSeries_eq] at h
  cases hk : build.compiledKernel with
  | none =>
    rw [hk] at h
    obtain rfl := Outcome.ok.inj h
    rfl
  | some k =>
    rw [hk, Option.map_some, Option.getD_some] at h
    rw [Option.bind_some]
    split_ifs at h with hnil
    · obtain rfl := Outcome.ok.inj h
      unfold PatchAxis.pinned
      rw [if_pos hnil]
      rfl
    · obtain ⟨k', hk', h⟩ := Outcome.bind_eq_ok.mp h
      obtain rfl := Outcome.ok.inj hk'
      exact pinned_of_patchesPin h

theorem patches_of_ubootPatches {pin : Option PatchesPin}
    (h : ubootPatches build commit = .ok pin) :
    (pin.map fun p => (p.series, p.source)) = (buildFields build).ubootPatches := by
  unfold ubootPatches ResolvedBuild.ubootSeries at h
  unfold buildFields
  dsimp only
  cases hboot : build.rkbinBoot with
  | none =>
    rw [hboot] at h
    obtain rfl := Outcome.ok.inj h
    rfl
  | some boot =>
    rw [hboot, Option.bind_some] at h
    rw [Option.bind_some]
    refine Outcome.map_of_mapOption (fun series p hp => ?_) h
    obtain ⟨boot', hboot', hp⟩ := Outcome.bind_eq_ok.mp hp
    obtain rfl := Outcome.ok.inj hboot'
    obtain ⟨source, hsource, hp⟩ := Outcome.bind_eq_ok.mp hp
    obtain ⟨reference, -, hp⟩ := Outcome.bind_eq_ok.mp hp
    obtain ⟨c, -, hp⟩ := Outcome.bind_eq_ok.mp hp
    obtain rfl := Outcome.ok.inj hp
    rw [Outcome.expect_eq_ok.mp hsource]
    rfl

theorem fields_of_kernelPin {k : ResolvedCompiledKernel} {pin : KernelPin}
    (h : up.kernelPin opts k = .ok pin) :
    (pin.id, pin.source) = (k.id, (kernelSourceUrl k.source).toOption.getD []) := by
  obtain ⟨url, hurl, h⟩ := Outcome.bind_eq_ok.mp h
  obtain ⟨c, -, h⟩ := Outcome.bind_eq_ok.mp h
  obtain rfl := Outcome.ok.inj h
  rw [hurl]
  rfl

theorem fields_of_bootPins {boot : ResolvedRkbinBoot} {pins : UbootPin × BlobsPin}
    (h : up.bootPins opts boot = .ok pins) :
    pins.1.source = boot.ubootSource ∧
      (blobFile pins.2.atf, blobFile pins.2.tpl, pins.2.bl32.map blobFile) =
        (boot.rkbin.atf, boot.rkbin.tpl, boot.rkbin.bl32) := by
  obtain ⟨c, -, h⟩ := Outcome.bind_eq_ok.mp h
  obtain ⟨atf, hatf, h⟩ := Outcome.bind_eq_ok.mp h
  obtain ⟨tpl, htpl, h⟩ := Outcome.bind_eq_ok.mp h
  obtain ⟨bl32, hbl32, h⟩ := Outcome.bind_eq_ok.mp h
  obtain rfl := Outcome.ok.inj h
  refine ⟨rfl, ?_⟩
  have hmap : bl32.map blobFile = boot.rkbin.bl32.map id :=
    Outcome.map_of_mapOption (fun _ _ hp => blobFile_of_blobPin hp) hbl32
  rw [blobFile_of_blobPin hatf, blobFile_of_blobPin htpl, hmap, Option.map_id]
  rfl

theorem fields_of_namedPin {refs : List (Str × Str)} {t : NamedSource} {pin : GitPin}
    (h : up.namedPin refs t = .ok pin) : pin.source = t.git :=
  (source_of_gitPin h).1

theorem fields_of_ffmpegPins {f : FfmpegSources} {pins : FfmpegPins}
    (h : up.ffmpegPins opts f = .ok pins) :
    (pins.base.source, pins.rockchip.map GitPin.source) =
      (f.base.git, f.rockchip.map GitSource.git) := by
  obtain ⟨base, hbase, h⟩ := Outcome.bind_eq_ok.mp h
  obtain ⟨rockchip, hrockchip, h⟩ := Outcome.bind_eq_ok.mp h
  obtain rfl := Outcome.ok.inj h
  rw [(source_of_gitPin hbase).1]
  exact congrArg _ (Outcome.map_of_mapOption (fun _ _ hp => (source_of_gitPin hp).1) hrockchip)

theorem fields_of_appPin {a : App} {pin : AppPin} (h : up.appPin commit a = .ok pin) :
    pin.name = a.name ∧ appFields pin = a.fields := by
  obtain ⟨git, hgit, h⟩ := Outcome.bind_eq_ok.mp h
  obtain ⟨patches, hpatches, h⟩ := Outcome.bind_eq_ok.mp h
  obtain ⟨packaging, hpackaging, h⟩ := Outcome.bind_eq_ok.mp h
  obtain ⟨nuget, -, h⟩ := Outcome.bind_eq_ok.mp h
  obtain rfl := Outcome.ok.inj h
  obtain ⟨hsource, href⟩ := source_of_gitPin hgit
  obtain ⟨hpsource, hpref⟩ := source_of_gitPin hpackaging
  unfold appFields App.fields
  dsimp only
  rw [hsource, href, pinned_of_patchesPin hpatches, Option.map_some, hpsource, hpref]
  exact ⟨rfl, rfl⟩

/-- A lock just written records what its build resolves to. -/
theorem resolveLock_fields (h : resolveLock up build opts = .ok lock) :
    lockFields lock = buildFields build := by
  obtain ⟨commit, -, h⟩ := Outcome.bind_eq_ok.mp h
  obtain ⟨patches, hpatches, h⟩ := Outcome.bind_eq_ok.mp h
  obtain ⟨uboot, huboot, h⟩ := Outcome.bind_eq_ok.mp h
  obtain ⟨kernel, hkernel, h⟩ := Outcome.bind_eq_ok.mp h
  obtain ⟨boot, hboot, h⟩ := Outcome.bind_eq_ok.mp h
  obtain ⟨userspace, huserspace, h⟩ := Outcome.bind_eq_ok.mp h
  obtain ⟨ffmpeg, hffmpeg, h⟩ := Outcome.bind_eq_ok.mp h
  obtain ⟨kmods, hkmods, h⟩ := Outcome.bind_eq_ok.mp h
  obtain ⟨apps, happs, h⟩ := Outcome.bind_eq_ok.mp h
  obtain rfl := Outcome.ok.inj h
  have hsource : (boot.map Prod.fst).map UbootPin.source =
      build.rkbinBoot.map ResolvedRkbinBoot.ubootSource := by
    rw [Option.map_map]
    exact Outcome.map_of_mapOption (fun _ _ hp => (fields_of_bootPins hp).1) hboot
  have hblobs : (boot.map Prod.snd).map (fun b => (blobFile b.atf, blobFile b.tpl,
      b.bl32.map blobFile)) =
      build.rkbinBoot.map fun boot => (boot.rkbin.atf, boot.rkbin.tpl, boot.rkbin.bl32) := by
    rw [Option.map_map]
    exact Outcome.map_of_mapOption (fun _ _ hp => (fields_of_bootPins hp).2) hboot
  have htrees : ∀ name, (firstWith UserspacePin.name userspace name).map UserspacePin.source =
      (firstWith NamedSource.name build.userspace name).map NamedSource.git := by
    refine firstWith_map_of_forall₂ ((Outcome.forall₂_of_mapM huserspace).flip.imp ?_)
    intro pin t hp
    obtain ⟨git, hgit, hp⟩ := Outcome.bind_eq_ok.mp hp
    obtain rfl := Outcome.ok.inj hp
    exact ⟨rfl, fields_of_namedPin hgit⟩
  have hmods : ∀ name, (firstWith KmodPin.name kmods name).map KmodPin.source =
      (firstWith NamedSource.name build.kmods name).map NamedSource.git := by
    refine firstWith_map_of_forall₂ ((Outcome.forall₂_of_mapM hkmods).flip.imp ?_)
    intro pin t hp
    obtain ⟨git, hgit, hp⟩ := Outcome.bind_eq_ok.mp hp
    obtain rfl := Outcome.ok.inj hp
    exact ⟨rfl, fields_of_namedPin hgit⟩
  have happs' : ∀ name, (firstWith AppPin.name apps name).map appFields =
      (firstWith App.name build.apps name).map App.fields :=
    firstWith_map_of_forall₂ ((Outcome.forall₂_of_mapM happs).flip.imp fun _ _ hp =>
      fields_of_appPin hp)
  have hff := Outcome.map_of_mapOption (fun _ _ hp => fields_of_ffmpegPins hp) hffmpeg
  have hk := Outcome.map_of_mapOption (fun _ _ hp => fields_of_kernelPin hp) hkernel
  have hp := patches_of_kernelPatches hpatches
  have hu := patches_of_ubootPatches huboot
  unfold lockFields assembleLock blobsBy
  unfold buildFields at hp hu ⊢
  dsimp only at hp hu ⊢
  rw [hk, hp, hu, hsource, hff, hblobs, funext htrees, funext hmods, funext happs',
    Option.map_map]
  rfl

/-! ### What the gate compares -/

/-- What the gate compares of an app and its pin: the series through the text they are joined to. -/
structure AppCompared (app : App) (pin : AppPin) : Prop where
  source : pin.source = app.git
  reference : pin.reference = normalizeRef app.gitRef
  series : showOption (pin.patches.map fun p => join ", ".toList p.series) =
    showList app.patches.series
  patchesSource : ∀ p, pin.patches = some p → ∀ url, app.patches.url = some url → p.source = url
  dotnet : (appFields pin).dotnet = app.fields.dotnet

/-- What the gate compares, the blobs apart. -/
structure Compared (lock : Lock) (build : ResolvedBuild) : Prop where
  kernel : (lockFields lock).kernel = (buildFields build).kernel
  uboot : (lockFields lock).uboot = (buildFields build).uboot
  userspace : (lockFields lock).userspace = (buildFields build).userspace
  ffmpeg : (lockFields lock).ffmpeg = (buildFields build).ffmpeg
  kmods : (lockFields lock).kmods = (buildFields build).kmods
  rootfs : (lockFields lock).rootfs = (buildFields build).rootfs
  extraDebs : lock.extraDebs = build.extraDebs
  series : (lock.patches.map PatchesPin.series).getD [] = build.kernelSeries
  ubootSeries : (lock.ubootPatches.bind fun p => p.series.head?) = build.ubootSeries
  apps : ∀ app ∈ build.apps, ∃ pin, firstWith AppPin.name lock.apps app.name = some pin ∧
    AppCompared app pin
  appNames : ∀ pin ∈ lock.apps, ∃ app ∈ build.apps, app.name = pin.name

theorem appPatchesAxes_eq_nil {app : App} {pin : AppPin} : appPatchesAxes app pin = [] ↔
    ∀ p, pin.patches = some p → ∀ url, app.patches.url = some url → p.source = url := by
  unfold appPatchesAxes appDiff
  cases pin.patches with
  | none => simp
  | some p => cases app.patches.url <;> simp [diff_eq_nil]

theorem dotnetAxes_eq_nil {app : App} {pin : AppPin} :
    dotnetAxes app pin = [] ↔ (appFields pin).dotnet = app.fields.dotnet := by
  unfold dotnetAxes appFields App.fields appDiff
  dsimp only
  cases pin.dotnet with
  | none => simp
  | some locked =>
    dsimp only
    rw [List.append_eq_nil_iff, List.append_eq_nil_iff, List.append_eq_nil_iff, diff_eq_nil,
      diff_eq_nil, diff_eq_nil, ite_ne_eq_nil, Option.map_some, Option.some.injEq,
      Prod.mk.injEq, Prod.mk.injEq, DotnetSdk.ext_iff, and_assoc, and_assoc]

theorem appAxes_eq_nil {app : App} {pin : AppPin} :
    appAxes app pin = [] ↔ AppCompared app pin := by
  unfold appAxes
  rw [List.append_eq_nil_iff, List.append_eq_nil_iff, List.append_eq_nil_iff,
    List.append_eq_nil_iff, appPatchesAxes_eq_nil, dotnetAxes_eq_nil]
  unfold appDiff
  rw [diff_eq_nil, diff_eq_nil, diff_eq_nil]
  constructor
  · rintro ⟨⟨⟨⟨h1, h2⟩, h3⟩, h4⟩, h5⟩
    exact ⟨h1, h2, h3, h4, h5⟩
  · rintro ⟨h1, h2, h3, h4, h5⟩
    exact ⟨⟨⟨⟨h1, h2⟩, h3⟩, h4⟩, h5⟩

/-- The gate passes where nothing it compares differs. -/
theorem check_eq_ok (h : KernelKnown build) :
    checkLockConsistency lock build = .ok () ↔
      Compared lock build ∧ blobsBy blobPinFile lock = (buildFields build).blobs := by
  have hnil : checkLockConsistency lock build = .ok () ↔ driftedAxes lock build = [] := by
    unfold checkLockConsistency
    split_ifs with hempty
    · exact iff_of_true rfl (List.isEmpty_iff.mp hempty)
    · exact iff_of_false (fun h => nomatch h) fun h => hempty (List.isEmpty_iff.mpr h)
  have happs : appDrift lock.apps build.apps = [] ↔
      (∀ app ∈ build.apps, ∃ pin, firstWith AppPin.name lock.apps app.name = some pin ∧
        AppCompared app pin) ∧ ∀ pin ∈ lock.apps, ∃ app ∈ build.apps, app.name = pin.name := by
    unfold appDrift
    rw [namedDrift_eq_nil]
    simp only [appAxes_eq_nil]
  rw [hnil]
  unfold driftedAxes
  simp only [List.append_eq_nil_iff, kernelAxes_eq_nil h, ubootAxes_eq_nil, userspaceAxes_eq_nil,
    ffmpegAxes_eq_nil, blobAxes_eq_nil, seriesAxes_eq_nil, ubootSeriesAxes_eq_nil,
    rootfsAxes_eq_nil, debAxes_eq_nil, kmodAxes_eq_nil, happs]
  constructor
  · rintro ⟨⟨⟨⟨⟨⟨⟨⟨⟨⟨⟨hk, hu⟩, hus⟩, hff⟩, hb⟩, hs⟩, hus'⟩, hr⟩, hd⟩, -⟩, hkm⟩, ha, han⟩
    exact ⟨⟨hk, hu, hus, hff, hkm, hr, hd, hs, hus', ha, han⟩, hb⟩
  · rintro ⟨⟨hk, hu, hus, hff, hkm, hr, hd, hs, hus', ha, han⟩, hb⟩
    exact ⟨⟨⟨⟨⟨⟨⟨⟨⟨⟨⟨hk, hu⟩, hus⟩, hff⟩, hb⟩, hs⟩, hus'⟩, hr⟩, hd⟩, mediaAxes_eq_nil hus⟩, hkm⟩,
      ha, han⟩

/-! ### What the gate does not see -/

def kernelPatchesUrl (build : ResolvedBuild) : Option Str :=
  build.compiledKernel.bind fun k => k.patches.url

def ubootPatchesUrl (build : ResolvedBuild) : Option Str :=
  build.rkbinBoot.bind fun boot => boot.ubootPatchesUrl

/-- The file names of the boot blobs. -/
def blobNames (build : ResolvedBuild) : List Str :=
  match build.rkbinBoot with
  | some boot => boot.rkbin.atf :: boot.rkbin.tpl :: boot.rkbin.bl32.toList
  | none => []

/-- A pin of the kernel's series without series, or from another repository. -/
def HiddenKernel (lock : Lock) (build : ResolvedBuild) : Prop :=
  ∃ pin, lock.patches = some pin ∧
    (pin.series = [] ∨ some pin.source ≠ kernelPatchesUrl build)

/-- A pin of the u-boot series with other than one series, or from another repository. -/
def HiddenUboot (lock : Lock) (build : ResolvedBuild) : Prop :=
  ∃ pin, lock.ubootPatches = some pin ∧
    (pin.series.length ≠ 1 ∨ some pin.source ≠ ubootPatchesUrl build)

/-- An app whose series are not those pinned. -/
def HiddenApp (lock : Lock) (build : ResolvedBuild) : Prop :=
  ∃ app ∈ build.apps, ∃ pin, firstWith AppPin.name lock.apps app.name = some pin ∧
    pin.patches.map PatchesPin.series ≠ app.patches.pinned.map Prod.fst

/-- The blob pins name the files of the build. -/
def SameBlobs (lock : Lock) (build : ResolvedBuild) : Prop :=
  blobsBy blobFile lock = (buildFields build).blobs

/-- A lock and a build that the gate judges rightly: where no value it compares differs, either no
pin differs in what it does not compare and no blob name holds an `@`, or both. -/
def GateReads (lock : Lock) (build : ResolvedBuild) : Prop :=
  Compared lock build →
    blobsBy blobPinFile lock = (buildFields build).blobs ∨ SameBlobs lock build →
    (HiddenKernel lock build ∨ HiddenUboot lock build ∨ HiddenApp lock build ∨
      ¬SameBlobs lock build ↔
      SameBlobs lock build ∧ ∃ name ∈ blobNames build, '@' ∈ name)

theorem patches_eq_iff (h : (lock.patches.map PatchesPin.series).getD [] = build.kernelSeries) :
    (lockFields lock).patches = (buildFields build).patches ↔ ¬HiddenKernel lock build := by
  rw [kernelSeries_eq] at h
  unfold HiddenKernel kernelPatchesUrl lockFields buildFields PatchAxis.pinned
  dsimp only
  cases hpin : lock.patches with
  | none =>
    rw [hpin] at h
    refine iff_of_true ?_ fun ⟨_, hsome, _⟩ => nomatch hsome
    cases hk : build.compiledKernel with
    | none => rfl
    | some k =>
      rw [hk] at h
      have hnil : k.patches.series = [] := h.symm
      rw [Option.bind_some, if_pos (by rw [hnil]; rfl)]
      rfl
  | some pin =>
    rw [hpin, Option.map_some, Option.getD_some] at h
    rw [Option.map_some]
    cases hk : build.compiledKernel with
    | none =>
      rw [hk] at h
      exact iff_of_false (fun h => nomatch h) fun hnot => hnot ⟨pin, rfl, Or.inl h⟩
    | some k =>
      rw [hk, Option.map_some, Option.getD_some] at h
      rw [Option.bind_some, Option.bind_some]
      split_ifs with hempty
      · refine iff_of_false (fun h => nomatch h) fun hnot => hnot ⟨pin, rfl, Or.inl ?_⟩
        rw [h, List.isEmpty_iff.mp hempty]
      · have hne : k.patches.series ≠ [] := fun hnil => hempty (by rw [hnil]; rfl)
        obtain ⟨url, hurl⟩ := Option.isSome_iff_exists.mp (k.patches.paired hne).1
        simp [hurl, h, hne]

theorem ubootPatches_eq_iff
    (h : (lock.ubootPatches.bind fun p => p.series.head?) = build.ubootSeries) :
    (lockFields lock).ubootPatches = (buildFields build).ubootPatches ↔
      ¬HiddenUboot lock build := by
  unfold ResolvedBuild.ubootSeries at h
  unfold HiddenUboot ubootPatchesUrl lockFields buildFields
  dsimp only
  cases hpin : lock.ubootPatches with
  | none =>
    rw [hpin] at h
    refine iff_of_true ?_ fun ⟨_, hsome, _⟩ => nomatch hsome
    cases hboot : build.rkbinBoot with
    | none => rfl
    | some boot =>
      rw [hboot] at h
      have hnone : boot.ubootSeries = none := h.symm
      rw [Option.bind_some, hnone]
      rfl
  | some pin =>
    rw [hpin, Option.bind_some] at h
    rw [Option.map_some]
    cases hboot : build.rkbinBoot with
    | none =>
      rw [hboot] at h
      refine iff_of_false (fun h => nomatch h) fun hnot => hnot ⟨pin, rfl, Or.inr ?_⟩
      simp
    | some boot =>
      rw [hboot, Option.bind_some] at h
      rw [Option.bind_some, Option.bind_some]
      cases hseries : pin.series with
      | nil =>
        rw [hseries] at h
        have hnone : boot.ubootSeries = none := h.symm
        rw [hnone]
        exact iff_of_false (fun h => nomatch h) fun hnot =>
          hnot ⟨pin, rfl, Or.inl (by rw [hseries]; decide)⟩
      | cons name rest =>
        rw [hseries] at h
        have hsome : boot.ubootSeries = some name := h.symm
        obtain ⟨url, hurl⟩ := Option.isSome_iff_exists.mp (boot.paired (by rw [hsome]; rfl)).1
        rw [hsome, hurl]
        cases rest <;> simp [hseries]

theorem appPatches_eq_iff {app : App} {pin : AppPin} (h : AppCompared app pin) :
    appFields pin = app.fields ↔
      pin.patches.map PatchesPin.series = app.patches.pinned.map Prod.fst := by
  have hpatches : (appFields pin).patches = app.fields.patches ↔
      pin.patches.map PatchesPin.series = app.patches.pinned.map Prod.fst := by
    have hsource := h.patchesSource
    unfold appFields App.fields PatchAxis.pinned
    dsimp only
    cases hpin : pin.patches with
    | none => split_ifs <;> simp
    | some p =>
      split_ifs with hempty
      · simp
      · have hne : app.patches.series ≠ [] := fun hnil => hempty (by rw [hnil]; rfl)
        obtain ⟨url, hurl⟩ := Option.isSome_iff_exists.mp (app.patches.paired hne).1
        have := hsource p hpin url hurl
        simp [hurl, this]
  rw [AppFields.ext_iff, ← hpatches]
  constructor
  · intro hall
    exact hall.2.2.1
  · intro hp
    exact ⟨h.source, h.reference, hp, h.dotnet⟩

theorem blobPinFile_eq_iff {pin file : Str} (h : blobFile pin = file) :
    blobPinFile pin = file ↔ '@' ∉ file := by
  have hcut : blobPinFile pin = file.takeWhile (· ≠ '@') := by
    unfold blobPinFile
    unfold blobFile at h
    rcases rsplitOnce_cases pin "@sha256:".toList with hnone | ⟨head, tail, hsome, hpin⟩
    · rw [hnone] at h
      rw [← h]
      rfl
    · rw [hsome] at h
      obtain rfl : head = file := h
      have hat : pin = head ++ '@' :: ("sha256:".toList ++ tail) := by
        rw [hpin, List.append_assoc]
        rfl
      rw [hat, List.takeWhile_append]
      split_ifs with hlen
      · rw [List.takeWhile_cons_of_neg (by simp), List.append_nil]
        exact ((List.takeWhile_prefix _).eq_of_length hlen).symm
      · rfl
  rw [hcut]
  constructor
  · intro heq hat
    rw [← heq] at hat
    exact absurd (List.mem_takeWhile_imp hat) (by simp)
  · intro hat
    exact List.takeWhile_eq_self_iff.mpr fun c hc => decide_eq_true fun he => hat (he ▸ hc)

/-- Pins of the right files are read rightly where no file name holds an `@`. -/
theorem seenBlobs_iff (h : SameBlobs lock build) :
    blobsBy blobPinFile lock = (buildFields build).blobs ↔ ∀ name ∈ blobNames build, '@' ∉ name := by
  unfold SameBlobs blobsBy buildFields at h
  unfold blobsBy buildFields blobNames
  dsimp only at h ⊢
  cases hpins : lock.blobs with
  | none =>
    rw [hpins] at h
    cases hboot : build.rkbinBoot with
    | none => simp
    | some boot =>
      rw [hboot] at h
      cases h
  | some pins =>
    rw [hpins] at h
    cases hboot : build.rkbinBoot with
    | none =>
      rw [hboot] at h
      cases h
    | some boot =>
      rw [hboot, Option.map_some, Option.map_some, Option.some.injEq, Prod.mk.injEq,
        Prod.mk.injEq] at h
      obtain ⟨hatf, htpl, hbl32⟩ := h
      rw [Option.map_some, Option.map_some, Option.some.injEq, Prod.mk.injEq, Prod.mk.injEq,
        blobPinFile_eq_iff hatf, blobPinFile_eq_iff htpl]
      cases hpin : pins.bl32 with
      | none =>
        have hnone : boot.rkbin.bl32 = none := by rw [← hbl32, hpin]; rfl
        simp [hnone]
      | some pin =>
        have hsome : boot.rkbin.bl32 = some (blobFile pin) := by rw [← hbl32, hpin]; rfl
        rw [hsome, Option.map_some, Option.some.injEq, blobPinFile_eq_iff rfl]
        simp [hsome]

theorem series_of_patches (h : (lockFields lock).patches = (buildFields build).patches) :
    (lock.patches.map PatchesPin.series).getD [] = build.kernelSeries := by
  have hlock : lock.patches.map PatchesPin.series = (lockFields lock).patches.map Prod.fst := by
    unfold lockFields
    rw [Option.map_map]
    rfl
  rw [hlock, h, kernelSeries_eq]
  unfold buildFields PatchAxis.pinned
  dsimp only
  cases build.compiledKernel with
  | none => rfl
  | some k =>
    rw [Option.bind_some]
    split_ifs with hempty
    · exact (List.isEmpty_iff.mp hempty).symm
    · rfl

theorem ubootSeries_of_patches
    (h : (lockFields lock).ubootPatches = (buildFields build).ubootPatches) :
    (lock.ubootPatches.bind fun p => p.series.head?) = build.ubootSeries := by
  have hlock : (lock.ubootPatches.bind fun p => p.series.head?) =
      (lockFields lock).ubootPatches.bind fun p => p.1.head? := by
    unfold lockFields
    rw [Option.bind_map]
    rfl
  rw [hlock, h]
  unfold buildFields ResolvedBuild.ubootSeries
  dsimp only
  cases build.rkbinBoot with
  | none => rfl
  | some boot =>
    rw [Option.bind_some, Option.bind_some]
    cases boot.ubootSeries <;> rfl

theorem compared_of_appFields {app : App} {pin : AppPin} (h : appFields pin = app.fields) :
    AppCompared app pin := by
  have hpatches : (pin.patches.map fun p => (p.series, p.source)) = app.patches.pinned :=
    congrArg AppFields.patches h
  refine ⟨congrArg AppFields.source h, congrArg AppFields.reference h, ?series, ?source,
    congrArg AppFields.dotnet h⟩
  case series =>
    unfold PatchAxis.pinned at hpatches
    unfold showOption showList
    cases hpin : pin.patches with
    | none =>
      rw [hpin, Option.map_none] at hpatches
      split_ifs at hpatches ⊢
      rfl
    | some p =>
      rw [hpin, Option.map_some] at hpatches
      split_ifs at hpatches ⊢
      rw [← (Prod.mk.inj (Option.some.inj hpatches)).1]
      rfl
  case source =>
    intro p hpin url hurl
    rw [hpin, Option.map_some] at hpatches
    unfold PatchAxis.pinned at hpatches
    split_ifs at hpatches
    rw [hurl] at hpatches
    exact (Prod.mk.inj (Option.some.inj hpatches)).2

/-- The fields agree where what is compared does and nothing is hidden. -/
theorem fields_eq_iff : lockFields lock = buildFields build ↔
    Compared lock build ∧ ¬HiddenKernel lock build ∧ ¬HiddenUboot lock build ∧
      ¬HiddenApp lock build ∧ SameBlobs lock build := by
  have happs : (lockFields lock).apps = (buildFields build).apps ↔
      (∀ app ∈ build.apps, ∃ pin, firstWith AppPin.name lock.apps app.name = some pin ∧
        appFields pin = app.fields) ∧
        ∀ pin ∈ lock.apps, ∃ app ∈ build.apps, app.name = pin.name := by
    rw [funext_iff]
    exact firstWith_map_eq_iff (nodup_apps build)
  constructor
  · intro h
    have hpatches := congrArg PinnedFields.patches h
    have huboot := congrArg PinnedFields.ubootPatches h
    obtain ⟨hrows, hnames⟩ := happs.mp (congrArg PinnedFields.apps h)
    have hcompared : Compared lock build :=
      { kernel := congrArg PinnedFields.kernel h
        uboot := congrArg PinnedFields.uboot h
        userspace := congrArg PinnedFields.userspace h
        ffmpeg := congrArg PinnedFields.ffmpeg h
        kmods := congrArg PinnedFields.kmods h
        rootfs := congrArg PinnedFields.rootfs h
        extraDebs := congrArg PinnedFields.extraDebs h
        series := series_of_patches hpatches
        ubootSeries := ubootSeries_of_patches huboot
        apps := fun app happ =>
          let ⟨pin, hpin, hfields⟩ := hrows app happ
          ⟨pin, hpin, compared_of_appFields hfields⟩
        appNames := hnames }
    refine ⟨hcompared, (patches_eq_iff hcompared.series).mp hpatches,
      (ubootPatches_eq_iff hcompared.ubootSeries).mp huboot, ?_, congrArg PinnedFields.blobs h⟩
    rintro ⟨app, happ, pin, hpin, hne⟩
    obtain ⟨pin', hpin', hfields⟩ := hrows app happ
    obtain rfl := Option.some.inj (hpin.symm.trans hpin')
    exact hne ((appPatches_eq_iff (compared_of_appFields hfields)).mp hfields)
  · rintro ⟨hc, hk, hu, ha, hb⟩
    refine PinnedFields.ext hc.kernel ((patches_eq_iff hc.series).mpr hk) hc.uboot
      ((ubootPatches_eq_iff hc.ubootSeries).mpr hu) hc.userspace hc.ffmpeg hc.kmods
      (happs.mpr ⟨fun app happ => ?_, hc.appNames⟩) hc.rootfs hb hc.extraDebs
    obtain ⟨pin, hpin, hcompared⟩ := hc.apps app happ
    refine ⟨pin, hpin, (appPatches_eq_iff hcompared).mpr ?_⟩
    by_contra hne
    exact ha ⟨app, happ, pin, hpin, hne⟩

/-- **The drift gate.** It passes exactly the locks that record what the build resolves to, where it
reads what the two differ in. A lock just written for the build records it, and passes where no
blob name holds an `@`. -/
theorem gate_exact_iff (lock : Lock) (build : ResolvedBuild) (h : KernelKnown build) :
    ((checkLockConsistency lock build = .ok () ↔ lockFields lock = buildFields build) ↔
      GateReads lock build) ∧
    ∀ up opts, resolveLock up build opts = .ok lock → lockFields lock = buildFields build ∧
      (checkLockConsistency lock build = .ok () ↔ ∀ name ∈ blobNames build, '@' ∉ name) := by
  rw [check_eq_ok h]
  constructor
  · rw [fields_eq_iff]
    unfold GateReads
    by_cases hc : Compared lock build
    · by_cases hb : SameBlobs lock build
      · have hseen := seenBlobs_iff hb
        rw [hseen]
        have hat : (∃ name ∈ blobNames build, '@' ∈ name) ↔
            ¬∀ name ∈ blobNames build, '@' ∉ name := by
          push Not
          rfl
        rw [hat]
        tauto
      · tauto
    · tauto
  · intro up opts hlock
    have hfields := resolveLock_fields hlock
    obtain ⟨hc, -, -, -, hb⟩ := fields_eq_iff.mp hfields
    exact ⟨hfields, by rw [and_iff_right hc, seenBlobs_iff hb]⟩

/-- A board with a compiled kernel and one series. -/
def rk1Kernel : ResolvedCompiledKernel where
  id := "rk3588-mainline-7.1".toList
  source := .named "linux-stable".toList
  patches :=
    { series := ["rk3588-accel".toList]
      url := some "https://git.invalid/patches".toList
      ref := some "main".toList
      paired := fun _ => ⟨rfl, rfl⟩ }

def rk1Build : ResolvedBuild where
  distro := "debian".toList
  rkbinBoot := none
  image := some
    { kernel := .compiled rk1Kernel
      suite := "forky".toList
      userspace := []
      ffmpeg := none
      deviceKmods := []
      apps := []
      extraDebs := []
      kmodNames := List.nodup_nil
      appNames := List.nodup_nil }

def zeroCommit : Commit := ⟨List.replicate 40 '0', by decide⟩

def rk1Upstream : Upstream where
  resolveRef _ _ := .ok zeroCommit
  patchesPresent := true
  patchesClean := .ok true
  patchesHead := .ok zeroCommit
  blobDigest _ := .ok ⟨[], rfl⟩
  nuget _ _ _ _ _ := .panic

def rk1Options : UpdateOptions :=
  ⟨"v7.1.6".toList, [], [], [], [], [], "rk1.manifest".toList, 0⟩

/-- The lock of the board, its series pinned from a repository. -/
def rk1Lock (patchesSource : Str) : Lock :=
  assembleLock rk1Build rk1Options
    (some ⟨rk1Kernel.id, (namedTreeUrl "linux-stable".toList).getD [], "v7.1.6".toList, zeroCommit⟩)
    none (some ⟨["rk3588-accel".toList], patchesSource, "main".toList, zeroCommit⟩) none [] none
    none [] []

theorem kernelKnown_rk1 : KernelKnown rk1Build := by
  intro k hk
  obtain rfl : rk1Kernel = k := Option.some.inj hk
  exact ⟨_, rfl⟩

/-- The lock just written for the board passes. -/
theorem fresh_lock_passes :
    checkLockConsistency (rk1Lock "https://git.invalid/patches".toList) rk1Build = .ok () :=
  ((gate_exact_iff _ _ kernelKnown_rk1).2 rk1Upstream rk1Options rfl).2.mpr (by decide)

/-- A board whose series moved to another repository passes with the old lock. -/
theorem moved_series_pass : ¬∀ (lock : Lock) (build : ResolvedBuild), KernelKnown build →
    (checkLockConsistency lock build = .ok () ↔ lockFields lock = buildFields build) := by
  intro h
  have hfields := (h (rk1Lock "https://git.invalid/old".toList) rk1Build kernelKnown_rk1).mp rfl
  have hpatches := congrArg PinnedFields.patches hfields
  exact absurd hpatches (by decide)

end Boot2Deb.Engine.Pins
