import Mathlib
import Boot2Deb.Rust.Outcome
import Boot2Deb.Core.Lock
import Boot2Deb.Core.Diff

/-!
# A lock and the record of its build

`assemble` records a build: what the resolved kernel and the lock say about the sources. A lock and
such a record are read into two sides independently. A value that only one of them holds is compared
as a change, so the two compare quiet exactly if the lock pins no kernel, no patch series and no
module outside the userspace trees: `comparesQuiet_iff`. Of the manifest only the sections a side is
read from are kept, and of a side those the comparison of pins reads.
-/

namespace Boot2Deb.Core

open Rust

inductive KernelFlavor where
  | mainline
  | vendor
  | distroPackage
deriving DecidableEq

def KernelFlavor.asStr : KernelFlavor → Str
  | mainline => "mainline".toList
  | vendor => "vendor".toList
  | distroPackage => "distro-package".toList

/-- The kernel of a resolved build: compiled from a source, or a package of the distribution. -/
inductive ResolvedKernel where
  | compiled (id : Str) (flavor : KernelFlavor)
  | distro (id : Str) (package : Str)

def ResolvedKernel.id : ResolvedKernel → Str
  | compiled id _ => id
  | distro id _ => id

def ResolvedKernel.flavor : ResolvedKernel → KernelFlavor
  | compiled _ flavor => flavor
  | distro _ _ => .distroPackage

structure MediaAccelProvenance where
  ffmpegBaseRef : Str
  ffmpegBaseCommit : Str
  ffmpegRockchipRef : Option Str
  ffmpegRockchipCommit : Option Str

structure SourcesProvenance where
  kernelId : Str
  kernelFlavor : Str
  kernelRef : Option Str
  kernelCommit : Option Str
  kernelPackage : Option Str
  patchSeries : List Str
  patchesCommit : Option Str
  ubootRef : Option Str
  ubootCommit : Option Str
  mediaAccel : Option MediaAccelProvenance

structure UserspaceSourceProvenance where
  name : Str
  reference : Str
  commit : Str

structure AppSourceProvenance where
  name : Str
  reference : Str
  commit : Str
  patchSeries : List Str
  patchesCommit : Option Str
  packagingRef : Option Str
  packagingCommit : Option Str
  sdkVersion : Option Str
  nugetManifest : Option Str
  nugetManifestSha256 : Option Str

structure BlobsProvenance where
  atf : Str
  tpl : Str
  bl32 : Option Str

structure ProvenanceManifest where
  sources : SourcesProvenance
  blobs : Option BlobsProvenance
  userspace : List UserspaceSourceProvenance
  apps : List AppSourceProvenance

/-- The record of a build of a lock, which pins a rootfs or the call panics. -/
def assemble (kernel : ResolvedKernel) (lock : Lock) : Outcome Empty ProvenanceManifest :=
  match lock.rootfs with
  | none => .panic
  | some _ => .ok {
    sources := {
      kernelId := kernel.id
      kernelFlavor := kernel.flavor.asStr
      kernelRef := lock.kernel.map fun k => k.reference
      kernelCommit := lock.kernel.map fun k => k.commit.text
      kernelPackage := match kernel with
        | .distro _ package => some package
        | .compiled _ _ => none
      patchSeries := (lock.patches.map fun p => p.series).getD []
      patchesCommit := lock.patches.map fun p => p.commit.text
      ubootRef := lock.uboot.map fun u => u.reference
      ubootCommit := lock.uboot.map fun u => u.commit.text
      mediaAccel := lock.ffmpeg.map fun ff => {
        ffmpegBaseRef := ff.base.reference
        ffmpegBaseCommit := ff.base.commit.text
        ffmpegRockchipRef := ff.rockchip.map fun p => p.reference
        ffmpegRockchipCommit := ff.rockchip.map fun p => p.commit.text } }
    blobs := lock.blobs.map fun b => ⟨b.atf, b.tpl, b.bl32⟩
    userspace := lock.userspace.map fun p => ⟨p.name, p.reference, p.commit.text⟩
    apps := lock.apps.map fun a => {
      name := a.name
      reference := a.reference
      commit := a.commit.text
      patchSeries := (a.patches.map fun p => p.series).getD []
      patchesCommit := a.patches.map fun p => p.commit.text
      packagingRef := a.dotnet.map fun d => d.packaging.reference
      packagingCommit := a.dotnet.map fun d => d.packaging.commit.text
      sdkVersion := a.dotnet.map fun d => d.sdk.version
      nugetManifest := a.dotnet.map fun d => d.nuget.manifest
      nugetManifestSha256 := a.dotnet.map fun d => d.nuget.manifestSha256 } }

/-! ### Reading a side -/

/-- What a `dotnet-deb` app's build pins beyond its tree. -/
structure AppDotnetFacts where
  packagingRef : Option Str
  packagingCommit : Option Str
  sdkVersion : Str
  nugetManifest : Str
  nugetSha256 : Str

def appAxis (name : Str) : Str := "app:".toList ++ name

def kmodAxis (name : Str) : Str := "kmod:".toList ++ name

/-- The source axes of one app. -/
def appSources (name : Str) (reference commit : Option Str) (dotnet : Option AppDotnetFacts) :
    List SourcePin :=
  ⟨appAxis name, reference, commit⟩ ::
    match dotnet with
    | none => []
    | some d => [
      ⟨appAxis name ++ ":packaging".toList, d.packagingRef, d.packagingCommit⟩,
      ⟨appAxis name ++ ":sdk".toList, some d.sdkVersion, none⟩,
      ⟨appAxis name ++ ":nuget".toList, some d.nugetManifest, some d.nugetSha256⟩]

def patchAxis (axis : Str) (pin : PatchesPin) : PatchAxis :=
  ⟨axis, pin.series, some pin.reference, some pin.commit.text⟩

variable {FragmentSet : Type}

/-- `Side::from_lock`. -/
def Side.fromLock (label : Str) (lock : Lock) : Side FragmentSet where
  label := label
  kernel := lock.kernel.map fun k => {
    id := k.id
    flavor := none
    source := some k.source
    reference := some k.reference
    commit := some k.commit.text
    package := none }
  patches := (lock.patches.map (patchAxis "kernel".toList)).toList ++
    (lock.ubootPatches.map (patchAxis "uboot".toList)).toList ++
    lock.apps.filterMap fun a => a.patches.map (patchAxis (appAxis a.name))
  sources :=
    (lock.uboot.map fun u => ⟨"uboot".toList, some u.reference, some u.commit.text⟩).toList ++
    (lock.userspace.map fun p => ⟨p.name, some p.reference, some p.commit.text⟩) ++
    (match lock.ffmpeg with
      | none => []
      | some ff =>
        ⟨"ffmpeg-base".toList, some ff.base.reference, some ff.base.commit.text⟩ ::
          (ff.rockchip.map fun rk =>
            ⟨"ffmpeg-rockchip".toList, some rk.reference, some rk.commit.text⟩).toList) ++
    (lock.kmods.map fun k => ⟨kmodAxis k.name, some k.reference, some k.commit.text⟩) ++
    lock.apps.flatMap fun a => appSources a.name (some a.reference) (some a.commit.text)
      (a.dotnet.map fun d => {
        packagingRef := some d.packaging.reference
        packagingCommit := some d.packaging.commit.text
        sdkVersion := d.sdk.version
        nugetManifest := d.nuget.manifest
        nugetSha256 := d.nuget.manifestSha256 })
  blobs := lock.blobs.map fun b => ⟨b.atf, b.tpl, b.bl32⟩
  packages := none
  kconfig := none

/-- `sort_by` of the axis, a stable sort. -/
def sortByAxis (pins : List SourcePin) : List SourcePin :=
  pins.insertionSort fun a b => StrLe a.axis b.axis

/-- `Side::from_provenance`. -/
def Side.fromProvenance (label : Str) (prov : ProvenanceManifest) : Side FragmentSet where
  label := label
  kernel := some {
    id := prov.sources.kernelId
    flavor := some prov.sources.kernelFlavor
    source := none
    reference := prov.sources.kernelRef
    commit := prov.sources.kernelCommit
    package := prov.sources.kernelPackage }
  patches :=
    (if prov.sources.patchSeries.isEmpty && prov.sources.patchesCommit.isNone then []
      else [⟨"kernel".toList, prov.sources.patchSeries, none, prov.sources.patchesCommit⟩]) ++
    prov.apps.filterMap fun a => a.patchesCommit.map fun commit =>
      ⟨appAxis a.name, a.patchSeries, none, some commit⟩
  sources := sortByAxis (
    (if prov.sources.ubootRef.isSome || prov.sources.ubootCommit.isSome then
      [⟨"uboot".toList, prov.sources.ubootRef, prov.sources.ubootCommit⟩] else []) ++
    (prov.userspace.map fun u => ⟨u.name, some u.reference, some u.commit⟩) ++
    (match prov.sources.mediaAccel with
      | none => []
      | some ma =>
        (if ma.ffmpegRockchipRef.isSome || ma.ffmpegRockchipCommit.isSome then
          [⟨"ffmpeg-rockchip".toList, ma.ffmpegRockchipRef, ma.ffmpegRockchipCommit⟩] else []) ++
        [⟨"ffmpeg-base".toList, some ma.ffmpegBaseRef, some ma.ffmpegBaseCommit⟩]) ++
    prov.apps.flatMap fun a => appSources a.name (some a.reference) (some a.commit)
      (a.sdkVersion.map fun sdk => {
        packagingRef := a.packagingRef
        packagingCommit := a.packagingCommit
        sdkVersion := sdk
        nugetManifest := a.nugetManifest.getD []
        nugetSha256 := a.nugetManifestSha256.getD [] }))
  blobs := prov.blobs.map fun b => ⟨b.atf, b.tpl, b.bl32⟩
  packages := none
  kconfig := none

/-! ### The sources of both sides -/

def ubootSources (lock : Lock) : List SourcePin :=
  (lock.uboot.map fun u => ⟨"uboot".toList, some u.reference, some u.commit.text⟩).toList

def userspaceSources (lock : Lock) : List SourcePin :=
  lock.userspace.map fun p => ⟨p.name, some p.reference, some p.commit.text⟩

def ffmpegSources (lock : Lock) : List SourcePin :=
  match lock.ffmpeg with
  | none => []
  | some ff =>
    ⟨"ffmpeg-base".toList, some ff.base.reference, some ff.base.commit.text⟩ ::
      (ff.rockchip.map fun rk =>
        ⟨"ffmpeg-rockchip".toList, some rk.reference, some rk.commit.text⟩).toList

def kmodSources (lock : Lock) : List SourcePin :=
  lock.kmods.map fun k => ⟨kmodAxis k.name, some k.reference, some k.commit.text⟩

def AppPin.sources (a : AppPin) : List SourcePin :=
  appSources a.name (some a.reference) (some a.commit.text)
    (a.dotnet.map fun d => {
      packagingRef := some d.packaging.reference
      packagingCommit := some d.packaging.commit.text
      sdkVersion := d.sdk.version
      nugetManifest := d.nuget.manifest
      nugetSha256 := d.nuget.manifestSha256 })

theorem sources_fromLock (label : Str) (lock : Lock) :
    (Side.fromLock label lock : Side FragmentSet).sources = ubootSources lock ++
      userspaceSources lock ++ ffmpegSources lock ++ kmodSources lock ++
      lock.apps.flatMap AppPin.sources := rfl

variable {kernel : ResolvedKernel} {lock : Lock} {prov : ProvenanceManifest} {axis : Str}

theorem eq_of_assemble (h : assemble kernel lock = .ok prov) : lock.rootfs ≠ none := by
  intro hnone
  unfold assemble at h
  rw [hnone] at h
  cases h

theorem firstWith_fromProvenance (h : assemble kernel lock = .ok prov) (label : Str) :
    firstWith SourcePin.axis (Side.fromProvenance label prov : Side FragmentSet).sources axis =
      firstWith SourcePin.axis (ubootSources lock ++ userspaceSources lock ++ ffmpegSources lock ++
        lock.apps.flatMap AppPin.sources) axis := by
  unfold assemble at h
  split at h
  · cases h
  obtain rfl := Outcome.ok.inj h
  show firstWith SourcePin.axis (sortByAxis _) axis = _
  unfold sortByAxis
  rw [firstWith_insertionSort]
  simp only [firstWith_append]
  refine congrArg₂ Option.or (congrArg₂ Option.or (congrArg₂ Option.or ?uboot ?userspace) ?ffmpeg)
    ?apps
  case uboot =>
    unfold ubootSources
    cases lock.uboot <;> rfl
  case userspace =>
    unfold userspaceSources
    rw [List.map_map]
    rfl
  case ffmpeg =>
    unfold ffmpegSources
    rcases lock.ffmpeg with - | ⟨base, - | rockchip⟩
    · rfl
    · rfl
    · refine firstWith_perm ?_ (List.Perm.swap _ _ _)
      simp
  case apps =>
    rw [List.flatMap_map]
    congr 1
    refine congrArg (List.flatMap · lock.apps) (funext fun a => ?_)
    unfold AppPin.sources
    cases a.dotnet <;> rfl

/-! No axis but those of the modules and of the userspace trees may be called as a module's is. -/

theorem firstWith_ubootSources_kmodAxis {name : Str} :
    firstWith SourcePin.axis (ubootSources lock) (kmodAxis name) = none := by
  unfold ubootSources
  cases lock.uboot <;> simp [firstWith, kmodAxis]

theorem firstWith_ffmpegSources_kmodAxis {name : Str} :
    firstWith SourcePin.axis (ffmpegSources lock) (kmodAxis name) = none := by
  unfold ffmpegSources
  rcases lock.ffmpeg with - | ⟨base, - | rockchip⟩ <;> simp [firstWith, kmodAxis]

theorem firstWith_appSources_kmodAxis {name : Str} :
    firstWith SourcePin.axis (lock.apps.flatMap AppPin.sources) (kmodAxis name) = none := by
  refine firstWith_eq_none.mpr fun pin hpin => ?_
  obtain ⟨a, -, hpin⟩ := List.mem_flatMap.mp hpin
  unfold AppPin.sources appSources at hpin
  cases ha : a.dotnet <;> simp [ha, appAxis] at hpin <;>
    rcases hpin with rfl | rfl | rfl | rfl <;> simp [kmodAxis]

/-- The record of the build has a module's axis exactly if a userspace tree has it. -/
theorem firstWith_fromProvenance_kmodAxis (h : assemble kernel lock = .ok prov) (label : Str)
    {name : Str} :
    firstWith SourcePin.axis (Side.fromProvenance label prov : Side FragmentSet).sources
      (kmodAxis name) = firstWith SourcePin.axis (userspaceSources lock) (kmodAxis name) := by
  rw [firstWith_fromProvenance h, firstWith_append, firstWith_append, firstWith_append,
    firstWith_ubootSources_kmodAxis, firstWith_ffmpegSources_kmodAxis,
    firstWith_appSources_kmodAxis, Option.or_none, Option.or_none, Option.none_or]

theorem firstWith_fromLock_kmodAxis (label : Str) {name : Str} :
    firstWith SourcePin.axis (Side.fromLock label lock : Side FragmentSet).sources
      (kmodAxis name) = (firstWith SourcePin.axis (userspaceSources lock) (kmodAxis name)).or
        (firstWith SourcePin.axis (kmodSources lock) (kmodAxis name)) := by
  rw [sources_fromLock, firstWith_append, firstWith_append, firstWith_append, firstWith_append,
    firstWith_ubootSources_kmodAxis, firstWith_ffmpegSources_kmodAxis,
    firstWith_appSources_kmodAxis, Option.or_none, Option.or_none, Option.none_or]

theorem firstWith_userspaceSources_eq_none :
    firstWith SourcePin.axis (userspaceSources lock) axis = none ↔
      ∀ u ∈ lock.userspace, u.name ≠ axis := by
  simp [firstWith_eq_none, userspaceSources]

theorem firstWith_kmodSources {k : KmodPin} (hk : k ∈ lock.kmods) : ∃ pin,
    firstWith SourcePin.axis (kmodSources lock) (kmodAxis k.name) = some pin ∧
      pin.reference ≠ none := by
  have hmem : (⟨kmodAxis k.name, some k.reference, some k.commit.text⟩ : SourcePin) ∈
      kmodSources lock := List.mem_map.mpr ⟨k, hk, rfl⟩
  obtain ⟨pin, hpin⟩ := exists_firstWith SourcePin.axis hmem
  obtain ⟨k', -, rfl⟩ := List.mem_map.mp (mem_of_firstWith hpin).1
  exact ⟨_, hpin, Option.some_ne_none _⟩

/-- No source is reported exactly if every module shares its axis with a userspace tree. -/
theorem compareSources_isQuiet_iff (h : assemble kernel lock = .ok prov) (left right : Str) :
    (compareSources (Side.fromLock left lock : Side FragmentSet)
      (Side.fromProvenance right prov)).isQuiet List.isEmpty = true ↔
      ∀ k ∈ lock.kmods, ∃ u ∈ lock.userspace, u.name = kmodAxis k.name := by
  rw [compareSources_isQuiet]
  constructor
  · intro hquiet k hk
    by_contra hno
    have hnone := firstWith_userspaceSources_eq_none.mpr fun u hu he => hno ⟨u, hu, he⟩
    obtain ⟨pin, hpin, hreference⟩ := firstWith_kmodSources hk
    have hsame := (sourceChange_eq_none.mp (hquiet (kmodAxis k.name))).1
    rw [firstWith_fromLock_kmodAxis, firstWith_fromProvenance_kmodAxis h, hnone, hpin] at hsame
    exact hreference hsame
  · intro hshared axis
    have hsame : firstWith SourcePin.axis (Side.fromLock left lock : Side FragmentSet).sources axis =
        firstWith SourcePin.axis
          (Side.fromProvenance right prov : Side FragmentSet).sources axis := by
      cases hk : firstWith SourcePin.axis (kmodSources lock) axis with
      | none =>
        rw [sources_fromLock, firstWith_fromProvenance h, firstWith_append, firstWith_append, hk,
          Option.or_none, ← firstWith_append]
      | some pin =>
        obtain ⟨hmem, haxis⟩ := mem_of_firstWith hk
        obtain ⟨k, hmod, rfl⟩ := List.mem_map.mp hmem
        obtain rfl : kmodAxis k.name = axis := haxis
        obtain ⟨u, hu, hname⟩ := hshared k hmod
        obtain ⟨pin, hpin⟩ := Option.ne_none_iff_exists'.mp fun hnone =>
          firstWith_userspaceSources_eq_none.mp hnone u hu hname
        rw [firstWith_fromLock_kmodAxis, firstWith_fromProvenance_kmodAxis h, hpin, Option.some_or]
    rw [sourceChange_eq_none, hsame]
    exact ⟨rfl, rfl⟩

/-! ### The other sections -/

theorem reference_fromLock {label : Str} {p : PatchAxis}
    (hp : p ∈ (Side.fromLock label lock : Side FragmentSet).patches) : p.reference ≠ none := by
  unfold Side.fromLock at hp
  simp only [List.append_assoc, List.mem_append, Option.mem_toList, Option.map_eq_some_iff,
    List.mem_filterMap] at hp
  rcases hp with ⟨pin, -, rfl⟩ | ⟨pin, -, rfl⟩ | ⟨a, -, pin, -, rfl⟩ <;>
    exact Option.some_ne_none _

theorem reference_fromProvenance {label : Str} {p : PatchAxis}
    (hp : p ∈ (Side.fromProvenance label prov : Side FragmentSet).patches) :
    p.reference = none := by
  unfold Side.fromProvenance at hp
  simp only [List.mem_append, List.mem_filterMap, Option.map_eq_some_iff] at hp
  rcases hp with hp | ⟨a, -, commit, -, rfl⟩
  · split_ifs at hp
    · cases hp
    · rw [List.mem_singleton.mp hp]
  · rfl

theorem patches_fromLock_eq_nil (label : Str) :
    (Side.fromLock label lock : Side FragmentSet).patches = [] ↔
      lock.patches = none ∧ lock.ubootPatches = none ∧ ∀ a ∈ lock.apps, a.patches = none := by
  unfold Side.fromLock
  simp [List.filterMap_eq_nil_iff]

theorem patches_fromProvenance_eq_nil (h : assemble kernel lock = .ok prov) {label : Str}
    (hpatches : lock.patches = none) (happs : ∀ a ∈ lock.apps, a.patches = none) :
    (Side.fromProvenance label prov : Side FragmentSet).patches = [] := by
  unfold assemble at h
  split at h
  · cases h
  obtain rfl := Outcome.ok.inj h
  unfold Side.fromProvenance
  simp [hpatches, List.filterMap_eq_nil_iff]
  exact happs

/-- A patch axis of a lock is always reported: the record of a build has no ref there. -/
theorem comparePatches_isQuiet_iff (h : assemble kernel lock = .ok prov) (left right : Str) :
    (comparePatches (Side.fromLock left lock : Side FragmentSet)
      (Side.fromProvenance right prov)).isQuiet List.isEmpty = true ↔
      lock.patches = none ∧ lock.ubootPatches = none ∧ ∀ a ∈ lock.apps, a.patches = none := by
  constructor
  · intro hquiet
    rw [comparePatches_isQuiet] at hquiet
    have hnil : (Side.fromLock left lock : Side FragmentSet).patches = [] := by
      refine List.eq_nil_iff_forall_not_mem.mpr fun p hp => ?_
      obtain ⟨first, hfirst⟩ := exists_firstWith PatchAxis.axis hp
      have hsame := (patchChange_eq_none.mp (hquiet p.axis)).2.1
      rw [hfirst] at hsame
      refine reference_fromLock (mem_of_firstWith hfirst).1 (Eq.trans hsame ?_)
      rw [Option.bind_eq_none_iff]
      exact fun q hq => reference_fromProvenance (mem_of_firstWith hq).1
    exact (patches_fromLock_eq_nil left).mp hnil
  · rintro ⟨hpatches, huboot, happs⟩
    unfold comparePatches
    rw [(patches_fromLock_eq_nil left).mpr ⟨hpatches, huboot, happs⟩,
      patches_fromProvenance_eq_nil h hpatches happs]
    rfl

/-- A kernel of a lock is always reported: only the record of a build has its flavor. -/
theorem compareKernel_isQuiet_iff (diff : FragmentSet → FragmentSet → List SymbolChange)
    (left right : Str) :
    (compareKernel diff (Side.fromLock left lock)
      (Side.fromProvenance right prov)).isQuiet KernelChanges.isEmpty = true ↔
      lock.kernel = none := by
  unfold compareKernel Side.fromLock Side.fromProvenance
  cases lock.kernel with
  | none => exact iff_of_true rfl rfl
  | some k =>
    refine iff_of_false (fun hquiet => ?_) (Option.some_ne_none k)
    simp only [Option.map_some, Section.isQuiet, KernelChanges.isEmpty, Bool.and_eq_true] at hquiet
    obtain ⟨⟨⟨⟨⟨⟨-, hflavor⟩, -⟩, -⟩, -⟩, -⟩, -⟩ := hquiet
    rw [Option.isNone_iff_eq_none, Change.between_eq_none] at hflavor
    cases hflavor

theorem compareBlobs_isQuiet (h : assemble kernel lock = .ok prov) (left right : Str) :
    (compareBlobs (Side.fromLock left lock : Side FragmentSet)
      (Side.fromProvenance right prov)).isQuiet List.isEmpty = true := by
  unfold assemble at h
  split at h
  · cases h
  obtain rfl := Outcome.ok.inj h
  unfold compareBlobs Side.fromLock Side.fromProvenance
  cases lock.blobs with
  | none => rfl
  | some b => simp [Section.isQuiet, Change.between, List.reduceOption]

/-! ### Comparing quiet -/

/-- Nothing is reported on the kernel, the patches, the sources and the blobs. -/
structure ComparesQuiet (diff : FragmentSet → FragmentSet → List SymbolChange)
    (l r : Side FragmentSet) : Prop where
  kernel : (compareKernel diff l r).isQuiet KernelChanges.isEmpty = true
  patches : (comparePatches l r).isQuiet List.isEmpty = true
  sources : (compareSources l r).isQuiet List.isEmpty = true
  blobs : (compareBlobs l r).isQuiet List.isEmpty = true

/-- The lock pins nothing that the record of its build leaves out or adds to: no kernel, no patch
series, and no module but on the axis of a userspace tree. -/
structure Lock.RecordedInFull (lock : Lock) : Prop where
  kernel : lock.kernel = none
  patches : lock.patches = none ∧ lock.ubootPatches = none ∧ ∀ a ∈ lock.apps, a.patches = none
  kmods : ∀ k ∈ lock.kmods, ∃ u ∈ lock.userspace, u.name = kmodAxis k.name

/-- A lock and the record of a build of it compare quiet exactly if the lock is recorded in full. -/
theorem comparesQuiet_iff (diff : FragmentSet → FragmentSet → List SymbolChange)
    (h : assemble kernel lock = .ok prov) (left right : Str) :
    ComparesQuiet diff (Side.fromLock left lock) (Side.fromProvenance right prov) ↔
      lock.RecordedInFull := by
  constructor
  · intro hquiet
    exact ⟨(compareKernel_isQuiet_iff diff left right).mp hquiet.kernel,
      (comparePatches_isQuiet_iff h left right).mp hquiet.patches,
      (compareSources_isQuiet_iff h left right).mp hquiet.sources⟩
  · intro hfull
    exact ⟨(compareKernel_isQuiet_iff diff left right).mpr hfull.kernel,
      (comparePatches_isQuiet_iff h left right).mpr hfull.patches,
      (compareSources_isQuiet_iff h left right).mpr hfull.kmods,
      compareBlobs_isQuiet h left right⟩

/-- A lock that pins a kernel, if one is given, and a rootfs. -/
def plainLock (kernel : Option KernelPin) : Lock where
  kernel := kernel
  patches := none
  uboot := none
  ubootPatches := none
  userspace := []
  ffmpeg := none
  kmods := []
  apps := []
  rootfs := some ⟨"debian".toList, "forky".toList, "rk1.pkgs.lock".toList, none, 1785888000⟩
  blobs := none
  extraDebs := []
  snapshot := none

def compiledKernel : KernelPin where
  id := "rk3588-mainline-7.1".toList
  source := "https://git.kernel.org/stable".toList
  reference := "v7.1.5".toList
  commit := ⟨List.replicate 40 'a', isFullSha_replicate⟩

/-- The record of a build of the lock without a kernel. -/
theorem comparesQuiet_distroKernel : ∃ prov,
    assemble (.distro "armmp".toList "linux-image-armmp".toList) (plainLock none) = .ok prov ∧
    ComparesQuiet (fun _ _ : Unit => []) (Side.fromLock "rk1".toList (plainLock none))
      (Side.fromProvenance "rk1.provenance.toml".toList prov) :=
  ⟨_, rfl, (comparesQuiet_iff _ rfl _ _).mpr
    ⟨rfl, ⟨rfl, rfl, fun _ ha => by cases ha⟩, fun _ hk => by cases hk⟩⟩

/-- The kernel a build compiles is reported. -/
theorem compiledKernel_reported : ∃ prov,
    assemble (.compiled compiledKernel.id .mainline) (plainLock compiledKernel) = .ok prov ∧
    ¬ComparesQuiet (fun _ _ : Unit => []) (Side.fromLock "rk1".toList (plainLock compiledKernel))
      (Side.fromProvenance "rk1.provenance.toml".toList prov) := by
  refine ⟨_, rfl, fun h => ?_⟩
  exact absurd ((compareKernel_isQuiet_iff _ _ _).mp h.kernel) (Option.some_ne_none _)

end Boot2Deb.Core
