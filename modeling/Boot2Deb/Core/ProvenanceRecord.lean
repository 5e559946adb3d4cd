import Boot2Deb.Core.Provenance

/-!
# What the record of a build says of the lock

The whole record `assemble` writes: the pins of `ProvenanceManifest`, the pinned rootfs and extra
`.deb`s, a durability row for every source the build fetches, and what the resolved build and the
facts of the run add, which no lock reaches. Two locks are recorded alike exactly if they agree on
`RecordedAlike`; the URL a source is cloned from is nowhere in it.
-/

namespace Boot2Deb.Core

open Rust

structure RootfsProvenance where
  suite : Str
  manifest : Str
  sourceDateEpoch : UInt64

inductive PinForm where
  | namedRef
  | bareCommit
deriving DecidableEq

def PinForm.classify (reference commit : Str) : PinForm :=
  if reference = commit ∧ isFullSha reference then .bareCommit else .namedRef

def PinForm.asStr : PinForm → Str
  | namedRef => "named-ref".toList
  | bareCommit => "bare-commit".toList

structure SourceDurability where
  source : Str
  reference : Str
  form : Str

def sourceDurability (source reference commit : Str) : SourceDurability :=
  ⟨source, reference, (PinForm.classify reference commit).asStr⟩

/-- The row of one patch axis of a lock. -/
def patchesDurability (name : Str) (pin : Option PatchesPin) : List SourceDurability :=
  (pin.map fun p => sourceDurability name p.reference p.commit.text).toList

/-- The rows of the trees whose commits the record holds as well. -/
def treeDurabilityRows (lock : Lock) : List SourceDurability :=
  (lock.kernel.map fun k => sourceDurability "kernel".toList k.reference k.commit.text).toList ++
    (lock.uboot.map fun u => sourceDurability "uboot".toList u.reference u.commit.text).toList ++
    (lock.userspace.map fun pin => sourceDurability pin.name pin.reference pin.commit.text) ++
    (lock.ffmpeg.map fun ff =>
      sourceDurability "ffmpeg-base".toList ff.base.reference ff.base.commit.text).toList

def kmodDurability (k : KmodPin) : SourceDurability :=
  sourceDurability (kmodAxis k.name) k.reference k.commit.text

def appDurabilityRows (a : AppPin) : List SourceDurability :=
  sourceDurability (appAxis a.name) a.reference a.commit.text ::
    (a.dotnet.map fun d => sourceDurability (appAxis a.name ++ ":packaging".toList)
      d.packaging.reference d.packaging.commit.text).toList ++
    patchesDurability (appAxis a.name ++ ":patches".toList) a.patches

/-- A row for every source the build fetches from git. -/
def sourceDurabilityRows (lock : Lock) : List SourceDurability :=
  treeDurabilityRows lock ++
    patchesDurability "patches".toList lock.patches ++
    patchesDurability "uboot-patches".toList lock.ubootPatches ++
    lock.kmods.map kmodDurability ++
    lock.apps.flatMap appDurabilityRows

/-- The whole manifest. `Built` holds the sections of the resolved build and of the facts of the
run. -/
structure ProvenanceRecord (Built : Type) where
  pins : ProvenanceManifest
  rootfs : RootfsProvenance
  extraDebs : List ExtraDeb
  sourceDurability : List SourceDurability
  built : Built

variable {Built : Type}

/-- `assemble`, with every section. -/
def assembleRecord (kernel : ResolvedKernel) (built : Built) (lock : Lock) :
    Outcome Empty (ProvenanceRecord Built) := do
  let rootfs ← Outcome.expect lock.rootfs
  let pins ← assemble kernel lock
  .ok {
    pins := pins
    rootfs := ⟨rootfs.suite, rootfs.manifest, rootfs.sourceDateEpoch⟩
    extraDebs := lock.extraDebs
    sourceDurability := sourceDurabilityRows lock
    built := built }

/-! ### Locks recorded alike -/

/-- The ref and the commit of a pin, which the record shows, without its URL. -/
def KernelPin.recorded (k : KernelPin) : Str × Commit := (k.reference, k.commit)

def UbootPin.recorded (u : UbootPin) : Str × Commit := (u.reference, u.commit)

def GitPin.recorded (g : GitPin) : Str × Commit := (g.reference, g.commit)

def UserspacePin.recorded (u : UserspacePin) : Str × Str × Commit := (u.name, u.reference, u.commit)

def FfmpegPins.recorded (ff : FfmpegPins) : (Str × Commit) × Option (Str × Commit) :=
  (ff.base.recorded, ff.rockchip.map GitPin.recorded)

def PatchesPin.recorded (p : PatchesPin) : List Str × Str × Commit :=
  (p.series, p.reference, p.commit)

/-- Of a module and of the U-Boot patches the record shows no commit, only its form. -/
def KmodPin.recorded (k : KmodPin) : Str × Str × PinForm :=
  (k.name, k.reference, .classify k.reference k.commit.text)

def PatchesPin.recordedForm (p : PatchesPin) : Str × PinForm :=
  (p.reference, .classify p.reference p.commit.text)

def DotnetPins.recorded (d : DotnetPins) : (Str × Commit) × Str × NugetPin :=
  (d.packaging.recorded, d.sdk.version, d.nuget)

def AppPin.recorded (a : AppPin) :
    Str × Str × Commit × Option (List Str × Str × Commit) ×
      Option ((Str × Commit) × Str × NugetPin) :=
  (a.name, a.reference, a.commit, a.patches.map PatchesPin.recorded,
    a.dotnet.map DotnetPins.recorded)

def RootfsPin.recorded (r : RootfsPin) : RootfsProvenance :=
  ⟨r.suite, r.manifest, r.sourceDateEpoch⟩

/-- Two locks the record of a build does not tell apart. -/
structure RecordedAlike (l₁ l₂ : Lock) : Prop where
  kernel : l₁.kernel.map KernelPin.recorded = l₂.kernel.map KernelPin.recorded
  patches : l₁.patches.map PatchesPin.recorded = l₂.patches.map PatchesPin.recorded
  uboot : l₁.uboot.map UbootPin.recorded = l₂.uboot.map UbootPin.recorded
  ubootPatches :
    l₁.ubootPatches.map PatchesPin.recordedForm = l₂.ubootPatches.map PatchesPin.recordedForm
  userspace : l₁.userspace.map UserspacePin.recorded = l₂.userspace.map UserspacePin.recorded
  ffmpeg : l₁.ffmpeg.map FfmpegPins.recorded = l₂.ffmpeg.map FfmpegPins.recorded
  kmods : l₁.kmods.map KmodPin.recorded = l₂.kmods.map KmodPin.recorded
  apps : l₁.apps.map AppPin.recorded = l₂.apps.map AppPin.recorded
  rootfs : l₁.rootfs.map RootfsPin.recorded = l₂.rootfs.map RootfsPin.recorded
  blobs : l₁.blobs = l₂.blobs
  extraDebs : l₁.extraDebs = l₂.extraDebs

theorem Option.map_pair_eq {α β γ : Type} {f : α → β} {g : α → γ} {x y : Option α} :
    (x.map fun a => (f a, g a)) = (y.map fun a => (f a, g a)) ↔
      x.map f = y.map f ∧ x.map g = y.map g := by
  cases x <;> cases y <;> simp

theorem map_text {α : Type} {f : α → Commit} {x y : Option α} :
    (x.map fun a => (f a).text) = (y.map fun a => (f a).text) ↔ x.map f = y.map f := by
  cases x <;> cases y <;> simp [Commit.text_inj]

theorem PinForm.asStr_inj {f g : PinForm} : f.asStr = g.asStr ↔ f = g := by
  cases f <;> cases g <;> decide

theorem sourceDurability_inj {s r c s' r' c' : Str} :
    sourceDurability s r c = sourceDurability s' r' c' ↔
      s = s' ∧ r = r' ∧ PinForm.classify r c = PinForm.classify r' c' := by
  simp [sourceDurability, PinForm.asStr_inj]

/-- The series and the commit of a patch pin, as two fields of which a missing series is empty. -/
theorem series_commit_eq {x y : Option PatchesPin} :
    (x.map fun p => p.series).getD [] = (y.map fun p => p.series).getD [] ∧
        (x.map fun p => p.commit.text) = (y.map fun p => p.commit.text) ↔
      (x.map fun p => (p.series, p.commit)) = (y.map fun p => (p.series, p.commit)) := by
  cases x <;> cases y <;> simp [Commit.text_inj]

/-! ### The pins of the record -/

theorem map_eq_map_iff {α β γ : Type} {f : α → β} {g : α → γ} (h : ∀ a b, f a = f b ↔ g a = g b)
    {as bs : List α} : as.map f = bs.map f ↔ as.map g = bs.map g := by
  induction as generalizing bs with
  | nil => cases bs <;> simp
  | cons a as ih =>
    cases bs with
    | nil => simp
    | cons b bs => simp only [List.map_cons, List.cons.injEq, h a b, ih]

/-- What the pins of the record show of an app: of its series the commit, not the ref. -/
def AppPin.shown (a : AppPin) :
    Str × Str × Commit × Option (List Str × Commit) × Option ((Str × Commit) × Str × NugetPin) :=
  (a.name, a.reference, a.commit, a.patches.map fun p => (p.series, p.commit),
    a.dotnet.map DotnetPins.recorded)

def AppPin.provenance (a : AppPin) : AppSourceProvenance where
  name := a.name
  reference := a.reference
  commit := a.commit.text
  patchSeries := (a.patches.map fun p => p.series).getD []
  patchesCommit := a.patches.map fun p => p.commit.text
  packagingRef := a.dotnet.map fun d => d.packaging.reference
  packagingCommit := a.dotnet.map fun d => d.packaging.commit.text
  sdkVersion := a.dotnet.map fun d => d.sdk.version
  nugetManifest := a.dotnet.map fun d => d.nuget.manifest
  nugetManifestSha256 := a.dotnet.map fun d => d.nuget.manifestSha256

theorem appProvenance_inj (a b : AppPin) : a.provenance = b.provenance ↔ a.shown = b.shown := by
  have hdotnet : a.dotnet.map DotnetPins.recorded = b.dotnet.map DotnetPins.recorded ↔
      (a.dotnet.map fun d => d.packaging.reference) = (b.dotnet.map fun d => d.packaging.reference) ∧
      (a.dotnet.map fun d => d.packaging.commit.text) =
        (b.dotnet.map fun d => d.packaging.commit.text) ∧
      (a.dotnet.map fun d => d.sdk.version) = (b.dotnet.map fun d => d.sdk.version) ∧
      (a.dotnet.map fun d => d.nuget.manifest) = (b.dotnet.map fun d => d.nuget.manifest) ∧
      (a.dotnet.map fun d => d.nuget.manifestSha256) =
        (b.dotnet.map fun d => d.nuget.manifestSha256) := by
    rcases a.dotnet with - | ⟨pa, va, ⟨ma, da⟩⟩ <;> rcases b.dotnet with - | ⟨pb, vb, ⟨mb, db⟩⟩ <;>
      simp [DotnetPins.recorded, GitPin.recorded, Commit.text_inj, and_assoc]
  simp only [AppPin.provenance, AppSourceProvenance.mk.injEq, AppPin.shown, Prod.mk.injEq, hdotnet,
    ← series_commit_eq, Commit.text_inj, and_assoc]

def UserspacePin.provenance (u : UserspacePin) : UserspaceSourceProvenance :=
  ⟨u.name, u.reference, u.commit.text⟩

theorem userspaceProvenance_inj (u v : UserspacePin) :
    u.provenance = v.provenance ↔ u.recorded = v.recorded := by
  simp [UserspacePin.provenance, UserspacePin.recorded, Commit.text_inj]

def FfmpegPins.provenance (ff : FfmpegPins) : MediaAccelProvenance where
  ffmpegBaseRef := ff.base.reference
  ffmpegBaseCommit := ff.base.commit.text
  ffmpegRockchipRef := ff.rockchip.map fun p => p.reference
  ffmpegRockchipCommit := ff.rockchip.map fun p => p.commit.text

theorem ffmpegProvenance_inj (x y : Option FfmpegPins) :
    x.map FfmpegPins.provenance = y.map FfmpegPins.provenance ↔
      x.map FfmpegPins.recorded = y.map FfmpegPins.recorded := by
  rcases x with - | ⟨bx, rx⟩ <;> rcases y with - | ⟨by', ry⟩ <;>
    simp only [Option.map_none, Option.map_some, Option.some.injEq, reduceCtorEq]
  unfold FfmpegPins.provenance FfmpegPins.recorded GitPin.recorded
  simp only [MediaAccelProvenance.mk.injEq, Prod.mk.injEq, Commit.text_inj, Option.map_pair_eq,
    map_text, and_assoc]

/-- What two locks agree on if the pins of their records are equal. -/
structure PinsAlike (l₁ l₂ : Lock) : Prop where
  kernel : l₁.kernel.map KernelPin.recorded = l₂.kernel.map KernelPin.recorded
  patches : (l₁.patches.map fun p => (p.series, p.commit)) =
    l₂.patches.map fun p => (p.series, p.commit)
  uboot : l₁.uboot.map UbootPin.recorded = l₂.uboot.map UbootPin.recorded
  ffmpeg : l₁.ffmpeg.map FfmpegPins.recorded = l₂.ffmpeg.map FfmpegPins.recorded
  blobs : l₁.blobs = l₂.blobs
  userspace : l₁.userspace.map UserspacePin.recorded = l₂.userspace.map UserspacePin.recorded
  apps : l₁.apps.map AppPin.shown = l₂.apps.map AppPin.shown

variable {kernel : ResolvedKernel} {built : Built} {l₁ l₂ : Lock} {r₁ r₂ : RootfsPin}

theorem assemble_eq_iff (h₁ : l₁.rootfs = some r₁) (h₂ : l₂.rootfs = some r₂) :
    assemble kernel l₁ = assemble kernel l₂ ↔ PinsAlike l₁ l₂ := by
  have hblobs : (l₁.blobs.map fun b => (⟨b.atf, b.tpl, b.bl32⟩ : BlobsProvenance)) =
      (l₂.blobs.map fun b => ⟨b.atf, b.tpl, b.bl32⟩) ↔ l₁.blobs = l₂.blobs := by
    rcases l₁.blobs with - | ⟨_, _, _⟩ <;> rcases l₂.blobs with - | ⟨_, _, _⟩ <;> simp
  have happs : l₁.apps.map AppPin.provenance = l₂.apps.map AppPin.provenance ↔ _ :=
    map_eq_map_iff appProvenance_inj
  have huserspace :
      l₁.userspace.map UserspacePin.provenance = l₂.userspace.map UserspacePin.provenance ↔ _ :=
    map_eq_map_iff userspaceProvenance_inj
  have hffmpeg := ffmpegProvenance_inj l₁.ffmpeg l₂.ffmpeg
  unfold AppPin.provenance at happs
  unfold UserspacePin.provenance at huserspace
  unfold FfmpegPins.provenance at hffmpeg
  unfold assemble
  simp only [h₁, h₂, Outcome.ok.injEq, ProvenanceManifest.mk.injEq, SourcesProvenance.mk.injEq,
    happs, huserspace, hffmpeg, hblobs, map_text, true_and]
  constructor
  · rintro ⟨⟨hkernel, hkcommit, hseries, hpcommit, huboot, hucommit, hffmpeg⟩, hblobs, huserspace,
      happs⟩
    exact ⟨Option.map_pair_eq.mpr ⟨hkernel, hkcommit⟩,
      series_commit_eq.mp ⟨hseries, map_text.mpr hpcommit⟩,
      Option.map_pair_eq.mpr ⟨huboot, hucommit⟩, hffmpeg, hblobs, huserspace, happs⟩
  · intro h
    obtain ⟨hkernel, hkcommit⟩ := Option.map_pair_eq.mp h.kernel
    obtain ⟨huboot, hucommit⟩ := Option.map_pair_eq.mp h.uboot
    obtain ⟨hseries, hpcommit⟩ := series_commit_eq.mpr h.patches
    exact ⟨⟨hkernel, hkcommit, hseries, map_text.mp hpcommit, huboot, hucommit, h.ffmpeg⟩, h.blobs,
      h.userspace, h.apps⟩

/-! ### The durability rows -/

theorem kmodDurability_inj (k m : KmodPin) :
    kmodDurability k = kmodDurability m ↔ k.recorded = m.recorded := by
  unfold kmodDurability KmodPin.recorded
  rw [sourceDurability_inj, Prod.mk.injEq, Prod.mk.injEq]
  simp [kmodAxis]

theorem patchesDurability_inj {name : Str} {x y : Option PatchesPin} :
    patchesDurability name x = patchesDurability name y ↔
      x.map PatchesPin.recordedForm = y.map PatchesPin.recordedForm := by
  cases x <;> cases y <;>
    simp [patchesDurability, sourceDurability_inj, PatchesPin.recordedForm]

theorem recordedForm_of_recorded {x y : Option PatchesPin}
    (h : x.map PatchesPin.recorded = y.map PatchesPin.recorded) :
    x.map PatchesPin.recordedForm = y.map PatchesPin.recordedForm := by
  have hform : PatchesPin.recordedForm =
      (fun r : List Str × Str × Commit => (r.2.1, PinForm.classify r.2.1 r.2.2.text)) ∘
        PatchesPin.recorded := rfl
  rw [hform, ← Option.map_map, ← Option.map_map, h]

/-- Ref and form of a patch pin, with its series and commit, are all the record shows of it. -/
theorem recorded_eq_iff {x y : Option PatchesPin} :
    x.map PatchesPin.recorded = y.map PatchesPin.recorded ↔
      (x.map fun p => (p.series, p.commit)) = (y.map fun p => (p.series, p.commit)) ∧
        x.map PatchesPin.recordedForm = y.map PatchesPin.recordedForm := by
  refine ⟨fun h => ⟨?series, recordedForm_of_recorded h⟩, fun h => ?recorded⟩
  case series =>
    cases x <;> cases y <;> simp [PatchesPin.recorded] at h ⊢
    exact ⟨h.1, h.2.2⟩
  case recorded =>
    cases x <;> cases y <;> simp [PatchesPin.recorded, PatchesPin.recordedForm] at h ⊢
    exact ⟨h.1.1, h.2.1, h.1.2⟩

theorem treeDurabilityRows_congr (h : PinsAlike l₁ l₂) :
    treeDurabilityRows l₁ = treeDurabilityRows l₂ := by
  have hkernel : ∀ l : Lock,
      (l.kernel.map fun k => sourceDurability "kernel".toList k.reference k.commit.text) =
        (l.kernel.map KernelPin.recorded).map fun r =>
          sourceDurability "kernel".toList r.1 r.2.text := by
    intro l
    rw [Option.map_map]
    rfl
  have huboot : ∀ l : Lock,
      (l.uboot.map fun u => sourceDurability "uboot".toList u.reference u.commit.text) =
        (l.uboot.map UbootPin.recorded).map fun r =>
          sourceDurability "uboot".toList r.1 r.2.text := by
    intro l
    rw [Option.map_map]
    rfl
  have huserspace : ∀ l : Lock,
      (l.userspace.map fun pin => sourceDurability pin.name pin.reference pin.commit.text) =
        (l.userspace.map UserspacePin.recorded).map fun r =>
          sourceDurability r.1 r.2.1 r.2.2.text := by
    intro l
    rw [List.map_map]
    rfl
  have hffmpeg : ∀ l : Lock,
      (l.ffmpeg.map fun ff =>
        sourceDurability "ffmpeg-base".toList ff.base.reference ff.base.commit.text) =
        (l.ffmpeg.map FfmpegPins.recorded).map fun r =>
          sourceDurability "ffmpeg-base".toList r.1.1 r.1.2.text := by
    intro l
    rw [Option.map_map]
    rfl
  unfold treeDurabilityRows
  rw [hkernel, huboot, huserspace, hffmpeg, h.kernel, h.uboot, h.userspace, h.ffmpeg,
    ← hkernel, ← huboot, ← huserspace, ← hffmpeg]

theorem source_kmodDurability (k : KmodPin) : (kmodDurability k).source = kmodAxis k.name := rfl

theorem source_of_patchesDurability {name : Str} {pin : PatchesPin} :
    ∀ row ∈ patchesDurability name (some pin), row.source = name := by
  intro row hrow
  obtain rfl := List.mem_singleton.mp hrow
  rfl

theorem kmodAxis_ne (name : Str) : "uboot-patches".toList ≠ kmodAxis name := by
  simp [kmodAxis]

/-- A row of the U-Boot patches is no module's, so either both locks have one or neither has. -/
theorem rows_inj {u₁ u₂ : Option PatchesPin} {ks₁ ks₂ : List KmodPin} :
    patchesDurability "uboot-patches".toList u₁ ++ ks₁.map kmodDurability =
        patchesDurability "uboot-patches".toList u₂ ++ ks₂.map kmodDurability ↔
      u₁.map PatchesPin.recordedForm = u₂.map PatchesPin.recordedForm ∧
        ks₁.map KmodPin.recorded = ks₂.map KmodPin.recorded := by
  rw [← map_eq_map_iff kmodDurability_inj, ← @patchesDurability_inj "uboot-patches".toList]
  constructor
  · intro h
    have hno : ∀ (p : PatchesPin) (ks ks' : List KmodPin),
        patchesDurability "uboot-patches".toList (some p) ++ ks'.map kmodDurability ≠
          ks.map kmodDurability := by
      intro p ks ks' he
      have hmem : sourceDurability "uboot-patches".toList p.reference p.commit.text ∈
          ks.map kmodDurability := he ▸ List.mem_cons_self ..
      obtain ⟨k, -, hk⟩ := List.mem_map.mp hmem
      exact kmodAxis_ne k.name (sourceDurability_inj.mp hk).1.symm
    cases u₁ with
    | none =>
      cases u₂ with
      | none => exact ⟨rfl, h⟩
      | some p => exact absurd h.symm (hno p ks₁ ks₂)
    | some p =>
      cases u₂ with
      | none => exact absurd h (hno p ks₂ ks₁)
      | some q =>
        obtain ⟨hrow, hrest⟩ := List.cons.inj h
        exact ⟨congrArg (fun row => [row]) hrow, hrest⟩
  · rintro ⟨hrow, hks⟩
    rw [hrow, hks]

theorem recorded_of_shown {a b : AppPin} (h : a.shown = b.shown) :
    appDurabilityRows a = appDurabilityRows b ↔ a.recorded = b.recorded := by
  unfold AppPin.shown at h
  simp only [Prod.mk.injEq] at h
  obtain ⟨hname, hreference, hcommit, hseries, hdotnet⟩ := h
  have hpackaging : ∀ d : Option DotnetPins, (d.map fun d =>
      sourceDurability (appAxis b.name ++ ":packaging".toList)
        d.packaging.reference d.packaging.commit.text) = (d.map DotnetPins.recorded).map fun r =>
          sourceDurability (appAxis b.name ++ ":packaging".toList) r.1.1 r.1.2.text := by
    intro d
    rw [Option.map_map]
    rfl
  unfold appDurabilityRows AppPin.recorded
  rw [hname, hreference, hcommit, hpackaging, hdotnet, ← hpackaging]
  simp only [List.append_cancel_left_eq, patchesDurability_inj, Prod.mk.injEq, true_and, and_true,
    recorded_eq_iff, hseries]

theorem length_appDurabilityRows {a b : AppPin} (h : a.shown = b.shown) :
    (appDurabilityRows a).length = (appDurabilityRows b).length := by
  unfold AppPin.shown at h
  simp only [Prod.mk.injEq] at h
  obtain ⟨-, -, -, hseries, hdotnet⟩ := h
  have hp : a.patches.isSome = b.patches.isSome := by simpa using congrArg Option.isSome hseries
  have hd : a.dotnet.isSome = b.dotnet.isSome := by simpa using congrArg Option.isSome hdotnet
  unfold appDurabilityRows patchesDurability
  cases ha : a.patches <;> cases hb : b.patches <;> cases hc : a.dotnet <;> cases he : b.dotnet <;>
    simp_all

theorem length_appRows {as bs : List AppPin} (h : as.map AppPin.shown = bs.map AppPin.shown) :
    (as.flatMap appDurabilityRows).length = (bs.flatMap appDurabilityRows).length := by
  induction as generalizing bs with
  | nil => cases bs <;> simp_all
  | cons a as ih =>
    cases bs with
    | nil => cases h
    | cons b bs =>
      obtain ⟨ha, has⟩ := List.cons.inj h
      rw [List.flatMap_cons, List.flatMap_cons, List.length_append, List.length_append,
        length_appDurabilityRows ha, ih has]

theorem appRows_inj {as bs : List AppPin} (h : as.map AppPin.shown = bs.map AppPin.shown) :
    as.flatMap appDurabilityRows = bs.flatMap appDurabilityRows ↔
      as.map AppPin.recorded = bs.map AppPin.recorded := by
  induction as generalizing bs with
  | nil => cases bs <;> simp_all
  | cons a as ih =>
    cases bs with
    | nil => cases h
    | cons b bs =>
      obtain ⟨ha, has⟩ := List.cons.inj h
      rw [List.map_cons, List.map_cons, List.cons.injEq, ← recorded_of_shown ha, ← ih has]
      constructor
      · intro hrows
        exact List.append_inj hrows (length_appDurabilityRows ha)
      · rintro ⟨hrow, hrows⟩
        rw [List.flatMap_cons, List.flatMap_cons, hrow, hrows]

theorem shown_of_recorded {as bs : List AppPin}
    (h : as.map AppPin.recorded = bs.map AppPin.recorded) :
    as.map AppPin.shown = bs.map AppPin.shown := by
  have hshown : AppPin.shown = (fun r : Str × Str × Commit × Option (List Str × Str × Commit) ×
      Option ((Str × Commit) × Str × NugetPin) =>
      (r.1, r.2.1, r.2.2.1, r.2.2.2.1.map fun p => (p.1, p.2.2), r.2.2.2.2)) ∘
        AppPin.recorded := by
    funext a
    simp [AppPin.shown, AppPin.recorded, PatchesPin.recorded, Function.comp_def]
  rw [hshown, ← List.map_map, ← List.map_map, h]

/-! ### The whole record -/

theorem length_patchesDurability {name : Str} {x y : Option PatchesPin}
    (h : (x.map fun p => (p.series, p.commit)) = y.map fun p => (p.series, p.commit)) :
    (patchesDurability name x).length = (patchesDurability name y).length := by
  cases x <;> cases y <;> simp_all [patchesDurability]

theorem sourceDurabilityRows_inj (h : PinsAlike l₁ l₂) :
    sourceDurabilityRows l₁ = sourceDurabilityRows l₂ ↔
      l₁.patches.map PatchesPin.recordedForm = l₂.patches.map PatchesPin.recordedForm ∧
      (l₁.ubootPatches.map PatchesPin.recordedForm =
          l₂.ubootPatches.map PatchesPin.recordedForm ∧
        l₁.kmods.map KmodPin.recorded = l₂.kmods.map KmodPin.recorded) ∧
      l₁.apps.map AppPin.recorded = l₂.apps.map AppPin.recorded := by
  unfold sourceDurabilityRows
  rw [← appRows_inj h.apps, ← rows_inj, ← @patchesDurability_inj "patches".toList,
    treeDurabilityRows_congr h]
  simp only [List.append_assoc, List.append_cancel_left_eq]
  constructor
  · intro hrows
    obtain ⟨hpatches, hrows⟩ := List.append_inj hrows (length_patchesDurability h.patches)
    rw [← List.append_assoc, ← List.append_assoc] at hrows
    obtain ⟨hmiddle, happs⟩ := List.append_inj' hrows (length_appRows h.apps)
    exact ⟨hpatches, hmiddle, happs⟩
  · rintro ⟨hpatches, hmiddle, happs⟩
    rw [hpatches, happs, List.append_cancel_left_eq, ← List.append_assoc, hmiddle,
      List.append_assoc]

/-- The record of a build tells two locks apart exactly if they are not recorded alike. -/
theorem assembleRecord_eq_iff (h₁ : l₁.rootfs = some r₁) (h₂ : l₂.rootfs = some r₂) :
    assembleRecord kernel built l₁ = assembleRecord kernel built l₂ ↔ RecordedAlike l₁ l₂ := by
  have hpins : ∀ (l : Lock) (r : RootfsPin), l.rootfs = some r →
      ∃ pins, assemble kernel l = .ok pins := by
    intro l r hr
    unfold assemble
    rw [hr]
    exact ⟨_, rfl⟩
  obtain ⟨p₁, hp₁⟩ := hpins l₁ r₁ h₁
  obtain ⟨p₂, hp₂⟩ := hpins l₂ r₂ h₂
  have hiff : p₁ = p₂ ↔ PinsAlike l₁ l₂ := by
    rw [← @assemble_eq_iff kernel l₁ l₂ r₁ r₂ h₁ h₂, hp₁, hp₂, Outcome.ok.injEq]
  unfold assembleRecord
  simp only [h₁, h₂, Outcome.expect, hp₁, hp₂, Outcome.ok_bind, Outcome.ok.injEq,
    ProvenanceRecord.mk.injEq, and_true]
  constructor
  · rintro ⟨hpins, hrootfs, hdebs, hrows⟩
    have halike := hiff.mp hpins
    obtain ⟨hpatches, ⟨huboot, hkmods⟩, happs⟩ := (sourceDurabilityRows_inj halike).mp hrows
    exact {
      kernel := halike.kernel
      patches := recorded_eq_iff.mpr ⟨halike.patches, hpatches⟩
      uboot := halike.uboot
      ubootPatches := huboot
      userspace := halike.userspace
      ffmpeg := halike.ffmpeg
      kmods := hkmods
      apps := happs
      rootfs := by rw [h₁, h₂]; exact congrArg some hrootfs
      blobs := halike.blobs
      extraDebs := hdebs }
  · intro h
    have halike : PinsAlike l₁ l₂ := {
      kernel := h.kernel
      patches := (recorded_eq_iff.mp h.patches).1
      uboot := h.uboot
      ffmpeg := h.ffmpeg
      blobs := h.blobs
      userspace := h.userspace
      apps := shown_of_recorded h.apps }
    have hrootfs := h.rootfs
    rw [h₁, h₂] at hrootfs
    exact ⟨hiff.mpr halike, Option.some.inj hrootfs, h.extraDebs,
      (sourceDurabilityRows_inj halike).mpr
        ⟨(recorded_eq_iff.mp h.patches).2, ⟨h.ubootPatches, h.kmods⟩, h.apps⟩⟩

/-- What a lock pins of every source a build compiles from: ref, commit and URL, and of every patch
source the commit and the series. -/
structure PinnedAlike (l₁ l₂ : Lock) : Prop where
  kernel : (l₁.kernel.map fun k => (k.source, k.recorded)) =
    l₂.kernel.map fun k => (k.source, k.recorded)
  uboot : l₁.uboot = l₂.uboot
  blobs : l₁.blobs = l₂.blobs
  userspace : l₁.userspace = l₂.userspace
  ffmpeg : l₁.ffmpeg = l₂.ffmpeg
  kmods : l₁.kmods = l₂.kmods
  patches : (l₁.patches.map fun p => (p.series, p.commit)) =
    l₂.patches.map fun p => (p.series, p.commit)
  ubootPatches : (l₁.ubootPatches.map fun p => (p.series, p.commit)) =
    l₂.ubootPatches.map fun p => (p.series, p.commit)

/-- The same commit, cloned from elsewhere. -/
def mirroredKernel : KernelPin := { compiledKernel with source := "https://mirror.example".toList }

end Boot2Deb.Core
