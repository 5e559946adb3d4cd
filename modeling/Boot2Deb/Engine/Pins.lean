import Mathlib
import Boot2Deb.Core.Lock
import Boot2Deb.Error
import Boot2Deb.Lib.Keyed
import Boot2Deb.Rust.Outcome
import Boot2Deb.Rust.Text

/-!
# The lock's writer and its drift gate (`engine/src/pins.rs`)

`resolveLock` turns a resolved build into a lock, consulting upstream; `checkLockConsistency` asks
before a build whether the committed lock still describes what the recipe resolves to. Of a resolved
build only what these two read is kept.
-/

namespace Boot2Deb.Engine.Pins
open Rust Boot2Deb.Core

/-! ### The resolved build -/

structure GitSource where
  git : Str
  gitRef : Str
deriving DecidableEq

inductive KernelSource where
  | named (name : Str)
  | git (url gitRef : Str)
deriving DecidableEq

/-- Patch series of one repository. Series come with the repository and the ref. -/
structure PatchAxis where
  series : List Str
  url : Option Str
  ref : Option Str
  paired : series ≠ [] → url.isSome ∧ ref.isSome
deriving DecidableEq

structure ResolvedCompiledKernel where
  id : Str
  source : KernelSource
  patches : PatchAxis
deriving DecidableEq

inductive ResolvedKernel where
  | compiled (k : ResolvedCompiledKernel)
  | distro (id package : Str)
deriving DecidableEq

def ResolvedKernel.compiled? : ResolvedKernel → Option ResolvedCompiledKernel
  | .compiled k => some k
  | .distro .. => none

/-- `ResolvedKernel::patch_series`. -/
def ResolvedKernel.patchSeries (k : ResolvedKernel) : List Str :=
  (k.compiled?.map fun c => c.patches.series).getD []

structure Rkbin where
  atf : Str
  tpl : Str
  bl32 : Option Str
deriving DecidableEq

structure ResolvedRkbinBoot where
  ubootSource : Str
  ubootSeries : Option Str
  ubootPatchesUrl : Option Str
  ubootPatchesRef : Option Str
  rkbin : Rkbin
  paired : ubootSeries.isSome → ubootPatchesUrl.isSome ∧ ubootPatchesRef.isSome
deriving DecidableEq

/-- A userspace tree or an out-of-tree module. -/
structure NamedSource where
  name : Str
  git : Str
  gitRef : Str
deriving DecidableEq

structure FfmpegSources where
  base : GitSource
  rockchip : Option GitSource
deriving DecidableEq

/-- `AppBuild::DotnetDeb`, the one way an app is built. -/
structure DotnetDeb where
  packaging : GitSource
  sdk : DotnetSdk
deriving DecidableEq

structure App where
  name : Str
  git : Str
  gitRef : Str
  patches : PatchAxis
  build : DotnetDeb
deriving DecidableEq

/-- The image half. No two modules and no two apps of a resolved build share a name. -/
structure ResolvedImage where
  kernel : ResolvedKernel
  suite : Str
  userspace : List NamedSource
  ffmpeg : Option FfmpegSources
  deviceKmods : List NamedSource
  apps : List App
  extraDebs : List ExtraDeb
  kmodNames : (deviceKmods.map NamedSource.name).Nodup
  appNames : (apps.map App.name).Nodup
deriving DecidableEq

structure ResolvedBuild where
  distro : Str
  rkbinBoot : Option ResolvedRkbinBoot
  image : Option ResolvedImage
deriving DecidableEq

namespace ResolvedBuild

def compiledKernel (b : ResolvedBuild) : Option ResolvedCompiledKernel :=
  b.image.bind fun i => i.kernel.compiled?

def kernelSeries (b : ResolvedBuild) : List Str :=
  (b.image.map fun i => i.kernel.patchSeries).getD []

def ubootSeries (b : ResolvedBuild) : Option Str := b.rkbinBoot.bind fun boot => boot.ubootSeries

def userspace (b : ResolvedBuild) : List NamedSource := (b.image.map fun i => i.userspace).getD []

def ffmpeg (b : ResolvedBuild) : Option FfmpegSources := b.image.bind fun i => i.ffmpeg

def kmods (b : ResolvedBuild) : List NamedSource := (b.image.map fun i => i.deviceKmods).getD []

def apps (b : ResolvedBuild) : List App := (b.image.map fun i => i.apps).getD []

def extraDebs (b : ResolvedBuild) : List ExtraDeb := (b.image.map fun i => i.extraDebs).getD []

end ResolvedBuild

/-! ### Writing a lock -/

/-- A digest in hexadecimal. -/
structure HexDigest where
  text : Str
  hex : text.all isAsciiHexdigit = true

structure UpdateOptions where
  kernelRef : Str
  ubootRef : Str
  userspaceRefs : List (Str × Str)
  ffmpegBaseRef : Str
  ffmpegRockchipRef : Str
  kmodRefs : List (Str × Str)
  rootfsManifest : Str
  sourceDateEpoch : UInt64

/-- What `update` asks: upstream for the commit of a ref, the patches checkout, the vendored blobs
for their digests, and a restore for the packages of an app. -/
structure Upstream where
  resolveRef : Str → Str → Outcome EngineError Commit
  patchesPresent : Bool
  patchesClean : Outcome EngineError Bool
  patchesHead : Outcome EngineError Commit
  blobDigest : Str → Outcome EngineError HexDigest
  nuget : App → GitPin → GitPin → Option PatchesPin → DotnetSdk → Outcome EngineError NugetPin

/-- `sources::normalize_ref`. -/
def normalizeRef (s : Str) : Str := if isFullSha s then toAsciiLowercase s else s

def namedTreeUrl (name : Str) : Option Str :=
  if name = "linux-stable".toList then
    some "https://git.kernel.org/pub/scm/linux/kernel/git/stable/linux-stable.git".toList
  else if name = "torvalds".toList ∨ name = "linux".toList then
    some "https://git.kernel.org/pub/scm/linux/kernel/git/torvalds/linux.git".toList
  else none

def kernelSourceUrl : KernelSource → Outcome EngineError Str
  | .named name => Outcome.okOr (namedTreeUrl name) (.unknownSourceTree name)
  | .git url _ => .ok url

/-- The pin of series, none where there are none. -/
def patchesPin (axis : PatchAxis) (commit : Option Commit) :
    Outcome EngineError (Option PatchesPin) := do
  if axis.series.isEmpty then .ok none
  else
    let source ← Outcome.expect axis.url
    let reference ← Outcome.expect axis.ref
    let commit ← Outcome.expect commit
    .ok (some ⟨axis.series, source, reference, commit⟩)

def kernelPatches (build : ResolvedBuild) (commit : Option Commit) :
    Outcome EngineError (Option PatchesPin) := do
  if build.kernelSeries.isEmpty then .ok none
  else
    let compiled ← Outcome.expect build.compiledKernel
    patchesPin compiled.patches commit

def ubootPatches (build : ResolvedBuild) (commit : Option Commit) :
    Outcome EngineError (Option PatchesPin) :=
  Outcome.mapOption (fun series => do
    let boot ← Outcome.expect build.rkbinBoot
    let source ← Outcome.expect boot.ubootPatchesUrl
    let reference ← Outcome.expect boot.ubootPatchesRef
    let commit ← Outcome.expect commit
    .ok ⟨[series], source, reference, commit⟩) build.ubootSeries

namespace Upstream
variable (up : Upstream)

def gitPin (url reference : Str) : Outcome EngineError GitPin := do
  .ok ⟨url, normalizeRef reference, ← up.resolveRef url reference⟩

/-- `"<filename>@sha256:<hex>"`. -/
def blobPin (filename : Str) : Outcome EngineError Str := do
  let digest ← up.blobDigest filename
  .ok (filename ++ "@sha256:".toList ++ digest.text)

/-- The head of the patches checkout, where an axis names a series. -/
def patchesCommit (build : ResolvedBuild) : Outcome EngineError (Option Commit) := do
  if build.kernelSeries ≠ [] ∨ build.ubootSeries.isSome ∨
      build.apps.any fun a => !a.patches.series.isEmpty then
    if !up.patchesPresent then .err .patchesCheckoutMissing
    else if !(← up.patchesClean) then .err .patchesDirty
    else .ok (some (← up.patchesHead))
  else .ok none

def kernelPin (opts : UpdateOptions) (k : ResolvedCompiledKernel) :
    Outcome EngineError KernelPin := do
  let source ← kernelSourceUrl k.source
  let commit ← up.resolveRef source opts.kernelRef
  .ok ⟨k.id, source, normalizeRef opts.kernelRef, commit⟩

def bootPins (opts : UpdateOptions) (boot : ResolvedRkbinBoot) :
    Outcome EngineError (UbootPin × BlobsPin) := do
  let commit ← up.resolveRef boot.ubootSource opts.ubootRef
  let atf ← up.blobPin boot.rkbin.atf
  let tpl ← up.blobPin boot.rkbin.tpl
  let bl32 ← Outcome.mapOption up.blobPin boot.rkbin.bl32
  .ok (⟨boot.ubootSource, normalizeRef opts.ubootRef, commit⟩, ⟨atf, tpl, bl32⟩)

/-- The pin of a named source, at the ref asked for or the declared one. -/
def namedPin (refs : List (Str × Str)) (t : NamedSource) : Outcome EngineError GitPin :=
  up.gitPin t.git (((firstWith Prod.fst refs t.name).map Prod.snd).getD t.gitRef)

def userspacePin (opts : UpdateOptions) (t : NamedSource) : Outcome EngineError UserspacePin := do
  let pin ← up.namedPin opts.userspaceRefs t
  .ok ⟨t.name, pin.source, pin.reference, pin.commit⟩

def kmodPin (opts : UpdateOptions) (k : NamedSource) : Outcome EngineError KmodPin := do
  let pin ← up.namedPin opts.kmodRefs k
  .ok ⟨k.name, pin.source, pin.reference, pin.commit⟩

def ffmpegPins (opts : UpdateOptions) (f : FfmpegSources) : Outcome EngineError FfmpegPins := do
  let base ← up.gitPin f.base.git opts.ffmpegBaseRef
  let rockchip ← Outcome.mapOption (fun s => up.gitPin s.git opts.ffmpegRockchipRef) f.rockchip
  .ok ⟨base, rockchip⟩

def appPin (commit : Option Commit) (a : App) : Outcome EngineError AppPin := do
  let pin ← up.gitPin a.git a.gitRef
  let patches ← patchesPin a.patches commit
  let packaging ← up.gitPin a.build.packaging.git a.build.packaging.gitRef
  let nuget ← up.nuget a pin packaging patches a.build.sdk
  .ok ⟨a.name, pin.source, pin.reference, pin.commit, patches,
    some ⟨packaging, a.build.sdk, nuget⟩⟩

end Upstream

def assembleLock (build : ResolvedBuild) (opts : UpdateOptions) (kernel : Option KernelPin)
    (uboot : Option UbootPin) (patches ubootPatches : Option PatchesPin)
    (userspace : List UserspacePin) (ffmpeg : Option FfmpegPins) (blobs : Option BlobsPin)
    (kmods : List KmodPin) (apps : List AppPin) : Lock where
  kernel := kernel
  patches := patches
  uboot := uboot
  ubootPatches := ubootPatches
  userspace := userspace
  ffmpeg := ffmpeg
  kmods := kmods
  apps := apps
  rootfs := build.image.map fun image =>
    ⟨build.distro, image.suite, opts.rootfsManifest, none, opts.sourceDateEpoch⟩
  blobs := blobs
  extraDebs := build.extraDebs
  snapshot := none

def resolveLock (up : Upstream) (build : ResolvedBuild) (opts : UpdateOptions) :
    Outcome EngineError Lock := do
  let patchesCommit ← up.patchesCommit build
  let patches ← kernelPatches build patchesCommit
  let ubootPatches ← ubootPatches build patchesCommit
  let kernel ← Outcome.mapOption (up.kernelPin opts) build.compiledKernel
  let boot ← Outcome.mapOption (up.bootPins opts) build.rkbinBoot
  let userspace ← Outcome.mapM (up.userspacePin opts) build.userspace
  let ffmpeg ← Outcome.mapOption (up.ffmpegPins opts) build.ffmpeg
  let kmods ← Outcome.mapM (up.kmodPin opts) build.kmods
  let apps ← Outcome.mapM (up.appPin patchesCommit) build.apps
  .ok (assembleLock build opts kernel (boot.map Prod.fst) patches ubootPatches userspace ffmpeg
    (boot.map Prod.snd) kmods apps)

/-! ### The gate -/

/-- `<locked>' vs resolved '<resolved>`. -/
def versus (locked resolved : Str) : Str :=
  locked ++ "' vs resolved '".toList ++ resolved ++ "'".toList

/-- One drifted axis. -/
def diff (axis locked resolved : Str) : List Str :=
  if locked ≠ resolved then [axis ++ ": lock '".toList ++ versus locked resolved] else []

/-- An axis that only one side has. -/
def presence (axis : Str) (locked resolved : Bool) : List Str :=
  let shown := fun p : Bool => if p then "present".toList else "absent".toList
  if locked ≠ resolved then
    [axis ++ ": lock ".toList ++ shown locked ++ " vs resolved ".toList ++ shown resolved]
  else []

/-- The file of a blob pin, as the gate reads it. -/
def blobPinFile (pin : Str) : Str := pin.takeWhile (· ≠ '@')

def showOption (p : Option Str) : Str := p.getD "(none)".toList

def showList (p : List Str) : Str := if p.isEmpty then "(none)".toList else join ", ".toList p

def kernelAxes (lock : Lock) (build : ResolvedBuild) : List Str :=
  presence "compiled kernel".toList lock.kernel.isSome build.compiledKernel.isSome ++
  match lock.kernel, build.compiledKernel with
  | some pin, some kernel =>
    diff "kernel id".toList pin.id kernel.id ++
    match kernelSourceUrl kernel.source with
    | .ok url => diff "kernel source".toList pin.source url
    | _ => []
  | _, _ => []

def ubootAxes (lock : Lock) (build : ResolvedBuild) : List Str :=
  presence "u-boot".toList lock.uboot.isSome build.rkbinBoot.isSome ++
  match lock.uboot, build.rkbinBoot with
  | some pin, some boot => diff "u-boot source".toList pin.source boot.ubootSource
  | _, _ => []

def userspaceAxes (lock : Lock) (build : ResolvedBuild) : List Str :=
  (dedup (sortUnstable (lock.userspace.map UserspacePin.name ++
    build.userspace.map NamedSource.name))).flatMap fun name =>
      let pin := firstWith UserspacePin.name lock.userspace name
      let tree := firstWith NamedSource.name build.userspace name
      presence name pin.isSome tree.isSome ++
      match pin, tree with
      | some p, some t => diff (name ++ " source".toList) p.source t.git
      | _, _ => []

def ffmpegAxes (lock : Lock) (build : ResolvedBuild) : List Str :=
  presence "ffmpeg".toList lock.ffmpeg.isSome build.ffmpeg.isSome ++
  match lock.ffmpeg, build.ffmpeg with
  | some locked, some ff =>
    diff "ffmpeg base source".toList locked.base.source ff.base.git ++
    presence "ffmpeg rockchip".toList locked.rockchip.isSome ff.rockchip.isSome ++
    match locked.rockchip, ff.rockchip with
    | some p, some s => diff "ffmpeg rockchip source".toList p.source s.git
    | _, _ => []
  | _, _ => []

def blobAxes (lock : Lock) (build : ResolvedBuild) : List Str :=
  presence "rkbin blobs".toList lock.blobs.isSome build.rkbinBoot.isSome ++
  match lock.blobs, build.rkbinBoot with
  | some pins, some boot =>
    diff "atf blob".toList (blobPinFile pins.atf) boot.rkbin.atf ++
    diff "tpl blob".toList (blobPinFile pins.tpl) boot.rkbin.tpl ++
    match pins.bl32, boot.rkbin.bl32 with
    | some locked, some resolved => diff "bl32 blob".toList (blobPinFile locked) resolved
    | locked, resolved => presence "bl32 blob".toList locked.isSome resolved.isSome
  | _, _ => []

def seriesAxes (lock : Lock) (build : ResolvedBuild) : List Str :=
  let locked := (lock.patches.map PatchesPin.series).getD []
  if locked ≠ build.kernelSeries then
    ["patch series: lock '".toList ++ versus (showList locked) (showList build.kernelSeries)]
  else []

def ubootSeriesAxes (lock : Lock) (build : ResolvedBuild) : List Str :=
  let locked := lock.ubootPatches.bind fun p => p.series.head?
  if locked ≠ build.ubootSeries then
    ["u-boot patch series: lock '".toList ++
      versus (showOption locked) (showOption build.ubootSeries)]
  else []

def rootfsAxes (lock : Lock) (build : ResolvedBuild) : List Str :=
  presence "rootfs".toList lock.rootfs.isSome build.image.isSome ++
  match lock.rootfs, build.image with
  | some pin, some image =>
    diff "distro".toList pin.distro build.distro ++ diff "suite".toList pin.suite image.suite
  | _, _ => []

def debAxes (lock : Lock) (build : ResolvedBuild) : List Str :=
  if lock.extraDebs ≠ build.extraDebs then
    ["extra_debs: lock records ".toList ++ Nat.toDigits 10 lock.extraDebs.length ++
      " vs resolved ".toList ++ Nat.toDigits 10 build.extraDebs.length]
  else []

def mediaAxes (lock : Lock) (build : ResolvedBuild) : List Str :=
  presence "media-accel sources".toList (!lock.userspace.isEmpty) (!build.userspace.isEmpty)

/-- `<what> '<name>'`. -/
def named (what : String) (name : Str) : Str := what.toList ++ " '".toList ++ name ++ "'".toList

/-- The loops over modules and over apps: every resolved row against the first pin of its name, then
the pins of no row. -/
def namedDrift {α β : Type} (what : String) (pinName : α → Str) (name : β → Str)
    (row : β → α → List Str) (locked : List α) (resolved : List β) : List Str :=
  (resolved.flatMap fun res =>
    match firstWith pinName locked (name res) with
    | some pin => row res pin
    | none => [named what (name res) ++ ": resolved but not in lock".toList]) ++
  (locked.filter fun pin => !resolved.any fun res => name res = pinName pin).map fun pin =>
    named what (pinName pin) ++ ": in lock but no longer resolved".toList

def kmodAxes (lock : Lock) (build : ResolvedBuild) : List Str :=
  namedDrift "kmod" KmodPin.name NamedSource.name
    (fun res pin => diff (named "kmod" res.name ++ " source".toList) pin.source res.git)
    lock.kmods build.kmods

/-- One field of an app. -/
def appDiff (app : App) (axis : String) : Str → Str → List Str :=
  diff (named "app" app.name ++ ' ' :: axis.toList)

def appPatchesAxes (app : App) (pin : AppPin) : List Str :=
  match pin.patches, app.patches.url with
  | some p, some url => appDiff app "patches source" p.source url
  | _, _ => []

def dotnetAxes (app : App) (pin : AppPin) : List Str :=
  match pin.dotnet with
  | some locked =>
    appDiff app "packaging source" locked.packaging.source app.build.packaging.git ++
    appDiff app "packaging ref" locked.packaging.reference
      (normalizeRef app.build.packaging.gitRef) ++
    appDiff app "sdk version" locked.sdk.version app.build.sdk.version ++
    if locked.sdk.sha512 ≠ app.build.sdk.sha512 then
      [named "app" app.name ++ " sdk sha512 table changed".toList]
    else []
  | none => [named "app" app.name ++ ": lock has no dotnet pins".toList]

/-- What one app and its pin differ in. -/
def appAxes (app : App) (pin : AppPin) : List Str :=
  appDiff app "source" pin.source app.git ++
  appDiff app "ref" pin.reference (normalizeRef app.gitRef) ++
  appDiff app "patch series" (showOption (pin.patches.map fun p => join ", ".toList p.series))
    (showList app.patches.series) ++
  appPatchesAxes app pin ++ dotnetAxes app pin

def appDrift (locked : List AppPin) (resolved : List App) : List Str :=
  namedDrift "app" AppPin.name App.name appAxes locked resolved

/-- The drifted axes, in the order of their checks. -/
def driftedAxes (lock : Lock) (build : ResolvedBuild) : List Str :=
  kernelAxes lock build ++ ubootAxes lock build ++ userspaceAxes lock build ++
    ffmpegAxes lock build ++ blobAxes lock build ++ seriesAxes lock build ++
    ubootSeriesAxes lock build ++ rootfsAxes lock build ++ debAxes lock build ++
    mediaAxes lock build ++ kmodAxes lock build ++ appDrift lock.apps build.apps

def checkLockConsistency (lock : Lock) (build : ResolvedBuild) : Outcome EngineError Unit :=
  if (driftedAxes lock build).isEmpty then .ok ()
  else .err (.lockConfigDrift (driftedAxes lock build))

end Boot2Deb.Engine.Pins
