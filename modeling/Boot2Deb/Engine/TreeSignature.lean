import Boot2Deb.Engine.Schema
import Boot2Deb.Rust.Alloc
import Boot2Deb.Series.Selection

/-!
# Patched trees and their signatures

A compile stage checks out its pinned commit and applies the patches of the series its pin names, in
order. The tree's signature folds the commit and how the series is identified: by the pinned
commit of the patches repository, or in co-development by the digests of the live files.
-/

namespace Boot2Deb.Engine
open Rust Series Semver

/-- The pin of a patch axis: the series names and the commit of their repository. -/
structure PatchesPin where
  series : Slice Text
  commit : Text
deriving DecidableEq

/-- A checkout of the patches repository: its HEAD, whether its worktree is clean, what
`load_series` reads there and the files in it. -/
structure Checkout where
  head : Str
  clean : Bool
  loadSeries : Str → Outcome ConfigError PatchSeries
  file : Str → Option Bytes

/-- A checkout with the pin it supplies, and the version its entries are filtered by. -/
structure PatchSource where
  root : Checkout
  pin : PatchesPin
  dev : Bool
  version : Text

/-- How the applied series is identified in a tree signature. -/
inductive SeriesIdentity where
  | pinned
  | dev (fingerprint : Slice Text)
deriving DecidableEq

/-! ### The signature -/

/-- The entries of a scope over the named series that can be loaded. -/
def liveEntries (root : Checkout) (series : List Text) (scope : Scope) : List PatchEntry :=
  series.flatMap fun name : Text =>
    match root.loadSeries name with
    | .ok series => series.scope scope
    | _ => []

/-- `<label>=<digest>`, the range of the entry behind an `@`. -/
def entryText (sha256Hex : Bytes → Str) (root : Checkout) (entry : PatchEntry) : Str :=
  let digest := match root.file entry.path with
    | some bytes => sha256Hex bytes
    | none => "<unreadable>".toList
  match entry.kernels with
  | some range => entry.path ++ '@' :: range ++ '=' :: digest
  | none => entry.path ++ '=' :: digest

/-- `patch_series_fingerprint`. -/
def patchSeriesFingerprint (sha256Hex : Bytes → Str) (root : Checkout) (series : Slice Text)
    (scope : Scope) : Outcome EngineError (Slice Text) := do
  let texts ← Outcome.mapM (fun entry => format (entryText sha256Hex root entry))
    (liveEntries root series.val scope)
  collect texts

/-- `dev_series_fingerprint`. -/
def devSeriesFingerprint (sha256Hex : Bytes → Str) (patches : Option PatchSource) (scope : Scope) :
    Outcome EngineError (Slice Text) :=
  match patches with
  | some p => if p.dev then patchSeriesFingerprint sha256Hex p.root p.pin.series scope
    else .ok (slice [] (Nat.zero_le _))
  | none => .ok (slice [] (Nat.zero_le _))

/-- `series_identity`. -/
def seriesIdentity (patches : Option PatchSource) (fingerprint : Slice Text) : SeriesIdentity :=
  if patches.any (·.dev) then .dev fingerprint else .pinned

/-- `fold_patch_series`. -/
def foldPatchSeries (b : SignatureBuilder) (pin : Option PatchesPin) (patches : SeriesIdentity) :
    SignatureBuilder :=
  match pin with
  | none => b.foldScalar "patches".toList "none".toList
  | some pin =>
    let b := b.foldOrdered "patches.series".toList (strs pin.series)
    let b := b.foldScalar "patches.commit".toList pin.commit
    match patches with
    | .pinned => b.foldScalar "patches_dev".toList "0".toList
    | .dev fingerprint =>
      let b := b.foldScalar "patches_dev".toList "1".toList
      b.foldOrdered "patch_series".toList (strs fingerprint)

/-- `clone_manifest` of the kernel stage. -/
def kernelCloneManifest (commit reference : Text) (pin : Option PatchesPin)
    (patches : SeriesIdentity) (deviceDts : Slice Text) : SignatureBuilder :=
  let b := SignatureBuilder.new "kernel".toList 1
  let b := b.foldScalar "kernel.commit".toList commit
  let b := b.foldScalar "kernel.reference".toList reference
  let b := foldPatchSeries b pin patches
  if deviceDts.val.isEmpty then b else b.foldOrdered "device_dts".toList (strs deviceDts)

/-- `clone_manifest` of the u-boot stage. -/
def ubootCloneManifest (commit : Text) (pin : Option PatchesPin) (patches : SeriesIdentity) :
    SignatureBuilder :=
  let b := SignatureBuilder.new "uboot".toList 1
  let b := b.foldScalar "uboot.commit".toList commit
  foldPatchSeries b pin patches

/-- `clone_manifest` of the ffmpeg stage. -/
def ffmpegCloneManifest (commit : Text) (pin : Option PatchesPin) (patches : SeriesIdentity) :
    SignatureBuilder :=
  let b := SignatureBuilder.new "ffmpeg".toList 1
  let b := b.foldScalar "ffmpeg.base.commit".toList commit
  foldPatchSeries b pin patches

/-- `signature_manifest` of a userspace tree; an unpatched one folds no series. -/
def userspaceSignatureManifest (node commit : Str)
    (patches : Option (Option PatchesPin × SeriesIdentity)) : SignatureBuilder :=
  let b := SignatureBuilder.new node 1
  let b := b.foldScalar "commit".toList commit
  match patches with
  | some (pin, patches) => foldPatchSeries b pin patches
  | none => b

/-! ### Applying the series -/

/-- `verify_patches_pin`: the checkout is at the pin and clean, unless it is co-developed. -/
def verifyPatchesPin (root : Checkout) (expected : Str) (dev : Bool) : Outcome EngineError Unit :=
  if root.head = expected ∧ root.clean then .ok ()
  else if dev then .ok ()
  else if root.head = expected then .err (.patchesWorktreeDirty root.head)
  else .err (.patchesPinMismatch expected root.head !root.clean)

/-- The declared-intent gate of one series, on the axis of the scope. -/
def gate (S : Crate) (scope : Scope) (reference : Str) (named : Str × PatchSeries) :
    Outcome EngineError Unit :=
  Outcome.mapErr .config <| match scope with
    | .uboot => named.2.ensureAppliesUboot S named.1 reference
    | .app | .appPackaging => named.2.ensureAppliesApp S named.1 reference
    | .kernel | .ffmpeg | .userspace => named.2.ensureApplies S named.1 reference

/-- The named series, loaded in order. -/
def loadNamed (p : PatchSource) : Outcome EngineError (List (Str × PatchSeries)) :=
  Outcome.mapM (fun name : Text => Outcome.mapErr .config
    ((p.root.loadSeries name).bind fun series => .ok (name.val, series))) p.pin.series.val

/-- The labels a version selects from each series, one series behind the other. -/
def composedLabels (S : Crate) (scope : Scope) (version : Str)
    (loaded : List (Str × PatchSeries)) : Outcome EngineError (List Str) := do
  let labels ← Outcome.mapM (fun named : Str × PatchSeries => Outcome.mapErr .config
    (named.2.seriesFor S named.1 scope version .release)) loaded
  .ok labels.flatten

/-- `apply_tree`: the files handed to `git am`, in order, with their bytes. -/
def applyTree (root : Checkout) (labels : List Str) : Outcome EngineError (List (Str × Bytes)) :=
  Outcome.mapM (fun label => match root.file label with
    | some bytes => .ok (label, bytes)
    | none => .err (.io label)) labels

/-- `apply_series_scope`. -/
def applySeriesScope (S : Crate) (patches : Option PatchSource) (scope : Scope)
    (gateReference : Option Str) : Outcome EngineError (List (Str × Bytes)) :=
  match patches with
  | none => .ok []
  | some p => do
    verifyPatchesPin p.root p.pin.commit p.dev
    let loaded ← loadNamed p
    match gateReference with
    | some reference => do
      let _ ← Outcome.mapM (gate S scope reference) loaded
      let labels ← composedLabels S scope p.version loaded
      applyTree p.root labels
    | none => do
      let labels ← composedLabels S scope p.version loaded
      applyTree p.root labels

/-! ### The stages -/

/-- The compile stages that check out and patch a tree. -/
inductive TreeStage where
  | kernel
  | uboot
  | ffmpeg
  | userspace (name : Text)
deriving DecidableEq

/-- The scope a stage applies. -/
def TreeStage.scope : TreeStage → Scope
  | kernel => .kernel
  | uboot => .uboot
  | ffmpeg => .ffmpeg
  | userspace _ => .userspace

/-- What a build hands a compile stage: the pin of the tree, the kernel reference of the build, the
patch checkout with its pin, whether a userspace tree receives the series, and the board's
device-tree fingerprint. -/
structure TreeBuild where
  commit : Text
  reference : Text
  kernelReference : Text
  patches : Option (Checkout × PatchesPin × Bool)
  patched : Bool
  deviceDts : Slice Text

/-- `is_full_sha`. -/
def isFullSha (s : Str) : Bool :=
  s.length == 40 && s.all fun c => c ∈ "0123456789abcdefABCDEF".toList

/-- `normalize_ref`. -/
def normalizeRef (s : Str) : Str := if isFullSha s then toAsciiLowercase s else s

namespace TreeBuild
variable (sha256Hex : Bytes → Str) (S : Crate) (stage : TreeStage) (b : TreeBuild)

/-- The version a stage filters by: its own for u-boot, the kernel's for the others. -/
def version : Text :=
  match stage with
  | .kernel | .uboot => b.reference
  | .ffmpeg | .userspace _ => b.kernelReference

/-- The checkout bound to its pin. -/
def patchSource : Option PatchSource :=
  b.patches.map fun (root, pin, dev) => ⟨root, pin, dev, b.version stage⟩

/-- Whether the stage applies the series to this tree. -/
def receives : Bool :=
  match stage with
  | .userspace _ => b.patched
  | _ => true

/-- What the stage folds of the patches. -/
def patchInputs (fingerprint : Slice Text) : Option (Option PatchesPin × SeriesIdentity) :=
  if b.receives stage then
    some ((b.patchSource stage).map (·.pin), seriesIdentity (b.patchSource stage) fingerprint)
  else none

/-- The reference the declared range is gated by. -/
def gateReference : Option Str :=
  match stage with
  | .kernel | .uboot => some b.reference
  | .ffmpeg | .userspace _ => none

/-- The manifest the stage stamps its tree with. -/
def treeManifest : Outcome EngineError SignatureBuilder := do
  let fingerprint ← devSeriesFingerprint sha256Hex (b.patchSource stage) stage.scope
  let pin := (b.patchSource stage).map (·.pin)
  let patches := seriesIdentity (b.patchSource stage) fingerprint
  match stage with
  | .kernel => .ok (kernelCloneManifest b.commit b.reference pin patches b.deviceDts)
  | .uboot => .ok (ubootCloneManifest b.commit pin patches)
  | .ffmpeg => .ok (ffmpegCloneManifest b.commit pin patches)
  | .userspace name => do
    let node ← format ("userspace:".toList ++ name)
    .ok (userspaceSignatureManifest node b.commit (b.patchInputs stage fingerprint))

/-- The tree signature of a stage. -/
def treeSignature : Outcome EngineError Signature := do
  let manifest ← b.treeManifest sha256Hex stage
  .ok (manifest.finish sha256Hex)

/-- The patches a stage applies, where its tree receives any. -/
def appliedPatches : Outcome EngineError (List (Str × Bytes)) :=
  if b.receives stage then
    applySeriesScope S (b.patchSource stage) stage.scope (b.gateReference stage)
  else .ok []

/-- The commit checked out and the patches applied to it. -/
def patchedTree : Outcome EngineError (Str × List (Str × Bytes)) := do
  let applied ← b.appliedPatches S stage
  .ok (normalizeRef b.commit, applied)

end TreeBuild

end Boot2Deb.Engine
