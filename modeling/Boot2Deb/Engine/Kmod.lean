import Boot2Deb.Engine.TreeDetermined

/-!
# Out-of-tree modules

A module is compiled from a patched driver tree against a kernel tree that has been built. Both trees
are found in the work directory, each reused while its stamp is the signature its inputs have now.
The output signature folds the kernel tree's signature; what the kernel was configured with is
folded by neither.
-/

namespace Boot2Deb.Engine
open Rust Semver

/-- `ResolvedKmod`, what a modules build reads of it. -/
structure ResolvedKmod where
  name : Text
  subdir : Text
  patchDir : Text
  repoPatches : Slice Text
  makeArgs : Slice Text
  modules : Slice Text

/-- What `configure` generates a `.config` from, and the compiler a kernel is built with. -/
structure KernelConfig where
  baseDefconfig : Text
  fragments : List (Text × Bytes)
  kernelArch : Text
  crossCompile : Option Text
  toolchainId : Text
deriving DecidableEq

/-- A driver at its pinned commit, with the patches applied to it: the repository's own by name, the
board's by content. -/
structure DriverSource where
  name : Text
  commit : Text
  patchDir : Text
  repoPatches : Slice Text
  localPatches : List Bytes
deriving DecidableEq

section
variable (sha256Hex : Bytes → Str)

/-- `local_patch_fingerprints`. -/
def localPatchFingerprints (patches : List Bytes) : Outcome EngineError (Slice Text) := do
  let texts ← Outcome.mapM (fun bytes => format (sha256Hex bytes)) patches
  collect texts

/-- `node_name`. -/
def kmodNodeName (name : Text) : Outcome EngineError Text := format ("kmod:".toList ++ name)

/-- `tree_signature_manifest` of a driver. -/
def driverTreeManifest (node : Text) (source : DriverSource) (localFps : Slice Text) :
    SignatureBuilder :=
  let b := SignatureBuilder.new node 1
  let b := b.foldScalar "commit".toList source.commit
  let b := b.foldScalar "patch_dir".toList source.patchDir
  let b := b.foldOrdered "patches".toList (strs source.repoPatches)
  b.foldOrdered "local_patches".toList (strs localFps)

/-- The signature a driver tree is stamped with. -/
def DriverSource.treeSignature (source : DriverSource) : Outcome EngineError Signature := do
  let node ← kmodNodeName source.name
  let localFps ← localPatchFingerprints sha256Hex source.localPatches
  .ok ((driverTreeManifest node source localFps).finish sha256Hex)

/-- A driver tree in the work directory, stamped as what was fetched and patched there. -/
structure DriverTree where
  source : DriverSource
  stamp : Signature
  stamped : source.treeSignature sha256Hex = .ok stamp

/-- A kernel tree in the work directory: what was cloned and patched there under its stamp, and the
configuration its `Module.symvers` comes from, if it was built. -/
structure KernelTree (S : Crate) where
  source : TreeBuild
  stamp : Signature
  patched : Str × List (Str × Bytes)
  built : Option KernelConfig
  stamped : source.treeSignature sha256Hex .kernel = .ok stamp
  cloned : source.patchedTree S .kernel = .ok patched

/-- `BUILD_DEPS` of the kernel stage. -/
def kernelBuildDeps : Slice Text :=
  slice [lit "debhelper", lit "libelf-dev", lit "libdw-dev", lit "rsync", lit "cpio", lit "kmod"]

/-- A run of the stage for one module: its inputs and the trees it finds. -/
structure KmodBuild (S : Crate) where
  kmod : ResolvedKmod
  commit : Text
  localPatches : List Bytes
  kernel : TreeBuild
  config : KernelConfig
  arch : Text
  packagingId : Text
  kernelTree : Option (KernelTree sha256Hex S)
  driverTree : Option (DriverTree sha256Hex)

end

/-- What `output_manifest` folds, in order. -/
def kmodOutputManifest (node : Text) (k : ResolvedKmod) (commit : Text) (localFps : Slice Text)
    (kernelSig : Signature) (arch toolchainId packagingId : Text) : SignatureBuilder :=
  let b := SignatureBuilder.new node 4
  let b := b.foldDep kernelSig
  let b := b.foldScalar "commit".toList commit
  let b := b.foldScalar "subdir".toList k.subdir
  let b := b.foldScalar "patch_dir".toList k.patchDir
  let b := b.foldOrdered "patches".toList (strs k.repoPatches)
  let b := b.foldOrdered "local_patches".toList (strs localFps)
  let b := b.foldOrdered "make_args".toList (strs k.makeArgs)
  let b := b.foldOrdered "modules".toList (strs k.modules)
  let b := b.foldScalar "arch".toList arch
  let b := b.foldScalar "toolchain".toList toolchainId
  let b := b.foldSet "build_deps".toList (strs kernelBuildDeps)
  b.foldScalar "packaging".toList packagingId

/-- A compile: the driver, where and with what it is made, the environment of `make`, and the kernel
tree with the configuration it was built in. -/
structure ModuleCompile where
  driver : DriverSource
  subdir : Text
  makeArgs : Slice Text
  modules : Slice Text
  environment : Text × Option Text
  kernel : Str × List (Str × Bytes)
  configuration : KernelConfig
deriving DecidableEq

namespace KmodBuild
variable {sha256Hex : Bytes → Str} {S : Crate} (b : KmodBuild sha256Hex S)

/-- The driver this run names. -/
def driver : DriverSource :=
  ⟨b.kmod.name, b.commit, b.kmod.patchDir, b.kmod.repoPatches, b.localPatches⟩

/-- The signature a modules package is stored under. -/
def outputSignature : Outcome EngineError Signature := do
  let kernelSig ← b.kernel.treeSignature sha256Hex .kernel
  let localFps ← localPatchFingerprints sha256Hex b.localPatches
  let node ← kmodNodeName b.kmod.name
  let hex ← format kernelSig.hex
  .ok ((kmodOutputManifest node b.kmod b.commit localFps ⟨hex⟩ b.arch b.config.toolchainId
    b.packagingId).finish sha256Hex)

/-- The driver tree: the one found while its stamp is current, else fetched and patched. -/
def materializedDriver : Outcome EngineError DriverSource := do
  let signature ← b.driver.treeSignature sha256Hex
  match b.driverTree with
  | some tree => .ok (if tree.stamp = signature then tree.source else b.driver)
  | none => .ok b.driver

/-- The configuration of the kernel tree a module is made against: that of a tree already built
under the signature, else the run's own. -/
def configuration : Outcome EngineError KernelConfig := do
  let signature ← b.kernel.treeSignature sha256Hex .kernel
  match b.kernelTree with
  | some tree => .ok (if tree.stamp = signature then tree.built.getD b.config else b.config)
  | none => .ok b.config

/-- `ARCH` and `CROSS_COMPILE` of the two `make` runs. -/
def environment : Text × Option Text := (b.config.kernelArch, b.config.crossCompile)

/-- `ensure_module_tree`. -/
def ensureModuleTree : Outcome EngineError ((Str × List (Str × Bytes)) × KernelConfig) := do
  let signature ← b.kernel.treeSignature sha256Hex .kernel
  match b.kernelTree with
  | some tree =>
    if tree.stamp = signature then .ok (tree.patched, tree.built.getD b.config)
    else do
      let patched ← b.kernel.patchedTree S .kernel
      .ok (patched, b.config)
  | none => do
    let patched ← b.kernel.patchedTree S .kernel
    .ok (patched, b.config)

/-- `build_one`, past the store. -/
def compile : Outcome EngineError ModuleCompile := do
  let driver ← b.materializedDriver
  let tree ← b.ensureModuleTree
  .ok ⟨driver, b.kmod.subdir, b.kmod.makeArgs, b.kmod.modules,
    b.environment, tree.1, tree.2⟩

end KmodBuild

end Boot2Deb.Engine
