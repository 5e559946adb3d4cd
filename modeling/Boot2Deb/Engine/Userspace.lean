import Boot2Deb.Engine.TreeSignature
import Boot2Deb.Engine.ArtifactStore
import Boot2Deb.Lib.TreeMap

/-!
# The userspace stage

Each package is restored from the artifact store, or its tree is fetched and patched where the stamp
is not the signature of its inputs, and compiled where the tree was not fresh or not every `.deb` is
staged. What is staged under the package's prefixes is stored. Which compile a `.deb` comes from is
kept beside the state.
-/

namespace Boot2Deb.Engine
open Rust

/-- `[[userspace]]` of a SoC. -/
structure UserspaceTree where
  name : Str
  debs : List Str
  buildDeps : List Str
  targetsFilter : Option Str
  patched : Bool
deriving DecidableEq

/-- A pin of the lock's `[[userspace]]`. -/
structure UserspacePin where
  name : Str
  commit : Str
deriving DecidableEq

/-- What a run of the stage is handed: the trees of the build, the pins of its lock, the series they
are patched with, and the userland they are compiled in. -/
structure UserspaceInputs where
  trees : List UserspaceTree
  pins : List UserspacePin
  patchesPin : Option PatchesPin
  patches : SeriesIdentity
  suite : Str
  arch : Str
  sandboxId : Str
deriving DecidableEq

/-- A tree with its pin. -/
structure Package where
  tree : UserspaceTree
  pin : UserspacePin
deriving DecidableEq

def userspaceDeps : List Str :=
  ["cmake".toList, "meson".toList, "ninja-build".toList, "pkg-config".toList, "dh-exec".toList,
    "libdrm-dev".toList]

def relaxCflags : Str :=
  "-Wno-error=incompatible-pointer-types -Wno-error=int-conversion ".toList ++
    "-Wno-error=implicit-function-declaration".toList

/-- `layer_packages`. -/
def layerPackages (trees : List UserspaceTree) : List Str :=
  dedup (sortUnstable (userspaceDeps ++ trees.flatMap (·.buildDeps)))

namespace Package

/-- `node_name`. -/
def nodeName (p : Package) : Str := "userspace:".toList ++ p.tree.name

/-- `deb_prefixes`. -/
def debPrefixes (p : Package) : List Str := p.tree.debs.map (· ++ ['_'])

variable (sha256Hex : Bytes → Str) (inputs : UserspaceInputs) (p : Package)

/-- `package_signature`. -/
def treeSignature : Signature :=
  (userspaceSignatureManifest p.nodeName p.pin.commit
    (if p.tree.patched then some (inputs.patchesPin, inputs.patches) else none)).finish sha256Hex

/-- `package_output_manifest`. -/
def outputManifest : SignatureBuilder :=
  let b := SignatureBuilder.new (p.nodeName ++ ":out".toList) 2
  let b := b.foldDep (p.treeSignature sha256Hex inputs)
  let b := b.foldScalar "relax_cflags".toList relaxCflags
  let b := b.foldScalar "suite".toList inputs.suite
  let b := b.foldScalar "arch".toList inputs.arch
  let b := b.foldScalar "sandbox".toList inputs.sandboxId
  let b := b.foldSet "build_deps".toList (layerPackages inputs.trees)
  match (inputs.trees.find? fun t => t.name = p.tree.name).bind (·.targetsFilter) with
  | some variant => b.foldScalar "targets_filter".toList variant
  | none => b

/-- The output signature of a package in a run. -/
def outputSignature : Signature := (p.outputManifest sha256Hex inputs).finish sha256Hex

/-- The address of the package's output in the store. -/
def storeKey : StoreKey := ⟨p.nodeName, (p.outputSignature sha256Hex inputs).hex⟩

end Package

/-- The trees the lock pins, in their order. -/
def UserspaceInputs.packages (inputs : UserspaceInputs) : List Package :=
  inputs.trees.filterMap fun tree =>
    (inputs.pins.find? fun p => p.name = tree.name).map fun pin => ⟨tree, pin⟩

/-- A `.deb` by its file name. -/
structure Deb where
  file : Str
  bytes : Bytes
  isName : fileName file = some file

/-- How the commands of one package end: whether fetching and patching succeed, the files the
compile leaves in the stage directory, and whether it succeeds. -/
structure PackageOutcome where
  refreshed : Bool
  dropped : List Deb
  compiled : Bool

/-- A run: its inputs, whether it has a store, and how its commands end. -/
structure UserspaceRun where
  inputs : UserspaceInputs
  useStore : Bool
  ready : Bool
  outcome : Package → PackageOutcome

/-- A `.deb` with the inputs of the run and the package it was compiled for. -/
structure Compile where
  inputs : UserspaceInputs
  package : Package
  deb : Deb

/-- A tree directory, whether it is there, and the stamp beside it. -/
structure StampedTree where
  present : Bool
  stamp : Option Signature

/-- The store, the stage directory with its trees, and every compile so far. -/
structure UserspaceState where
  store : ArtifactStore
  stage : Dir
  trees : Str → StampedTree
  compiles : List Compile

/-- `deb_names`: the directory enumerates in order. -/
def debNames (dir : Dir) : List Str := dir.keys.filter fun name => ".deb".toList.isSuffixOf name

/-- `select_debs`. -/
def selectDebs (names prefixes : List Str) : List Str :=
  names.filter fun n => prefixes.any fun p => p.isPrefixOf n

/-- `purge_stage_debs`. -/
def purgeStageDebs (dir : Dir) (prefixes : List Str) : Dir :=
  (selectDebs (debNames dir) prefixes).foldl (fun dir name => dir.erase name) dir

/-- `package_staged`: every prefix has a `.deb`. -/
def packageStaged (dir : Dir) (p : Package) : Bool :=
  p.debPrefixes.all fun pre => (debNames dir).any fun n => pre.isPrefixOf n

namespace UserspaceState
variable (sha256Hex : Bytes → Str) (toToml : StoreManifest → Bytes)
  (fromToml : Bytes → Option StoreManifest) (run : UserspaceRun)

/-- `is_fresh`. -/
def isFresh (s : UserspaceState) (p : Package) : Bool :=
  let tree := s.trees p.tree.name
  tree.present && tree.stamp == some (p.treeSignature sha256Hex run.inputs)

/-- What the compile drops, recorded with what it was compiled for. -/
def compile (s : UserspaceState) (p : Package) : UserspaceState :=
  let dropped := (run.outcome p).dropped
  { s with
    stage := dropped.foldl (fun dir deb => dir.insert deb.file deb.bytes) s.stage
    compiles := s.compiles ++ dropped.map fun deb => ⟨run.inputs, p, deb⟩ }

/-- The stale tree removed, the stage purged, and the tree fetched, patched and stamped. -/
def refresh (s : UserspaceState) (p : Package) : UserspaceState :=
  let refreshed := (run.outcome p).refreshed
  { s with
    stage := purgeStageDebs s.stage p.debPrefixes
    trees := Function.update s.trees p.tree.name
      ⟨refreshed, if refreshed then some (p.treeSignature sha256Hex run.inputs)
        else (s.trees p.tree.name).stamp⟩ }

/-- `build_one`. -/
def buildOne (s : UserspaceState) (p : Package) : UserspaceState × Outcome EngineError Unit :=
  let fresh := s.isFresh sha256Hex run p
  if fresh && packageStaged s.stage p then (s, .ok ())
  else if fresh || (run.outcome p).refreshed then
    let s := if fresh then s else s.refresh sha256Hex run p
    let s := s.compile run p
    (s, if (run.outcome p).compiled then .ok ()
      else .err (.commandFailed "dpkg-buildpackage".toList))
  else (s.refresh sha256Hex run p, .err (.commandFailed "git".toList))

/-- The staged files of a package, as `put` reads them. -/
def sources (dir : Dir) (p : Package) : List Source :=
  (selectDebs (debNames dir) p.debPrefixes).map fun n => ⟨"deb".toList, n, dir[n]?⟩

/-- `store_package`. -/
def storePackage (s : UserspaceState) (p : Package) : UserspaceState × Outcome EngineError Unit :=
  let put := s.store.put toToml (p.storeKey sha256Hex run.inputs) (sources s.stage p)
  ({ s with store := put.1 }, put.2)

/-- A package that is not restored. -/
def buildPackage (s : UserspaceState) (p : Package) : UserspaceState × Outcome EngineError Unit :=
  match s.buildOne sha256Hex run p with
  | (s, .ok ()) => if run.useStore then s.storePackage sha256Hex toToml run p else (s, .ok ())
  | failed => failed

/-- The stage directory with the package's entry restored into it, where the entry is whole. -/
def restored (s : UserspaceState) (p : Package) : Option Dir :=
  (s.store.restore fromToml (p.storeKey sha256Hex run.inputs)
    (purgeStageDebs s.stage p.debPrefixes)).map Prod.snd

/-- One turn of the loop over the packages; `cached` was asked of the store before the first. A
compile `expect`s the build root, which is staged unless every package is cached. -/
def packageStep (rooted : Bool) (s : UserspaceState) (p : Package) (cached : Bool) :
    UserspaceState × Outcome EngineError Unit :=
  if cached then
    match s.restored sha256Hex fromToml run p with
    | some stage => ({ s with stage := stage }, .ok ())
    | none =>
      let s := { s with stage := purgeStageDebs s.stage p.debPrefixes }
      if rooted then s.buildPackage sha256Hex toToml run p else (s, .panic)
  else s.buildPackage sha256Hex toToml run p

/-- The loop, up to the first package that fails. -/
def packageLoop (rooted : Bool) (s : UserspaceState) :
    List (Package × Bool) → UserspaceState × Outcome EngineError Unit
  | [] => (s, .ok ())
  | (p, cached) :: rest =>
    match packageStep sha256Hex toToml fromToml run rooted s p cached with
    | (s, .ok ()) => packageLoop rooted s rest
    | failed => failed

/-- `collect`: the staged files of the packages, in their order, each once. -/
def collectDebs (dir : Dir) (packages : List Package) : List (Str × Bytes) :=
  ((packages.flatMap fun p => selectDebs (debNames dir) p.debPrefixes).eraseDups).filterMap fun n =>
    (dir[n]?).map (n, ·)

/-- The packages with whether the store has them, asked before the first is built. -/
def probed (s : UserspaceState) : List (Package × Bool) :=
  run.inputs.packages.map fun p =>
    (p, run.useStore && s.store.has (p.storeKey sha256Hex run.inputs))

/-- `build_userspace`. -/
def buildUserspace (s : UserspaceState) :
    UserspaceState × Outcome EngineError (List (Str × Bytes)) :=
  if run.inputs.pins.isEmpty then (s, .err (.missingMediaAccelPins "userspace"))
  else
    let packages := s.probed sha256Hex run
    let rooted := !(run.useStore && packages.all (·.2))
    if rooted && !run.ready then (s, .err (.commandFailed "sandbox".toList))
    else match packageLoop sha256Hex toToml fromToml run rooted s packages with
      | (s, .ok ()) =>
        let debs := collectDebs s.stage run.inputs.packages
        (s, if debs.isEmpty then .err (.artifactMissing "userspace .debs") else .ok debs)
      | (s, .err e) => (s, .err e)
      | (s, .panic) => (s, .panic)

end UserspaceState

end Boot2Deb.Engine
