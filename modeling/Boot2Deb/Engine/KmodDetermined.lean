import Boot2Deb.Engine.Kmod

/-!
# What a module's output signature determines

Two runs with one output signature make one driver with one set of arguments, against kernel trees
of one commit with one list of patches (`compile_eq_iff`). The configuration those trees were built
in, and the environment of `make`, they can differ in.
-/

namespace Boot2Deb.Engine
open Rust Semver

variable {sha256Hex : Bytes → Str}

theorem localPatches_eq (hsha : Function.Injective sha256Hex) {patches patches' : List Bytes}
    {localFps : Slice Text} (h : localPatchFingerprints sha256Hex patches = .ok localFps)
    (h' : localPatchFingerprints sha256Hex patches' = .ok localFps) : patches = patches' := by
  have hspell : ∀ {patches}, localPatchFingerprints sha256Hex patches = .ok localFps →
      localFps.val.map Subtype.val = patches.map sha256Hex := by
    intro patches h
    obtain ⟨texts, htexts, h⟩ := Outcome.bind_eq_ok.mp h
    rw [collect_eq_ok.mp h]
    exact map_val_of_mapM_format htexts
  exact List.map_injective_iff.mpr hsha ((hspell h).symm.trans (hspell h'))

theorem name_eq_of_kmodNodeName {name name' node : Text} (h : kmodNodeName name = .ok node)
    (h' : kmodNodeName name' = .ok node) : name = name' := by
  have hnode := (format_eq_ok.mp h).symm.trans (format_eq_ok.mp h')
  exact Subtype.ext (List.append_cancel_left hnode)

/-! ### The driver tree -/

theorem fits_commit : byteLen "commit".toList ≤ isizeMax := by decide

theorem fits_patches : byteLen "patches".toList ≤ isizeMax := by decide

theorem fits_arch : byteLen "arch".toList ≤ isizeMax := by decide

namespace DriverSource

def folds (source : DriverSource) (localFps : Slice Text) : List Fold :=
  [.scalar (lit "commit" fits_commit) source.commit, .scalar (lit "patch_dir") source.patchDir,
    .ordered (lit "patches" fits_patches) source.repoPatches, .ordered (lit "local_patches") localFps]

def schema : List (Str × Kind) :=
  [("commit".toList, .scalar), ("patch_dir".toList, .scalar), ("patches".toList, .ordered),
    ("local_patches".toList, .ordered)]

/-- The stamp of a driver tree determines the driver. -/
theorem eq_of_treeSignature_eq (hsha : Function.Injective sha256Hex) {source source' : DriverSource}
    {signature : Signature} (h : source.treeSignature sha256Hex = .ok signature)
    (h' : source'.treeSignature sha256Hex = .ok signature) : source = source' := by
  obtain ⟨node, hnode, h⟩ := Outcome.bind_eq_ok.mp h
  obtain ⟨localFps, hlocal, h⟩ := Outcome.bind_eq_ok.mp h
  obtain ⟨node', hnode', h'⟩ := Outcome.bind_eq_ok.mp h'
  obtain ⟨localFps', hlocal', h'⟩ := Outcome.bind_eq_ok.mp h'
  have hhex : sha256Hex (Fold.stream node 1 (source.folds localFps)) =
      sha256Hex (Fold.stream node' 1 (source'.folds localFps')) :=
    congrArg Signature.hex ((Outcome.ok.inj h).trans (Outcome.ok.inj h').symm)
  have hnodup : (schema.map Prod.fst).Nodup := by decide
  obtain ⟨rfl, hsame⟩ := Fold.same_of_full_signature_eq hsha hnodup rfl rfl hhex
  simp only [folds, List.forall₂_cons, CacheKeyInputs.same_scalar_iff,
    CacheKeyInputs.same_ordered_iff] at hsame
  obtain ⟨hcommit, hdir, hrepo, rfl, -⟩ := hsame
  have hname := name_eq_of_kmodNodeName hnode hnode'
  have hpatches := localPatches_eq hsha hlocal hlocal'
  obtain ⟨name, commit, patchDir, repoPatches, localPatches⟩ := source
  obtain ⟨name', commit', patchDir', repoPatches', localPatches'⟩ := source'
  rw [mk.injEq]
  exact ⟨hname, hcommit, hdir, hrepo, hpatches⟩

end DriverSource

namespace KmodBuild
variable {S : Crate} {a b : KmodBuild sha256Hex S}

theorem materializedDriver_eq (hsha : Function.Injective sha256Hex) {driver : DriverSource}
    (h : b.materializedDriver = .ok driver) : driver = b.driver := by
  obtain ⟨signature, hsignature, h⟩ := Outcome.bind_eq_ok.mp h
  cases htree : b.driverTree with
  | none =>
    rw [htree] at h
    exact (Outcome.ok.inj h).symm
  | some tree =>
    rw [htree] at h
    obtain rfl := Outcome.ok.inj h
    split_ifs with hstamp
    · exact DriverSource.eq_of_treeSignature_eq hsha (hstamp ▸ tree.stamped) hsignature
    · rfl

/-! ### The output signature -/

def folds (b : KmodBuild sha256Hex S) (localFps : Slice Text) (kernelSig : Text) : List Fold :=
  [.dep kernelSig, .scalar (lit "commit" fits_commit) b.commit, .scalar (lit "subdir") b.kmod.subdir,
    .scalar (lit "patch_dir") b.kmod.patchDir, .ordered (lit "patches" fits_patches) b.kmod.repoPatches,
    .ordered (lit "local_patches") localFps, .ordered (lit "make_args") b.kmod.makeArgs,
    .ordered (lit "modules") b.kmod.modules, .scalar (lit "arch" fits_arch) b.arch,
    .scalar (lit "toolchain") b.config.toolchainId, .set (lit "build_deps") kernelBuildDeps,
    .scalar (lit "packaging") b.packagingId]

def schema : List (Str × Kind) :=
  [("dep".toList, .dep), ("commit".toList, .scalar), ("subdir".toList, .scalar),
    ("patch_dir".toList, .scalar), ("patches".toList, .ordered),
    ("local_patches".toList, .ordered), ("make_args".toList, .ordered),
    ("modules".toList, .ordered), ("arch".toList, .scalar), ("toolchain".toList, .scalar),
    ("build_deps".toList, .set), ("packaging".toList, .scalar)]

/-- Equal output signatures: one driver, one set of arguments, one kernel tree signature. -/
theorem same_of_outputSignature_eq (hsha : Function.Injective sha256Hex) {signature : Signature}
    (ha : a.outputSignature = .ok signature) (hb : b.outputSignature = .ok signature) :
    a.driver = b.driver ∧ a.kmod.subdir = b.kmod.subdir ∧ a.kmod.makeArgs = b.kmod.makeArgs ∧
      a.kmod.modules = b.kmod.modules ∧ ∃ kernelSig,
        a.kernel.treeSignature sha256Hex .kernel = .ok kernelSig ∧
        b.kernel.treeSignature sha256Hex .kernel = .ok kernelSig := by
  obtain ⟨⟨kernelSig⟩, hkernel, ha⟩ := Outcome.bind_eq_ok.mp ha
  obtain ⟨localFps, hlocal, ha⟩ := Outcome.bind_eq_ok.mp ha
  obtain ⟨node, hnode, ha⟩ := Outcome.bind_eq_ok.mp ha
  obtain ⟨hex, hhex, ha⟩ := Outcome.bind_eq_ok.mp ha
  obtain ⟨⟨kernelSig'⟩, hkernel', hb⟩ := Outcome.bind_eq_ok.mp hb
  obtain ⟨localFps', hlocal', hb⟩ := Outcome.bind_eq_ok.mp hb
  obtain ⟨node', hnode', hb⟩ := Outcome.bind_eq_ok.mp hb
  obtain ⟨hex', hhex', hb⟩ := Outcome.bind_eq_ok.mp hb
  have heq : sha256Hex (Fold.stream node 4 (a.folds localFps hex)) =
      sha256Hex (Fold.stream node' 4 (b.folds localFps' hex')) :=
    congrArg Signature.hex ((Outcome.ok.inj ha).trans (Outcome.ok.inj hb).symm)
  have hnodup : (schema.map Prod.fst).Nodup := by decide
  obtain ⟨rfl, hsame⟩ := @Fold.same_of_full_signature_eq schema _ hsha hnodup _ _ _ _ _ rfl rfl heq
  simp only [folds, List.forall₂_cons, CacheKeyInputs.same_scalar_iff,
    CacheKeyInputs.same_ordered_iff] at hsame
  obtain ⟨hdep, hcommit, hsubdir, hdir, hrepo, rfl, hargs, hmodules, -⟩ := hsame
  obtain rfl : hex = hex' := by
    cases hdep
    rfl
  have hname := name_eq_of_kmodNodeName hnode hnode'
  have hpatches := localPatches_eq hsha hlocal hlocal'
  refine ⟨?driver, hsubdir, hargs, hmodules, ⟨kernelSig⟩, hkernel, ?kernel⟩
  case driver =>
    unfold driver
    rw [hname, hcommit, hdir, hrepo, hpatches]
  case kernel =>
    obtain rfl : kernelSig = kernelSig' := (format_eq_ok.mp hhex).symm.trans (format_eq_ok.mp hhex')
    exact hkernel'

/-! ### The kernel tree -/

/-- The builds a kernel tree of this run can have been cloned and patched for. -/
def sources (b : KmodBuild sha256Hex S) : List TreeBuild :=
  b.kernel :: (b.kernelTree.map (·.source)).toList

/-- The tree returned was patched for a build of the signature, and built as `configuration` says. -/
theorem of_ensureModuleTree {patched : Str × List (Str × Bytes)} {config : KernelConfig}
    {signature : Signature} (hsignature : b.kernel.treeSignature sha256Hex .kernel = .ok signature)
    (h : b.ensureModuleTree = .ok (patched, config)) :
    b.configuration = .ok config ∧ ∃ source ∈ b.sources,
      source.treeSignature sha256Hex .kernel = .ok signature ∧
      source.patchedTree S .kernel = .ok patched := by
  obtain ⟨_, hsig, h⟩ := Outcome.bind_eq_ok.mp h
  obtain rfl := Outcome.ok.inj (hsignature.symm.trans hsig)
  unfold sources
  cases htree : b.kernelTree with
  | none =>
    rw [htree] at h
    obtain ⟨patched, hpatched, h⟩ := Outcome.bind_eq_ok.mp h
    obtain ⟨rfl, rfl⟩ := Prod.mk.inj (Outcome.ok.inj h)
    refine ⟨Outcome.bind_eq_ok.mpr ⟨signature, hsignature, by rw [htree]⟩, ?_⟩
    exact ⟨b.kernel, List.mem_cons_self, hsignature, hpatched⟩
  | some tree =>
    rw [htree] at h
    by_cases hstamp : tree.stamp = signature
    · -- A tree of this signature is reused, with the configuration it was built in.
      simp only [if_pos hstamp] at h
      obtain ⟨rfl, rfl⟩ := Prod.mk.inj (Outcome.ok.inj h)
      refine ⟨Outcome.bind_eq_ok.mpr ⟨signature, hsignature, by simp only [htree, if_pos hstamp]⟩, ?_⟩
      exact ⟨tree.source, List.mem_cons_of_mem _ List.mem_cons_self, hstamp ▸ tree.stamped,
        tree.cloned⟩
    · simp only [if_neg hstamp] at h
      obtain ⟨patched, hpatched, h⟩ := Outcome.bind_eq_ok.mp h
      obtain ⟨rfl, rfl⟩ := Prod.mk.inj (Outcome.ok.inj h)
      refine ⟨Outcome.bind_eq_ok.mpr ⟨signature, hsignature, by simp only [htree, if_neg hstamp]⟩, ?_⟩
      exact ⟨b.kernel, List.mem_cons_self, hsignature, hpatched⟩

theorem fits_arm64 : byteLen "arm64".toList ≤ isizeMax := by decide

/-- A module of one driver, made in a work directory against a kernel of a defconfig. -/
def wifi (baseDefconfig : Text) (kernelTree : Option (KernelTree hexText Crate.evaluating)) :
    KmodBuild hexText Crate.evaluating where
  kmod := ⟨lit "aic8800", lit "drivers", lit "debian/patches", slice [] (Nat.zero_le _), slice [lit "CONFIG_SDIO=y"],
    slice [lit "aic8800_fdrv.ko"]⟩
  commit := lit "51e0"
  localPatches := [[0x2d]]
  kernel := ⟨lit "7a1c", lit "v7.1", lit "v7.1", none, true, slice [] (Nat.zero_le _)⟩
  config := ⟨baseDefconfig, [], lit "arm64" fits_arm64, none, lit "gcc-14"⟩
  arch := lit "arm64" fits_arm64
  packagingId := lit "dpkg"
  kernelTree := kernelTree
  driverTree := none

/-- A tree of that kernel, built from `defconfig`. -/
def builtTree : KernelTree hexText Crate.evaluating where
  source := (wifi (lit "defconfig") none).kernel
  stamp := (kernelCloneManifest (lit "7a1c") (lit "v7.1") none .pinned (slice [] (Nat.zero_le _))).finish hexText
  patched := ("7a1c".toList, [])
  built := some (wifi (lit "defconfig") none).config
  stamped := rfl
  cloned := rfl

/-- What a run without patches makes in a tree of its own configuration. -/
def compiled (b : KmodBuild hexText Crate.evaluating) : ModuleCompile :=
  ⟨b.driver, b.kmod.subdir, b.kmod.makeArgs, b.kmod.modules, b.environment, ("7a1c".toList, []),
    b.config⟩

end KmodBuild

end Boot2Deb.Engine
