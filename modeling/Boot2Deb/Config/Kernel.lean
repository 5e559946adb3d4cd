import Boot2Deb.Error
import Boot2Deb.Rust.Outcome
import Mathlib.Data.List.Nodup
import Mathlib.Data.List.Lattice

/-!
# The kernel axis (`core/src/resolve.rs`, `core/src/feature.rs`)

`resolve_kernel` composes the fragments and the patch series of a kernel, its device and the
selected features. The features' are taken once each, and then put behind the others as they are: a
series comes once exactly if the kernel, the device and the features name none in common, and
neither the kernel nor the device names one twice.
-/

namespace Boot2Deb.Config
open Rust

inductive KernelFlavor where
  | mainline | vendor | distroPackage
deriving DecidableEq

inductive KernelSource where
  | named (name : Str)
  | git (git gitRef : Str)
deriving DecidableEq

structure CompiledKernelDef where
  flavor : KernelFlavor
  source : KernelSource
  track : Option Str
  baseDefconfig : Str
  configFragments : List Str
  patchSeries : List Str
  patchesUrl : Option Str
  patchesRef : Option Str
  libre : Bool
deriving DecidableEq

inductive KernelDef where
  | compiled (k : CompiledKernelDef)
  | distro (package : Str)
deriving DecidableEq

/-- The kernel inputs of a `DeviceLayer`. -/
structure DeviceKernel where
  deviceDts : List Str
  deviceConfigFragments : List Str
  devicePatchSeries : List Str
  deviceKmods : List Str
deriving DecidableEq

/-- The kernel inputs of a `Feature`. -/
structure FeatureKernel where
  configFragments : List Str
  patchSeries : List Str
deriving DecidableEq

structure ResolvedCompiledKernel where
  id : Str
  flavor : KernelFlavor
  source : KernelSource
  track : Option Str
  baseDefconfig : Str
  patchSeries : List Str
  patchesUrl : Option Str
  patchesRef : Option Str
  configFragments : List Str
  libre : Bool
deriving DecidableEq

inductive ResolvedKernel where
  | compiled (k : ResolvedCompiledKernel)
  | distro (id package : Str)
deriving DecidableEq

/-- `ResolvedKernel::patch_series`. -/
def ResolvedKernel.patchSeries : ResolvedKernel → List Str
  | compiled k => k.patchSeries
  | distro .. => []

def DEFAULT_PATCHES_REF : Str := "main".toList

/-! ### What the features contribute -/

/-- `dedup`: the items the set does not hold yet, each put in. -/
def dedupInto (seen : List Str) : List Str → List Str
  | [] => []
  | s :: items => if s ∈ seen then dedupInto seen items else s :: dedupInto (s :: seen) items

/-- `kernel_contributions`: the fragments and the series, in the order of the selection. -/
def kernelContributions (selected : List (Str × FeatureKernel)) : List Str × List Str :=
  (dedupInto [] (selected.flatMap fun f => f.2.configFragments),
    dedupInto [] (selected.flatMap fun f => f.2.patchSeries))

/-- `first_contributing_kernel_input`. -/
def firstContributingKernelInput (selected : List (Str × FeatureKernel)) : Option (Str × String) :=
  selected.findSome? fun (name, f) =>
    if !f.configFragments.isEmpty then some (name, "config_fragments")
    else if !f.patchSeries.isEmpty then some (name, "patch_series")
    else none

/-! ### The kernel -/

/-- The device inputs no distribution kernel acts on. -/
def DeviceKernel.declared (device : DeviceKernel) : List (String × Bool) :=
  [("device_dts", !device.deviceDts.isEmpty),
    ("device_config_fragments", !device.deviceConfigFragments.isEmpty),
    ("device_patch_series", !device.devicePatchSeries.isEmpty),
    ("device_kmods", !device.deviceKmods.isEmpty)]

/-- The compiled branch of `resolve_kernel`. -/
def resolveCompiled (k : CompiledKernelDef) (kernelId : Str) (device : DeviceKernel)
    (features : List (Str × FeatureKernel)) : Outcome ConfigError ResolvedKernel :=
  let (featureFragments, featureSeries) := kernelContributions features
  let patchSeries := k.patchSeries ++ device.devicePatchSeries ++ featureSeries
  if !patchSeries.isEmpty && k.patchesUrl.isNone then
    .err (.missingPatchesUrl kernelId (join ", ".toList patchSeries))
  else .ok (.compiled {
    id := kernelId
    flavor := k.flavor
    source := k.source
    track := k.track
    baseDefconfig := k.baseDefconfig
    patchSeries := patchSeries
    patchesUrl := k.patchesUrl
    patchesRef := if patchSeries.isEmpty then none
      else some (k.patchesRef.getD DEFAULT_PATCHES_REF)
    configFragments := k.configFragments ++ device.deviceConfigFragments ++ featureFragments
    libre := k.libre })

/-- The distribution branch: nothing is compiled, so no layer may hand it an input. -/
def resolveDistro (package kernelId : Str) (device : DeviceKernel) (deviceName : Str)
    (features : List (Str × FeatureKernel)) : Outcome ConfigError ResolvedKernel :=
  match firstContributingKernelInput features with
  | some (feature, what) => .err (.featureNeedsCompiledKernel feature kernelId what)
  | none =>
    match device.declared.find? fun row => row.2 with
    | some (what, _) => .err (.distroKernelCompilesNothing deviceName kernelId what)
    | none => .ok (.distro kernelId package)

/-- `resolve_kernel`. -/
def resolveKernel (kdef : KernelDef) (kernelId : Str) (device : DeviceKernel) (deviceName : Str)
    (features : List (Str × FeatureKernel)) : Outcome ConfigError ResolvedKernel :=
  match kdef with
  | .compiled k => resolveCompiled k kernelId device features
  | .distro package => resolveDistro package kernelId device deviceName features

/-! ### What a resolved kernel holds -/

/-- The series the kernel itself names. -/
def KernelDef.patchSeries : KernelDef → List Str
  | compiled k => k.patchSeries
  | distro _ => []

variable {kdef : KernelDef} {kernelId deviceName : Str} {device : DeviceKernel}
  {features : List (Str × FeatureKernel)} {resolved : ResolvedKernel}

theorem dedupInto_eq (seen items : List Str) :
    dedupInto seen items = (items.filter (· ∉ seen)).eraseDups := by
  induction items generalizing seen with
  | nil => rfl
  | cons s items ih =>
    rw [dedupInto]
    split_ifs with h
    · rw [ih, List.filter_cons_of_neg (by simpa using h)]
    · rw [ih, List.filter_cons_of_pos (by simpa using h), List.eraseDups_cons, List.filter_filter]
      congr 3
      funext t
      by_cases hts : t = s <;> simp [hts]

theorem nodup_eraseDups {α : Type*} [BEq α] [LawfulBEq α] (items : List α) :
    items.eraseDups.Nodup := by
  induction h : items.length using Nat.strong_induction_on generalizing items with
  | h n ih =>
    cases items with
    | nil => simp
    | cons s items =>
      rw [List.eraseDups_cons, List.nodup_cons]
      refine ⟨by simp, ih _ ?_ _ rfl⟩
      have := List.length_filter_le (fun b => !b == s) items
      rw [List.length_cons] at h
      omega

theorem eraseDups_of_nodup {items : List Str} (h : items.Nodup) : items.eraseDups = items := by
  induction items with
  | nil => rfl
  | cons s items ih =>
    obtain ⟨hs, hitems⟩ := List.nodup_cons.mp h
    have hfilter : items.filter (fun b => !b == s) = items := by
      rw [List.filter_eq_self]
      rintro t ht
      simpa using fun heq : t = s => hs (heq ▸ ht)
    rw [List.eraseDups_cons, hfilter, ih hitems]

/-- Every series contributed: the kernel's, the device's, then the features'. -/
def contributed (kdef : KernelDef) (device : DeviceKernel) (features : List (Str × FeatureKernel)) :
    List Str :=
  kdef.patchSeries ++ device.devicePatchSeries ++ features.flatMap fun f => f.2.patchSeries

/-- Each series contributed, once, where it is first contributed. -/
structure ComposedOnce (all composed : List Str) : Prop where
  nodup : composed.Nodup
  mem_iff : ∀ series, series ∈ composed ↔ series ∈ all
  order : composed = all.eraseDups

/-- No two layers name one series, and none but the features names one twice. -/
structure NamedApart (kdef : KernelDef) (device : DeviceKernel)
    (features : List (Str × FeatureKernel)) : Prop where
  kernelOnce : kdef.patchSeries.Nodup
  deviceOnce : device.devicePatchSeries.Nodup
  apart : ∀ series ∈ kdef.patchSeries, series ∉ device.devicePatchSeries
  featuresApart : ∀ feature ∈ features, ∀ series ∈ feature.2.patchSeries,
    series ∉ kdef.patchSeries ∧ series ∉ device.devicePatchSeries

/-- What is resolved: the two lists as they are, then each series of the features once. -/
theorem patchSeries_of_resolve (h : resolveKernel kdef kernelId device deviceName features =
    .ok resolved) : resolved.patchSeries = kdef.patchSeries ++ device.devicePatchSeries ++
      (features.flatMap fun f => f.2.patchSeries).eraseDups := by
  cases kdef with
  | compiled k =>
    have hseries : dedupInto [] (features.flatMap fun f => f.2.patchSeries) =
        (features.flatMap fun f => f.2.patchSeries).eraseDups := by simp [dedupInto_eq]
    have hok : ∀ (c : Bool) (e : ConfigError) (r : ResolvedKernel),
        (if c = true then Outcome.err e else .ok r) = .ok resolved → r = resolved := by
      intro c e r hr
      split_ifs at hr
      exact Outcome.ok.inj hr
    simp only [resolveKernel, resolveCompiled, kernelContributions] at h
    obtain rfl := hok _ _ _ h
    show k.patchSeries ++ device.devicePatchSeries ++ dedupInto [] _ = _
    rw [hseries, KernelDef.patchSeries]
  | distro package =>
    rw [resolveKernel, resolveDistro] at h
    split at h
    · cases h
    · rename_i hfeatures
      split at h
      · cases h
      · rename_i hdevice
        obtain rfl := Outcome.ok.inj h
        have hseries : device.devicePatchSeries = [] := by
          have := List.find?_eq_none.mp hdevice ("device_patch_series", !device.devicePatchSeries.isEmpty)
            (by simp [DeviceKernel.declared])
          simpa using this
        have hnone : (features.flatMap fun f => f.2.patchSeries) = [] := by
          rw [List.flatMap_eq_nil_iff]
          rintro ⟨name, f⟩ hf
          have := List.findSome?_eq_none_iff.mp hfeatures (name, f) hf
          simp only at this
          split_ifs at this with hfragments hempty
          simpa using hempty
        rw [hseries, hnone]
        rfl

/-- The composed list is free of repetitions exactly if the layers name their series apart. -/
theorem nodup_composed_iff : (kdef.patchSeries ++ device.devicePatchSeries ++
    (features.flatMap fun f => f.2.patchSeries).eraseDups).Nodup ↔
      NamedApart kdef device features := by
  rw [List.nodup_append', List.nodup_append']
  constructor
  · rintro ⟨⟨hkernel, hdevice, hapart⟩, -, hfeatures⟩
    refine ⟨hkernel, hdevice, fun s hs hd => hapart hs hd, fun f hf s hs => ?_⟩
    have hmem : s ∈ (features.flatMap fun f => f.2.patchSeries).eraseDups :=
      List.mem_eraseDups.mpr (List.mem_flatMap.mpr ⟨f, hf, hs⟩)
    exact ⟨fun hk => hfeatures (List.mem_append_left _ hk) hmem,
      fun hd => hfeatures (List.mem_append_right _ hd) hmem⟩
  · rintro ⟨hkernel, hdevice, hapart, hfeatures⟩
    refine ⟨⟨hkernel, hdevice, fun s hs hd => hapart s hs hd⟩, nodup_eraseDups _, fun s hs hf => ?_⟩
    obtain ⟨f, hf, hs'⟩ := List.mem_flatMap.mp (List.mem_eraseDups.mp hf)
    exact (List.mem_append.mp hs).elim (hfeatures f hf s hs').1 (hfeatures f hf s hs').2

/-- A resolved kernel applies every contributed series once, in the order of the layers, exactly if
the layers name their series apart. -/
theorem patch_series_once (h : resolveKernel kdef kernelId device deviceName features =
    .ok resolved) :
    ComposedOnce (contributed kdef device features) resolved.patchSeries ↔
      NamedApart kdef device features := by
  rw [patchSeries_of_resolve h]
  constructor
  · exact fun honce => nodup_composed_iff.mp honce.nodup
  · intro hnamed
    refine ⟨nodup_composed_iff.mpr hnamed, fun s => by simp [contributed], ?_⟩
    have hlayers : (kdef.patchSeries ++ device.devicePatchSeries).Nodup :=
      (List.nodup_append'.mp (nodup_composed_iff.mpr hnamed)).1
    have hremove : (features.flatMap fun f => f.2.patchSeries).removeAll
        (kdef.patchSeries ++ device.devicePatchSeries) = features.flatMap fun f => f.2.patchSeries := by
      rw [List.removeAll, List.filter_eq_self]
      intro s hs
      obtain ⟨f, hf, hs⟩ := List.mem_flatMap.mp hs
      simpa using hnamed.featuresApart f hf s hs
    rw [contributed, List.eraseDups_append, eraseDups_of_nodup hlayers, hremove]

/-- A kernel of one series, with a fix of the board's. -/
def boardKernel : CompiledKernelDef where
  flavor := .mainline
  source := .named "linux-stable".toList
  track := none
  baseDefconfig := "defconfig".toList
  configFragments := []
  patchSeries := ["soc-fixes".toList]
  patchesUrl := some "patches".toList
  patchesRef := none
  libre := false

theorem patch_series_once_board :
    ComposedOnce (contributed (.compiled boardKernel) ⟨[], [], ["board".toList], []⟩
        [("npu".toList, ⟨[], ["npu".toList]⟩), ("camera".toList, ⟨[], ["npu".toList]⟩)])
      ["soc-fixes".toList, "board".toList, "npu".toList] :=
  (@patch_series_once (.compiled boardKernel) "k".toList "b".toList ⟨[], [], ["board".toList], []⟩
    [("npu".toList, ⟨[], ["npu".toList]⟩), ("camera".toList, ⟨[], ["npu".toList]⟩)]
    (.compiled _) rfl).mpr
    ⟨by decide, by decide, by decide, by decide⟩

/-- A series of the board that a feature names as well is applied twice. -/
theorem series_applied_twice :
    ∃ resolved, resolveKernel (.compiled boardKernel) "k".toList ⟨[], [], ["npu".toList], []⟩
        "b".toList [("npu".toList, ⟨[], ["npu".toList]⟩)] = .ok resolved ∧
      resolved.patchSeries = ["soc-fixes".toList, "npu".toList, "npu".toList] ∧
      ¬resolved.patchSeries.Nodup :=
  ⟨_, rfl, by decide, by decide⟩

end Boot2Deb.Config
