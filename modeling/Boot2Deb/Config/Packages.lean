import Boot2Deb.Config.Kernel
import Boot2Deb.Rust.Pattern

/-!
# The package list (`core/src/resolve.rs`, `core/src/model.rs`)

`extend_unique` puts the entries of one layer behind those of the layers before it, an entry that
does not apply left out, and the names any layer excludes are dropped once the last list is in
(`mergePackages_eq`). The nonfree firmware of a SoC and a device is not merged on a libre kernel.
-/

namespace Boot2Deb.Config
open Rust

/-! ### An entry -/

structure ConditionalPackage where
  name : Str
  suites : Option (List Str)
  distros : Option (List Str)
deriving DecidableEq

inductive PackageEntry where
  | plain (name : Str)
  | conditional (c : ConditionalPackage)
deriving DecidableEq

namespace PackageEntry

def name : PackageEntry → Str
  | plain name => name
  | conditional c => c.name

def suites : PackageEntry → Option (List Str)
  | plain _ => none
  | conditional c => c.suites

def distros : PackageEntry → Option (List Str)
  | plain _ => none
  | conditional c => c.distros

/-- `applies_to`. -/
def appliesTo (distro suite : Str) : PackageEntry → Bool
  | plain _ => true
  | conditional c =>
    match c.suites, c.distros with
    | some suites, _ => suite ∈ suites
    | none, some distros => distro ∈ distros
    | none, none => false

def validate (layer : Str) : PackageEntry → Outcome ConfigError Unit
  | plain _ => .ok ()
  | conditional c =>
    let problem := match c.suites, c.distros with
      | some _, some _ => some "sets both `suites` and `distros`"
      | none, none => some "is a table with neither `suites` nor `distros`"
      | some list, none | none, some list =>
        if list.isEmpty then some "names an empty list, so it is installed nowhere" else none
    match problem with
    | some problem => .err (.packageCondition c.name layer problem)
    | none => .ok ()

end PackageEntry

/-! ### The merge -/

/-- A value put in once: the set beside the list holds what the list does. -/
def insertNew {α : Type} [BEq α] [LawfulBEq α] (acc : List α) (a : α) : List α :=
  if a ∈ acc then acc else acc ++ [a]

/-- `extend_names`. -/
def extendNames (acc src : List Str) : List Str := src.foldl insertNew acc

/-- The build a condition is decided against. -/
structure PackageFilter where
  distro : Str
  suite : Str
  knownDistros : List Str

/-- The loop over the distros an entry names. -/
def checkDistros (filter : PackageFilter) (layer package : Str) :
    List Str → Outcome ConfigError Unit
  | [] => .ok ()
  | distro :: distros =>
    if distro ∈ filter.knownDistros then checkDistros filter layer package distros
    else .err (.unknownPackageDistro package layer distro (join ", ".toList filter.knownDistros))

/-- `extend_unique`. -/
def extendUnique (filter : PackageFilter) (layer : Str) :
    List Str → List PackageEntry → Outcome ConfigError (List Str)
  | acc, [] => .ok acc
  | acc, entry :: src => do
    entry.validate layer
    checkDistros filter layer entry.name (entry.distros.getD [])
    extendUnique filter layer
      (if entry.appliesTo filter.distro filter.suite then insertNew acc entry.name else acc) src

/-- The loop over the layers, each with its name. -/
def extendLayers (filter : PackageFilter) :
    List Str → List (Str × List PackageEntry) → Outcome ConfigError (List Str)
  | acc, [] => .ok acc
  | acc, (layer, src) :: layers => do
    extendLayers filter (← extendUnique filter layer acc src) layers

/-! ### The layers -/

inductive InitramfsGenerator where
  | initramfsTools | dracut
deriving DecidableEq

def InitramfsGenerator.package : InitramfsGenerator → Str
  | initramfsTools => "initramfs-tools".toList
  | dracut => "dracut".toList

/-- `ResolvedKernel::libre`. -/
def ResolvedKernel.libre : ResolvedKernel → Bool
  | compiled k => k.libre
  | distro .. => false

/-- The package a distribution's kernel is. -/
def ResolvedKernel.packages : ResolvedKernel → List Str
  | compiled _ => []
  | distro _ package => [package]

/-- The packages of a layer, and the names it drops. -/
structure LayerPackages where
  packages : List PackageEntry
  exclude : List Str
deriving DecidableEq

/-- A layer of the hardware, with the firmware a libre kernel cannot load. -/
structure HardwarePackages extends LayerPackages where
  name : Str
  nonfreeFirmwarePackages : List PackageEntry
deriving DecidableEq

/-- What the layers of a build say of its packages. -/
structure PackageLayers where
  base : LayerPackages
  distroName : Str
  distro : LayerPackages
  initramfsGenerator : InitramfsGenerator
  soc : HardwarePackages
  bootMethod : LayerPackages
  device : HardwarePackages
  kernel : ResolvedKernel
  features : List (Str × LayerPackages)
  /-- What `merge_apps` answers: the deb of every selected app. -/
  apps : Outcome ConfigError (List Str)

namespace PackageLayers

/-- The lists in the order they are merged, the hardware's firmware among them. -/
def sources (layers : PackageLayers) (firmware : HardwarePackages → List PackageEntry) :
    List (Str × List PackageEntry) :=
  let soc := "soc '".toList ++ layers.soc.name ++ "'".toList
  let device := "device '".toList ++ layers.device.name ++ "'".toList
  [("the base layer".toList, layers.base.packages),
    ("distro '".toList ++ layers.distroName ++ "'".toList, layers.distro.packages),
    ("the initramfs generator".toList, [.plain layers.initramfsGenerator.package]),
    (soc, layers.soc.packages),
    (soc, firmware layers.soc),
    ("the boot method".toList, layers.bootMethod.packages),
    (device, layers.device.packages),
    (device, firmware layers.device),
    ("the kernel".toList, layers.kernel.packages.map .plain)] ++
  layers.features.map fun (name, feat) =>
    ("feature '".toList ++ name ++ "'".toList, feat.packages)

/-- The firmware of a hardware layer, none where the kernel is libre. -/
def firmware (layers : PackageLayers) (hardware : HardwarePackages) : List PackageEntry :=
  if layers.kernel.libre then [] else hardware.nonfreeFirmwarePackages

/-- The exclude lists in the order they are merged. -/
def excludes (layers : PackageLayers) : List (List Str) :=
  [layers.base.exclude, layers.distro.exclude, layers.soc.exclude, layers.bootMethod.exclude,
    layers.device.exclude] ++ layers.features.map fun f => f.2.exclude

/-- `rootfs_exclude`. -/
def rootfsExclude (layers : PackageLayers) : List Str := layers.excludes.foldl extendNames []

end PackageLayers

/-- The package list of `resolve`. -/
def mergePackages (layers : PackageLayers) (filter : PackageFilter) :
    Outcome ConfigError (List Str) := do
  let rootfsPackages ← extendLayers filter [] (layers.sources layers.firmware)
  let apps ← layers.apps
  let rootfsPackages ← extendUnique filter "the selected apps".toList rootfsPackages
    (apps.map .plain)
  .ok (rootfsPackages.filter (· ∉ layers.rootfsExclude))

/-! ### What the merge answers -/

variable {filter : PackageFilter} {layer x : Str} {layers : PackageLayers} {acc pkgs : List Str}

/-- The names of the entries that apply, in their order. -/
def applying (filter : PackageFilter) (src : List PackageEntry) : List Str :=
  (src.filter (·.appliesTo filter.distro filter.suite)).map (·.name)

theorem insertNew_eraseDups {α : Type} [BEq α] [LawfulBEq α] (items : List α) (name : α) :
    insertNew items.eraseDups name = (items ++ [name]).eraseDups := by
  rw [insertNew, List.eraseDups_append]
  by_cases h : name ∈ items
  · have hnone : [name].removeAll items = [] := by simp [List.removeAll, h]
    rw [if_pos (List.mem_eraseDups.mpr h), hnone]
    simp
  · have hone : [name].removeAll items = [name] := by simp [List.removeAll, h]
    rw [if_neg (mt List.mem_eraseDups.mp h), hone]
    rfl

theorem extendNames_eraseDups (items src : List Str) :
    extendNames items.eraseDups src = (items ++ src).eraseDups := by
  induction src generalizing items with
  | nil => simp [extendNames]
  | cons name src ih =>
    have hstep : extendNames items.eraseDups (name :: src) =
        extendNames (insertNew items.eraseDups name) src := rfl
    rw [hstep, insertNew_eraseDups, ih, List.append_assoc, List.singleton_append]

theorem rootfsExclude_eq (layers : PackageLayers) :
    layers.rootfsExclude = layers.excludes.flatten.eraseDups := by
  have hfold : ∀ (items : List Str) (lists : List (List Str)),
      lists.foldl extendNames items.eraseDups = (items ++ lists.flatten).eraseDups := by
    intro items lists
    induction lists generalizing items with
    | nil => simp
    | cons list lists ih =>
      rw [List.foldl_cons, extendNames_eraseDups, ih, List.flatten_cons, List.append_assoc]
  simpa [PackageLayers.rootfsExclude] using hfold [] layers.excludes

theorem extendUnique_eraseDups {items : List Str} {src : List PackageEntry}
    (h : extendUnique filter layer items.eraseDups src = .ok acc) :
    acc = (items ++ applying filter src).eraseDups := by
  induction src generalizing items with
  | nil =>
    obtain rfl := Outcome.ok.inj h
    simp [applying]
  | cons entry src ih =>
    obtain ⟨-, -, h⟩ := Outcome.bind_eq_ok.mp h
    obtain ⟨-, -, h⟩ := Outcome.bind_eq_ok.mp h
    by_cases happlies : entry.appliesTo filter.distro filter.suite = true
    · rw [if_pos happlies, insertNew_eraseDups] at h
      rw [ih h, applying, applying, List.filter_cons_of_pos happlies, List.map_cons,
        List.append_assoc, List.singleton_append]
    · rw [if_neg happlies] at h
      rw [ih h, applying, applying, List.filter_cons_of_neg happlies]

theorem extendLayers_eraseDups {items : List Str} {srcs : List (Str × List PackageEntry)}
    (h : extendLayers filter items.eraseDups srcs = .ok acc) :
    acc = (items ++ applying filter (srcs.flatMap Prod.snd)).eraseDups := by
  induction srcs generalizing items with
  | nil =>
    obtain rfl := Outcome.ok.inj h
    simp [applying]
  | cons source srcs ih =>
    obtain ⟨layer, src⟩ := source
    obtain ⟨taken, htaken, h⟩ := Outcome.bind_eq_ok.mp h
    rw [extendUnique_eraseDups htaken] at h
    rw [ih h, List.flatMap_cons, applying, applying, applying, List.filter_append, List.map_append,
      List.append_assoc]

/-- Every entry the merge reads, in its order: the apps come last. -/
def PackageLayers.merged (layers : PackageLayers) (apps : List Str) : List PackageEntry :=
  (layers.sources layers.firmware).flatMap Prod.snd ++ apps.map .plain

theorem applying_append (filter : PackageFilter) (src more : List PackageEntry) :
    applying filter (src ++ more) = applying filter src ++ applying filter more := by
  rw [applying, List.filter_append, List.map_append, applying, applying]

theorem mergePackages_eq (h : mergePackages layers filter = .ok pkgs) :
    ∃ apps, layers.apps = .ok apps ∧ pkgs =
      ((applying filter (layers.merged apps)).eraseDups).filter (· ∉ layers.excludes.flatten) := by
  obtain ⟨taken, htaken, h⟩ := Outcome.bind_eq_ok.mp h
  obtain ⟨apps, happs, h⟩ := Outcome.bind_eq_ok.mp h
  obtain ⟨all, hall, h⟩ := Outcome.bind_eq_ok.mp h
  obtain rfl := Outcome.ok.inj h
  have htaken := (@extendLayers_eraseDups _ _ []) htaken
  rw [List.nil_append] at htaken
  rw [htaken] at hall
  refine ⟨apps, happs, ?_⟩
  rw [extendUnique_eraseDups hall, PackageLayers.merged, applying_append, rootfsExclude_eq]
  refine List.filter_congr fun name _ => ?_
  simp only [List.mem_eraseDups]

/-! ### An exclusion more -/

/-- The layers that can exclude. -/
inductive ExcludeSource (layers : PackageLayers) where
  | base | distro | soc | bootMethod | device
  | feature (i : Fin layers.features.length)

def LayerPackages.addExclude (x : Str) (l : LayerPackages) : LayerPackages :=
  { l with exclude := l.exclude ++ [x] }

def HardwarePackages.addExclude (x : Str) (l : HardwarePackages) : HardwarePackages :=
  { l with exclude := l.exclude ++ [x] }

/-- The same layers, one of which excludes a name more. -/
def PackageLayers.addExclude (x : Str) (layers : PackageLayers) :
    ExcludeSource layers → PackageLayers
  | .base => { layers with base := layers.base.addExclude x }
  | .distro => { layers with distro := layers.distro.addExclude x }
  | .soc => { layers with soc := layers.soc.addExclude x }
  | .bootMethod => { layers with bootMethod := layers.bootMethod.addExclude x }
  | .device => { layers with device := layers.device.addExclude x }
  | .feature i =>
    { layers with features := layers.features.modify i fun f => (f.1, f.2.addExclude x) }

/-- What the merge reads besides the excludes is what it was. -/
theorem mergePackages_addExclude_sources (source : ExcludeSource layers) :
    (layers.addExclude x source).sources (layers.addExclude x source).firmware =
      layers.sources layers.firmware ∧ (layers.addExclude x source).apps = layers.apps := by
  cases source with
  | feature i =>
    refine ⟨?_, rfl⟩
    have hmap : (layers.features.modify i fun f => (f.1, f.2.addExclude x)).map
        (fun (name, feat) => ("feature '".toList ++ name ++ "'".toList, feat.packages)) =
          layers.features.map
            fun (name, feat) => ("feature '".toList ++ name ++ "'".toList, feat.packages) := by
      refine List.ext_getElem (by simp) fun j hj hj' => ?_
      simp only [List.getElem_map, List.getElem_modify]
      split <;> rfl
    show _ ++ (layers.features.modify i fun f => (f.1, f.2.addExclude x)).map _ = _
    rw [hmap]
    rfl
  | _ => exact ⟨rfl, rfl⟩

theorem mem_excludes_addExclude (source : ExcludeSource layers) (name : Str) :
    name ∈ (layers.addExclude x source).excludes.flatten ↔
      name = x ∨ name ∈ layers.excludes.flatten := by
  cases source with
  | feature i =>
    have hmem : (∃ f ∈ layers.features.modify i fun f => (f.1, f.2.addExclude x),
        name ∈ f.2.exclude) ↔ name = x ∨ ∃ f ∈ layers.features, name ∈ f.2.exclude := by
      constructor
      · rintro ⟨f, hf, hname⟩
        obtain ⟨j, hj, rfl⟩ := List.getElem_of_mem hf
        rw [List.getElem_modify] at hname
        have hj' : j < layers.features.length := by simpa using hj
        split at hname
        · rcases List.mem_append.mp hname with h | h
          · exact .inr ⟨_, List.getElem_mem hj', h⟩
          · exact .inl (List.mem_singleton.mp h)
        · exact .inr ⟨_, List.getElem_mem hj', hname⟩
      · rintro (rfl | ⟨f, hf, hname⟩)
        · refine ⟨(layers.features.modify i _).get ⟨i.1, by simp⟩, List.get_mem _ _, ?_⟩
          rw [List.get_eq_getElem, List.getElem_modify, if_pos rfl]
          exact List.mem_append_right _ (List.mem_singleton.mpr rfl)
        · obtain ⟨j, hj, rfl⟩ := List.getElem_of_mem hf
          refine ⟨(layers.features.modify i _).get ⟨j, by simpa using hj⟩, List.get_mem _ _, ?_⟩
          rw [List.get_eq_getElem, List.getElem_modify]
          split
          · exact List.mem_append_left _ hname
          · exact hname
    simp only [PackageLayers.excludes, PackageLayers.addExclude, List.flatten_append,
      List.mem_append, List.mem_flatten, List.mem_map, exists_exists_and_eq_and, hmem]
    rw [or_left_comm]
  | _ =>
    simp only [PackageLayers.excludes, PackageLayers.addExclude, LayerPackages.addExclude,
      HardwarePackages.addExclude, List.flatten_append, List.flatten_cons, List.mem_append,
      List.mem_singleton]
    tauto

/-- A name excluded anywhere is gone, and nothing else changes. -/
theorem mergePackages_addExclude (h : mergePackages layers filter = .ok pkgs)
    (source : ExcludeSource layers) :
    mergePackages (layers.addExclude x source) filter = .ok (pkgs.filter (· ≠ x)) := by
  obtain ⟨taken, htaken, h⟩ := Outcome.bind_eq_ok.mp h
  obtain ⟨apps, happs, h⟩ := Outcome.bind_eq_ok.mp h
  obtain ⟨all, hall, h⟩ := Outcome.bind_eq_ok.mp h
  obtain rfl := Outcome.ok.inj h
  obtain ⟨hsources, hsame⟩ := mergePackages_addExclude_sources (x := x) source
  rw [mergePackages, hsources, htaken, Outcome.ok_bind, hsame, happs, Outcome.ok_bind, hall,
    Outcome.ok_bind, List.filter_filter]
  congr 1
  refine List.filter_congr fun name _ => ?_
  rw [rootfsExclude_eq, rootfsExclude_eq]
  simp only [List.mem_eraseDups, mem_excludes_addExclude, not_or, Bool.decide_and]

/-- What a resolved package list is. -/
structure ExactPackages (layers : PackageLayers) (filter : PackageFilter) (apps pkgs : List Str) :
    Prop where
  nodup : pkgs.Nodup
  mem_iff : ∀ name, name ∈ pkgs ↔
    (∃ entry ∈ layers.merged apps, entry.appliesTo filter.distro filter.suite = true ∧
      entry.name = name) ∧ name ∉ layers.excludes.flatten
  order : pkgs =
    (applying filter (layers.merged apps)).eraseDups.filter (· ∉ layers.excludes.flatten)

/-- The names that apply, each once and where it first comes, but those any layer excludes. -/
theorem mergePackages_exact (h : mergePackages layers filter = .ok pkgs) :
    (∃ apps, layers.apps = .ok apps ∧ ExactPackages layers filter apps pkgs) ∧
      ∀ (source : ExcludeSource layers) (x : Str),
        mergePackages (layers.addExclude x source) filter = .ok (pkgs.filter (· ≠ x)) := by
  refine ⟨?_, fun source x => mergePackages_addExclude h source⟩
  obtain ⟨apps, happs, hpkgs⟩ := mergePackages_eq h
  refine ⟨apps, happs, ?_, ?_, hpkgs⟩
  · rw [hpkgs]
    exact (nodup_eraseDups _).filter _
  · intro name
    rw [hpkgs]
    simp [applying, and_assoc]

/-- A board of two packages whose firmware its kernel cannot load. -/
def libreBoard : PackageLayers where
  base := ⟨[.plain "bash".toList, .conditional ⟨"wget".toList, some ["sid".toList], none⟩], []⟩
  distroName := "debian".toList
  distro := ⟨[.conditional ⟨"ntpsec".toList, none, some ["debian".toList]⟩], []⟩
  initramfsGenerator := .initramfsTools
  soc := ⟨⟨[], ["nano".toList]⟩, "rk3399".toList, []⟩
  bootMethod := ⟨[], []⟩
  device := ⟨⟨[.plain "bash".toList], []⟩, "board".toList, [.plain "firmware-atheros".toList]⟩
  kernel := .compiled ⟨"libre".toList, .mainline, .named "linux".toList, none, [], [], none, none, [],
    true⟩
  features := [("editor".toList, ⟨[.plain "nano".toList], []⟩)]
  apps := .ok ["tool".toList]

def trixie : PackageFilter := ⟨"debian".toList, "trixie".toList, ["debian".toList]⟩

theorem libreBoard_packages : mergePackages libreBoard trixie =
    .ok ["bash".toList, "ntpsec".toList, "initramfs-tools".toList, "tool".toList] := by
  decide +kernel

theorem libreBoard_exact :
    ∃ pkgs, mergePackages libreBoard trixie = .ok pkgs ∧
      (∃ apps, libreBoard.apps = .ok apps ∧ ExactPackages libreBoard trixie apps pkgs) ∧
        ∀ (source : ExcludeSource libreBoard) (x : Str),
          mergePackages (libreBoard.addExclude x source) trixie = .ok (pkgs.filter (· ≠ x)) :=
  ⟨_, libreBoard_packages, mergePackages_exact libreBoard_packages⟩

/-- An entry of the device that applies everywhere and that nothing excludes is not installed. -/
theorem libreBoard_firmware :
    ∃ pkgs, mergePackages libreBoard trixie = .ok pkgs ∧
      ∃ entry ∈ libreBoard.device.nonfreeFirmwarePackages,
        entry.appliesTo trixie.distro trixie.suite = true ∧
          entry.name ∉ libreBoard.excludes.flatten ∧ entry.name ∉ pkgs :=
  ⟨_, libreBoard_packages, .plain "firmware-atheros".toList, List.mem_singleton_self _, rfl,
    by decide +kernel, by decide +kernel⟩

end Boot2Deb.Config
