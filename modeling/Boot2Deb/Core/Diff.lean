import Mathlib
import Boot2Deb.Rust.Text
import Boot2Deb.Lib.Keyed
import Boot2Deb.Lib.TreeMap

/-!
# Comparing two build points

Two sides are compared section by section. Packages are compared by name, of several rows with one
name the last; patch axes and sources axis by axis, of several on one axis the first; the series of
a patch axis by membership. A section that reports nothing on an axis both sides carry means that
they record the same there exactly if what it compares differs or the rest is the same:
`quietMeansEqual_iff`. The fragment sets of the kernels are of a type of their own, and so is the
difference of two.
-/

namespace Boot2Deb.Core

open Rust Std

/-- A package as a manifest line holds it. -/
structure Package where
  name : Str
  version : Str
  architecture : Str
  sha256 : Str
deriving DecidableEq

structure KernelFacts where
  id : Str
  flavor : Option Str
  source : Option Str
  reference : Option Str
  commit : Option Str
  package : Option Str
deriving DecidableEq

/-- One patch axis's pin: the series in application order, and the ref and commit of the patches. -/
structure PatchAxis where
  axis : Str
  series : List Str
  reference : Option Str
  commit : Option Str
deriving DecidableEq

structure SourcePin where
  axis : Str
  reference : Option Str
  commit : Option Str
deriving DecidableEq

structure BlobFacts where
  atf : Str
  tpl : Str
  bl32 : Option Str
deriving DecidableEq

/-- What a comparison reads about one build point. A `none` means the document does not say. -/
structure Side (FragmentSet : Type) where
  label : Str
  kernel : Option KernelFacts
  patches : List PatchAxis
  sources : List SourcePin
  blobs : Option BlobFacts
  packages : Option (List Package)
  kconfig : Option FragmentSet

/-- One section's result. -/
inductive Section (α : Type) where
  | unavailable (why : Str)
  | compared (changes : α)
deriving DecidableEq

/-- Nothing to report: nothing compared, or no changes. -/
def Section.isQuiet {α : Type} (isEmpty : α → Bool) : Section α → Bool
  | .unavailable _ => true
  | .compared changes => isEmpty changes

/-- One value that moved. -/
structure Change where
  was : Option Str
  now : Option Str
deriving DecidableEq

/-- A change between two optional values, none where they agree. -/
def Change.between (was now : Option Str) : Option Change :=
  if was ≠ now then some ⟨was, now⟩ else none

structure PackageRef where
  name : Str
  version : Str
  architecture : Str
deriving DecidableEq

structure VersionChange where
  name : Str
  was : Str
  now : Str
deriving DecidableEq

structure PackageChanges where
  added : List PackageRef
  removed : List PackageRef
  changed : List VersionChange
  rebuilt : List PackageRef
deriving DecidableEq

def PackageChanges.isEmpty (c : PackageChanges) : Bool :=
  c.added.isEmpty && c.removed.isEmpty && c.changed.isEmpty && c.rebuilt.isEmpty

structure SymbolChange where
  symbol : Str
  was : Str
  now : Str
  wasFragment : Option Str
  nowFragment : Option Str
deriving DecidableEq

structure KernelChanges where
  id : Option Change
  flavor : Option Change
  source : Option Change
  reference : Option Change
  commit : Option Change
  package : Option Change
  kconfig : Section (List SymbolChange)
deriving DecidableEq

def KernelChanges.isEmpty (c : KernelChanges) : Bool :=
  c.id.isNone && c.flavor.isNone && c.source.isNone && c.reference.isNone && c.commit.isNone &&
    c.package.isNone && c.kconfig.isQuiet List.isEmpty

structure PatchAxisChange where
  axis : Str
  seriesAdded : List Str
  seriesRemoved : List Str
  reference : Option Change
  commit : Option Change
deriving DecidableEq

structure SourceChange where
  axis : Str
  reference : Option Change
  commit : Option Change
deriving DecidableEq

variable {FragmentSet : Type}

/-- Which side is missing a section. Both having it is `unreachable!`. -/
def missing (left right : Side FragmentSet) (hasLeft hasRight : Bool) (what : Str) : Str :=
  match hasLeft, hasRight with
  | false, false => "neither side records ".toList ++ what
  | false, true => left.label ++ " does not record ".toList ++ what
  | true, false => right.label ++ " does not record ".toList ++ what
  | true, true => []

/-- The packages by name. Of several with one name the last stays. -/
def index (ps : List Package) : ExtTreeMap Str Package compare :=
  ps.foldl (fun m p => m.insert p.name p) ∅

def Package.asRef (p : Package) : PackageRef := ⟨p.name, p.version, p.architecture⟩

def comparePackages (left right : Side FragmentSet) : Section PackageChanges :=
  match left.packages, right.packages with
  | some l, some r =>
    let l := index l
    let r := index r
    .compared {
      added := r.toList.filterMap fun (name, pkg) =>
        if l[name]?.isNone then some pkg.asRef else none
      changed := r.toList.filterMap fun (name, pkg) =>
        match l[name]? with
        | some was =>
          if was.version ≠ pkg.version then some ⟨name, was.version, pkg.version⟩ else none
        | none => none
      rebuilt := r.toList.filterMap fun (name, pkg) =>
        match l[name]? with
        | some was =>
          if was.version = pkg.version ∧ was.sha256 ≠ pkg.sha256 then some pkg.asRef else none
        | none => none
      removed := l.toList.filterMap fun (name, pkg) =>
        if r.contains name then none else some pkg.asRef }
  | l, r => .unavailable
      (missing left right l.isSome r.isSome "a solved package manifest".toList)

def kconfigWhat : Str :=
  ("a kernel fragment set (a distro-package kernel merges none, and a fragment set is resolved " ++
    "from the config tree rather than named by any document a build writes)").toList

def compareKernel (diff : FragmentSet → FragmentSet → List SymbolChange)
    (left right : Side FragmentSet) : Section KernelChanges :=
  match left.kernel, right.kernel with
  | some l, some r =>
    .compared {
      id := Change.between (some l.id) (some r.id)
      flavor := Change.between l.flavor r.flavor
      source := Change.between l.source r.source
      reference := Change.between l.reference r.reference
      commit := Change.between l.commit r.commit
      package := Change.between l.package r.package
      kconfig := match left.kconfig, right.kconfig with
        | some lc, some rc => .compared (diff lc rc)
        | lc, rc => .unavailable (missing left right lc.isSome rc.isSome kconfigWhat) }
  | l, r => .unavailable (missing left right l.isSome r.isSome "a kernel pin".toList)

/-- The sorted axes of both sides, each once. -/
def axes (left right : List Str) : List Str := dedup (sortUnstable (left ++ right))

/-- What changed on one patch axis. A side without it has the empty series at no commit. -/
def patchChange (left right : List PatchAxis) (axis : Str) : Option PatchAxisChange :=
  let l := firstWith PatchAxis.axis left axis
  let r := firstWith PatchAxis.axis right axis
  let ls := (l.map PatchAxis.series).getD []
  let rs := (r.map PatchAxis.series).getD []
  let change : PatchAxisChange := {
    axis := axis
    seriesAdded := rs.filter fun s => !ls.contains s
    seriesRemoved := ls.filter fun s => !rs.contains s
    reference := Change.between (l.bind PatchAxis.reference) (r.bind PatchAxis.reference)
    commit := Change.between (l.bind PatchAxis.commit) (r.bind PatchAxis.commit) }
  let quiet := change.seriesAdded.isEmpty && change.seriesRemoved.isEmpty &&
    change.reference.isNone && change.commit.isNone
  if quiet then none else some change

def comparePatches (left right : Side FragmentSet) : Section (List PatchAxisChange) :=
  if left.patches.isEmpty && right.patches.isEmpty then
    .unavailable "neither side applies a patch series".toList
  else .compared ((axes (left.patches.map PatchAxis.axis) (right.patches.map PatchAxis.axis)).filterMap
    (patchChange left.patches right.patches))

def sourceChange (left right : List SourcePin) (axis : Str) : Option SourceChange :=
  let l := firstWith SourcePin.axis left axis
  let r := firstWith SourcePin.axis right axis
  let change : SourceChange := {
    axis := axis
    reference := Change.between (l.bind SourcePin.reference) (r.bind SourcePin.reference)
    commit := Change.between (l.bind SourcePin.commit) (r.bind SourcePin.commit) }
  if change.reference.isSome || change.commit.isSome then some change else none

def compareSources (left right : Side FragmentSet) : Section (List SourceChange) :=
  if left.sources.isEmpty && right.sources.isEmpty then
    .unavailable "neither side pins a source outside the kernel".toList
  else .compared ((axes (left.sources.map SourcePin.axis) (right.sources.map SourcePin.axis)).filterMap
    (sourceChange left.sources right.sources))

def compareBlobs (left right : Side FragmentSet) : Section (List Change) :=
  match left.blobs, right.blobs with
  | some l, some r => .compared [
      Change.between (some l.atf) (some r.atf), Change.between (some l.tpl) (some r.tpl),
      Change.between l.bl32 r.bl32].reduceOption
  | l, r => .unavailable (missing left right l.isSome r.isSome "rkbin blob pins".toList)

/-! ### What is compared on an axis -/

theorem Change.between_eq_none {was now : Option Str} : Change.between was now = none ↔ was = now := by
  unfold Change.between
  by_cases h : was = now <;> simp [h]

theorem mem_axes {left right : List Str} {axis : Str} :
    axis ∈ axes left right ↔ axis ∈ left ∨ axis ∈ right := by
  unfold axes
  rw [mem_dedup, mem_sortUnstable, List.mem_append]

/-- The two lists hold the same series. -/
def SameMembers (ls rs : List Str) : Prop := ∀ s, s ∈ ls ↔ s ∈ rs

theorem filter_contains_eq_nil {ls rs : List Str} :
    (rs.filter fun s => !ls.contains s) = [] ↔ ∀ s ∈ rs, s ∈ ls := by
  simp [List.filter_eq_nil_iff]

theorem patchChange_eq_none {left right : List PatchAxis} {axis : Str} :
    patchChange left right axis = none ↔
      SameMembers (((firstWith PatchAxis.axis left axis).map PatchAxis.series).getD [])
        (((firstWith PatchAxis.axis right axis).map PatchAxis.series).getD []) ∧
      (firstWith PatchAxis.axis left axis).bind PatchAxis.reference =
        (firstWith PatchAxis.axis right axis).bind PatchAxis.reference ∧
      (firstWith PatchAxis.axis left axis).bind PatchAxis.commit =
        (firstWith PatchAxis.axis right axis).bind PatchAxis.commit := by
  unfold patchChange
  simp only [ite_eq_left_iff, reduceCtorEq, imp_false, not_not, Bool.and_eq_true,
    List.isEmpty_iff, Option.isNone_iff_eq_none, Change.between_eq_none, filter_contains_eq_nil]
  unfold SameMembers
  constructor
  · rintro ⟨⟨⟨hadded, hremoved⟩, hreference⟩, hcommit⟩
    exact ⟨fun s => ⟨hremoved s, hadded s⟩, hreference, hcommit⟩
  · rintro ⟨hseries, hreference, hcommit⟩
    exact ⟨⟨⟨fun s => (hseries s).mpr, fun s => (hseries s).mp⟩, hreference⟩, hcommit⟩

theorem axis_of_patchChange {left right : List PatchAxis} {axis : Str} {change : PatchAxisChange}
    (h : patchChange left right axis = some change) : change.axis = axis := by
  unfold patchChange at h
  simp only [Option.ite_none_left_eq_some, Option.some.injEq] at h
  rw [← h.2]

theorem sourceChange_eq_none {left right : List SourcePin} {axis : Str} :
    sourceChange left right axis = none ↔
      (firstWith SourcePin.axis left axis).bind SourcePin.reference =
        (firstWith SourcePin.axis right axis).bind SourcePin.reference ∧
      (firstWith SourcePin.axis left axis).bind SourcePin.commit =
        (firstWith SourcePin.axis right axis).bind SourcePin.commit := by
  unfold sourceChange
  simp only [ite_eq_right_iff, reduceCtorEq, imp_false, Bool.or_eq_true, not_or, Bool.not_eq_true,
    Option.isSome_eq_false_iff, Option.isNone_iff_eq_none, Change.between_eq_none]

theorem axis_of_sourceChange {left right : List SourcePin} {axis : Str} {change : SourceChange}
    (h : sourceChange left right axis = some change) : change.axis = axis := by
  unfold sourceChange at h
  simp only [Option.ite_none_right_eq_some, Option.some.injEq] at h
  rw [← h.2]

/-- What is compared of the last row of a package. -/
def Package.compared (p : Package) : Str × Str := (p.version, p.sha256)

def lastNamed (ps : List Package) (name : Str) : Option Package :=
  firstWith Package.name ps.reverse name

theorem getElem?_index {ps : List Package} {name : Str} : (index ps)[name]? = lastNamed ps name := by
  unfold index lastNamed
  rw [getElem?_foldl_insert]
  simp

/-- No package is reported exactly if the last rows of each name have one version and digest. -/
theorem comparePackages_isQuiet {l r : Side FragmentSet} {lp rp : List Package}
    (hl : l.packages = some lp) (hr : r.packages = some rp) :
    (comparePackages l r).isQuiet PackageChanges.isEmpty = true ↔
      ∀ name, (lastNamed lp name).map Package.compared = (lastNamed rp name).map Package.compared := by
  unfold comparePackages
  simp only [hl, hr, Section.isQuiet, PackageChanges.isEmpty, Bool.and_eq_true, List.isEmpty_iff,
    List.filterMap_eq_nil_iff, Prod.forall, ExtTreeMap.mem_toList_iff_getElem?_eq_some,
    getElem?_index, and_assoc]
  constructor
  · rintro ⟨hadded, hremoved, hchanged, hrebuilt⟩ name
    cases hr' : lastNamed rp name with
    | none =>
      cases hl' : lastNamed lp name with
      | none => rfl
      | some was =>
        have := hremoved name was hl'
        rw [ExtTreeMap.contains_eq_isSome_getElem?, getElem?_index, hr'] at this
        cases this
    | some pkg =>
      have hadded := hadded name pkg hr'
      have hchanged := hchanged name pkg hr'
      have hrebuilt := hrebuilt name pkg hr'
      cases hl' : lastNamed lp name with
      | none =>
        rw [hl'] at hadded
        cases hadded
      | some was =>
        have hversion : was.version = pkg.version := by
          rw [hl'] at hchanged
          by_contra hne
          simp [hne] at hchanged
        have hsha256 : was.sha256 = pkg.sha256 := by
          rw [hl'] at hrebuilt
          by_contra hne
          simp [hversion, hne] at hrebuilt
        show some (was.version, was.sha256) = some (pkg.version, pkg.sha256)
        rw [hversion, hsha256]
  · intro h
    have hboth : ∀ name pkg, lastNamed rp name = some pkg →
        ∃ was, lastNamed lp name = some was ∧ was.version = pkg.version ∧
          was.sha256 = pkg.sha256 := by
      intro name pkg hr'
      have hname := h name
      rw [hr'] at hname
      obtain ⟨was, hwas, heq⟩ := Option.map_eq_some_iff.mp hname
      exact ⟨was, hwas, congrArg Prod.fst heq, congrArg Prod.snd heq⟩
    refine ⟨fun name pkg hr' => ?_, fun name was hl' => ?_, fun name pkg hr' => ?_,
      fun name pkg hr' => ?_⟩
    · obtain ⟨was, hwas, -⟩ := hboth name pkg hr'
      simp [hwas]
    · have hname := h name
      rw [hl'] at hname
      obtain ⟨pkg, hpkg, -⟩ := Option.map_eq_some_iff.mp hname.symm
      rw [ExtTreeMap.contains_eq_isSome_getElem?, getElem?_index, hpkg]
      rfl
    · obtain ⟨was, hwas, hversion, -⟩ := hboth name pkg hr'
      simp [hwas, hversion]
    · obtain ⟨was, hwas, hversion, hsha256⟩ := hboth name pkg hr'
      simp [hwas, hversion, hsha256]

/-! ### Quiet and equal -/

/-- The section reports nothing on the axis. -/
def Section.QuietOn {α : Type} (axisOf : α → Str) (s : Section (List α)) (axis : Str) : Prop :=
  ∀ changes, s = .compared changes → ∀ change ∈ changes, axisOf change ≠ axis

/-- A package row: name, version and architecture. -/
def Package.row (p : Package) : Str × Str × Str := (p.name, p.version, p.architecture)

/-- Where both sides carry packages, or an axis of the patches or the sources, and nothing is
reported, they record the same: the same rows, the same axis with its series in order. -/
structure QuietMeansEqual (l r : Side FragmentSet) : Prop where
  packages : ∀ lp rp, l.packages = some lp → r.packages = some rp →
    (comparePackages l r).isQuiet PackageChanges.isEmpty = true →
    (lp.map Package.row).Perm (rp.map Package.row)
  patches : ∀ axis, (∃ p ∈ l.patches, p.axis = axis) → (∃ q ∈ r.patches, q.axis = axis) →
    (comparePatches l r).QuietOn PatchAxisChange.axis axis →
    (l.patches.filter fun p => p.axis = axis) = r.patches.filter fun q => q.axis = axis
  sources : ∀ axis, (∃ p ∈ l.sources, p.axis = axis) → (∃ q ∈ r.sources, q.axis = axis) →
    (compareSources l r).QuietOn SourceChange.axis axis →
    (l.sources.filter fun p => p.axis = axis) = r.sources.filter fun q => q.axis = axis

/-- A compared value differs, or the rest is the same. Compared are the version and digest of the
last row of each package, and of the first entry on an axis the ref, the commit and which series it
names; the rest is the architectures and the other rows, the order of the series, and the further
entries on the axis. -/
structure TellsApart (l r : Side FragmentSet) : Prop where
  packages : ∀ lp rp, l.packages = some lp → r.packages = some rp →
    (∃ name, (lastNamed lp name).map Package.compared ≠ (lastNamed rp name).map Package.compared) ∨
    ∀ name, ((lp.filter fun p => p.name = name).map Package.row).Perm
      ((rp.filter fun p => p.name = name).map Package.row)
  patches : ∀ axis p ps q qs, (l.patches.filter fun p => p.axis = axis) = p :: ps →
    (r.patches.filter fun q => q.axis = axis) = q :: qs →
    p.reference ≠ q.reference ∨ p.commit ≠ q.commit ∨ ¬SameMembers p.series q.series ∨
    (p.series = q.series ∧ ps = qs)
  sources : ∀ axis p ps q qs, (l.sources.filter fun p => p.axis = axis) = p :: ps →
    (r.sources.filter fun q => q.axis = axis) = q :: qs →
    p.reference ≠ q.reference ∨ p.commit ≠ q.commit ∨ ps = qs

variable {l r : Side FragmentSet}

section Axes
variable {α β : Type} {f : Str → Option α} {key : β → Str} {left right : List β} {why : Str}

/-- The section of what a function reports on the axes of two lists of rows. -/
def overAxes (f : Str → Option α) (key : β → Str) (left right : List β) (why : Str) :
    Section (List α) :=
  if left.isEmpty && right.isEmpty then .unavailable why
  else .compared ((axes (left.map key) (right.map key)).filterMap f)

/-- A function that keeps the axis reports nothing on one exactly if it is silent there. -/
theorem quietOn_overAxes {axisOf : α → Str} (hf : ∀ axis change, f axis = some change →
    axisOf change = axis) {axis : Str} (h : ∃ x ∈ left, key x = axis) :
    (overAxes f key left right why).QuietOn axisOf axis ↔ f axis = none := by
  obtain ⟨x, hx, haxis⟩ := h
  have hsome : (left.isEmpty && right.isEmpty) = false := by
    rw [List.isEmpty_eq_false_iff.mpr (List.ne_nil_of_mem hx)]
    rfl
  have hmem : axis ∈ axes (left.map key) (right.map key) :=
    mem_axes.mpr (.inl (List.mem_map.mpr ⟨x, hx, haxis⟩))
  unfold overAxes Section.QuietOn
  rw [hsome]
  constructor
  · intro h
    by_contra hne
    obtain ⟨change, hchange⟩ := Option.ne_none_iff_exists'.mp hne
    exact h _ rfl change (List.mem_filterMap.mpr ⟨axis, hmem, hchange⟩) (hf axis change hchange)
  · rintro hnone _ ⟨⟩ change hmem heq
    obtain ⟨other, -, hchange⟩ := List.mem_filterMap.mp hmem
    rw [← hf other change hchange, heq, hnone] at hchange
    cases hchange

/-- Where a function is silent on an axis no row has, its section is quiet exactly if it is silent
everywhere. -/
theorem isQuiet_overAxes (hf : ∀ axis, axis ∉ left.map key → axis ∉ right.map key →
    f axis = none) :
    (overAxes f key left right why).isQuiet List.isEmpty = true ↔ ∀ axis, f axis = none := by
  unfold overAxes
  split_ifs with h
  · simp only [Bool.and_eq_true, List.isEmpty_iff] at h
    refine iff_of_true rfl fun axis => hf axis ?_ ?_ <;> simp [h]
  · simp only [Section.isQuiet, List.isEmpty_iff, List.filterMap_eq_nil_iff, mem_axes]
    refine ⟨fun h axis => ?_, fun h axis _ => h axis⟩
    by_cases hmem : axis ∈ left.map key ∨ axis ∈ right.map key
    · exact h axis hmem
    · rw [not_or] at hmem
      exact hf axis hmem.1 hmem.2

end Axes

theorem comparePatches_quietOn {axis : Str} (h : ∃ p ∈ l.patches, p.axis = axis) :
    (comparePatches l r).QuietOn PatchAxisChange.axis axis ↔
      patchChange l.patches r.patches axis = none :=
  quietOn_overAxes (fun _ _ => axis_of_patchChange) h

theorem compareSources_quietOn {axis : Str} (h : ∃ p ∈ l.sources, p.axis = axis) :
    (compareSources l r).QuietOn SourceChange.axis axis ↔
      sourceChange l.sources r.sources axis = none :=
  quietOn_overAxes (fun _ _ => axis_of_sourceChange) h

theorem firstWith_eq_none_of_not_mem {β : Type} {key : β → Str} {rows : List β} {axis : Str}
    (h : axis ∉ rows.map key) : firstWith key rows axis = none :=
  firstWith_eq_none.mpr fun _ hx hkey => h (List.mem_map.mpr ⟨_, hx, hkey⟩)

theorem comparePatches_isQuiet : (comparePatches l r).isQuiet List.isEmpty = true ↔
    ∀ axis, patchChange l.patches r.patches axis = none := by
  refine isQuiet_overAxes fun axis hl hr => ?_
  rw [patchChange_eq_none, firstWith_eq_none_of_not_mem hl, firstWith_eq_none_of_not_mem hr]
  exact ⟨fun _ => Iff.rfl, rfl, rfl⟩

theorem compareSources_isQuiet : (compareSources l r).isQuiet List.isEmpty = true ↔
    ∀ axis, sourceChange l.sources r.sources axis = none := by
  refine isQuiet_overAxes fun axis hl hr => ?_
  rw [sourceChange_eq_none, firstWith_eq_none_of_not_mem hl, firstWith_eq_none_of_not_mem hr]
  exact ⟨rfl, rfl⟩

theorem exists_of_filter_cons {α : Type} {key : α → Str} {entries : List α} {axis : Str} {p : α}
    {ps : List α} (h : (entries.filter fun p => key p = axis) = p :: ps) :
    p ∈ entries ∧ key p = axis := by
  have hp : p ∈ entries.filter fun p => key p = axis := by
    rw [h]
    exact List.mem_cons_self
  simpa using hp

theorem patchChange_eq_none_of_filter {axis : Str} {p q : PatchAxis} {ps qs : List PatchAxis}
    (hl : (l.patches.filter fun p => p.axis = axis) = p :: ps)
    (hr : (r.patches.filter fun q => q.axis = axis) = q :: qs) :
    patchChange l.patches r.patches axis = none ↔
      SameMembers p.series q.series ∧ p.reference = q.reference ∧ p.commit = q.commit := by
  rw [patchChange_eq_none, firstWith_of_filter hl, firstWith_of_filter hr]
  rfl

theorem sourceChange_eq_none_of_filter {axis : Str} {p q : SourcePin} {ps qs : List SourcePin}
    (hl : (l.sources.filter fun p => p.axis = axis) = p :: ps)
    (hr : (r.sources.filter fun q => q.axis = axis) = q :: qs) :
    sourceChange l.sources r.sources axis = none ↔
      p.reference = q.reference ∧ p.commit = q.commit := by
  rw [sourceChange_eq_none, firstWith_of_filter hl, firstWith_of_filter hr]
  rfl

theorem perm_rows_iff {lp rp : List Package} : (lp.map Package.row).Perm (rp.map Package.row) ↔
    ∀ name, ((lp.filter fun p => p.name = name).map Package.row).Perm
      ((rp.filter fun p => p.name = name).map Package.row) := by
  rw [perm_iff_forall_key Prod.fst]
  have hfilter : ∀ (ps : List Package) (name : Str),
      ((ps.map Package.row).filter fun x => x.1 = name) =
        (ps.filter fun p => p.name = name).map Package.row := by
    intro ps name
    rw [List.filter_map]
    rfl
  simp only [hfilter]

/-- A quiet comparison means the same on both sides exactly if a compared value differs or the rest
is the same. -/
theorem quietMeansEqual_iff (l r : Side FragmentSet) : QuietMeansEqual l r ↔ TellsApart l r := by
  constructor
  · intro h
    refine ⟨fun lp rp hl hr => ?_, fun axis p ps q qs hl hr => ?_, fun axis p ps q qs hl hr => ?_⟩
    · by_contra hnot
      rw [not_or, not_exists] at hnot
      obtain ⟨hquiet, hrows⟩ := hnot
      refine hrows (perm_rows_iff.mp (h.packages lp rp hl hr ?_))
      exact (comparePackages_isQuiet hl hr).mpr fun name => not_not.mp (hquiet name)
    · by_contra hnot
      simp only [not_or, not_not] at hnot
      obtain ⟨hreference, hcommit, hseries, hrest⟩ := hnot
      have hp : ∃ p ∈ l.patches, p.axis = axis := ⟨p, exists_of_filter_cons hl⟩
      have hq : ∃ q ∈ r.patches, q.axis = axis := ⟨q, exists_of_filter_cons hr⟩
      have hquiet := (comparePatches_quietOn (r := r) hp).mpr
        ((patchChange_eq_none_of_filter hl hr).mpr ⟨hseries, hreference, hcommit⟩)
      have hsame := h.patches axis hp hq hquiet
      rw [hl, hr, List.cons.injEq] at hsame
      exact hrest ⟨congrArg PatchAxis.series hsame.1, hsame.2⟩
    · by_contra hnot
      simp only [not_or, not_not] at hnot
      obtain ⟨hreference, hcommit, hrest⟩ := hnot
      have hp : ∃ p ∈ l.sources, p.axis = axis := ⟨p, exists_of_filter_cons hl⟩
      have hq : ∃ q ∈ r.sources, q.axis = axis := ⟨q, exists_of_filter_cons hr⟩
      have hquiet := (compareSources_quietOn (r := r) hp).mpr
        ((sourceChange_eq_none_of_filter hl hr).mpr ⟨hreference, hcommit⟩)
      have hsame := h.sources axis hp hq hquiet
      rw [hl, hr, List.cons.injEq] at hsame
      exact hrest hsame.2
  · intro h
    refine ⟨fun lp rp hl hr hquiet => ?_, fun axis hp hq hquiet => ?_, fun axis hp hq hquiet => ?_⟩
    · rw [perm_rows_iff]
      rcases h.packages lp rp hl hr with ⟨name, hne⟩ | hrows
      · exact absurd ((comparePackages_isQuiet hl hr).mp hquiet name) hne
      · exact hrows
    · obtain ⟨p, ps, hl⟩ := exists_filter_eq_cons hp
      obtain ⟨q, qs, hr⟩ := exists_filter_eq_cons hq
      obtain ⟨hseries, hreference, hcommit⟩ := (patchChange_eq_none_of_filter hl hr).mp
        ((comparePatches_quietOn hp).mp hquiet)
      have haxis : p.axis = q.axis :=
        (exists_of_filter_cons hl).2.trans (exists_of_filter_cons hr).2.symm
      rcases h.patches axis p ps q qs hl hr with h | h | h | ⟨hseries, rfl⟩
      · exact absurd hreference h
      · exact absurd hcommit h
      · exact absurd hseries h
      · rw [hl, hr]
        cases p
        cases q
        simp_all
    · obtain ⟨p, ps, hl⟩ := exists_filter_eq_cons hp
      obtain ⟨q, qs, hr⟩ := exists_filter_eq_cons hq
      obtain ⟨hreference, hcommit⟩ := (sourceChange_eq_none_of_filter hl hr).mp
        ((compareSources_quietOn hp).mp hquiet)
      have haxis : p.axis = q.axis :=
        (exists_of_filter_cons hl).2.trans (exists_of_filter_cons hr).2.symm
      rcases h.sources axis p ps q qs hl hr with h | h | rfl
      · exact absurd hreference h
      · exact absurd hcommit h
      · rw [hl, hr]
        cases p
        cases q
        simp_all

def kernelPatches (series : List Str) : PatchAxis :=
  ⟨"kernel".toList, series, some "v1.2.0".toList, some (List.replicate 40 'b')⟩

/-- A side with one patch axis and nothing else. -/
def patchedSide (series : List Str) : Side FragmentSet where
  label := "demo".toList
  kernel := none
  patches := [kernelPatches series]
  sources := []
  blobs := none
  packages := none
  kconfig := none

theorem eq_of_quiet_patchedSide {ls rs : List Str} (hseries : SameMembers ls rs)
    (h : QuietMeansEqual (patchedSide ls : Side FragmentSet) (patchedSide rs)) : ls = rs := by
  have hfilter : ∀ series : List Str, ((patchedSide series : Side FragmentSet).patches.filter
      fun p => p.axis = "kernel".toList) = [kernelPatches series] := by
    intro series
    show [kernelPatches series].filter (fun p => p.axis = "kernel".toList) = _
    exact List.filter_cons_of_pos (by simp [kernelPatches])
  have hsome : ∀ series : List Str, ∃ p ∈ (patchedSide series : Side FragmentSet).patches,
      p.axis = "kernel".toList :=
    fun series => ⟨kernelPatches series, List.mem_cons_self, rfl⟩
  have hnone := (patchChange_eq_none_of_filter (hfilter ls) (hfilter rs)).mpr ⟨hseries, rfl, rfl⟩
  have hsame := h.patches _ (hsome ls) (hsome rs) ((comparePatches_quietOn (hsome ls)).mpr hnone)
  rw [hfilter, hfilter] at hsame
  exact congrArg PatchAxis.series (List.head_eq_of_cons_eq hsame)

/-- Two series change places, and nothing is reported. -/
theorem reordered_series_quiet : ¬QuietMeansEqual
    (patchedSide ["rk3588-fixes".toList, "media-accel".toList] : Side Unit)
    (patchedSide ["media-accel".toList, "rk3588-fixes".toList]) := by
  have hswap : ∀ a b : Str, SameMembers [a, b] [b, a] := by
    intro a b s
    simp [or_comm]
  have hne : ["rk3588-fixes".toList, "media-accel".toList] ≠
      ["media-accel".toList, "rk3588-fixes".toList] := by decide
  exact fun h => hne (eq_of_quiet_patchedSide (hswap _ _) h)

end Boot2Deb.Core
