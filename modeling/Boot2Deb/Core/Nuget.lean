import Mathlib
import Boot2Deb.Rust.Outcome
import Boot2Deb.Rust.Text
import Boot2Deb.Lib.PadLex
import Boot2Deb.Lib.Sorting

/-!
# NuGet manifests

The packages of an app's offline restore, each pinned by a hash. A manifest is in the order of its
rows, so it is a function of their set. The name of a package's file puts a dot between an id and a
version that may both hold dots: `fileName_eq_iff`.
-/

namespace Boot2Deb.Core.Nuget

open Rust
open Std (TransCmp LawfulEqCmp OrientedCmp ReflCmp)

/-- One pinned package. -/
structure NugetPackage where
  id : Str
  version : Str
  sha512 : Str
deriving DecidableEq

/-- Every package one app's restore needs, for one runtime. -/
structure NugetManifest where
  runtime : Str
  packages : List NugetPackage
deriving DecidableEq

inductive NugetError where
  | serialize
  | parse (path : Str)
  | manifestInvalid (path why : Str)
deriving DecidableEq

/-- The comment before a serialized manifest. -/
def BANNER : Str :=
  "# Generated by `boot2deb update`; do not hand-edit.\n".toList ++
  "# The NuGet packages an app's offline restore needs, each pinned by the sha512 of\n".toList ++
  "# its .nupkg. `boot2deb build` fetches and verifies every one before the build.\n".toList

/-- A package's name on the server and in a folder feed. -/
def NugetPackage.fileName (p : NugetPackage) : Str :=
  p.id ++ '.' :: (p.version ++ ".nupkg".toList)

def isLowerOrDigit (c : Char) : Bool := c.isLower || c.isDigit

def isIdChar (c : Char) : Bool := isLowerOrDigit c || c == '.' || c == '-' || c == '_'

def isVersionChar (c : Char) : Bool := isLowerOrDigit c || c == '.' || c == '-' || c == '+'

/-- A hundred and twenty-eight characters of `0` to `9` and `a` to `f`, by their bytes. -/
def isSha512Hex (s : Str) : Bool :=
  byteLen s == 128 && (asBytes s).all fun b => (48 ≤ b && b ≤ 57) || (97 ≤ b && b ≤ 102)

/-- Why an entry cannot be a pin. -/
def NugetPackage.defect (p : NugetPackage) : Option Str :=
  if ¬(p.id.head?.any isLowerOrDigit ∧ p.id.all isIdChar) then
    some ("package id '".toList ++ p.id ++ "' is not a lowercase NuGet id".toList)
  else if ¬(p.version.head?.any Char.isDigit ∧ p.version.all isVersionChar) then
    some ("package '".toList ++ p.id ++ "' version '".toList ++ p.version ++
      "' is not a lowercase NuGet version".toList)
  else if ¬isSha512Hex p.sha512 then
    some ("package '".toList ++ p.id ++ "' ".toList ++ p.version ++
      " sha512 is not 128 lowercase hex characters".toList)
  else none

/-- The order of what is pinned. -/
def comparePins : NugetPackage → NugetPackage → Ordering :=
  compareLex (compareOn NugetPackage.id) (compareOn NugetPackage.version)

/-- The derived order of the entries. -/
def comparePackages : NugetPackage → NugetPackage → Ordering :=
  compareLex comparePins (compareOn NugetPackage.sha512)

section Validate
variable (origin : Str)

def invalid {α : Type} (why : Str) : Outcome NugetError α := .err (.manifestInvalid origin why)

def RUNTIMES : List Str := ["linux-x64".toList, "linux-arm64".toList, "linux-arm".toList]

def checkEntries : List NugetPackage → Outcome NugetError Unit
  | [] => .ok ()
  | p :: packages =>
    match p.defect with
    | some why => invalid origin why
    | none => checkEntries packages

/-- The loop over the neighbours. -/
def checkPairs : List NugetPackage → Outcome NugetError Unit
  | a :: b :: packages =>
    if a.id = b.id ∧ a.version = b.version then
      invalid origin ("package '".toList ++ a.id ++ "' ".toList ++ a.version ++
        " is pinned twice".toList)
    else if comparePackages a b = .gt then
      invalid origin ("packages are not sorted: '".toList ++ a.id ++ "' ".toList ++ a.version ++
        " comes before '".toList ++ b.id ++ "' ".toList ++ b.version)
    else checkPairs (b :: packages)
  | _ => .ok ()

/-- Check that a manifest is a usable, canonical set of pins. -/
def NugetManifest.validate (m : NugetManifest) : Outcome NugetError Unit := do
  if ¬RUNTIMES.contains m.runtime then
    invalid origin ("runtime '".toList ++ m.runtime ++ "' is not one .NET publishes for".toList)
  checkEntries origin m.packages
  checkPairs origin m.packages

end Validate

/-- Build a manifest from packages in any order. -/
def NugetManifest.new (runtime : Str) (packages : List NugetPackage) (origin : Str) :
    Outcome NugetError NugetManifest := do
  let manifest : NugetManifest := ⟨runtime, dedup (sortBy comparePackages packages)⟩
  manifest.validate origin
  return manifest

section Toml
variable (toString : NugetManifest → Option Str) (fromStr : Str → Option NugetManifest)

def NugetManifest.toTomlString (m : NugetManifest) : Outcome NugetError Str :=
  match toString m with
  | some body => .ok (BANNER ++ body)
  | none => .err .serialize

def NugetManifest.fromTomlStr (text path : Str) : Outcome NugetError NugetManifest :=
  match fromStr text with
  | some manifest => do
    manifest.validate path
    return manifest
  | none => .err (.parse path)

end Toml

/-! ### The order of the entries -/

instance : TransCmp comparePins := by
  unfold comparePins
  infer_instance

instance : TransCmp comparePackages := by
  unfold comparePackages
  infer_instance

theorem comparePins_eq_iff {p q : NugetPackage} :
    comparePins p q = .eq ↔ p.id = q.id ∧ p.version = q.version := by
  rw [comparePins, compareLex_eq_eq, compareOn, compareOn, LawfulEqCmp.compare_eq_iff_eq,
    LawfulEqCmp.compare_eq_iff_eq]

instance : LawfulEqCmp comparePackages where
  eq_of_compare {p q} h := by
    rw [comparePackages, compareLex_eq_eq, comparePins_eq_iff] at h
    obtain ⟨⟨hid, hversion⟩, hsha512⟩ := h
    cases p
    cases q
    rw [NugetPackage.mk.injEq]
    exact ⟨hid, hversion, LawfulEqCmp.eq_of_compare hsha512⟩

instance : Std.Antisymm fun p q => (comparePackages p q).isLE = true :=
  ⟨fun _ _ hpq hqp => LawfulEqCmp.eq_of_compare (OrientedCmp.isLE_antisymm hpq hqp)⟩

/-- Sorted and rid of repeats, a list is the set of its entries. -/
theorem dedup_sort_congr {ps qs : List NugetPackage} (h : ∀ p, p ∈ ps ↔ p ∈ qs) :
    dedup (sortBy comparePackages ps) = dedup (sortBy comparePackages qs) := by
  have hps := @pairwise_sortBy _ comparePackages _ ps
  have hqs := @pairwise_sortBy _ comparePackages _ qs
  have hperm : (dedup (sortBy comparePackages ps)).Perm (dedup (sortBy comparePackages qs)) := by
    refine (List.perm_ext_iff_of_nodup (nodup_dedup hps) (nodup_dedup hqs)).mpr fun p => ?_
    rw [mem_dedup, mem_dedup, (sortBy_perm _ ps).mem_iff, (sortBy_perm _ qs).mem_iff, h]
  exact hperm.eq_of_pairwise (fun p q _ _ hpq hqp => Std.Antisymm.antisymm p q hpq hqp)
    (hps.sublist (dedup_sublist _)) (hqs.sublist (dedup_sublist _))

/-- The neighbours are in order just where the pins rise. -/
theorem checkPairs_eq_ok {origin : Str} {packages : List NugetPackage} :
    checkPairs origin packages = .ok () ↔ packages.IsChain fun a b => comparePins a b = .lt := by
  induction packages with
  | nil => simp [checkPairs]
  | cons a packages ih =>
    cases packages with
    | nil => simp [checkPairs]
    | cons b packages =>
      rw [checkPairs, List.isChain_cons_cons, ← ih]
      have hfull : comparePackages a b =
          (comparePins a b).then (compareOn NugetPackage.sha512 a b) := rfl
      by_cases heq : a.id = b.id ∧ a.version = b.version
      · rw [if_pos heq, comparePins_eq_iff.mpr heq]
        simp [invalid]
      · rw [if_neg heq, hfull]
        have hne := mt comparePins_eq_iff.mp heq
        cases hpins : comparePins a b with
        | lt => simp
        | eq => exact absurd hpins hne
        | gt => simp [invalid]

theorem checkEntries_eq_ok {origin : Str} {packages : List NugetPackage} :
    checkEntries origin packages = .ok () ↔ ∀ p ∈ packages, p.defect = none := by
  induction packages with
  | nil => simp [checkEntries]
  | cons p packages ih =>
    rw [List.forall_mem_cons, ← ih, checkEntries]
    cases p.defect <;> simp [invalid]

theorem validate_eq_ok {m : NugetManifest} {origin : Str} : m.validate origin = .ok () ↔
    RUNTIMES.contains m.runtime = true ∧ checkEntries origin m.packages = .ok () ∧
      m.packages.IsChain fun a b => comparePins a b = .lt := by
  rw [← @checkPairs_eq_ok origin, NugetManifest.validate]
  cases RUNTIMES.contains m.runtime with
  | true =>
    rw [if_neg (not_not_intro rfl)]
    refine Outcome.bind_eq_ok.trans ?_
    exact ⟨fun ⟨_, hentries, hpairs⟩ => ⟨rfl, hentries, hpairs⟩,
      fun ⟨_, hentries, hpairs⟩ => ⟨(), hentries, hpairs⟩⟩
  | false =>
    rw [if_pos Bool.false_ne_true, invalid]
    simp

/-- The pins of a valid manifest rise. -/
theorem pins_rise {m : NugetManifest} {origin : Str} (h : m.validate origin = .ok ()) :
    m.packages.Pairwise fun a b => comparePins a b = .lt := by
  have hchain := (validate_eq_ok.mp h).2.2
  have htrans : IsTrans NugetPackage fun a b => comparePins a b = .lt :=
    ⟨fun _ _ _ hab hbc => TransCmp.lt_trans hab hbc⟩
  exact List.isChain_iff_pairwise.mp hchain

/-- In a valid manifest an id and a version have one pin. -/
theorem eq_of_pin {m : NugetManifest} {origin : Str} (h : m.validate origin = .ok ())
    {p q : NugetPackage} (hp : p ∈ m.packages) (hq : q ∈ m.packages) (hid : p.id = q.id)
    (hversion : p.version = q.version) : p = q := by
  by_contra hne
  have hrise := (pins_rise h).imp (S := fun a b => comparePins a b ≠ .eq)
    fun {a b} hlt heq => nomatch hlt.symm.trans heq
  have hsymm : Std.Symm fun a b => comparePins a b ≠ .eq :=
    ⟨fun a b hab hba => hab (OrientedCmp.eq_symm hba)⟩
  exact hrise.forall hp hq hne (comparePins_eq_iff.mpr ⟨hid, hversion⟩)

theorem new_eq_ok {runtime origin : Str} {packages : List NugetPackage} {m : NugetManifest} :
    NugetManifest.new runtime packages origin = .ok m ↔
      m = ⟨runtime, dedup (sortBy comparePackages packages)⟩ ∧ m.validate origin = .ok () := by
  rw [NugetManifest.new, Outcome.bind_eq_ok]
  constructor
  · rintro ⟨⟨⟩, hvalid, h⟩
    obtain rfl := Outcome.ok.inj h
    exact ⟨rfl, hvalid⟩
  · rintro ⟨rfl, hvalid⟩
    exact ⟨(), hvalid, rfl⟩

/-- A check passes or not whatever name its errors give the file. -/
theorem validate_origin {m : NugetManifest} {origin : Str} (h : m.validate origin = .ok ())
    (path : Str) : m.validate path = .ok () := by
  obtain ⟨hruntime, hentries, hrise⟩ := validate_eq_ok.mp h
  refine validate_eq_ok.mpr ⟨hruntime, ?_, hrise⟩
  exact checkEntries_eq_ok.mpr (checkEntries_eq_ok.mp hentries)

/-! ### The names of the files -/

/-- The id of one package goes on past the id of the other, by as much as its version is shorter. -/
def NugetPackage.Straddles (p q : NugetPackage) : Prop :=
  ∃ mid, p.id = q.id ++ '.' :: mid ∧ q.version = mid ++ '.' :: p.version

/-- Two packages have one file name where they have one id and version, or where one's id ends
inside the other's version. -/
theorem fileName_eq_iff {p q : NugetPackage} : p.fileName = q.fileName ↔
    (p.id = q.id ∧ p.version = q.version) ∨ p.Straddles q ∨ q.Straddles p := by
  rw [NugetPackage.fileName, NugetPackage.fileName, ← List.cons_append, ← List.cons_append,
    ← List.append_assoc, ← List.append_assoc, List.append_left_inj, List.append_eq_append_iff]
  constructor
  · rintro (⟨mid, hid, hversion⟩ | ⟨mid, hid, hversion⟩)
    · rcases mid with _ | ⟨c, mid⟩
      · refine .inl ⟨?_, ?_⟩
        · rw [hid, List.append_nil]
        · exact (List.cons.inj hversion).2
      · rw [List.cons_append, List.cons.injEq] at hversion
        obtain ⟨rfl, hversion⟩ := hversion
        exact .inr (.inr ⟨mid, hid, hversion⟩)
    · rcases mid with _ | ⟨c, mid⟩
      · refine .inl ⟨?_, ?_⟩
        · rw [hid, List.append_nil]
        · exact (List.cons.inj hversion).2.symm
      · rw [List.cons_append, List.cons.injEq] at hversion
        obtain ⟨rfl, hversion⟩ := hversion
        exact .inr (.inl ⟨mid, hid, hversion⟩)
  · rintro (⟨hid, hversion⟩ | ⟨mid, hid, hversion⟩ | ⟨mid, hid, hversion⟩)
    · exact .inl ⟨[], by rw [hid, List.append_nil], by rw [hversion]; rfl⟩
    · exact .inr ⟨'.' :: mid, hid, by rw [hversion]; rfl⟩
    · exact .inl ⟨'.' :: mid, hid, by rw [hversion]; rfl⟩

theorem NugetPackage.Straddles.ne {p q : NugetPackage} (h : p.Straddles q) : p ≠ q := by
  rintro rfl
  obtain ⟨mid, hid, -⟩ := h
  have hlength := congrArg List.length hid
  rw [List.length_append, List.length_cons] at hlength
  omega

/-- A package, and one whose version begins with the last number of the other's id. -/
def straddlingPackages : List NugetPackage :=
  [⟨"a".toList, "1.2.0.1".toList, List.replicate 128 'a'⟩,
    ⟨"a.1".toList, "2.0.1".toList, List.replicate 128 'b'⟩]

end Boot2Deb.Core.Nuget
