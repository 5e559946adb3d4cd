import Mathlib
import Boot2Deb.Core.Lock
import Boot2Deb.Lib.Keyed

/-!
# What moved between two locks

`axis_pins` lays a lock out in rows, each with a label and the text of a pin, and `pin_changes`
compares the rows of two locks label by label.
-/

namespace Boot2Deb.Core

open Rust

/-! ### The rows of a lock -/

/-- A label and the pinned identity under it, none where the lock records no pin there. -/
abbrev AxisPin := Str × Option Str

def SHORT_COMMIT : Nat := 12

def short (h : Str) : Str := h.take SHORT_COMMIT

/-- `ref (short commit)`. -/
def git (r : Str) (c : Commit) : Str := r ++ (" (".toList ++ (short c.text ++ ")".toList))

/-- The rows of one app. -/
def appRows (a : AppPin) : List AxisPin :=
  ("app ".toList ++ a.name, some (git a.reference a.commit)) ::
  ((match a.patches with
    | some p => [("app ".toList ++ a.name ++ " patches".toList, some (git p.reference p.commit))]
    | none => []) ++
  match a.dotnet with
    | some d => [
        ("app ".toList ++ a.name ++ " packaging".toList,
          some (git d.packaging.reference d.packaging.commit)),
        ("app ".toList ++ a.name ++ " sdk".toList, some d.sdk.version),
        ("app ".toList ++ a.name ++ " nuget".toList, some (short d.nuget.manifestSha256))]
    | none => [])

/-- What names a pre-built `.deb`. -/
def ExtraDeb.locator (d : ExtraDeb) : Str := (d.url.or d.path).getD "?".toList

/-- Every source axis a lock can pin, in report order. -/
def axisPins (lock : Lock) : List AxisPin :=
  [ ("kernel".toList, lock.kernel.map fun k => git k.reference k.commit),
    ("patches".toList, lock.patches.map fun p => git p.reference p.commit),
    ("u-boot".toList, lock.uboot.map fun u => git u.reference u.commit),
    ("u-boot patches".toList, lock.ubootPatches.map fun p => git p.reference p.commit),
    ("suite".toList, lock.rootfs.map fun r => r.suite)] ++
  (lock.userspace.map fun p => (p.name, some (git p.reference p.commit))) ++
  (match lock.ffmpeg with
    | some ff => ("ffmpeg".toList, some (git ff.base.reference ff.base.commit)) ::
      match ff.rockchip with
      | some rk => [("ffmpeg-rk".toList, some (git rk.reference rk.commit))]
      | none => []
    | none => []) ++
  (lock.kmods.map fun k => ("kmod ".toList ++ k.name, some (git k.reference k.commit))) ++
  lock.apps.flatMap appRows ++
  (lock.extraDebs.map fun d => ("extra deb ".toList ++ d.locator, some (short d.sha256))) ++
  match lock.blobs with
    | some b =>
      [("blob atf".toList, some b.atf), ("blob tpl".toList, some b.tpl), ("blob bl32".toList, b.bl32)]
    | none => []

/-- The pin of the first row under a label. -/
def find (rows : List AxisPin) (label : Str) : Option Str :=
  (firstWith Prod.fst rows label).bind Prod.snd

/-- The labels in the order in which they come up first. -/
def labels (rows : List AxisPin) : List Str :=
  rows.foldl (fun acc row => if acc.contains row.1 then acc else acc ++ [row.1]) []

/-- What moved between two locks, one line per changed axis. -/
def pinChanges (prev next : Lock) : List Str :=
  let before := axisPins prev
  let after := axisPins next
  (labels (before ++ after)).filterMap fun label =>
    let was := find before label
    let now := find after label
    if was ≠ now then
      some (label ++ " ".toList ++ was.getD "none".toList ++ " -> ".toList ++ now.getD "none".toList)
    else none

/-- `keep_source_date_epoch`: the epoch of the lock before, where no pin moved. -/
def keepSourceDateEpoch (next prev : Lock) : Lock :=
  if pinChanges prev next ≠ [] then next
  else match next.rootfs, prev.rootfs with
    | some r, some before =>
      { next with rootfs := some { r with sourceDateEpoch := before.sourceDateEpoch } }
    | _, _ => next

/-! ### The comparison of the rows -/

theorem mem_foldl_labels {rows : List AxisPin} {acc : List Str} {label : Str} :
    label ∈ rows.foldl (fun acc row => if acc.contains row.1 then acc else acc ++ [row.1]) acc ↔
      label ∈ acc ∨ ∃ row ∈ rows, row.1 = label := by
  induction rows generalizing acc with
  | nil => simp
  | cons row rows ih =>
    rw [List.foldl_cons, ih]
    by_cases hrow : acc.contains row.1 = true
    · have hmem : row.1 ∈ acc := by simpa using hrow
      rw [if_pos hrow]
      constructor
      · rintro (h | ⟨r, hr, rfl⟩)
        · exact .inl h
        · exact .inr ⟨r, List.mem_cons_of_mem _ hr, rfl⟩
      · rintro (h | ⟨r, hr, rfl⟩)
        · exact .inl h
        · rcases List.mem_cons.mp hr with rfl | hr
          · exact .inl hmem
          · exact .inr ⟨r, hr, rfl⟩
    · rw [if_neg hrow]
      simp [or_assoc, eq_comm]

theorem mem_labels {rows : List AxisPin} {label : Str} :
    label ∈ labels rows ↔ ∃ row ∈ rows, row.1 = label := by
  unfold labels
  rw [mem_foldl_labels]
  simp

theorem find_eq_none {rows : List AxisPin} {label : Str} (h : ∀ row ∈ rows, row.1 ≠ label) :
    find rows label = none := by
  unfold find
  rw [firstWith_eq_none.mpr h]
  rfl

/-- No change is reported exactly if every label leads to the same pin. -/
theorem pinChanges_eq_nil {a b : Lock} :
    pinChanges a b = [] ↔ ∀ label, find (axisPins a) label = find (axisPins b) label := by
  unfold pinChanges
  rw [List.filterMap_eq_nil_iff]
  constructor
  · intro h label
    by_cases hlabel : label ∈ labels (axisPins a ++ axisPins b)
    · by_contra hne
      have := h label hlabel
      rw [if_pos hne] at this
      cases this
    · have hnone : ∀ row ∈ axisPins a ++ axisPins b, row.1 ≠ label := by
        intro row hrow heq
        exact hlabel (mem_labels.mpr ⟨row, hrow, heq⟩)
      rw [find_eq_none fun row hrow => hnone row (List.mem_append_left _ hrow),
        find_eq_none fun row hrow => hnone row (List.mem_append_right _ hrow)]
  · intro h label _
    rw [if_neg (not_not.mpr (h label))]

end Boot2Deb.Core
