import Mathlib
import Boot2Deb.Lib.Run
import Boot2Deb.Core.Manifest

/-!
# Build roots and their records

A base is a published tree and the manifest beside it. `ensure` discards a tree that has no manifest
or that the archive has moved past, and bootstraps where none stands; a call is stopped between any
two of its steps. A stop between the two removals of a discard leaves a manifest without a tree, and
the next bootstrap stands beside it until it has written its own.
-/

namespace Boot2Deb.Engine.Sandbox

open Rust
open Boot2Deb.Core (Package)
open Boot2Deb.Core.Manifest

/-- What a base is for. -/
inductive Role where
  | target
  | cross
  | packaging
deriving DecidableEq

/-- The header of a role's manifest. -/
def Role.manifestHeader : Role → Str
  | target => "Solved build-sandbox base manifest: the toolchain that compiled this ".toList ++
      "build's target .debs, as name version arch sha256.".toList
  | cross => "Solved cross-sandbox base manifest: the toolchain that compiled this ".toList ++
      "build's kernel, u-boot and modules, as name version arch sha256.".toList
  | packaging => "Solved packaging-root manifest: the dpkg that archived this build's staged .debs, ".toList ++
      "as name version arch sha256.".toList

/-- Why a call fails: the provisioner gives no resolution, or the manifest does not parse. -/
inductive Failure where
  | bootstrap
  | manifest (e : InvalidManifest)
deriving DecidableEq

/-- The base directory: the plan its tree holds, and the text of its manifest. -/
structure Base where
  tree : Option Plan
  manifest : Option Str

def Base.empty : Base := ⟨none, none⟩

/-- One step on the file system. -/
inductive Op where
  | removeTree
  | removeManifest
  | publish (plan : Plan)
  | writeManifest (text : Str)

def Base.apply (b : Base) : Op → Base
  | .removeTree => { b with tree := none }
  | .removeManifest => { b with manifest := none }
  | .publish plan => { b with tree := some plan }
  | .writeManifest text => { b with manifest := some text }

def Base.run (b : Base) (ops : List Op) : Base := ops.foldl Base.apply b

/-- Remove a tree standing without the manifest that records what it holds. -/
def discardUnrecordableBase (b : Base) : List Op :=
  if b.tree.isNone ∨ b.manifest.isSome then [] else [.removeTree]

section Ensure
variable (path : Str) (role : Role) (resolution : Outcome Failure Plan)

/-- What the recorded manifest holds that the solved set does not, and the reverse. -/
def diverged (text : Str) (solved : List Package) : Outcome Failure (List Moved) :=
  match parse text path with
  | .ok held => .ok (moved held solved)
  | .err e => .err (.manifest e)
  | .panic => .panic

/-- Discard a base the archive has moved past, with the resolution that justifies it. -/
def discardIfTheArchiveMoved (b : Base) : Outcome Failure (List Op × Option Plan) :=
  match b.tree, b.manifest with
  | some _, some text => do
    let plan ← resolution
    let moved ← diverged path text plan.packages
    if moved.isEmpty then return ([], none)
    else return ([.removeTree, .removeManifest], some plan)
  | _, _ => .ok ([], none)

/-- The provisioner: nothing where a tree stands, else the plan it reports and publishes. -/
def provision (b : Base) : Outcome Failure (List Op × Option Plan) :=
  match b.tree with
  | some _ => .ok ([], none)
  | none => do
    let plan ← resolution
    return ([.publish plan], some plan)

/-- The steps of `ensure` behind the first discard, which leaves `b`. -/
def ensureFrom (b : Base) : Outcome Failure (List Op) := do
  let (discard, plan) ← discardIfTheArchiveMoved path resolution b
  let (publish, installed) ← provision (plan.elim resolution .ok) (b.run discard)
  let record := installed.toList.map fun plan =>
    Op.writeManifest (render role.manifestHeader plan.packages)
  return discard ++ publish ++ record

/-- The steps a call takes, and what it returns behind them. -/
def ensure (b : Base) : List Op × Outcome Failure Unit :=
  let discard := discardUnrecordableBase b
  match ensureFrom path role resolution (b.run discard) with
  | .ok ops => (discard ++ ops, .ok ())
  | .err e => (discard, .err e)
  | .panic => (discard, .panic)

end Ensure

/-- One call on the base: what the archive resolves to, and how many steps it takes when it is
stopped. -/
structure Call where
  role : Role
  resolution : Outcome Failure Plan
  stop : Option ℕ

section Run
variable (path : Str)

/-- The steps a call performs of those it would take. -/
def Call.performs (call : Call) (ops : List Op) : List Op :=
  match call.stop with
  | none => ops
  | some k => ops.take k

/-- The base behind a call. -/
def step (b : Base) (call : Call) : Base :=
  b.run (call.performs (ensure path call.role call.resolution b).1)

/-- A call that was not stopped and returned Ok. -/
def Returns (b : Base) (call : Call) : Prop :=
  call.stop = none ∧ (ensure path call.role call.resolution b).2 = .ok ()

/-- The manifest lists the packages of the tree, and they are the set the call resolved. -/
def Describes (b : Base) (call : Call) : Prop :=
  ∃ plan tree text rows, call.resolution = .ok plan ∧ b.tree = some tree ∧ b.manifest = some text ∧
    parse text path = .ok rows ∧ rows.Perm tree.packages ∧ tree.packages.Perm plan.packages

/-- A call that finds a manifest and no tree is not stopped between publishing and recording, but
where the manifest lists what it published. -/
def RecordsWhatItPublishes (b : Base) (call : Call) : Prop :=
  b.tree = none → call.stop = some 1 → ∀ text, b.manifest = some text →
    ∀ plan, call.resolution = .ok plan →
      ∃ rows, parse text path = .ok rows ∧ rows.Perm plan.packages

end Run

/-! ### What a call does -/

section Steps
variable {path : Str} {b : Base} {call : Call}

/-- The steps that publish a plan and record it. -/
def bootstrap (role : Role) (plan : Plan) : List Op :=
  [.publish plan, .writeManifest (render role.manifestHeader plan.packages)]

theorem ensure_absent (htree : b.tree = none) : ensure path call.role call.resolution b =
    match call.resolution with
    | .ok plan => (bootstrap call.role plan, .ok ())
    | .err e => ([], .err e)
    | .panic => ([], .panic) := by
  obtain ⟨tree, manifest⟩ := b
  obtain rfl : tree = none := htree
  cases call.resolution <;> rfl

theorem ensure_unrecorded {tree : Plan} (htree : b.tree = some tree) (hmanifest : b.manifest = none) :
    ensure path call.role call.resolution b =
      match call.resolution with
      | .ok plan => (.removeTree :: bootstrap call.role plan, .ok ())
      | .err e => ([.removeTree], .err e)
      | .panic => ([.removeTree], .panic) := by
  obtain ⟨tree, manifest⟩ := b
  obtain rfl : tree = some _ := htree
  obtain rfl : manifest = none := hmanifest
  cases call.resolution <;> rfl

/-- A recorded tree is kept where nothing moved, else replaced by what the check resolved. -/
theorem ensure_recorded {tree : Plan} {text : Str} (htree : b.tree = some tree)
    (hmanifest : b.manifest = some text) : ensure path call.role call.resolution b =
      match call.resolution with
      | .ok plan =>
        match diverged path text plan.packages with
        | .ok [] => ([], .ok ())
        | .ok (_ :: _) => (.removeTree :: .removeManifest :: bootstrap call.role plan, .ok ())
        | .err e => ([], .err e)
        | .panic => ([], .panic)
      | .err e => ([], .err e)
      | .panic => ([], .panic) := by
  obtain ⟨tree, manifest⟩ := b
  obtain rfl : tree = some _ := htree
  obtain rfl : manifest = some text := hmanifest
  have hrun : (Base.mk (some tree) (some text)).run [] = ⟨some tree, some text⟩ := rfl
  have hdiscard : discardUnrecordableBase ⟨some tree, some text⟩ = [] := rfl
  rcases call.resolution with plan | e | -
  · rcases hd : diverged path text plan.packages with (- | ⟨m, moved⟩) | e | -
    · simp [ensure, hdiscard, hrun, ensureFrom, discardIfTheArchiveMoved, hd, provision]
    · simp only [ensure, hdiscard, hrun, ensureFrom, discardIfTheArchiveMoved, hd, Outcome.ok_bind]
      rfl
    · simp [ensure, hdiscard, hrun, ensureFrom, discardIfTheArchiveMoved, hd]
    · simp [ensure, hdiscard, hrun, ensureFrom, discardIfTheArchiveMoved, hd]
  · rfl
  · rfl

end Steps

/-! ### The record of a base -/

section Invariant
variable {path : Str} {b : Base} {call : Call}

/-- A manifest beside a tree lists its packages. -/
def Recorded (path : Str) (b : Base) : Prop :=
  ∀ tree text, b.tree = some tree → b.manifest = some text →
    ∃ rows, parse text path = .ok rows ∧ rows.Perm tree.packages

theorem newline_notMem_manifestHeader (role : Role) : '\n' ∉ role.manifestHeader := by
  cases role <;> decide +kernel

/-- What a role records of a plan is read back as the plan. -/
theorem parse_record (role : Role) (plan : Plan) :
    ∃ rows, parse (render role.manifestHeader plan.packages) path = .ok rows ∧
      rows.Perm plan.packages :=
  ⟨_, parse_render plan (newline_notMem_manifestHeader role) path, sortBy_perm _ _⟩

theorem recorded_of_tree (h : b.tree = none) : Recorded path b := by
  intro tree text htree
  simp [h] at htree

theorem recorded_of_manifest (h : b.manifest = none) : Recorded path b := by
  intro tree text _ hmanifest
  simp [h] at hmanifest

theorem recorded_bootstrap (role : Role) (plan : Plan) :
    Recorded path (b.run (bootstrap role plan)) := by
  intro tree text htree hmanifest
  obtain rfl := Option.some.inj htree
  obtain rfl := Option.some.inj hmanifest
  exact parse_record role _

/-- Stopped anywhere, a bootstrap beside no manifest leaves no wrong record. -/
theorem recorded_take_bootstrap (h : b.tree = none) (hm : b.manifest = none) (role : Role)
    (plan : Plan) (k : ℕ) : Recorded path (b.run ((bootstrap role plan).take k)) := by
  match k with
  | 0 => exact recorded_of_tree h
  | 1 => exact recorded_of_manifest hm
  | k + 2 =>
    rw [List.take_of_length_le (by simp [bootstrap])]
    exact recorded_bootstrap role plan

/-- A call that takes no step, or only removes the tree. -/
theorem recorded_performs_nil (h : Recorded path b) : Recorded path (b.run (call.performs [])) := by
  unfold Call.performs
  split
  · exact h
  · rw [List.take_nil]
    exact h

theorem recorded_performs_removeTree (h : Recorded path b) :
    Recorded path (b.run (call.performs [.removeTree])) := by
  have hremoved : (b.run [.removeTree]).tree = none := rfl
  unfold Call.performs
  split
  case h_1 => exact recorded_of_tree hremoved
  case h_2 k hstop =>
    rcases k with - | k
    · exact h
    · rw [List.take_succ_cons, List.take_nil]
      exact recorded_of_tree hremoved

theorem diverged_eq_ok {text : Str} {solved : List Package} {moved : List Moved}
    (h : diverged path text solved = .ok moved) :
    ∃ held, parse text path = .ok held ∧ Core.Manifest.moved held solved = moved := by
  unfold diverged at h
  split at h
  · exact ⟨_, ‹_›, Outcome.ok.inj h⟩
  · exact nomatch h
  · exact nomatch h

/-- Where no tree stands, a bootstrap is recorded but between its two steps. -/
theorem recorded_performs_bootstrap {plan : Plan} (htree : b.tree = none)
    (hres : call.resolution = .ok plan) (hcond : RecordsWhatItPublishes path b call) :
    Recorded path (b.run (call.performs (bootstrap call.role plan))) := by
  unfold Call.performs
  split
  case h_1 => exact recorded_bootstrap call.role plan
  case h_2 k hstop =>
    rcases k with - | - | k
    · exact recorded_of_tree htree
    · -- published beside what the base held
      intro tree text hpublished hmanifest
      obtain rfl := Option.some.inj hpublished
      exact hcond htree hstop text hmanifest _ hres
    · rw [List.take_of_length_le (by simp [bootstrap])]
      exact recorded_bootstrap call.role plan

theorem recorded_performs_rebootstrap (h : Recorded path b) (hmanifest : b.manifest = none)
    (plan : Plan) : Recorded path (b.run (call.performs (.removeTree :: bootstrap call.role plan))) := by
  unfold Call.performs
  split
  case h_1 => exact recorded_bootstrap call.role plan
  case h_2 k hstop =>
    rcases k with - | k
    · exact h
    · exact recorded_take_bootstrap (b := b.run [.removeTree]) rfl hmanifest call.role plan k

theorem recorded_performs_replace (h : Recorded path b) (plan : Plan) : Recorded path
    (b.run (call.performs (.removeTree :: .removeManifest :: bootstrap call.role plan))) := by
  unfold Call.performs
  split
  case h_1 => exact recorded_bootstrap call.role plan
  case h_2 k hstop =>
    rcases k with - | - | k
    · exact h
    · exact recorded_of_tree rfl
    · exact recorded_take_bootstrap (b := b.run [.removeTree, .removeManifest]) rfl rfl call.role
        plan k

/-- A call keeps the base recorded, stopped or not. -/
theorem recorded_step (h : Recorded path b) (hcond : RecordsWhatItPublishes path b call) :
    Recorded path (step path b call) := by
  rw [step]
  rcases htree : b.tree with - | tree
  case none =>
    rw [ensure_absent htree]
    rcases hres : call.resolution with plan | e | -
    · exact recorded_performs_bootstrap htree hres hcond
    · exact recorded_performs_nil h
    · exact recorded_performs_nil h
  case some =>
    rcases hmanifest : b.manifest with - | text
    case none =>
      rw [ensure_unrecorded htree hmanifest]
      rcases call.resolution with plan | e | -
      · exact recorded_performs_rebootstrap h hmanifest plan
      · exact recorded_performs_removeTree h
      · exact recorded_performs_removeTree h
    case some =>
      rw [ensure_recorded htree hmanifest]
      rcases call.resolution with plan | e | -
      · dsimp only
        rcases diverged path text plan.packages with (- | ⟨m, moved⟩) | e | -
        · exact recorded_performs_nil h
        · exact recorded_performs_replace h plan
        · exact recorded_performs_nil h
        · exact recorded_performs_nil h
      · exact recorded_performs_nil h
      · exact recorded_performs_nil h

/-- A call that returns leaves the base of its own resolution, with its record. -/
theorem describes_step (h : Recorded path b) (hret : Returns path b call) :
    Describes path (step path b call) call := by
  obtain ⟨hstop, hok⟩ := hret
  have hfresh {b : Base} {plan : Plan} (hres : call.resolution = .ok plan) :
      Describes path (b.run (bootstrap call.role plan)) call := by
    obtain ⟨rows, hrows, hperm⟩ := parse_record call.role plan
    exact ⟨plan, plan, _, rows, hres, rfl, rfl, hrows, hperm, List.Perm.refl _⟩
  have hperforms (ops : List Op) : call.performs ops = ops := by simp [Call.performs, hstop]
  rw [step, hperforms]
  rcases htree : b.tree with - | tree
  case none =>
    rw [ensure_absent htree] at hok ⊢
    rcases hres : call.resolution with plan | e | -
    · exact hfresh hres
    · simp [hres] at hok
    · simp [hres] at hok
  case some =>
    rcases hmanifest : b.manifest with - | text
    case none =>
      rw [ensure_unrecorded htree hmanifest] at hok ⊢
      rcases hres : call.resolution with plan | e | -
      · exact hfresh hres
      · simp [hres] at hok
      · simp [hres] at hok
    case some =>
      rw [ensure_recorded htree hmanifest] at hok ⊢
      rcases hres : call.resolution with plan | e | -
      · rcases hd : diverged path text plan.packages with (- | ⟨m, moved⟩) | e | -
        · obtain ⟨rows, hrows, hmoved⟩ := diverged_eq_ok hd
          obtain ⟨rows', hrows', hperm⟩ := h tree text htree hmanifest
          obtain rfl : rows = rows' := Outcome.ok.inj (hrows.symm.trans hrows')
          have hkeys : (rows.map key).Nodup := (hperm.map key).nodup_iff.mpr tree.distinct
          have hplan : rows.Perm plan.packages := (perm_of_moved hkeys plan.distinct).mp hmoved
          simp only [hd]
          exact ⟨plan, tree, text, rows, hres, htree, hmanifest, hrows, hperm,
            hperm.symm.trans hplan⟩
        · simp only [hd]
          exact hfresh hres
        · simp [hres, hd] at hok
        · simp [hres, hd] at hok
      · simp [hres] at hok
      · simp [hres] at hok

/-- In a history whose calls record what they publish beside a manifest, the record of a base is the
base whenever a call returns. -/
theorem record_is_base {calls : List Call}
    (h : AllMeet (step path) (RecordsWhatItPublishes path) .empty calls)
    (hret : Returns path (calls.foldl (step path) .empty) call) :
    Describes path (step path (calls.foldl (step path) .empty) call) call := by
  have hempty : Recorded path .empty := recorded_of_tree rfl
  exact describes_step (h.invariant (fun _ _ _ => recorded_step) hempty) hret

/-! ### A stale manifest -/

/-- One package before and after an archive moved. -/
def libc (moved : Bool) : Plan where
  packages := [⟨"libc6".toList, (if moved then "2.43-3" else "2.42-17").toList, "arm64".toList,
    (if moved then "b" else "a").toList⟩]
  words := by cases moved <;> decide
  named := by cases moved <;> decide
  distinct := by cases moved <;> decide

def callAt (moved : Bool) (stop : Option ℕ) : Call := ⟨.target, .ok (libc moved), stop⟩

/-- A discard stopped halfway, a bootstrap stopped before its record, and the archive moved back. -/
def staleHistory : List Call := [callAt false none, callAt true (some 1), callAt true (some 1)]

theorem stale_record : Returns [] (staleHistory.foldl (step []) .empty) (callAt false none) ∧
    ¬Describes [] (step [] (staleHistory.foldl (step []) .empty) (callAt false none))
      (callAt false none) := by
  refine ⟨⟨rfl, by decide +kernel⟩, ?_⟩
  rintro ⟨plan, tree, text, rows, hres, htree, -, -, -, hperm⟩
  have hplan : plan.packages = (libc false).packages := by
    rw [← Outcome.ok.inj hres]
  have hheld : (step [] (staleHistory.foldl (step []) .empty) (callAt false none)).tree.map
      Plan.packages = some (libc true).packages := by decide +kernel
  rw [htree, Option.map_some, Option.some.injEq] at hheld
  rw [hplan, hheld] at hperm
  exact absurd hperm (by decide)

theorem recordsWhatItPublishes_of_tree (h : b.tree.isSome) : RecordsWhatItPublishes path b call := by
  intro hnone
  simp [hnone] at h

/-- A discard stopped halfway, and a bootstrap that runs to its end. -/
theorem record_after_discard : Describes []
    (step [] ([callAt false none, callAt true (some 1), callAt true none].foldl (step []) .empty)
      (callAt false none)) (callAt false none) :=
  @record_is_base [] (callAt false none) [callAt false none, callAt true (some 1), callAt true none]
    ⟨fun _ h => (nomatch h), @recordsWhatItPublishes_of_tree [] (step [] .empty (callAt false none)) _
      (by decide +kernel), fun _ h => (nomatch h), trivial⟩
    ⟨rfl, by decide +kernel⟩

end Invariant

end Boot2Deb.Engine.Sandbox
