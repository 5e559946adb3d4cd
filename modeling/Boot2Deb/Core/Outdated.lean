import Mathlib
import Boot2Deb.Lib.SemverOrder
import Boot2Deb.Lib.Sorting
import Boot2Deb.Series.Tag

/-!
# What upstream holds beyond a pin

A pinned tag is compared with the tags of its shape: those whose version is above the pin's are newer,
and the verdict names the newest of them, and the newest of the pin's own line, with their counts.
-/

namespace Boot2Deb.Core.Outdated

open Rust Std
open Boot2Deb.Version (parseTag TagShape)

/-- One ref as `git ls-remote` advertises it. -/
structure RemoteRef where
  name : Str
  commit : Str

/-- A release newer than the pin. -/
structure Newer where
  tag : Str
  commit : Option Str
  count : ℕ
deriving DecidableEq

/-- What the remote holds beyond one pin. -/
inductive Upgrade where
  | current
  | behind (line : Option Newer) (latest : Newer)
  | tipMoved (commit : Str)
  | unknown (why : Str)
deriving DecidableEq

/-- Forty hex digits. -/
def isFullSha (s : Str) : Bool :=
  byteLen s == 40 && (asBytes s).all fun b =>
    (0x30 ≤ b && b ≤ 0x39) || (0x41 ≤ b && b ≤ 0x46) || (0x61 ≤ b && b ≤ 0x66)

inductive PinForm where
  | namedRef
  | bareCommit
deriving DecidableEq

def PinForm.classify (reference commit : Str) : PinForm :=
  if reference = commit ∧ isFullSha reference then .bareCommit else .namedRef

/-- One release newer than a pin, ordered by `key`. -/
structure Candidate (κ : Type) where
  key : κ
  name : Str
  commit : Option Str
deriving DecidableEq

section Verdict
variable {κ : Type} (cmp : κ → κ → Ordering)

/-- The key, the name breaking a tie. -/
def compareCandidates (a b : Candidate κ) : Ordering :=
  (cmp a.key b.key).then (compare a.name b.name)

/-- The verdict over every release newer than a pin. -/
def verdict (newer : List (Candidate κ)) (inLine : κ → Bool) : Upgrade :=
  let newer := sortBy (compareCandidates cmp) newer
  match newer.getLast? with
  | none => .current
  | some newest =>
    let line := ((newer.filter fun c => inLine c.key).zipIdx.map fun (c, within) =>
      Newer.mk c.name c.commit (within + 1)).getLast?
    .behind line ⟨newest.name, newest.commit, newer.length⟩

end Verdict

section Tags
variable (S : Semver.Crate) (O : Semver.VersionOrder)

/-- The tags a pin is compared with: spelled like it, and a pre-release only for a pin that is one. -/
def comparable (reference : Str) (pinned : Semver.Version) (tags : ExtTreeMap Str Str compare) :
    List (Candidate Semver.Version) :=
  let shape := TagShape.of reference
  let wantPre := !pinned.pre.isEmpty
  let parsed := (tags.toList.filter fun (tag, _) => shape.accepts tag).filterMap fun (tag, commit) =>
    (parseTag S tag).toOption.map fun v => Candidate.mk v tag (some commit)
  parsed.filter fun c => wantPre || c.key.pre.isEmpty

/-- Those above the pin. -/
def newerTags (reference : Str) (pinned : Semver.Version) (tags : ExtTreeMap Str Str compare) :
    List (Candidate Semver.Version) :=
  (comparable S reference pinned tags).filter fun c => O.cmp c.key pinned == .gt

/-- The line of a release: its major and minor numbers. -/
def inLine (pinned v : Semver.Version) : Bool := v.major == pinned.major && v.minor == pinned.minor

/-- Compare a tag pin against every tag of the same shape. -/
def compareTag (reference : Str) (tags : ExtTreeMap Str Str compare) : Upgrade :=
  match (parseTag S reference).toOption with
  | none => .unknown ("the pinned tag '".toList ++ reference ++
      "' names no version, so nothing orders against it".toList)
  | some pinned => verdict O.cmp (newerTags S O reference pinned tags) (inLine pinned)

/-- The commit each advertised tag resolves to: a peeled line wins over the tag object. -/
def tagTargets (refs : List RemoteRef) : ExtTreeMap Str Str compare :=
  let tags := refs.filterMap fun r => (stripPrefix r.name "refs/tags/".toList).map (·, r.commit)
  let peeled := tags.filterMap fun (tag, commit) =>
    (stripSuffix tag "^\x7b\x7d".toList).map (·, commit)
  let plain := tags.filter fun (tag, _) => (stripSuffix tag "^\x7b\x7d".toList).isNone
  (plain ++ peeled).foldl (fun m (tag, commit) => m.insert tag commit) ∅

def branchTip (refs : List RemoteRef) (reference : Str) : Option Str :=
  (refs.find? fun r => r.name == "refs/heads/".toList ++ reference).map RemoteRef.commit

/-- Compare one pin against what the remote advertises. -/
def compareRefs (reference commit : Str) (refs : List RemoteRef) : Upgrade :=
  if PinForm.classify reference commit = .bareCommit then
    .unknown "pinned by bare commit — there is no upstream ref to follow".toList
  else if (tagTargets refs).contains reference then compareTag S O reference (tagTargets refs)
  else match branchTip refs reference with
    | some tip => if tip = commit then .current else .tipMoved tip
    | none => .unknown ("the remote advertises no tag or branch named '".toList ++ reference ++
        "' — run `boot2deb verify-sources` to see whether the pin is still fetchable".toList)

end Tags

end Boot2Deb.Core.Outdated
