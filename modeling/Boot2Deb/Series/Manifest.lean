import Boot2Deb.Series.Tag
import Boot2Deb.Lib.HalfOpen

/-!
# Patch series (`core/src/series.rs`)

The manifest, the range matching and the lint of entries no version selects. `S` is the `semver`
crate throughout. An `Interval` bound is a `Version::new`, so it is its three numbers.
-/

namespace Boot2Deb.Series
open Rust Semver

/-- How a version is matched against a declared range. -/
inductive RangeMatch where
  | release
  | candidate
deriving DecidableEq, Repr

/-- A patch path, always applied or narrowed to its own range. -/
inductive PatchEntry where
  | always (path : Str)
  | ranged (path kernels : Str)
deriving DecidableEq, Repr

def PatchEntry.kernels : PatchEntry → Option Str
  | always _ => none
  | ranged _ kernels => some kernels

/-- One of the source trees a series orders independently. -/
inductive Scope where
  | kernel | ffmpeg | userspace | uboot | app | appPackaging
deriving DecidableEq, Repr

/-- `Scope::ALL`. -/
def Scope.all : List Scope := [kernel, ffmpeg, userspace, uboot, app, appPackaging]

structure PatchSeries where
  appliesToKernel : Option Str
  appliesToUboot : Option Str
  appliesToApp : Option Str
  kernel : List PatchEntry
  ffmpeg : List PatchEntry
  userspace : List PatchEntry
  uboot : List PatchEntry
  app : List PatchEntry
  appPackaging : List PatchEntry
deriving DecidableEq, Repr

/-- `parse_req`. -/
def parseReq (S : Crate) (series range : Str) : Outcome ConfigError VersionReq :=
  Outcome.okOr (S.parseReq (Version.normalizeReq range)) (.invalidVersionReq series range)

/-- `matches_range`. -/
def matchesRange (S : Crate) (series range version : Str) (mode : RangeMatch) :
    Outcome ConfigError Bool := do
  let req ← parseReq S series range
  let ver ← Version.parseTag S version
  let ver := if mode = .candidate then { ver with pre := [] } else ver
  pure (S.isMatch req ver)

/-- `PatchEntry::selected`. -/
def PatchEntry.selected (S : Crate) (entry : PatchEntry) (series version : Str)
    (mode : RangeMatch) : Outcome ConfigError Bool :=
  match entry.kernels with
  | none => .ok true
  | some range => matchesRange S series range version mode

abbrev Interval := HalfOpen Core

namespace Interval

/-- `Interval::bumped`: the first version above everything the comparator names. The least
significant stated component is incremented. -/
def bumped (c : Comparator) : Outcome ConfigError Core :=
  match c.minor, c.patch with
  | some minor, some patch =>
    (U64.add patch 1).bind fun patch => .ok (core c.major.toNat minor.toNat patch.toNat)
  | some minor, none => (U64.add minor 1).bind fun minor => .ok (core c.major.toNat minor.toNat 0)
  | none, _ => (U64.add c.major 1).bind fun major => .ok (core major.toNat 0 0)

/-- The loop of `Interval::of`: `none` at a comparator it does not model. -/
def ofFrom (i : Interval) : List Comparator → Outcome ConfigError (Option Interval)
  | [] => .ok (some i)
  | c :: cs =>
    if c.pre ≠ [] then .ok none
    else
      let at_ := core c.major.toNat ((c.minor.getD 0).toNat) ((c.patch.getD 0).toNat)
      (bumped c).bind fun next =>
        match c.op with
        | .greaterEq => ofFrom (i.raise at_) cs
        | .greater => ofFrom (i.raise next) cs
        | .less => ofFrom (i.lower at_) cs
        | .lessEq => ofFrom (i.lower next) cs
        | .exact => ofFrom ((i.raise at_).lower next) cs
        | .tilde | .caret | .wildcard => .ok none

/-- `Interval::of`: the span a requirement admits, several comparators conjoined. -/
def of (req : VersionReq) : Outcome ConfigError (Option Interval) :=
  ofFrom HalfOpen.all req.comparators

end Interval

namespace PatchSeries
variable (S : Crate) (p : PatchSeries) (series : Str)

/-- `PatchSeries::scope`: the entries of one tree, in apply order. -/
def scope : Scope → List PatchEntry
  | .kernel => p.kernel
  | .ffmpeg => p.ffmpeg
  | .userspace => p.userspace
  | .uboot => p.uboot
  | .app => p.app
  | .appPackaging => p.appPackaging

/-- `PatchSeries::envelope`: the range gating a scope. -/
def envelope : Scope → Option Str
  | .uboot => p.appliesToUboot
  | .app | .appPackaging => p.appliesToApp
  | .kernel | .ffmpeg | .userspace => p.appliesToKernel

/-- `PatchSeries::applies_to_scope`. -/
def appliesToScope (scope : Scope) (version : Str) (mode : RangeMatch) : Outcome ConfigError Bool :=
  match p.envelope scope with
  | none => .ok true
  | some req => matchesRange S series req version mode

/-- Whether one entry is reported against its scope's envelope. -/
def entryDead (env : Interval) (entry : PatchEntry) : Outcome ConfigError Bool :=
  match entry.kernels with
  | none => .ok false
  | some range => do
    let req ← parseReq S series range
    let i ← Interval.of req
    pure (i.any fun i => !env.intersects i)

/-- The reported entries of one scope. -/
def deadEntries (scope : Scope) (env : Interval) :
    List PatchEntry → Outcome ConfigError (List (Scope × PatchEntry))
  | [] => .ok []
  | entry :: entries => do
    let dead ← entryDead S series env entry
    let rest ← deadEntries scope env entries
    pure (if dead then (scope, entry) :: rest else rest)

/-- One round of the loop over the scopes. -/
def scopeUnreachable (scope : Scope) : Outcome ConfigError (List (Scope × PatchEntry)) :=
  match p.envelope scope with
  | none => .ok []
  | some range => do
    let envelope ← parseReq S series range
    let env ← Interval.of envelope
    match env with
    | none => .ok []
    | some env => deadEntries S series scope env (p.scope scope)

/-- `PatchSeries::unreachable`: the entries the series can never select. -/
def unreachable : Outcome ConfigError (List (Scope × PatchEntry)) := do
  let dead ← Outcome.mapM (scopeUnreachable S p series) Scope.all
  pure dead.flatten

end PatchSeries

end Boot2Deb.Series
