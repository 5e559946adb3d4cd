import Boot2Deb.Series.Manifest

/-!
# What a series applies

The gate of a series' declared range, and the paths of one scope that a version selects.
-/

namespace Boot2Deb.Series
open Rust Semver

/-- `PatchEntry::path`. -/
def PatchEntry.path : PatchEntry → Str
  | always path => path
  | ranged path _ => path

/-- Whether a version that the range can be matched against selects the entry. -/
def PatchEntry.selects (S : Crate) (version : Str) (mode : RangeMatch) (entry : PatchEntry) : Bool :=
  entry.selected S [] version mode = .ok true

/-- The series is named in errors only. -/
theorem PatchEntry.selects_eq {S : Crate} {entry : PatchEntry} {series version : Str}
    {mode : RangeMatch} {selected : Bool}
    (h : entry.selected S series version mode = .ok selected) :
    entry.selects S version mode = selected := by
  have hany : entry.selected S [] version mode = .ok selected := by
    unfold PatchEntry.selected at h ⊢
    cases hrange : entry.kernels with
    | none =>
      rw [hrange] at h
      exact h
    | some range =>
      rw [hrange] at h
      obtain ⟨req, hreq, h⟩ := Outcome.bind_eq_ok.mp h
      exact Outcome.bind_eq_ok.mpr ⟨req, Outcome.okOr_eq_ok.mpr (Outcome.okOr_eq_ok.mp hreq), h⟩
  unfold PatchEntry.selects
  rw [hany]
  cases selected <;> rfl

namespace PatchSeries
variable (S : Crate) (p : PatchSeries) (series : Str)

/-- A declared range as a hard gate: no range lets every version pass. -/
def ensureWithin (scope : Scope) (outside : Str → Str → Str → ConfigError) (version : Str) :
    Outcome ConfigError Unit :=
  match p.envelope scope with
  | none => .ok ()
  | some range => do
    let applies ← matchesRange S series range version .release
    if applies then .ok () else .err (outside series version range)

/-- `ensure_applies`: the gate of the kernel-family scopes. -/
def ensureApplies : Str → Outcome ConfigError Unit :=
  p.ensureWithin S series .kernel .kernelOutsideSeriesRange

/-- `ensure_applies_uboot`. -/
def ensureAppliesUboot : Str → Outcome ConfigError Unit :=
  p.ensureWithin S series .uboot .ubootOutsideSeriesRange

/-- `ensure_applies_app`. -/
def ensureAppliesApp : Str → Outcome ConfigError Unit :=
  p.ensureWithin S series .app .appOutsideSeriesRange

/-- The paths of a list of entries that a version selects, in order. -/
def selectedPaths (version : Str) (mode : RangeMatch) :
    List PatchEntry → Outcome ConfigError (List Str)
  | [] => .ok []
  | entry :: entries => do
    let selected ← entry.selected S series version mode
    let rest ← selectedPaths version mode entries
    .ok (if selected then entry.path :: rest else rest)

/-- `series_for`: the paths of one scope a version selects. -/
def seriesFor (scope : Scope) (version : Str) (mode : RangeMatch) : Outcome ConfigError (List Str) :=
  selectedPaths S series version mode (p.scope scope)

variable {S p series} {entries : List PatchEntry} {paths : List Str} {version : Str}
  {mode : RangeMatch}

/-- What is selected are the paths of the entries the version selects, in order. -/
theorem selectedPaths_eq (h : selectedPaths S series version mode entries = .ok paths) :
    paths = (entries.filter (·.selects S version mode)).map PatchEntry.path := by
  induction entries generalizing paths with
  | nil =>
    obtain rfl := Outcome.ok.inj h
    rfl
  | cons entry entries ih =>
    obtain ⟨selected, hselected, h⟩ := Outcome.bind_eq_ok.mp h
    obtain ⟨rest, hrest, h⟩ := Outcome.bind_eq_ok.mp h
    obtain rfl := Outcome.ok.inj h
    rw [List.filter_cons, PatchEntry.selects_eq hselected, ih hrest]
    cases selected <;> rfl

end PatchSeries

end Boot2Deb.Series
