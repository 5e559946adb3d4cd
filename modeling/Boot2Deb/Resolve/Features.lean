import Boot2Deb.Config.Scaffold
import Boot2Deb.Core.Debcheck
import Boot2Deb.Core.Nuget
import Boot2Deb.Engine.Pins
import Boot2Deb.Lib.KeyedUnion

/-!
# What a selection of features resolves to

A recipe names its features. Resolution loads each, refuses a selection that does not fit the board
or itself, and joins what the features and the layers contribute: apt sources by their names, apps
by theirs, debs by their digests and libraries by their flags. Whether a selection is accepted is a
matter of the set alone, and so is what is joined.
-/

namespace Boot2Deb.Resolve
open Rust
open Boot2Deb.Config.Scaffold (Soc)
open Boot2Deb.Core.Debcheck (Arch)
open Boot2Deb.Core (ExtraDeb ExtraDebTarget DotnetSdk)
open Boot2Deb.Engine.Pins (GitSource)

/-- The errors of `ConfigError` a selection ends in. `config` is one of loading a manifest. -/
inductive SelectionError where
  | config (e : ConfigError)
  | duplicateFeature (feature : Str)
  | incompatibleFeatureSoc (feature soc : Str) (supported : Str)
  | incompatibleFeatureArch (feature arch : Str) (supported : Str)
  | conflictingFeatures (feature conflictsWith : Str)
  | missingCapability (feature capability : Str) (providers : List Str)
  | featureRequiresMediaAccel (feature soc : Str)
  | aptSourceBadField (feature name field value : Str)
  | conflictingAptSource (feature other name : Str)
  | invalidField (what value why : Str)
  | missingAppPatchesUrl (app feature series : Str)
  | appArchUnsupported (app feature arch : Str)
  | conflictingApp (app feature : Str)
  | extraDebLocator (sha256 : Str)
  | extraDebUnsafePath (value : Str)
  | extraDebNoTarget (locator : Str)
  | extraDebBadHash (value : Str)
deriving DecidableEq

/-! ### The manifest -/

structure AptSource where
  name : Str
  uri : Str
  suite : Str
  components : List Str
  signedBy : Str
deriving DecidableEq

/-- `AppBuild::DotnetDeb`, the one way an app is built. -/
structure DotnetDebBuild where
  packaging : GitSource
  sourceDir : Str
  project : Str
  sdk : DotnetSdk
deriving DecidableEq

structure App where
  name : Str
  git : Str
  gitRef : Str
  deb : Str
  patchSeries : List Str
  patchesUrl : Option Str
  patchesRef : Option Str
  build : DotnetDebBuild
deriving DecidableEq

structure FfmpegLib where
  flag : Str
  links : List Str
deriving DecidableEq

structure Feature where
  requiresSoc : List Soc
  requiresArch : List Arch
  aptSources : List AptSource
  extraDebs : List ExtraDeb
  ffmpegLibs : List FfmpegLib
  apps : List App
  conflicts : List Str
  provides : List Str
  requiresCapability : List Str
  requiresMediaAccel : Bool
  ffmpegNonfree : Bool
  configFragments : List Str
  patchSeries : List Str

/-- A selected feature, under its name. -/
abbrev Selected := Str × Feature

/-! ### The gates -/

/-- `Arch::as_str`. -/
def archName : Arch → Str
  | .arm64 => "arm64".toList
  | .armv7 => "armv7".toList
  | .riscv64 => "riscv64".toList

namespace Feature

def supportsSoc (f : Feature) (soc : Soc) : Bool := f.requiresSoc.isEmpty || f.requiresSoc.contains soc

def supportsArch (f : Feature) (arch : Arch) : Bool :=
  f.requiresArch.isEmpty || f.requiresArch.contains arch

def ensureSupportsSoc (f : Feature) (name : Str) (soc : Soc) : Outcome SelectionError Unit :=
  if f.supportsSoc soc then .ok ()
  else .err (.incompatibleFeatureSoc name soc.asStr
    (join ", ".toList (f.requiresSoc.map Soc.asStr)))

def ensureSupportsArch (f : Feature) (name : Str) (arch : Arch) : Outcome SelectionError Unit :=
  if f.supportsArch arch then .ok ()
  else .err (.incompatibleFeatureArch name (archName arch)
    (join ", ".toList (f.requiresArch.map archName)))

end Feature

def firstRequiringMediaAccel (selected : List Selected) : Option Str :=
  (selected.find? (·.2.requiresMediaAccel)).map (·.1)

def firstEnablingFfmpegNonfree (selected : List Selected) : Option Str :=
  (selected.find? (·.2.ffmpegNonfree)).map (·.1)

/-- `kernel_contributions`: the fragments and the series, each once. -/
def kernelContributions (selected : List Selected) : List Str × List Str :=
  (firsts id (selected.flatMap (·.2.configFragments)),
    firsts id (selected.flatMap (·.2.patchSeries)))

/-- Either feature names the other. -/
def clashes (a b : Selected) : Bool := a.2.conflicts.contains b.1 || b.2.conflicts.contains a.1

/-- `ensure_no_conflicts`: the first pair that clashes, if there is one. -/
def ensureNoConflicts : List Selected → Outcome SelectionError Unit
  | [] => .ok ()
  | a :: rest =>
    match rest.find? (clashes a) with
    | some b => .err (.conflictingFeatures a.1 b.1)
    | none => ensureNoConflicts rest

/-- `ensure_capabilities_satisfied`. -/
def ensureCapabilitiesSatisfied (selected : List Selected) (known : List (Str × List Str)) :
    Outcome SelectionError Unit :=
  match (selected.flatMap fun f => f.2.requiresCapability.map (f.1, ·)).find?
      fun r => !selected.any fun o => o.2.provides.contains r.2 with
  | none => .ok ()
  | some (feature, capability) => .err (.missingCapability feature capability
      (((known.filter fun p => p.2.contains capability).map (·.1)).insertionSort fun a b =>
        (compare a b).isLE))

/-! ### What the features contribute -/

/-- Rows joined one by one, each checked as it is met. -/
def mergeRows {α β κ γ : Type} [DecidableEq κ] [DecidableEq γ] (check : α → Outcome SelectionError β)
    (key : β → κ) (face : β → γ) (clash : β → β → SelectionError) (merged : List β) :
    List α → Outcome SelectionError (List β)
  | [] => .ok merged
  | x :: xs => do
    let y ← check x
    match joinRow key face merged y with
    | .ok merged => mergeRows check key face clash merged xs
    | .error old => .err (clash old y)

/-- `apt_line_token`: a field of a one-line source, without blanks and brackets. -/
def aptLineToken (v : Str) : Bool :=
  !v.isEmpty && v.all fun c => 0x21 ≤ c.toNat && c.toNat ≤ 0x7e && c != '[' && c != ']'

/-- `apt_file_stem`: a portable file name. -/
def aptFileStem (v : Str) : Bool :=
  !v.isEmpty && v != ['.'] && v != ['.', '.'] &&
    v.all fun c => c.isAlphanum || c == '.' || c == '-' || c == '_'

def validateAptSource (feature : Str) (src : AptSource) : Outcome SelectionError Unit :=
  let bad (field value : Str) : Outcome SelectionError Unit :=
    .err (.aptSourceBadField feature src.name field value)
  if !aptFileStem src.name then bad "name".toList src.name
  else if !aptLineToken src.uri ||
      !("https://".toList.isPrefixOf src.uri || "http://".toList.isPrefixOf src.uri) then
    bad "uri".toList src.uri
  else if !aptLineToken src.suite then bad "suite".toList src.suite
  else if src.components.isEmpty && src.suite.getLast? != some '/' then
    bad "components".toList "(empty)".toList
  else match src.components.find? (!aptLineToken ·) with
    | some component => bad "components".toList component
    | none =>
      if !aptFileStem src.signedBy then bad "signed_by".toList src.signedBy
      else .ok ()

/-- `merge_apt_sources`. A row is a source and the feature that brings it. -/
def mergeAptSources (features : List Selected) : Outcome SelectionError (List AptSource) := do
  let merged ← mergeRows
    (fun row => do
      validateAptSource row.1 row.2
      .ok row)
    (fun row => row.2.name) (fun row => row.2)
    (fun old row => .conflictingAptSource old.1 row.1 row.2.name) []
    (features.flatMap fun f => f.2.aptSources.map (f.1, ·))
  .ok (merged.map (·.2))

/-- `is_plain_relative_path`: no empty, `.` or `..` component. -/
def isPlainRelativePath (path : Str) : Bool :=
  !path.isEmpty && path.head? != some '/' &&
    (path.splitOn '/').all fun c => !c.isEmpty && c != ['.'] && c != ['.', '.']

/-- `dotnet_rid`. -/
def dotnetRid (debianArch : Str) : Option Str :=
  if debianArch = "amd64".toList then some "linux-x64".toList
  else if debianArch = "arm64".toList then some "linux-arm64".toList
  else if debianArch = "armhf".toList then some "linux-arm".toList
  else none

/-- `DEFAULT_PATCHES_REF`. -/
def DEFAULT_PATCHES_REF : Str := "main".toList

/-- What is wrong with the declared SDK of an app. -/
def sdkDefect (sdk : DotnetSdk) : Option SelectionError :=
  if !(sdk.version.head?.any Char.isDigit &&
      sdk.version.all fun c => c.isAlphanum || c == '.' || c == '-') then
    some (.invalidField "app sdk version".toList sdk.version
      "is not a .NET SDK release (digits, letters, `.` and `-`, starting with a digit)".toList)
  else if sdk.sha512.isEmpty then
    some (.invalidField "app sdk sha512".toList [] "names no build-host architecture".toList)
  else sdk.sha512.findSome? fun row =>
    if dotnetRid row.1 = none then
      some (.invalidField "app sdk sha512 host".toList row.1
        ("is not a Debian architecture .NET publishes an SDK for " ++
          "(amd64, arm64, armhf)").toList)
    else if !Core.Nuget.isSha512Hex row.2 then
      some (.invalidField "app sdk sha512".toList row.2
        "is not 128 lowercase hex characters".toList)
    else none

/-- What is wrong with how an app is built. -/
def buildDefect (app : App) (feature : Str) (arch : Arch) : Option SelectionError :=
  let d := app.build
  if d.packaging.git.isEmpty then
    some (.invalidField "app packaging git".toList d.packaging.git "is empty".toList)
  else if d.packaging.gitRef.isEmpty then
    some (.invalidField "app packaging ref".toList d.packaging.gitRef "is empty".toList)
  else if !isPlainRelativePath d.sourceDir then
    some (.invalidField "app source_dir".toList d.sourceDir
      "is not a relative path of plain components".toList)
  else if !isPlainRelativePath d.project then
    some (.invalidField "app project".toList d.project
      "is not a relative path of plain components".toList)
  else (sdkDefect d.sdk).or <|
    if dotnetRid arch.debianArch = none then
      some (.appArchUnsupported app.name feature arch.debianArch)
    else none

/-- What is wrong with an app, in the order it is looked for. -/
def appDefect (app : App) (feature : Str) (arch : Arch) : Option SelectionError :=
  if app.name.isEmpty ||
      !app.name.all (fun c => c.isLower || c.isDigit || c == '-' || c == '_') then
    some (.invalidField "app name".toList app.name
      "is not a bare identifier (lowercase letters, digits, `-` and `_`)".toList)
  else if !(app.deb.head?.any Char.isAlphanum &&
      app.deb.all fun c => c.isLower || c.isDigit || c == '-' || c == '+' || c == '.') then
    some (.invalidField "app deb".toList app.deb
      ("is not dpkg-package-safe (lowercase alphanumeric plus `-`, `+`, `.`, " ++
        "starting alphanumeric)").toList)
  else if app.git.isEmpty then some (.invalidField "app git".toList app.git "is empty".toList)
  else if app.gitRef.isEmpty then some (.invalidField "app ref".toList app.gitRef "is empty".toList)
  else if app.patchSeries.any (·.isEmpty) then
    some (.invalidField "app patch series".toList [] "names an empty series".toList)
  else if !app.patchSeries.isEmpty && app.patchesUrl.isNone then
    some (.missingAppPatchesUrl app.name feature (join ", ".toList app.patchSeries))
  else buildDefect app feature arch

/-- The patches ref is filled in where series are named, and dropped where none are. -/
def App.normalized (app : App) : App :=
  { app with
    patchesRef :=
      if app.patchSeries.isEmpty then none else some (app.patchesRef.getD DEFAULT_PATCHES_REF) }

/-- `check_app`. -/
def checkApp (app : App) (feature : Str) (arch : Arch) : Outcome SelectionError App :=
  match appDefect app feature arch with
  | some e => .err e
  | none => .ok app.normalized

/-- `merge_apps`. A row is an app and the feature that brings it. -/
def mergeApps (features : List Selected) (arch : Arch) : Outcome SelectionError (List App) := do
  let merged ← mergeRows
    (fun row => do
      let app ← checkApp row.2 row.1 arch
      .ok (row.1, app))
    (fun row => row.2.name) (fun row => row.2)
    (fun _ row => .conflictingApp row.2.name row.1) []
    (features.flatMap fun f => f.2.apps.map (f.1, ·))
  .ok (merged.map (·.2))

/-- `ExtraDeb::validate`, of a row of any layer. -/
def validateExtraDeb (d : ExtraDeb) : Outcome SelectionError Unit := do
  match d.url, d.path with
  | some _, none => .ok ()
  | none, some path =>
    if path.head? = some '/' || (path.splitOn '/').contains ['.', '.'] then
      .err (.extraDebUnsafePath path)
    else .ok ()
  | _, _ => .err (.extraDebLocator d.sha256)
  if d.targets.isEmpty then
    .err (.extraDebNoTarget ((d.url.or d.path).getD ("extra_deb ".toList ++ d.sha256)))
  else if byteLen d.sha256 == 64 &&
      (asBytes d.sha256).all fun b => (48 ≤ b && b ≤ 57) || (97 ≤ b && b ≤ 102) then .ok ()
  else .err (.extraDebBadHash d.sha256)

/-- `merge_extra_debs`, over the rows of the layers and those of the features. -/
def mergeExtraDebs (layers : List ExtraDeb) (features : List Selected) :
    Outcome SelectionError (List ExtraDeb) :=
  mergeRows
    (fun d => do
      validateExtraDeb d
      .ok d)
    (fun d => d.sha256) (fun _ => ()) (fun _ d => .extraDebBadHash d.sha256) []
    (layers ++ features.flatMap (·.2.extraDebs))

/-- `merge_ffmpeg_libs`. -/
def mergeFfmpegLibs (features : List Selected) : List FfmpegLib :=
  firsts FfmpegLib.flag (features.flatMap (·.2.ffmpegLibs))

/-! ### The selection -/

/-- What a selection is resolved against: the manifests, the providers a scan of them finds, and the
board with what its layers contribute. -/
structure Board where
  load : Str → Outcome ConfigError Feature
  knownProviders : Outcome ConfigError (List (Str × List Str))
  soc : Soc
  arch : Arch
  /-- The SoC has the source trees of the media stack. -/
  mediaAccel : Bool
  extraDebs : List ExtraDeb

/-- The loop that refuses a feature named twice. -/
def checkDistinct (seen : List Str) : List Str → Outcome SelectionError Unit
  | [] => .ok ()
  | name :: names =>
    if seen.contains name then .err (.duplicateFeature name) else checkDistinct (name :: seen) names

def loadFeature (b : Board) (name : Str) : Outcome SelectionError Selected := do
  let f ← (b.load name).mapErr .config
  f.ensureSupportsSoc name b.soc
  f.ensureSupportsArch name b.arch
  .ok (name, f)

/-- The scan for providers is made only where a capability is asked for. -/
def capabilityGate (b : Board) (selected : List Selected) : Outcome SelectionError Unit :=
  if selected.any fun f => !f.2.requiresCapability.isEmpty then do
    let known ← b.knownProviders.mapErr .config
    ensureCapabilitiesSatisfied selected known
  else .ok ()

/-- The features a recipe names, once every gate has let them pass. -/
def selectFeatures (b : Board) (names : List Str) : Outcome SelectionError (List Selected) := do
  checkDistinct [] names
  let selected ← Outcome.mapM (loadFeature b) names
  ensureNoConflicts selected
  capabilityGate b selected
  .ok selected

def mediaAccelGate (b : Board) (selected : List Selected) : Outcome SelectionError Unit :=
  match firstRequiringMediaAccel selected with
  | some feature =>
    if b.mediaAccel then .ok () else .err (.featureRequiresMediaAccel feature b.soc.asStr)
  | none => .ok ()

/-- What a selection resolves to. -/
structure Composition where
  features : List Selected
  configFragments : List Str
  patchSeries : List Str
  buildMediaAccel : Bool
  ffmpegNonfree : Bool
  aptSources : List AptSource
  apps : List App
  extraDebs : List ExtraDeb
  ffmpegLibs : List FfmpegLib

/-- `resolve_device`, of the features. -/
def compose (b : Board) (names : List Str) : Outcome SelectionError Composition := do
  let features ← selectFeatures b names
  let kernel := kernelContributions features
  mediaAccelGate b features
  let aptSources ← mergeAptSources features
  let apps ← mergeApps features b.arch
  let extraDebs ← mergeExtraDebs b.extraDebs features
  .ok {
    features
    configFragments := kernel.1
    patchSeries := kernel.2
    buildMediaAccel := (firstRequiringMediaAccel features).isSome
    ffmpegNonfree := (firstEnablingFfmpegNonfree features).isSome
    aptSources, apps, extraDebs
    ffmpegLibs := mergeFfmpegLibs features }

end Boot2Deb.Resolve
