import Boot2Deb.Rust.Str

/-!
# Errors

The variants of `ConfigError` and `EngineError` the modelled functions return, with the data each
carries.
-/

namespace Boot2Deb
open Rust

/-- `boot2deb_core::error::ConfigError`. -/
inductive ConfigError where
  /-- A size or offset string that names no byte count. -/
  | invalidSize (value : Str)
  /-- An image size that is neither a size nor `fit+<slack>`. -/
  | invalidImageSize (value : Str)
  /-- A kernel-slot attribute that does not fit its four bits. -/
  | invalidKpartAttr (field : String) (value : UInt8)
  /-- A range of a patch series that is no version requirement. -/
  | invalidVersionReq (series value : Str)
  /-- A tag that names no version. -/
  | invalidVersion (value : Str)
  | patchEmpty
  | patchMissingSubject
  | patchNoDiff
  /-- A flat layer name that is not a bare identifier. -/
  | invalidName (kind : String) (name : Str)
  /-- A recipe reference that is not `<device>/<leaf>` or a bare leaf. -/
  | invalidRecipeRef (name : Str)
  | duplicateFeature (feature : Str)
  /-- A data volume's mount path, label or match, and what is wrong with it. -/
  | dataVolumeMount (mount : Str) (why : String)
  | dataVolumeLabel (label : Str) (why : String)
  | dataVolumeMatch (value : Str) (why : String)
  /-- A version outside the range a patch series declares. -/
  | kernelOutsideSeriesRange (series version appliesTo : Str)
  | ubootOutsideSeriesRange (series version appliesTo : Str)
  | appOutsideSeriesRange (series version appliesTo : Str)
  /-- A kernel with patch series and no repository they come from. -/
  | missingPatchesUrl (kernel series : Str)
  /-- What a feature or a device gives a kernel that is not compiled. -/
  | featureNeedsCompiledKernel (feature kernel : Str) (what : String)
  | distroKernelCompilesNothing (device kernel : Str) (what : String)
  /-- A device slug that is no host name. -/
  | invalidDeviceName (name why : Str)
  /-- An `extends` chain that comes back to a device it holds, and one that is no name. -/
  | deviceExtendsCycle (device chain : Str)
  | invalidDeviceExtends (device : Str) (found : String)
  /-- A field of a device's own file that is of the wrong type. -/
  | invalidDeviceField (path : List Str) (field : Str) (found : String)
  /-- A config file that no root has, with the last path tried and the names like it. -/
  | notFound (kind : String) (name : Str) (path similar : List Str)
  /-- A package entry whose condition is malformed, or names a distro the tree does not have. -/
  | packageCondition (package layer : Str) (problem : String)
  | unknownPackageDistro (package layer distro known : Str)
  /-- A config file that cannot be read, or does not parse. -/
  | io (path : List Str)
  | parse (path : List Str)
deriving DecidableEq, Repr

/-- A part of an error's text: a text, bytes as `String::from_utf8_lossy` shows them, or what
`Utf8Error` says of bytes. -/
inductive Note where
  | text (s : String)
  | shown (b : Bytes)
  | utf8Error (b : Bytes)
deriving DecidableEq, Repr

/-- `boot2deb_engine::error::EngineError`. -/
inductive EngineError where
  | imageGeometry (detail : String)
  /-- An I/O error at a path. -/
  | io (path : Str)
  /-- A `ConfigError`, carried up by `?`. -/
  | config (e : ConfigError)
  /-- An addition to a pressed tree that cannot be placed at `dest`. -/
  | pressAddition (dest : Bytes) (detail : List Note)
  /-- A pressed tree that names the build's identifiers where the press cannot rewrite them. -/
  | identityRewrite (detail : List Note)
  | ext4Format (detail : List Note)
  /-- A signed kernel partition that cannot be read or re-signed. -/
  | kpartResign (detail : String)
  /-- A signed kernel partition this image cannot boot. -/
  | kpartInvalid (detail : Str)
  /-- A stage handed a build it has nothing to do for. -/
  | stageNotApplicable (stage why : String)
  /-- The partition table could not be written. -/
  | gpt (context detail : String)
  /-- A patches checkout with uncommitted work, or not at the pinned commit. -/
  | patchesWorktreeDirty (commit : Str)
  | patchesPinMismatch (expected actual : Str) (dirty : Bool)
  | missingMediaAccelPins (stage : String)
  /-- A command that failed, by what it was run for. -/
  | commandFailed (context : Str)
  | artifactMissing (what : String)
  /-- A kernel tree named by no URL. -/
  | unknownSourceTree (name : Str)
  | patchesCheckoutMissing
  | patchesDirty
  /-- The axes on which a lock and a resolved build differ. -/
  | lockConfigDrift (axes : List Str)
deriving DecidableEq, Repr

end Boot2Deb
