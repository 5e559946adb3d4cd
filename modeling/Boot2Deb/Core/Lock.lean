import Boot2Deb.Rust.Str

/-!
# The lock of a recipe

The resolved exact pins `boot2deb update` writes and `boot2deb build` reads: for every source the
repository, the ref and the commit, for everything fetched as a file its digest. A commit is checked
for its shape where a lock is read.
-/

namespace Boot2Deb.Core

open Rust

def isAsciiHexdigit (c : Char) : Bool :=
  c.isDigit || ('a' ≤ c && c ≤ 'f') || ('A' ≤ c && c ≤ 'F')

/-- `sources::is_full_sha`. -/
def isFullSha (s : Str) : Bool := s.length == 40 && s.all isAsciiHexdigit

theorem isFullSha_replicate : isFullSha (List.replicate 40 'a') = true := by decide

/-- A commit id of the shape `de_commit` accepts. -/
structure Commit where
  text : Str
  full : isFullSha text = true
deriving DecidableEq

theorem Commit.length_text (c : Commit) : c.text.length = 40 := by
  have h : c.text.length == 40 ∧ c.text.all isAsciiHexdigit = true := by
    simpa [isFullSha] using c.full
  simpa using h.1

theorem Commit.text_inj {c d : Commit} : c.text = d.text ↔ c = d := by
  cases c
  cases d
  simp

structure KernelPin where
  id : Str
  source : Str
  reference : Str
  commit : Commit
deriving DecidableEq

structure PatchesPin where
  series : List Str
  source : Str
  reference : Str
  commit : Commit
deriving DecidableEq

structure UbootPin where
  source : Str
  reference : Str
  commit : Commit
deriving DecidableEq

structure GitPin where
  source : Str
  reference : Str
  commit : Commit
deriving DecidableEq

structure UserspacePin where
  name : Str
  source : Str
  reference : Str
  commit : Commit
deriving DecidableEq

structure KmodPin where
  name : Str
  source : Str
  reference : Str
  commit : Commit
deriving DecidableEq

structure FfmpegPins where
  base : GitPin
  rockchip : Option GitPin
deriving DecidableEq

/-- The SDK release and, by host architecture in order, the digest of its tarball. -/
@[ext] structure DotnetSdk where
  version : Str
  sha512 : List (Str × Str)
deriving DecidableEq

structure NugetPin where
  manifest : Str
  manifestSha256 : Str
deriving DecidableEq

structure DotnetPins where
  packaging : GitPin
  sdk : DotnetSdk
  nuget : NugetPin
deriving DecidableEq

structure AppPin where
  name : Str
  source : Str
  reference : Str
  commit : Commit
  patches : Option PatchesPin
  dotnet : Option DotnetPins
deriving DecidableEq

structure RootfsPin where
  distro : Str
  suite : Str
  manifest : Str
  manifestSha256 : Option Str
  sourceDateEpoch : UInt64
deriving DecidableEq

/-- Each `"<filename>@sha256:<hex>"`. -/
structure BlobsPin where
  atf : Str
  tpl : Str
  bl32 : Option Str
deriving DecidableEq

inductive ExtraDebTarget where
  | image
  | ffmpeg
deriving DecidableEq

structure ExtraDeb where
  url : Option Str
  path : Option Str
  sha256 : Str
  targets : List ExtraDebTarget
deriving DecidableEq

inductive SnapshotMode where
  | off
  | fallback
  | pin
deriving DecidableEq

structure SnapshotPin where
  timestamp : Str
  mode : SnapshotMode
deriving DecidableEq

/-- The resolved exact pins for a recipe. -/
structure Lock where
  kernel : Option KernelPin
  patches : Option PatchesPin
  uboot : Option UbootPin
  ubootPatches : Option PatchesPin
  userspace : List UserspacePin
  ffmpeg : Option FfmpegPins
  kmods : List KmodPin
  apps : List AppPin
  rootfs : Option RootfsPin
  blobs : Option BlobsPin
  extraDebs : List ExtraDeb
  snapshot : Option SnapshotPin
deriving DecidableEq

end Boot2Deb.Core
