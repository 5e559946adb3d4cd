import Mathlib
import Boot2Deb.Rust.Str

/-!
# How two image file manifests differ

The rows of a comparison of two manifests, and what is left of it once the content of the per-image
paths is set aside.
-/

namespace Boot2Deb.Core.Files

open Rust

/-- The paths whose content differs between two images built from one lock by design. -/
def PER_IMAGE_PATHS : List Str := ["/etc/shadow".toList]

/-- The fields of such a path the password splice can change. -/
def PER_IMAGE_FIELDS : List Str := ["mtime".toList, "size".toList, "sha256".toList]

structure ChangedFile where
  path : Str
  fields : List Str
deriving DecidableEq

structure FilesDiff where
  added : List Str
  removed : List Str
  changed : List ChangedFile
deriving DecidableEq

def FilesDiff.isEmpty (d : FilesDiff) : Bool :=
  d.added.isEmpty && d.removed.isEmpty && d.changed.isEmpty

/-- What of a changed path is no per-image content. -/
def ChangedFile.kept (c : ChangedFile) : ChangedFile :=
  if PER_IMAGE_PATHS.contains c.path then
    { c with fields := c.fields.filter fun f => !PER_IMAGE_FIELDS.contains f }
  else c

/-- What remains, and the paths whose content is set aside. -/
def FilesDiff.withoutPerImage (d : FilesDiff) : FilesDiff × List Str :=
  ({ d with changed := (d.changed.map ChangedFile.kept).filter fun c =>
      !PER_IMAGE_PATHS.contains c.path || !c.fields.isEmpty },
    (d.changed.filter fun c => c.kept.fields.length < c.fields.length).map ChangedFile.path)

end Boot2Deb.Core.Files
