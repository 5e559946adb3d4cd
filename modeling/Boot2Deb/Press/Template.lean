import Mathlib
import Boot2Deb.Image.Identity

/-!
# Templated additions

A template draws its values from the identity of the image it is placed in: the identity document
of the tree and the identifiers stamped into the disk.
-/

namespace Boot2Deb.Press
open Rust Image

/-- The suffix that marks an addition as a template. -/
def TEMPLATE_SUFFIX : Str := ".tmpl".toList

/-- The destination of a template: its path without the suffix. -/
def stripTemplateSuffix (name : Str) : Option Str := stripSuffix name TEMPLATE_SUFFIX

/-- The names a template can draw on. -/
inductive ImageValue where
  | hostname
  | device
  | description
  | arch
  | soc
  | bootMethod
  | suite
  | layout
  | kernel
  | recipe
  | rootfsPartuuid
  | rootfsUuid
  | seedPartuuid
  | diskGuid
deriving DecidableEq

/-- What a pressed image says about how it differs from the recipe's artifact. -/
structure IdentityPressed where
  source : Str
  freshIdentity : Bool
  copies : List Str
  debs : List Str
  embeddedImage : Option Str
deriving DecidableEq

/-- The `[image]` table of the identity document, as far as a template reads it. -/
structure IdentityImage where
  device : Str
  description : Str
  arch : Str
  soc : Str
  bootMethod : Str
  suite : Str
  layout : Str
  hostname : Str
deriving DecidableEq

/-- The identity document. `rest` is what neither a template nor the marker touches. -/
structure SystemIdentity (Rest : Type) where
  image : IdentityImage
  kernelId : Str
  pressed : Option IdentityPressed
  rest : Rest

/-- The strings a template expands to. -/
structure ImageFacts where
  hostname : Str
  device : Str
  description : Str
  arch : Str
  soc : Str
  bootMethod : Str
  suite : Str
  layout : Str
  kernel : Str
  recipe : Str
  rootfsPartuuid : Str
  rootfsUuid : Str
  seedPartuuid : Str
  diskGuid : Str

namespace ImageFacts

/-- The vocabulary, from the tree's identity document and the identifiers of the disk. The hostname
a press seeds goes before the document's. -/
def new {Rest : Type} (identity : SystemIdentity Rest) (image : ImageIdentity) (recipe : Str)
    (seedHostname : Option Str) : ImageFacts where
  hostname := seedHostname.getD identity.image.hostname
  device := identity.image.device
  description := identity.image.description
  arch := identity.image.arch
  soc := identity.image.soc
  bootMethod := identity.image.bootMethod
  suite := identity.image.suite
  layout := identity.image.layout
  kernel := identity.kernelId
  recipe
  rootfsPartuuid := image.rootfsPartuuid.hyphenated
  rootfsUuid := image.ext4Uuid.hyphenated
  seedPartuuid := image.seedPartuuid.hyphenated
  diskGuid := image.diskGuid.hyphenated

/-- The string one name expands to. -/
def get (facts : ImageFacts) : ImageValue → Str
  | .hostname => facts.hostname
  | .device => facts.device
  | .description => facts.description
  | .arch => facts.arch
  | .soc => facts.soc
  | .bootMethod => facts.bootMethod
  | .suite => facts.suite
  | .layout => facts.layout
  | .kernel => facts.kernel
  | .recipe => facts.recipe
  | .rootfsPartuuid => facts.rootfsPartuuid
  | .rootfsUuid => facts.rootfsUuid
  | .seedPartuuid => facts.seedPartuuid
  | .diskGuid => facts.diskGuid

end ImageFacts

/-- A piece of a template: text as it stands, or a value to fill in. -/
inductive Segment where
  | literal (text : Str)
  | value (v : ImageValue)
deriving DecidableEq

abbrev Template := List Segment

/-- The file a template becomes. -/
def Template.render (t : Template) (facts : ImageFacts) : Bytes :=
  asBytes (t.flatMap fun
    | .literal text => text
    | .value v => facts.get v)

end Boot2Deb.Press
