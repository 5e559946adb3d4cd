import Boot2Deb.Press.Additions
import Boot2Deb.Rust.Pattern
import Boot2Deb.Lib.Windows

/-!
# The identity of a pressed image

A press can draw identifiers of its own for the one medium it writes. The build wrote its root
PARTUUID into a few files of the tree; `TreeRekey.apply` rewrites those, and `TreeRekey.check`
refuses a tree in which a file under `/etc` or `/boot` still names one of the build's identifiers.
-/

namespace Boot2Deb.Press
open Rust Image Std

/-- The identifiers a pressed image contains: the build's, or a set drawn for this medium. -/
inductive PressIdentity where
  | built (identity : ImageIdentity)
  | fresh (built drawn : ImageIdentity)

namespace PressIdentity

def pressed : PressIdentity → ImageIdentity
  | built identity => identity
  | fresh _ drawn => drawn

def isFresh : PressIdentity → Bool
  | built _ => false
  | fresh _ _ => true

end PressIdentity

/-- Additions for a press, initially empty. -/
def TreeAdditions.new (sourceStem recipe : Str) (identity : PressIdentity) : TreeAdditions where
  sourceStem
  recipe
  seedHostname := none
  identity := identity.pressed
  freshIdentity := identity.isFresh
  files := []
  copies := []
  debs := []
  embeddedImage := none

def FSTAB : Bytes := asBytes "/etc/fstab".toList

def EXTLINUX_CONF : Bytes := asBytes "/boot/extlinux/extlinux.conf".toList

/-- The prefixes `check` reads below. -/
def CHECKED_PREFIXES : List Bytes := [asBytes "/etc/".toList, asBytes "/boot/".toList]

/-- Where the tree holds signed kernel images. -/
def KPART_DIR : Str := "/boot/depthcharge".toList

/-- The length of a hyphenated UUID. -/
def UUID_TEXT_LEN : ℕ := 36

/-- How often a rewritten file names the build's root PARTUUID. -/
inductive Occurrences where
  | once
  | atLeastOnce
deriving DecidableEq

/-- The signed kernel a press re-signed: its file name in the tree, and the file on the host. -/
structure Kpart where
  name : Str
  resigned : Str

/-- Where the tree holds the kernel. -/
def Kpart.treePath (k : Kpart) : Bytes := asBytes (KPART_DIR ++ '/' :: k.name)

/-- The rewrite a fresh identity makes to a tree. -/
structure TreeRekey where
  built : ImageIdentity
  fresh : ImageIdentity
  extlinux : Bool
  kpart : Option Kpart

/-- A UUID as the build writes it everywhere. -/
def hyphenated (u : Uuid) : Str := toAsciiLowercase u.hyphenated

/-- The position and content of the regular file at a path. -/
def regularFile (entries : List SourceEntry) (path : Bytes) : Outcome EngineError (ℕ × FileContent) :=
  match entries.findIdx? fun e => e.path = path with
  | none => .err (.identityRewrite [.text "the rootfs contains no ", .shown path,
      .text ", which the build writes the root PARTUUID into"])
  | some i =>
    match entries[i]?.map SourceEntry.kind with
    | some (.file content) => .ok (i, content)
    | _ => .err (.identityRewrite [.shown path, .text " in the rootfs is not a regular file"])

/-- The entry with other content. -/
def SourceEntry.withContent (content : FileContent) (e : SourceEntry) : SourceEntry :=
  { e with kind := .file content }

variable (read : FileRange → Except String Bytes) (len : Str → Option UInt64)

/-- Replace every `old` of a text file, given that their count is what the rule allows. -/
def rewriteText (entries : List SourceEntry) (path : Bytes) (old new : Str) (rule : Occurrences) :
    Outcome EngineError (List SourceEntry × ℕ) := do
  let (i, content) ← regularFile entries path
  match content.read read with
  | .error e => .err (.ext4Format [.text "reading ", .shown path, .text (": " ++ e)])
  | .ok bytes =>
    match fromUtf8 bytes with
    | none => .err (.identityRewrite [.shown path, .text " is not UTF-8 text"])
    | some text =>
      let count := countMatches text old
      let expected : Bool := match rule with
        | .once => count == 1
        | .atLeastOnce => 1 ≤ count
      if !expected then
        .err (.identityRewrite [.shown path, .text " names `", .shown (asBytes old),
          .text ("` " ++ toString count ++ " time(s), where the build writes it " ++
            match rule with
            | .once => "exactly once"
            | .atLeastOnce => "once per boot entry")])
      else .ok (entries.modify i (.withContent (.owned (asBytes (replace text old new)))), count)

namespace TreeRekey

/-- A tree, and one log line for each file changed in it. -/
abbrev Logged := List SourceEntry × List (List Note)

/-- Swap the one `PARTUUID=` the root entry names. -/
def rewriteFstab (k : TreeRekey) (entries : List SourceEntry) : Outcome EngineError Logged := do
  let old := hyphenated k.built.rootfsPartuuid
  let new := hyphenated k.fresh.rootfsPartuuid
  let (entries, count) ← rewriteText read entries FSTAB ("PARTUUID=".toList ++ old)
    ("PARTUUID=".toList ++ new) .once
  .ok (entries, [[.text "rewrote /etc/fstab: root PARTUUID ", .shown (asBytes old),
    .text " is now ", .shown (asBytes new), .text (" (" ++ toString count ++ " line)")]])

/-- Swap every `root=PARTUUID=` of the boot menu, where the boot method writes one. -/
def rewriteMenu (k : TreeRekey) : Logged → Outcome EngineError Logged
  | (entries, log) =>
    if k.extlinux then do
      let old := hyphenated k.built.rootfsPartuuid
      let new := hyphenated k.fresh.rootfsPartuuid
      let (entries, count) ← rewriteText read entries EXTLINUX_CONF ("root=PARTUUID=".toList ++ old)
        ("root=PARTUUID=".toList ++ new) .atLeastOnce
      .ok (entries, log ++ [[.text ("rewrote /boot/extlinux/extlinux.conf: " ++ toString count ++
        " boot entry(ies) root on "), .shown (asBytes new)]])
    else .ok (entries, log)

/-- Replace the signed kernel by the one re-signed for the fresh root. -/
def replaceKernel (k : TreeRekey) : Logged → Outcome EngineError Logged
  | (entries, log) =>
    match k.kpart with
    | none => .ok (entries, log)
    | some kpart => do
      let size ← Outcome.okOr (len kpart.resigned) (.io kpart.resigned)
      let (i, _) ← regularFile entries kpart.treePath
      .ok (entries.modify i (.withContent (.range ⟨kpart.resigned, 0, size⟩)),
        log ++ [[.text "replaced ", .shown kpart.treePath,
          .text " with the kernel partition re-signed for ",
          .shown (asBytes (hyphenated k.fresh.rootfsPartuuid))]])

/-- Rewrite the tree's references to the build's root PARTUUID. -/
def apply (k : TreeRekey) (entries : List SourceEntry) : Outcome EngineError Logged := do
  let tree ← k.rewriteFstab read entries
  let tree ← k.rewriteMenu read tree
  k.replaceKernel len tree

end TreeRekey

/-- The identifiers of an image, each with what it is called. -/
def identifiers (id : ImageIdentity) : List (Uuid × String) :=
  [(id.rootfsPartuuid, "root PARTUUID"), (id.ext4Uuid, "ext4 UUID"), (id.diskGuid, "GPT disk GUID"),
    (id.seedPartuuid, "seed PARTUUID")] ++ id.kpartGuids.toList.map (·, "kernel-slot GUID")

/-- Each identifier in lowercase hyphenated form, mapped to what it is called. -/
def identifierNames (id : ImageIdentity) : ExtTreeMap Bytes String :=
  (identifiers id).foldl (fun names x => names.insert (asBytes (hyphenated x.1)) x.2) ∅

/-- The name of the first identifier the bytes spell out, in either case. -/
def firstIdentifier (bytes : Bytes) (names : ExtTreeMap Bytes String) : Option String :=
  (windows UUID_TEXT_LEN bytes).findSome? fun window =>
    if [8, 13, 18, 23].any fun i => window[i]? != some 0x2d then none
    else names[window.map lowerByte]?

/-- Whether `check` reads an entry of this path. -/
def Checked (path : Bytes) : Prop := ∃ pre ∈ CHECKED_PREFIXES, pre <+: path

instance (path : Bytes) : Decidable (Checked path) :=
  inferInstanceAs (Decidable (∃ pre ∈ CHECKED_PREFIXES, pre <+: path))

/-- The identifier one entry still names. -/
def leftIdentifier (names : ExtTreeMap Bytes String) (entry : SourceEntry) :
    Outcome EngineError (Option (List Note)) :=
  if Checked entry.path then
    match entry.kind with
    | .file content =>
      match content.read read with
      | .error e => .err (.ext4Format [.text "reading ", .shown entry.path, .text (": " ++ e)])
      | .ok bytes => .ok ((firstIdentifier bytes names).map fun name =>
          [.shown entry.path, .text (" (the build's " ++ name ++ ")")])
    | _ => .ok none
  else .ok none

/-- Refuse a tree in which a file still names one of the build's identifiers. -/
def TreeRekey.check (k : TreeRekey) (entries : List SourceEntry) : Outcome EngineError Unit := do
  let left ← Outcome.mapM (leftIdentifier read (identifierNames k.built)) entries
  match left.filterMap id with
  | [] => .ok ()
  | found => .err (.identityRewrite
      ([.text ((if found.length = 1 then "a file" else "files") ++
          " still name the build's identifiers, and the press does not rewrite them: ")] ++
        [.text ", "].intercalate found))

/-- What a press changes in the tree it formats. -/
structure PressTree where
  additions : TreeAdditions
  rekey : Option TreeRekey

/-- The rewrite, the additions and the rewrite's check, in that order. -/
def PressTree.apply {Rest : Type} (p : PressTree) (out : Outside Rest) (entries : List SourceEntry) :
    Outcome EngineError TreeRekey.Logged := do
  let (entries, log) ← match p.rekey with
    | none => .ok (entries, [])
    | some k => k.apply out.read len entries
  let entries ← p.additions.apply out entries
  let log := log ++ [[.text ("merged " ++ toString p.additions.files.length ++
    " tree addition(s) and stamped the pressed marker")]]
  match p.rekey with
  | none => .ok (entries, log)
  | some k => do
    k.check out.read entries
    .ok (entries, log ++
      [[.text "checked /etc and /boot: no file names the build's identifiers"]])

end Boot2Deb.Press
