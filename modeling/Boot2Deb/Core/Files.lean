import Mathlib
import Boot2Deb.Rust.Outcome
import Boot2Deb.Rust.Text
import Boot2Deb.Lib.SortedMap
import Boot2Deb.Lib.TreeMap

/-!
# Image file manifests

A manifest lists every name of a root filesystem in pre-order. `assemble` orders a walked tree and
numbers its hard-link groups, and `validate` holds a manifest to the rules of the format, on the
writer's side as on the reader's.
-/

namespace Boot2Deb.Core.Files

open Rust Std

/-- A name the draft reserves for the manifest itself. -/
def RESERVED_NAME : Str := "Uapi16Manifest".toList

/-- An inode's type. -/
inductive FileType where
  | reg
  | dir
  | lnk
  | fifo
  | chr
  | blk
  | sock
deriving DecidableEq

/-- The draft's spelling. -/
def FileType.asStr : FileType → Str
  | reg => ['r', 'e', 'g']
  | dir => ['d', 'i', 'r']
  | lnk => ['l', 'n', 'k']
  | fifo => ['f', 'i', 'f', 'o']
  | chr => ['c', 'h', 'r']
  | blk => ['b', 'l', 'k']
  | sock => ['s', 'o', 'c', 'k']

/-- One inode name in a manifest, or the root directory, whose name is empty. -/
structure FileEntry where
  name : Str
  fileType : FileType
  mode : UInt32
  uid : UInt32
  gid : UInt32
  mtimeNsec : UInt64
  size : UInt64
  sha256 : Option Str
  target : Option Bytes
  device : Option (UInt32 × UInt32)
  inodeToken : UInt64
  xattrs : SortedMap Str Bytes
deriving DecidableEq

/-- The path as the booted system names it. -/
def FileEntry.path (e : FileEntry) : Str := '/' :: e.name

/-- The root directory and every other entry, in manifest order. -/
structure FileManifest where
  root : FileEntry
  entries : List FileEntry
deriving DecidableEq

/-- Every entry, the root first. -/
def FileManifest.all (m : FileManifest) : List FileEntry := m.root :: m.entries

/-- A part of a message: a text, or a string as `{:?}` shows it. -/
inductive Piece where
  | text (s : Str)
  | debug (s : Str)
deriving DecidableEq

abbrev Message := List Piece

def message (s : String) : Message := [.text s.toList]

/-- Why a tree cannot be written as a manifest, or a manifest cannot be read. -/
inductive FilesError where
  | invalidName (name : Str) (why : Str)
  | duplicate (name : Str)
  | orphan (name : Str)
  | invalidEntry (name : Str) (why : Message)
  | format (why : Message)
deriving DecidableEq

/-- A walked inode name, before the manifest orders it and assigns link tokens. -/
structure WalkedEntry where
  entry : FileEntry
  inode : UInt64

/-- A name's path components as bytes, none for the root's empty name. -/
def components (name : Str) : List Bytes :=
  if name.isEmpty then [] else (name.splitOn '/').map asBytes

/-- The manifest order of two names: by path component, each compared by its bytes. -/
def order (a b : Str) : Ordering := compare (components a) (components b)

def isControl (c : Char) : Bool := c.toNat < 0x20 || c.toNat == 0x7f

/-- Refuse a name the draft cannot encode. -/
def checkName (name : Str) : Outcome FilesError Unit :=
  let bad (why : String) : Outcome FilesError Unit := .err (.invalidName name why.toList)
  if name.isEmpty then bad "only the root has an empty name"
  else if name.any isControl then bad "it holds a control character"
  else if (name.splitOn '/').any fun c => c.isEmpty || c == ['.'] || c == ['.', '.'] then
    bad "it has an empty, `.` or `..` component, or a leading or trailing slash"
  else if name = RESERVED_NAME ∨ RESERVED_NAME ++ ['.'] <+: name then
    bad "the draft reserves it for the manifest file"
  else .ok ()

section Check
variable (e : FileEntry)

def FileEntry.bad (why : Message) : Outcome FilesError Unit := .err (.invalidEntry e.path why)

def checkRoot (isRoot : Bool) : Outcome FilesError Unit :=
  if isRoot ∧ (e.fileType ≠ .dir ∨ e.name ≠ []) then
    e.bad (message "the root must be an unnamed directory")
  else .ok ()

def checkMode : Outcome FilesError Unit :=
  if 0o7777 < e.mode then
    e.bad (message "mode " ++ [.text (Nat.toDigits 8 e.mode.toNat)] ++ message " is past 0o7777")
  else if e.fileType = .lnk ∧ e.mode ≠ 0 then e.bad (message "a symbolic link contains no mode")
  else .ok ()

def FileType.isSized (t : FileType) : Bool := t = .reg || t = .lnk

def checkSize : Outcome FilesError Unit :=
  if !e.fileType.isSized ∧ e.size ≠ 0 then
    e.bad (message "a " ++ [.text e.fileType.asStr] ++ message " contains no size")
  else .ok ()

/-- Sixty-four characters of `0` to `9` and `a` to `f`, by their bytes. -/
def isSha256 (h : Str) : Bool :=
  byteLen h == 64 && (asBytes h).all fun b => (48 ≤ b && b ≤ 57) || (97 ≤ b && b ≤ 102)

def checkSha256 : Outcome FilesError Unit :=
  match e.sha256, e.fileType with
  | some h, .reg =>
    if 0 < e.size then
      if isSha256 h then .ok ()
      else e.bad (message "sha256 " ++ [.debug h] ++ message " is not 64 lowercase hex characters")
    else e.bad (message "only a non-empty regular file contains a sha256")
  | some _, _ => e.bad (message "only a non-empty regular file contains a sha256")
  | none, .reg =>
    if e.size = 0 then .ok () else e.bad (message "a non-empty regular file contains a sha256")
  | none, _ => .ok ()

def checkTarget : Outcome FilesError Unit :=
  match e.target, e.fileType with
  | some t, .lnk =>
    if t.length = e.size.toNat ∧ t ≠ [] then .ok ()
    else e.bad (message "a link's size must be its non-empty target's length")
  | none, .lnk => e.bad (message "a symbolic link contains its target")
  | some _, _ => e.bad (message "only a symbolic link contains a target")
  | none, _ => .ok ()

def FileType.isDevice (t : FileType) : Bool := t = .chr || t = .blk

def checkDevice : Outcome FilesError Unit :=
  if e.device.isSome ∧ !e.fileType.isDevice then
    e.bad (message "only a device contains major and minor numbers")
  else if e.fileType.isDevice ∧ e.device.isNone then
    e.bad (message "a device contains its major and minor numbers")
  else .ok ()

def checkDirectory : Outcome FilesError Unit :=
  if e.fileType = .dir ∧ e.inodeToken ≠ 0 then e.bad (message "a directory contains no inodeToken")
  else .ok ()

def checkXattrs : Outcome FilesError Unit :=
  match e.xattrs.rows.find? fun row => row.1.isEmpty || row.1.any isControl with
  | some row => e.bad (message "extended attribute name " ++ [.debug row.1] ++
      message " is empty or holds a control character")
  | none => .ok ()

/-- Refuse metadata the draft does not allow for the entry's type. -/
def checkEntry (isRoot : Bool) : Outcome FilesError Unit := do
  checkRoot e isRoot
  checkMode e
  checkSize e
  checkSha256 e
  checkTarget e
  checkDevice e
  checkDirectory e
  checkXattrs e

end Check

/-- What two names of one hard-link group must agree on: all but the name and the token. -/
def FileEntry.inodeFields (e : FileEntry) : FileEntry := { e with name := [], inodeToken := 0 }

/-- Whether two names of one hard-link group describe one inode. -/
def sameInode (a b : FileEntry) : Bool := a.inodeFields = b.inodeFields

/-- What the loop over the entries has seen. -/
structure Seen where
  dirs : ExtTreeSet Str compare
  previous : Option Str
  nextToken : UInt64
  groups : ExtTreeMap UInt64 FileEntry compare

def decimalText (n : UInt64) : Piece := .text (Nat.toDigits 10 n.toNat)

def checkOrder (previous : Option Str) (name : Str) : Outcome FilesError Unit :=
  match previous with
  | none => .ok ()
  | some prev =>
    match order prev name with
    | .lt => .ok ()
    | .eq => .err (.duplicate name)
    | .gt => .err (.format ([.debug name] ++ message " comes after " ++ [.debug prev] ++
        message ", out of pre-order name order"))

/-- What stands before the last slash, nothing where there is none. -/
def parent (name : Str) : Str :=
  match rfind name '/' with
  | some i => name.take i
  | none => []

/-- The next token and the groups behind an entry. -/
def checkToken (nextToken : UInt64) (groups : ExtTreeMap UInt64 FileEntry compare)
    (entry : FileEntry) : Outcome FilesError (UInt64 × ExtTreeMap UInt64 FileEntry compare) :=
  if entry.inodeToken = 0 then .ok (nextToken, groups)
  else match groups[entry.inodeToken]? with
    | none =>
      if entry.inodeToken = nextToken then
        .ok (nextToken + 1, groups.insert entry.inodeToken entry)
      else .err (.invalidEntry entry.name (message "inodeToken " ++ [decimalText entry.inodeToken] ++
        message " out of sequence, " ++ [decimalText nextToken] ++ message " expected"))
    | some first =>
      if sameInode first entry then .ok (nextToken, groups)
      else .err (.invalidEntry entry.name (message "shares inodeToken " ++
        [decimalText entry.inodeToken] ++ message " with " ++ [.debug first.name] ++
        message " but not its metadata"))

/-- One turn of the loop. -/
def checkNext (seen : Seen) (entry : FileEntry) : Outcome FilesError Seen := do
  checkName entry.name
  checkEntry entry false
  checkOrder seen.previous entry.name
  if !seen.dirs.contains (parent entry.name) then .err (.orphan entry.name)
  let (nextToken, groups) ← checkToken seen.nextToken seen.groups entry
  return {
    dirs := if entry.fileType = .dir then seen.dirs.insert entry.name else seen.dirs
    previous := some entry.name
    nextToken := nextToken
    groups := groups }

def checkAll : Seen → List FileEntry → Outcome FilesError Unit
  | _, [] => .ok ()
  | seen, entry :: entries => do
    let seen ← checkNext seen entry
    checkAll seen entries

/-- Every rule the reader enforces on a manifest. -/
def FileManifest.validate (m : FileManifest) : Outcome FilesError Unit := do
  checkEntry m.root true
  checkAll ⟨(∅ : ExtTreeSet Str compare).insert [], none, 1, ∅⟩ m.entries

/-- How many names each inode has, directories left out. -/
def countLinks (walked : List WalkedEntry) : ExtTreeMap UInt64 ℕ compare :=
  walked.foldl (fun links w =>
    if w.entry.fileType ≠ .dir then links.insert w.inode (links[w.inode]?.getD 0 + 1) else links) ∅

/-- The entries with their tokens. Every inode that is no directory's was counted. -/
def assignTokens (links : ExtTreeMap UInt64 ℕ compare) :
    ExtTreeMap UInt64 UInt64 compare → List WalkedEntry → List FileEntry
  | _, [] => []
  | tokens, w :: walked =>
    if w.entry.fileType ≠ .dir ∧ 1 < links[w.inode]?.getD 0 then
      let next := UInt64.ofNat tokens.size + 1
      { w.entry with inodeToken := tokens[w.inode]?.getD next } ::
        assignTokens links (tokens.insertIfNew w.inode next) walked
    else { w.entry with inodeToken := 0 } :: assignTokens links tokens walked

/-- `sort_by` of the names, a stable sort. -/
def sortByName (walked : List WalkedEntry) : List WalkedEntry :=
  walked.insertionSort fun a b => (order a.entry.name b.entry.name).isLE

/-- Order a walked tree into a manifest. -/
def assemble (root : FileEntry) (walked : List WalkedEntry) : Outcome FilesError FileManifest := do
  let walked := sortByName walked
  let manifest : FileManifest := ⟨root, assignTokens (countLinks walked) ∅ walked⟩
  manifest.validate
  return manifest

end Boot2Deb.Core.Files
