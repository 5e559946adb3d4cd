import Mathlib
import Boot2Deb.Lib.Json
import Boot2Deb.Core.Base64
import Boot2Deb.Core.Files

/-!
# The text of a file manifest

The writer puts one JSON object a record, its keys in byte order, between a record separator and a
line feed. The reader takes the JSON parser it calls as a parameter, and holds every record to the
bytes the writer emits for the entry it read.
-/

namespace Boot2Deb.Core.Files

open Rust Json

def MEDIA_TYPE : Str := "application/vnd.uapi.16.manifest".toList

def TRAILER_MEDIA_TYPE : Str := "application/vnd.uapi.16.trailer".toList

/-! The keys of an entry's object. -/

namespace Key

def mediaType : Str := "mediaType".toList
def name : Str := "name".toList
def type : Str := "type".toList
def mode : Str := "mode".toList
def uid : Str := "uid".toList
def gid : Str := "gid".toList
def mTimeNSec : Str := "mTimeNSec".toList
def size : Str := "size".toList
def sha256 : Str := "sha256".toList
def contents : Str := "contents".toList
def major : Str := "major".toList
def minor : Str := "minor".toList
def inodeToken : Str := "inodeToken".toList
def xattrs : Str := "xBoot2debXattrs".toList

end Key

/-- The record separator before each object. -/
def RS : UInt8 := 0x1e

/-- The line feed behind it. -/
def LF : UInt8 := 0x0a

/-! ### Writing -/

/-- `{:04x}`. -/
def hex04 (n : ℕ) : Str :=
  let digits := Nat.toDigits 16 n
  List.replicate (4 - digits.length) '0' ++ digits

/-- A JSON string literal. -/
def quote (s : Str) : Str :=
  '"' :: ((s.flatMap fun c =>
    if c = '"' then ['\\', '"']
    else if c = '\\' then ['\\', '\\']
    else if c.toNat < 0x20 then '\\' :: 'u' :: hex04 c.toNat
    else [c]) ++ ['"'])

/-- The fields of a compact JSON object, held sorted. -/
abbrev Fields := List (Str × Str)

def Fields.number (key : Str) (value : ℕ) (o : Fields) : Fields :=
  insertRow key (Nat.toDigits 10 value) o

def Fields.string (key value : Str) (o : Fields) : Fields := insertRow key (quote value) o

def Fields.raw (key value : Str) (o : Fields) : Fields := insertRow key value o

def Fields.finish (o : Fields) : Str :=
  '{' :: (join [','] (o.map fun field => quote field.1 ++ ':' :: field.2) ++ ['}'])

/-- The JSON object for one entry, with the fields its type allows. -/
def object (e : FileEntry) (isRoot : Bool) : Str :=
  let o : Fields := []
  let o := if isRoot then o.string Key.mediaType MEDIA_TYPE else o.string Key.name e.name
  let o := o.string Key.type e.fileType.asStr
  let o := if e.fileType ≠ .lnk then o.number Key.mode e.mode.toNat else o
  let o := o.number Key.uid e.uid.toNat
  let o := o.number Key.gid e.gid.toNat
  let o := o.number Key.mTimeNSec e.mtimeNsec.toNat
  let o := if e.fileType.isSized then o.number Key.size e.size.toNat else o
  let o := match e.sha256 with
    | some hash => o.string Key.sha256 hash
    | none => o
  let o := match e.target with
    | some target => o.raw Key.contents
        (['[', '{'] ++ quote "literal".toList ++ ':' :: quote (Base64.encode target) ++ ['}', ']'])
    | none => o
  let o := match e.device with
    | some (major, minor) => (o.number Key.major major.toNat).number Key.minor minor.toNat
    | none => o
  let o := if e.inodeToken ≠ 0 then o.number Key.inodeToken e.inodeToken.toNat else o
  let o := if e.xattrs.rows.isEmpty then o
    else o.raw Key.xattrs ('{' :: (join [','] (e.xattrs.rows.map fun row =>
      quote row.1 ++ ':' :: quote (Base64.encode row.2)) ++ ['}']))
  o.finish

def trailer : Str := (Fields.string Key.mediaType TRAILER_MEDIA_TYPE []).finish

def record (body : Str) : Bytes := RS :: (asBytes body ++ [LF])

/-- Write the manifest: the root object, every entry, and the trailer. -/
def FileManifest.toBytes (m : FileManifest) : Bytes :=
  record (object m.root true) ++ m.entries.flatMap (fun e => record (object e false)) ++
    record trailer

/-! ### Reading -/

/-- The type a `type` field names. -/
def FileType.parse (s : Str) : Option FileType :=
  [FileType.reg, .dir, .lnk, .fifo, .chr, .blk, .sock].find? fun t => t.asStr = s

def KNOWN : List Str :=
  [Key.contents, Key.gid, Key.inodeToken, Key.major, Key.mediaType, Key.minor, Key.mode,
    Key.mTimeNSec, Key.name, Key.sha256, Key.size, Key.type, Key.uid, Key.xattrs]

def asU64 : Value → Option UInt64
  | .number (.unsigned n) => some n
  | _ => none

def asStr : Value → Option Str
  | .string s => some s
  | _ => none

def asObject : Value → Option (List (Str × Value))
  | .object fields => some fields
  | _ => none

section Read
variable (map : List (Str × Value))

/-- The name errors show, `/` where the object has none. -/
def label : Str := '/' :: ((lookup Key.name map).bind asStr).getD []

def bad {α : Type} (why : Message) : Outcome FilesError α := .err (.invalidEntry (label map) why)

/-- The value of a key that a reading of values accepts. -/
def field {α : Type} (read : Value → Option α) (key : Str) (what : String) :
    Outcome FilesError (Option α) :=
  match lookup key map with
  | none => .ok none
  | some v =>
    match read v with
    | some a => .ok (some a)
    | none => bad map ([.text key] ++ message what)

def number (key : Str) : Outcome FilesError (Option UInt64) :=
  field map asU64 key " is not an unsigned integer"

def string (key : Str) : Outcome FilesError (Option Str) :=
  field map asStr key " is not a string"

def small (key : Str) : Outcome FilesError (Option UInt32) := do
  match ← number map key with
  | none => return none
  | some n =>
    if n.toNat < 2 ^ 32 then return some n.toUInt32
    else bad map ([.text key] ++ message " " ++ [decimalText n] ++ message " is past 32 bits")

def required {α : Type} (key : Str) (v : Option α) : Outcome FilesError α :=
  match v with
  | some a => .ok a
  | none => bad map ([.text key] ++ message " is missing")

/-- Only a root has the media type, and only an entry a name. -/
def checkKind (isRoot : Bool) (media name : Option Str) : Outcome FilesError Unit :=
  match isRoot, media, name with
  | true, some media, none =>
    if media = MEDIA_TYPE then .ok ()
    else .err (.format (message "the first record is not a root object with mediaType " ++
      [.text MEDIA_TYPE]))
  | false, none, some _ => .ok ()
  | true, _, _ => .err (.format (message "the first record is not a root object with mediaType " ++
      [.text MEDIA_TYPE]))
  | false, _, _ => bad map (message "an entry must contain a name and no mediaType")

def readType : Outcome FilesError FileType := do
  let type ← string map Key.type
  match type.bind FileType.parse with
  | some t => return t
  | none => bad map (message "type is missing or not one the draft names")

/-- The one literal entry of `contents`. -/
def literal (item : Value) : Option Str := do
  let fields ← asObject item
  if fields.length ≠ 1 then none
  let literal ← lookup "literal".toList fields
  asStr literal

def readTarget : Outcome FilesError (Option Bytes) :=
  match lookup Key.contents map with
  | none => .ok none
  | some (.array [item]) =>
    match literal item with
    | none => bad map (message "contents is not one literal entry")
    | some text =>
      match Base64.decode text with
      | some target => .ok (some target)
      | none => bad map (message "a contents literal is not base64")
  | some _ => bad map (message "contents is not one literal entry")

/-- The loop over the attributes. -/
def readAttrs : SortedMap Str Bytes → List (Str × Value) →
    Outcome FilesError (SortedMap Str Bytes)
  | attrs, [] => .ok attrs
  | attrs, (k, v) :: rest =>
    match (asStr v).bind Base64.decode with
    | some bytes => readAttrs (attrs.insert k bytes) rest
    | none => bad map (message "extended attribute " ++ [.debug k] ++ message " is not base64")

def readXattrs : Outcome FilesError (SortedMap Str Bytes) :=
  match lookup Key.xattrs map with
  | none => .ok .empty
  | some value =>
    match asObject value with
    | some attrs => readAttrs map .empty attrs
    | none => bad map ([.text Key.xattrs] ++ message " is not an object")

def readDevice : Outcome FilesError (Option (UInt32 × UInt32)) := do
  let major ← small map Key.major
  let minor ← small map Key.minor
  match major, minor with
  | some major, some minor => return some (major, minor)
  | none, none => return none
  | _, _ => bad map (message "major and minor come together")

def readMode (fileType : FileType) : Outcome FilesError UInt32 :=
  if fileType = .lnk then
    if (lookup Key.mode map).isSome then bad map (message "a symbolic link contains no mode")
    else .ok 0
  else do
    let mode ← small map Key.mode
    required map Key.mode mode

def readSize (fileType : FileType) : Outcome FilesError UInt64 :=
  if fileType.isSized then do
    let size ← number map Key.size
    required map Key.size size
  else if (lookup Key.size map).isSome then
    bad map (message "a " ++ [.text fileType.asStr] ++ message " contains no size")
  else .ok 0

/-- Read one entry object back, refusing any field the writer does not write. -/
def readEntry (isRoot : Bool) : Outcome FilesError FileEntry := do
  match (map.map Prod.fst).find? fun k => !KNOWN.contains k with
  | some key => bad map (message "unknown field " ++ [.debug key])
  | none => pure ()
  let media ← string map Key.mediaType
  let name ← string map Key.name
  checkKind map isRoot media name
  let fileType ← readType map
  let target ← readTarget map
  let xattrs ← readXattrs map
  let device ← readDevice map
  let mode ← readMode map fileType
  let uid ← small map Key.uid
  let uid ← required map Key.uid uid
  let gid ← small map Key.gid
  let gid ← required map Key.gid gid
  let mtimeNsec ← number map Key.mTimeNSec
  let mtimeNsec ← required map Key.mTimeNSec mtimeNsec
  let size ← readSize map fileType
  let sha256 ← string map Key.sha256
  let inodeToken ← number map Key.inodeToken
  return {
    name := name.getD []
    fileType := fileType
    mode := mode
    uid := uid
    gid := gid
    mtimeNsec := mtimeNsec
    size := size
    sha256 := sha256
    target := target
    device := device
    inodeToken := inodeToken.getD 0
    xattrs := xattrs }

end Read

section Parse
variable (fromSlice : Bytes → Except Str Value)

/-- Parse one record's JSON text into an object. -/
def jsonObject (body : Bytes) : Outcome FilesError (List (Str × Value)) :=
  match fromSlice body with
  | .ok (.object map) => .ok map
  | .ok _ => .err (.format (message "a record is not a JSON object"))
  | .error e => .err (.format (message "a record is not JSON: " ++ [.text e]))

/-- Read one entry record, and hold it to the bytes the writer emits for that entry. -/
def readCanonical (body : Bytes) (isRoot : Bool) : Outcome FilesError FileEntry := do
  let map ← jsonObject fromSlice body
  let entry ← readEntry map isRoot
  if asBytes (object entry isRoot) ≠ body then
    .err (.invalidEntry entry.path (message ("the record is not in the form the writer emits (a " ++
      "key out of order, a duplicate key, extra spacing, or a default written out)")))
  return entry

/-- The bodies of the records, each behind a separator and before a line feed. -/
def records : Bytes → Outcome FilesError (List Bytes)
  | [] => .ok []
  | b :: body =>
    if b ≠ RS then .err (.format (message "a record does not begin with the RS byte"))
    else match h : body.dropWhile (· ≠ LF) with
      | [] => .err (.format (message "a record is not terminated by a line feed"))
      | _ :: rest => (records rest).bind fun records =>
        .ok (body.takeWhile (· ≠ LF) :: records)
termination_by bytes => bytes.length
decreasing_by
  have hlen := (List.dropWhile_sublist (l := body) (· ≠ LF)).length_le
  rw [h, List.length_cons] at hlen
  exact Nat.lt_succ_of_lt hlen

/-- Read a manifest. -/
def parse (bytes : Bytes) : Outcome FilesError FileManifest := do
  let records ← records bytes
  match records with
  | [] => .err (.format (message "the manifest is empty"))
  | first :: tail =>
    match tail.getLast? with
    | none => .err (.format (message "the manifest has no trailer"))
    | some last =>
      if last ≠ asBytes trailer then
        .err (.format (message
          "the last record is not the trailer, or contains more than its media type"))
      let root ← readCanonical fromSlice first true
      let entries ← Outcome.mapM (readCanonical fromSlice · false) tail.dropLast
      let manifest : FileManifest := ⟨root, entries⟩
      manifest.validate
      return manifest

end Parse

end Boot2Deb.Core.Files
