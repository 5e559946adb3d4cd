import Boot2Deb.Press.Tree
import Boot2Deb.Press.Template
import Boot2Deb.Lib.Sorting
import Boot2Deb.Lib.TreeMap

/-!
# Tree additions

The files a press places into the root filesystem, and the merge that places them. An addition
replaces a file of the image but no directory, and the parents it is missing are made for it.
-/

namespace Boot2Deb.Press
open Rust Image Std

/-- Where first-boot packages are staged. -/
def FIRSTBOOT_DEBS_DIR : Str := "/var/lib/boot2deb/firstboot-debs".toList

/-- Where the compressed artifact is embedded. -/
def EMBEDDED_IMAGE_DIR : Str := "/var/lib/boot2deb/install".toList

/-- The identity document. -/
def IMAGE_TOML : Str := "/etc/boot2deb/image.toml".toList

/-- Destinations whose content something else writes. -/
def RESERVED_DESTS : List Str := [IMAGE_TOML, "/etc/shadow".toList]

/-! ### Destinations -/

/-- The components of a destination, or what is wrong with one of them. -/
def destParts : List Str → Outcome String (List Str)
  | [] => .ok []
  | part :: rest =>
    if part = [] ∨ part = ['.'] then .err "the destination has an empty or `.` component"
    else if part = ['.', '.'] then .err "the destination must not contain `..`"
    else do
      let parts ← destParts rest
      .ok (part :: parts)

/-- Validate a destination and bring it into the form of an entry path. -/
def normalizeDest (dest : Str) : Outcome String Str :=
  match stripPrefix dest ['/'] with
  | none => .err "the destination must be an absolute path"
  | some rest =>
    if rest.isEmpty then .err "the destination names the root directory, not a file"
    else if dest.getLast? = some '/' then .err "the destination must name a file, not a directory"
    else do
      let parts ← destParts (rest.splitOn '/')
      let normalized := '/' :: join ['/'] parts
      if normalized = "/dev".toList ∨ "/dev/".toList <+: normalized then
        .err "everything under /dev is hidden by devtmpfs at boot"
      else if normalized ∈ RESERVED_DESTS then
        .err "this path is generated per image and cannot be replaced"
      else .ok normalized

theorem destParts_eq_ok {parts parts' : List Str} (h : destParts parts = .ok parts') :
    parts' = parts := by
  induction parts generalizing parts' with
  | nil => exact (Outcome.ok.inj h).symm
  | cons part rest ih =>
    unfold destParts at h
    split_ifs at h
    obtain ⟨rest', hrest, h⟩ := Outcome.bind_eq_ok.mp h
    rw [← Outcome.ok.inj h, ih hrest]

/-- What passes is the destination as it was given, and none of those something else writes. -/
theorem normalizeDest_eq_ok {s t : Str} (h : normalizeDest s = .ok t) : t = s ∧ s ∉ RESERVED_DESTS := by
  unfold normalizeDest at h
  split at h
  · cases h
  · rename_i rest hrest
    split_ifs at h
    obtain ⟨parts, hparts, h⟩ := Outcome.bind_eq_ok.mp h
    have hjoin : '/' :: join ['/'] parts = s := by
      rw [destParts_eq_ok hparts, join, List.intercalate_splitOn]
      exact (stripPrefix_eq_some.mp hrest).symm
    simp only [hjoin] at h
    split_ifs at h with _ hreserved
    exact ⟨(Outcome.ok.inj h).symm, hreserved⟩

/-- A destination `normalizeDest` passes. -/
abbrev Dest := {s : Str // normalizeDest s = .ok s}

/-- `normalizeDest`, with what it has checked. -/
def toDest (dest : Str) : Outcome String Dest :=
  match h : normalizeDest dest with
  | .ok t => .ok ⟨t, by rwa [← (normalizeDest_eq_ok h).1] at h⟩
  | .err e => .err e
  | .panic => .panic

/-- The name of a file on the host, as `Path::file_name` answers it. -/
abbrev FileName := {n : Str // n ≠ [] ∧ '/' ∉ n ∧ n ≠ ['.'] ∧ n ≠ ['.', '.']}

theorem destParts_concat {parts : List Str} (h : destParts parts = .ok parts) (name : FileName) :
    destParts (parts ++ [name.1]) = .ok (parts ++ [name.1]) := by
  obtain ⟨name, hne, -, hdot, hdots⟩ := name
  induction parts with
  | nil => simp [destParts, hne, hdot, hdots]
  | cons part rest ih =>
    unfold destParts at h ⊢
    rw [List.cons_append]
    simp only
    split_ifs at h ⊢
    obtain ⟨rest', hrest, h⟩ := Outcome.bind_eq_ok.mp h
    obtain rfl := (List.cons.inj (Outcome.ok.inj h)).2
    rw [ih hrest]
    rfl

theorem getElem?_one_reserved : ∀ s ∈ RESERVED_DESTS, s[1]? = some 'e' := by decide +kernel

/-- A file in a directory below the root is a destination, if the directory is not below `/dev` or
`/etc`. -/
theorem normalizeDest_below (dir : Str) (hparts : destParts (dir.splitOn '/') = .ok (dir.splitOn '/'))
    (hd : dir.head? ≠ some 'd') (he : dir.head? ≠ some 'e') (hne : dir ≠ []) (name : FileName) :
    normalizeDest ('/' :: dir ++ '/' :: name.1) = .ok ('/' :: dir ++ '/' :: name.1) := by
  obtain ⟨c, dir, rfl⟩ := List.exists_cons_of_ne_nil hne
  have hsplit : (c :: dir ++ '/' :: name.1).splitOn '/' = (c :: dir).splitOn '/' ++ [name.1] := by
    rw [List.splitOn_append_cons_self, List.splitOn_eq_singleton name.2.2.1]
  have hstrip : stripPrefix ('/' :: (c :: dir) ++ '/' :: name.1) ['/'] =
      some (c :: dir ++ '/' :: name.1) := stripPrefix_eq_some.mpr rfl
  have hlast : ('/' :: (c :: dir) ++ '/' :: name.1).getLast? ≠ some '/' := by
    rw [List.getLast?_append_cons, List.getLast?_cons_of_ne_nil name.2.1]
    exact fun h => name.2.2.1 (List.mem_of_getLast? h)
  have hjoin : '/' :: join ['/'] ((c :: dir).splitOn '/' ++ [name.1]) =
      '/' :: (c :: dir) ++ '/' :: name.1 := by
    rw [← hsplit, join, List.intercalate_splitOn]
    rfl
  have hc : c ≠ 'd' ∧ c ≠ 'e' := by simpa using And.intro hd he
  have hempty : ¬(c :: dir ++ '/' :: name.1).isEmpty = true := by simp
  have hdev : ¬('/' :: (c :: dir) ++ '/' :: name.1 = "/dev".toList ∨
      "/dev/".toList <+: '/' :: (c :: dir) ++ '/' :: name.1) := by
    simp [hc.1, Ne.symm hc.1]
  have hreserved : '/' :: (c :: dir) ++ '/' :: name.1 ∉ RESERVED_DESTS := fun h =>
    hc.2 (Option.some.inj (getElem?_one_reserved _ h))
  unfold normalizeDest
  rw [hstrip]
  simp only
  rw [if_neg hempty, if_neg hlast, hsplit, destParts_concat hparts name, Outcome.ok_bind, hjoin,
    if_neg hdev, if_neg hreserved]

/-- Where a package of this name is staged. -/
def firstbootDest (name : FileName) : Dest :=
  ⟨FIRSTBOOT_DEBS_DIR ++ '/' :: name.1, normalizeDest_below "var/lib/boot2deb/firstboot-debs".toList
    (by decide +kernel) (by decide) (by decide) (by decide) name⟩

/-- Where an artifact of this name is embedded. -/
def embeddedDest (name : FileName) : Dest :=
  ⟨EMBEDDED_IMAGE_DIR ++ '/' :: name.1, normalizeDest_below "var/lib/boot2deb/install".toList
    (by decide +kernel) (by decide) (by decide) (by decide) name⟩

/-! ### The additions of a press -/

/-- What an addition puts at its destination. -/
inductive AddedContent where
  | host (content : FileContent)
  | template (t : Template)
  | symlink (target : Bytes)
deriving DecidableEq

/-- One validated addition. -/
structure AddedFile where
  destPath : Dest
  content : AddedContent
  mode : UInt16
  label : String
deriving DecidableEq

/-- The destination as the entry list spells it. -/
def AddedFile.dest (f : AddedFile) : Bytes := asBytes f.destPath.1

theorem dest_ne_imageToml (f : AddedFile) : f.dest ≠ asBytes IMAGE_TOML := fun h =>
  (normalizeDest_eq_ok f.destPath.2).2 <| by
    rw [asBytes_injective h]
    exact List.mem_cons_self

/-- The entry kind an addition becomes. -/
def AddedFile.kind (f : AddedFile) (facts : ImageFacts) : EntryKind :=
  match f.content with
  | .host content => .file content
  | .template t => .file (.owned (t.render facts))
  | .symlink target => .symlink target

/-- The additions one press applies. -/
structure TreeAdditions where
  sourceStem : Str
  recipe : Str
  seedHostname : Option Str
  identity : ImageIdentity
  freshIdentity : Bool
  files : List AddedFile
  copies : List Str
  debs : List Str
  embeddedImage : Option Str

/-- The mode of an added file. -/
def fileMode (executable : Bool) : UInt16 := if executable then 0o755 else 0o644

/-- What is read from the host for one addition: a plain file or a parsed template, and whether it
is executable. -/
structure HostSource where
  file : Dest → Outcome EngineError (FileContent × Bool)
  template : Dest → Outcome EngineError (Template × Bool)

/-- What an entry kind is called in the refusal that names it. -/
def kindName : EntryKind → String
  | .directory => "directory"
  | .file _ => "regular file"
  | .symlink _ => "symlink"
  | .hardLink _ => "hard link"
  | .charDevice .. => "character device node"
  | .blockDevice .. => "block device node"
  | .fifo => "FIFO"
  | .socket => "socket"

namespace TreeAdditions

/-- Record one validated addition. -/
def push (a : TreeAdditions) (dest : Dest) (content : AddedContent) (mode : UInt16)
    (label : String) : TreeAdditions :=
  { a with files := a.files ++ [⟨dest, content, mode, label⟩] }

/-- Add one file of the host, named `name` there. -/
def copy (a : TreeAdditions) (name : Option Str) (src : HostSource) (dest : Str) :
    Outcome EngineError TreeAdditions := do
  let normalized ← (toDest dest).mapErr fun why => .pressAddition (asBytes dest) [.text why]
  let isTemplate := (name.bind stripTemplateSuffix).isSome
  let (content, executable) ←
    if isTemplate then do
      let (template, executable) ← src.template normalized
      .ok (AddedContent.template template, executable)
    else do
      let (content, executable) ← src.file normalized
      .ok (AddedContent.host content, executable)
  let a := a.push normalized content (fileMode executable) (if isTemplate then "template" else "copy")
  .ok { a with copies := a.copies ++ [normalized.1] }

/-- One entry of a copied tree: where it goes, what it is and what it is called. -/
def treeEntry (dir : Str) (parse : FileContent → Dest → Outcome EngineError Template)
    (entry : SourceEntry) : Outcome EngineError (Dest × AddedContent × String) := do
  let treeErr (why : List Note) : EngineError := .pressAddition (asBytes dir) why
  let path ← Outcome.okOr (fromUtf8 entry.path) (treeErr [.shown entry.path, .text " is not UTF-8"])
  let treeDest (dest : Str) : Outcome EngineError Dest :=
    (toDest dest).mapErr fun why => treeErr [.shown (asBytes dest), .text (": " ++ why)]
  match entry.kind with
  | .file content =>
    match stripTemplateSuffix path with
    | some dest => do
      let normalized ← treeDest dest
      let template ← parse content normalized
      .ok (normalized, .template template, "template")
    | none => do
      let normalized ← treeDest path
      .ok (normalized, .host content, "copy")
  | .symlink target => do
    let normalized ← treeDest path
    .ok (normalized, .symlink target, "symlink")
  | other => .err (treeErr [.shown (asBytes path),
      .text (" is a " ++ kindName other ++
        " — a copied tree contains regular files and symlinks only")])

/-- Add every file and symlink of a directory of the host, given the entries a walk of it finds. -/
def copyTree (a : TreeAdditions) (dir : Str)
    (parse : FileContent → Dest → Outcome EngineError Template) (entries : List SourceEntry) :
    Outcome EngineError (TreeAdditions × ℕ) := do
  let (a, placed) ← entries.foldlM (fun (a, placed) entry =>
    if entry.kind.isDirectory then .ok (a, placed)
    else do
      let (dest, content, label) ← treeEntry dir parse entry
      let mode := match content with
        | .symlink _ => 0o777
        | _ => fileMode (entry.meta_.mode &&& 0o111 != 0)
      let a := a.push dest content mode label
      .ok ({ a with copies := a.copies ++ [dest.1] }, placed + 1)) (a, 0)
  if placed = 0 then
    .err (.pressAddition (asBytes dir) [.shown (asBytes dir),
      .text (" names no files — a copied tree mirrors the target rootfs, so its contents are " ++
        "what get placed")])
  else .ok (a, placed)

/-- Add a package for the first boot to install. -/
def deb (a : TreeAdditions) (src : Str) (name : FileName)
    (content : Outcome EngineError FileContent) : Outcome EngineError TreeAdditions :=
  if !".deb".toList.isSuffixOf name.1 then
    .err (.pressAddition (asBytes name.1) [.shown (asBytes src), .text " is not a .deb file"])
  else do
    let content ← content
    let a := a.push (firstbootDest name) (.host content) 0o644 "first-boot deb"
    .ok { a with debs := a.debs ++ [name.1] }

/-- Add the recipe's own compressed artifact. -/
def embedImage (a : TreeAdditions) (name : FileName) (content : Outcome EngineError FileContent) :
    Outcome EngineError TreeAdditions := do
  let content ← content
  let a := a.push (embeddedDest name) (.host content) 0o644 "embedded artifact"
  .ok { a with embeddedImage := some name.1 }

end TreeAdditions

/-- What the press takes from outside: host files, and the identity document's TOML. -/
structure Outside (Rest : Type) where
  read : FileRange → Except String Bytes
  fromTomlStr : Str → Outcome ConfigError (SystemIdentity Rest)
  toTomlString : SystemIdentity Rest → Outcome ConfigError Str

/-! ### The merge -/

variable {Rest : Type}

/-- The identity document of the tree and its modification time. -/
def readIdentity (out : Outside Rest) (entries : List SourceEntry) :
    Outcome EngineError (SystemIdentity Rest × Timestamp) :=
  let markerErr {α : Type} (detail : List Note) : Outcome EngineError α :=
    .err (.pressAddition (asBytes IMAGE_TOML) detail)
  match entries.find? fun e => e.path = asBytes IMAGE_TOML with
  | none => markerErr [.text "the rootfs contains no image identity — not a boot2deb rootfs"]
  | some entry =>
    match entry.kind with
    | .file content =>
      match content.read out.read with
      | .error e => markerErr [.text ("cannot read the image identity: " ++ e)]
      | .ok bytes =>
        match fromUtf8 bytes with
        | none => markerErr [.text "the image identity is not UTF-8: ", .utf8Error bytes]
        | some text => do
          let identity ← (out.fromTomlStr text).mapErr .config
          .ok (identity, entry.meta_.mtime)
    | _ => markerErr [.text "the image identity is not a regular file"]

/-- The position of every path. -/
def pathIndex (entries : List SourceEntry) : ExtTreeMap Bytes ℕ :=
  entries.zipIdx.foldl (fun index e => index.insert e.1.path e.2) ∅

/-- Refuse two additions for one path, given that the additions are sorted. -/
def claimOnce : List AddedFile → Outcome EngineError Unit
  | f :: g :: files =>
    if f.dest = g.dest then
      .err (.pressAddition f.dest [.text "two additions claim this path"])
    else claimOnce (g :: files)
  | _ => .ok ()

/-- The entry an addition is placed as. -/
def AddedFile.entry (f : AddedFile) (facts : ImageFacts) (time : Timestamp) : SourceEntry where
  path := f.dest
  kind := f.kind facts
  meta_ := .new f.mode time

/-- A directory made for an addition below it. -/
def parentEntry (time : Timestamp) (path : Bytes) : SourceEntry where
  path
  kind := .directory
  meta_ := .new 0o755 time

/-- The tree while additions are placed: the image's own entries, those to be appended, and which
of the latter are directories. -/
structure Merge where
  entries : List SourceEntry
  appended : List SourceEntry
  plannedDirs : List Bytes

/-- Make sure of one parent of an addition. -/
def placeParent (index : ExtTreeMap Bytes ℕ) (time : Timestamp) (dest : Bytes) (st : Merge)
    (parent : Bytes) : Outcome EngineError Merge :=
  match index[parent]? with
  | some i =>
    match st.entries[i]? with
    | some entry =>
      if entry.kind.isDirectory then .ok st
      else .err (.pressAddition dest
        [.shown parent, .text " exists in the image but is not a directory"])
    | none => .panic
  | none =>
    if parent ∈ st.plannedDirs then .ok st
    else .ok { st with
      plannedDirs := st.plannedDirs ++ [parent]
      appended := st.appended ++ [parentEntry time parent] }

/-- Place one addition. -/
def place (index : ExtTreeMap Bytes ℕ) (facts : ImageFacts) (time : Timestamp) (st : Merge)
    (f : AddedFile) : Outcome EngineError Merge :=
  match index[f.dest]? with
  | some i =>
    match st.entries[i]? with
    | some entry =>
      -- a directory swallowed by a file would orphan everything under it
      if entry.kind.isDirectory then
        .err (.pressAddition f.dest [.text "the image holds a directory at this path"])
      else .ok { st with entries := st.entries.set i (f.entry facts time) }
    | none => .panic
  | none => do
    let st ← (ancestors f.dest).foldlM (placeParent index time f.dest) st
    .ok { st with appended := st.appended ++ [f.entry facts time] }

namespace TreeAdditions

/-- The `[pressed]` table of a press. -/
def pressed (a : TreeAdditions) : IdentityPressed where
  source := a.sourceStem
  freshIdentity := a.freshIdentity
  copies := sortUnstable a.copies
  debs := sortUnstable a.debs
  embeddedImage := a.embeddedImage

/-- Rewrite the identity document with the `[pressed]` table of this press. -/
def writeMarker (a : TreeAdditions) (out : Outside Rest) (entries : List SourceEntry)
    (identity : SystemIdentity Rest) : Outcome EngineError (List SourceEntry) :=
  match entries.findIdx? fun e => e.path = asBytes IMAGE_TOML with
  | none => .panic
  | some i => do
    let toml ← (out.toTomlString { identity with pressed := some a.pressed }).mapErr .config
    .ok (entries.modify i fun e => { e with kind := .file (.owned (asBytes toml)) })

/-- Merge the additions into the entry list. -/
def apply (a : TreeAdditions) (out : Outside Rest) (entries : List SourceEntry) :
    Outcome EngineError (List SourceEntry) := do
  let (identity, time) ← readIdentity out entries
  let facts := ImageFacts.new identity a.identity a.recipe a.seedHostname
  let files := sortByKey AddedFile.dest a.files
  claimOnce files
  let st ← files.foldlM (place (pathIndex entries) facts time) ⟨entries, [], []⟩
  a.writeMarker out (st.entries ++ st.appended) identity

end TreeAdditions

end Boot2Deb.Press
