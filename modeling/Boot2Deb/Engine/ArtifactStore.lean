import Std.Data.ExtTreeMap
import Boot2Deb.Error
import Boot2Deb.Rust.Outcome
import Boot2Deb.Lib.Run

/-!
# The artifact store

A store keeps the output files of a build node in a directory `<node>/<signature>/`, beside a
`manifest.toml` that names them. `put` stages the files and the manifest and renames the directory
into place, `restore` copies the files a manifest names, `has` looks for a manifest only, `entries`
lists what the manifests say. Files of an entry may be lost or cut short at any time. The text of
a manifest is written and read by the functions `toToml` and `fromToml`.
-/

namespace Boot2Deb.Engine

open Rust Std

/-- One stored artifact: its role and its file name. -/
structure StoredArtifact where
  role : Str
  file : Str
deriving DecidableEq, Repr

/-- The manifest beside a stored output. -/
structure StoreManifest where
  node : Str
  signature : Str
  artifacts : List StoredArtifact
deriving DecidableEq, Repr

/-- The address of one entry. -/
structure StoreKey where
  node : Str
  signature : Str
deriving DecidableEq, Repr

/-- The files of one directory. -/
abbrev Dir := ExtTreeMap Str Bytes compare

/-- One directory the store holds and the key its manifest records. -/
structure StoreEntry where
  nodeDir : Str
  name : Str
  key : Option StoreKey

/-- The store on disk: the node directories, and the entry directories in each. -/
structure ArtifactStore where
  nodes : ExtTreeMap Str (ExtTreeMap Str Dir compare) compare

/-- A staged artifact: its role, the path of its source, and the bytes there, none where they cannot
be read. -/
structure Source where
  role : Str
  path : Str
  bytes : Option Bytes

/-- `Path::file_name`. -/
def fileName (path : Str) : Option Str :=
  match ((path.splitOn '/').filter fun c => !(c.isEmpty || c = ['.'])).getLast? with
  | some name => if name = ['.', '.'] then none else some name
  | none => none

def manifestName : Str := "manifest.toml".toList

/-- Filesystem-safe directory name of a node. -/
def nodeDir (node : Str) : Str := replaceChar node ':' '-'

namespace ArtifactStore

/-- `entry_dir`, as what stands there. -/
def entryDir (s : ArtifactStore) (key : StoreKey) : Option Dir := do
  let node ← s.nodes[nodeDir key.node]?
  node[key.signature]?

/-- The store with another directory in the place of an entry. -/
def setDir (s : ArtifactStore) (nodeDir name : Str) (dir : Dir) : ArtifactStore :=
  ⟨s.nodes.insert nodeDir (((s.nodes[nodeDir]?).getD ∅).insert name dir)⟩

/-- Whether the store holds an entry for a key: a look at its manifest file. -/
def has (s : ArtifactStore) (key : StoreKey) : Bool :=
  match s.entryDir key with
  | some dir => dir.contains manifestName
  | none => false

/-- The copies of `restore` into `dest`. -/
def copyOut (dir : Dir) : List StoredArtifact → Dir → Dir
  | [], dest => dest
  | a :: artifacts, dest =>
    copyOut dir artifacts (match dir[a.file]? with
      | some bytes => dest.insert a.file bytes
      | none => dest)

/-- Restore an output into `dest`: the roles and file names, and `dest` behind the copies. -/
def restore (fromToml : Bytes → Option StoreManifest) (s : ArtifactStore) (key : StoreKey)
    (dest : Dir) : Option (List StoredArtifact × Dir) := do
  let dir ← s.entryDir key
  let text ← dir[manifestName]?
  let man ← fromToml text
  if man.signature ≠ key.signature then none
  else if man.artifacts.any fun a => !dir.contains a.file then none
  else some (man.artifacts, copyOut dir man.artifacts dest)

/-- The copies of `put` into the staging directory. -/
def stage : List Source → Dir → Outcome EngineError (Dir × List StoredArtifact)
  | [], tmp => .ok (tmp, [])
  | src :: sources, tmp =>
    match fileName src.path, src.bytes with
    | none, _ => .panic
    | some _, none => .err (.io src.path)
    | some file, some bytes => do
      let (tmp, entries) ← stage sources (tmp.insert file bytes)
      .ok (tmp, ⟨src.role, file⟩ :: entries)

/-- `rename` of the staging directory onto the entry: an empty directory may stand there. A failed
rename is fine where the entry has a manifest. -/
def publish (s : ArtifactStore) (key : StoreKey) (tmp : Dir) :
    ArtifactStore × Outcome EngineError Unit :=
  match s.entryDir key with
  | none => (s.setDir (nodeDir key.node) key.signature tmp, .ok ())
  | some dir =>
    if dir.isEmpty then (s.setDir (nodeDir key.node) key.signature tmp, .ok ())
    else if dir.contains manifestName then (s, .ok ())
    else (s, .err (.io (nodeDir key.node ++ '/' :: key.signature)))

/-- Store artifacts under a key. -/
def put (toToml : StoreManifest → Bytes) (s : ArtifactStore) (key : StoreKey)
    (sources : List Source) : ArtifactStore × Outcome EngineError Unit :=
  if s.has key then (s, .ok ())
  else match stage sources ∅ with
    | .ok (tmp, artifacts) =>
      s.publish key (tmp.insert manifestName (toToml ⟨key.node, key.signature, artifacts⟩))
    | .err e => (s, .err e)
    | .panic => (s, .panic)

/-- The key the manifest of an entry directory records. -/
def keyOf (fromToml : Bytes → Option StoreManifest) (name : Str) (dir : Dir) : Option StoreKey := do
  let text ← dir[manifestName]?
  let man ← fromToml text
  if man.signature = name then some ⟨man.node, man.signature⟩ else none

/-- Every entry directory, in the order of their paths. -/
def entries (fromToml : Bytes → Option StoreManifest) (s : ArtifactStore) : List StoreEntry :=
  s.nodes.toList.flatMap fun (nodeDir, node) =>
    (node.toList.filter fun (name, _) => name.head? != some '.').map fun (name, dir) =>
      ⟨nodeDir, name, keyOf fromToml name dir⟩

/-! ### Looking into the store -/

variable {s : ArtifactStore} {key key' : StoreKey} {dir dest : Dir} {file : Str}

/-- What stands at a place of the store. -/
def dirAt (s : ArtifactStore) (nodeDir name : Str) : Option Dir := do
  let node ← s.nodes[nodeDir]?
  node[name]?

theorem getElem?_insert {α : Type} {m : ExtTreeMap Str α compare} {k k' : Str} {v : α} :
    (m.insert k v)[k']? = if k = k' then some v else m[k']? := by
  rw [ExtTreeMap.getElem?_insert]
  by_cases h : k = k'
  · rw [if_pos h, if_pos (by rw [h]; exact ReflCmp.compare_self)]
  · rw [if_neg h, if_neg fun he => h (LawfulEqCmp.eq_of_compare he)]

theorem dirAt_setDir {nd name nd' name' : Str} : (s.setDir nd name dir).dirAt nd' name' =
    if nd = nd' ∧ name = name' then some dir else s.dirAt nd' name' := by
  unfold dirAt setDir
  rw [getElem?_insert]
  by_cases hnd : nd = nd'
  · subst hnd
    rw [if_pos rfl]
    show (((s.nodes[nd]?).getD ∅).insert name dir)[name']? = _
    rw [getElem?_insert]
    by_cases hname : name = name'
    · rw [if_pos hname, if_pos ⟨rfl, hname⟩]
    · rw [if_neg hname, if_neg fun h => hname h.2]
      cases s.nodes[nd]? <;> simp
  · rw [if_neg hnd, if_neg fun h => hnd h.1]

theorem mem_entries {fromToml : Bytes → Option StoreManifest} {e : StoreEntry} :
    e ∈ s.entries fromToml ↔ ∃ dir, s.dirAt e.nodeDir e.name = some dir ∧
      e.name.head? ≠ some '.' ∧ e.key = keyOf fromToml e.name dir := by
  unfold entries dirAt
  simp only [List.mem_flatMap, List.mem_map, List.mem_filter, Prod.exists,
    ExtTreeMap.mem_toList_iff_getElem?_eq_some, bne_iff_ne]
  constructor
  · rintro ⟨nd, node, hnode, name, dir, ⟨hdir, hname⟩, rfl⟩
    exact ⟨dir, by rw [hnode]; exact hdir, hname, rfl⟩
  · rintro ⟨dir, hdir, hname, hkey⟩
    obtain ⟨node, hnode, hdir⟩ := Option.bind_eq_some_iff.mp hdir
    exact ⟨e.nodeDir, node, hnode, e.name, dir, ⟨hdir, hname⟩, by rw [← hkey]⟩

/-! ### Staging -/

variable {fromToml : Bytes → Option StoreManifest} {toToml : StoreManifest → Bytes}
  {arts : List (StoredArtifact × Bytes)} {sources : List Source}

/-- The artifact a source names and its bytes. -/
def read (src : Source) : Option (StoredArtifact × Bytes) := do
  let file ← fileName src.path
  let bytes ← src.bytes
  some (⟨src.role, file⟩, bytes)

/-- Every source has a file name and can be read. -/
def Reads (sources : List Source) (arts : List (StoredArtifact × Bytes)) : Prop :=
  sources.map read = arts.map some

/-- One file holds one artifact, and none is the manifest. -/
def Storable (arts : List (StoredArtifact × Bytes)) : Prop :=
  (∀ a ∈ arts, a.1.file ≠ manifestName) ∧
    ∀ a ∈ arts, ∀ b ∈ arts, a.1.file = b.1.file → a.2 = b.2

/-- A directory with the artifacts written into it. -/
def addFiles (dir : Dir) (arts : List (StoredArtifact × Bytes)) : Dir :=
  arts.foldl (fun dir a => dir.insert a.1.file a.2) dir

theorem stage_eq_ok {tmp tmp' : Dir} {entries : List StoredArtifact} :
    stage sources tmp = .ok (tmp', entries) ↔
      ∃ arts, Reads sources arts ∧ entries = arts.map Prod.fst ∧ tmp' = addFiles tmp arts := by
  induction sources generalizing tmp tmp' entries with
  | nil =>
    unfold stage Reads
    constructor
    · rintro ⟨⟩
      exact ⟨[], rfl, rfl, rfl⟩
    · rintro ⟨arts, harts, rfl, rfl⟩
      obtain rfl : arts = [] := by simpa using harts
      rfl
  | cons src sources ih =>
    unfold stage Reads
    cases hfile : fileName src.path with
    | none =>
      refine ⟨nofun, ?_⟩
      rintro ⟨arts, harts, -⟩
      cases arts <;> simp [read, hfile] at harts
    | some file =>
      cases hbytes : src.bytes with
      | none =>
        refine ⟨nofun, ?_⟩
        rintro ⟨arts, harts, -⟩
        cases arts <;> simp [read, hfile, hbytes] at harts
      | some bytes =>
        have hread : read src = some (⟨src.role, file⟩, bytes) := by
          unfold read
          rw [hfile, hbytes]
          rfl
        simp only [Outcome.bind_eq_ok, Prod.exists, ih]
        constructor
        · rintro ⟨_, _, ⟨arts, harts, rfl, rfl⟩, ⟨⟩⟩
          refine ⟨(⟨src.role, file⟩, bytes) :: arts, ?_, rfl, rfl⟩
          rw [List.map_cons, List.map_cons, hread, harts]
        · rintro ⟨_ | ⟨a, arts⟩, harts, rfl, rfl⟩
          · simp at harts
          · rw [List.map_cons, List.map_cons, hread, List.cons.injEq, Option.some.injEq] at harts
            obtain ⟨rfl, harts⟩ := harts
            exact ⟨_, _, ⟨arts, harts, rfl, rfl⟩, rfl⟩

theorem getElem?_addFiles_of_not_mem (h : ∀ a ∈ arts, a.1.file ≠ file) :
    (addFiles dir arts)[file]? = dir[file]? := by
  induction arts generalizing dir with
  | nil => rfl
  | cons a arts ih =>
    have ha : a.1.file ≠ file := h a List.mem_cons_self
    show (addFiles (dir.insert a.1.file a.2) arts)[file]? = _
    rw [ih fun b hb => h b (List.mem_cons_of_mem _ hb), getElem?_insert, if_neg ha]

/-- A file written more than once with the same bytes holds them. -/
theorem getElem?_addFiles_of_mem
    (harts : ∀ a ∈ arts, ∀ b ∈ arts, a.1.file = b.1.file → a.2 = b.2)
    {a : StoredArtifact × Bytes} (ha : a ∈ arts) : (addFiles dir arts)[a.1.file]? = some a.2 := by
  induction arts generalizing dir a with
  | nil => cases ha
  | cons b arts ih =>
    have hrest : ∀ c ∈ arts, ∀ d ∈ arts, c.1.file = d.1.file → c.2 = d.2 := fun c hc d hd =>
      harts c (List.mem_cons_of_mem _ hc) d (List.mem_cons_of_mem _ hd)
    show (addFiles (dir.insert b.1.file b.2) arts)[a.1.file]? = _
    by_cases hlater : ∃ c ∈ arts, c.1.file = a.1.file
    · obtain ⟨c, hc, hfile⟩ := hlater
      rw [← hfile, ih hrest hc, harts c (List.mem_cons_of_mem _ hc) a ha hfile]
    · have hab : a = b := by
        rcases List.mem_cons.mp ha with h | h
        · exact h
        · exact absurd ⟨a, h, rfl⟩ hlater
      subst hab
      rw [getElem?_addFiles_of_not_mem fun c hc hfile => hlater ⟨c, hc, hfile⟩, getElem?_insert,
        if_pos rfl]

/-! ### What an entry holds -/

/-- The directory `put` renames into place. -/
def entryFiles (toToml : StoreManifest → Bytes) (key : StoreKey)
    (arts : List (StoredArtifact × Bytes)) : Dir :=
  (addFiles ∅ arts).insert manifestName (toToml ⟨key.node, key.signature, arts.map Prod.fst⟩)

/-- The manifest of a directory names the key and the artifacts, and each has its bytes there. -/
def Holds (fromToml : Bytes → Option StoreManifest) (dir : Dir) (key : StoreKey)
    (arts : List (StoredArtifact × Bytes)) : Prop :=
  (∃ text, dir[manifestName]? = some text ∧
    fromToml text = some ⟨key.node, key.signature, arts.map Prod.fst⟩) ∧
  ∀ a ∈ arts, dir[a.1.file]? = some a.2

theorem contains_eq_isSome : dir.contains file = dir[file]?.isSome :=
  ExtTreeMap.contains_eq_isSome_getElem?

theorem has_eq : s.has key = (s.entryDir key).any fun dir => dir.contains manifestName := by
  unfold has
  cases s.entryDir key <;> rfl

theorem holds_entryFiles (htoml : ∀ man, fromToml (toToml man) = some man)
    (harts : Storable arts) : Holds fromToml (entryFiles toToml key arts) key arts := by
  unfold Holds entryFiles
  refine ⟨⟨_, by rw [getElem?_insert, if_pos rfl], htoml _⟩, fun a ha => ?_⟩
  rw [getElem?_insert, if_neg (harts.1 a ha).symm]
  exact getElem?_addFiles_of_mem harts.2 ha

/-- What a directory holds can be copied out of it. -/
theorem Holds.getElem?_addFiles (h : Holds fromToml dir key arts) {a : StoredArtifact × Bytes}
    (ha : a ∈ arts) : (addFiles dest arts)[a.1.file]? = some a.2 := by
  refine getElem?_addFiles_of_mem (fun b hb c hc hfile => ?_) ha
  have hbytes : some b.2 = some c.2 := by rw [← h.2 b hb, ← h.2 c hc, hfile]
  exact Option.some.inj hbytes

theorem Holds.contains (h : Holds fromToml dir key arts) : dir.contains manifestName = true := by
  obtain ⟨⟨text, htext, -⟩, -⟩ := h
  rw [contains_eq_isSome, htext]
  rfl

theorem Holds.keyOf (h : Holds fromToml dir key arts) :
    keyOf fromToml key.signature dir = some key := by
  obtain ⟨⟨text, htext, hman⟩, -⟩ := h
  unfold ArtifactStore.keyOf
  rw [htext]
  show (fromToml text).bind _ = _
  rw [hman]
  exact if_pos rfl

theorem copyOut_eq (h : ∀ a ∈ arts, dir[a.1.file]? = some a.2) :
    copyOut dir (arts.map Prod.fst) dest = addFiles dest arts := by
  induction arts generalizing dest with
  | nil => rfl
  | cons a arts ih =>
    show copyOut dir (arts.map Prod.fst) (match dir[a.1.file]? with
      | some bytes => dest.insert a.1.file bytes
      | none => dest) = addFiles (dest.insert a.1.file a.2) arts
    rw [h a List.mem_cons_self]
    exact ih fun b hb => h b (List.mem_cons_of_mem _ hb)

theorem Holds.restore (hdir : s.entryDir key = some dir) (h : Holds fromToml dir key arts) :
    s.restore fromToml key dest = some (arts.map Prod.fst, addFiles dest arts) := by
  obtain ⟨⟨text, htext, hman⟩, hfiles⟩ := h
  have hall : ((arts.map Prod.fst).any fun a => !dir.contains a.file) = false := by
    rw [List.any_map, List.any_eq_false]
    intro a ha
    show ¬(!dir.contains a.1.file) = true
    rw [contains_eq_isSome, hfiles a ha]
    exact Bool.false_ne_true
  unfold ArtifactStore.restore
  simp only [hdir, htext, hman, Option.bind_eq_bind, Option.bind_some, ne_eq, not_true_eq_false,
    if_false, hall, Bool.false_eq_true, copyOut_eq hfiles]

theorem restore_eq_none (h : s.has key = false) : s.restore fromToml key dest = none := by
  rw [has_eq] at h
  unfold restore
  cases hdir : s.entryDir key with
  | none => rfl
  | some dir =>
    rw [hdir] at h
    have hman : dir[manifestName]? = none := by
      rw [← Option.not_isSome_iff_eq_none, ← contains_eq_isSome]
      exact Bool.eq_false_iff.mp h
    show (dir[manifestName]?).bind _ = none
    rw [hman]
    rfl

/-! ### What put does -/

/-- A put finds the entry there, or renames the staged one into place, or fails and leaves the store
as it was. -/
theorem put_cases (toToml : StoreManifest → Bytes) (s : ArtifactStore) (key : StoreKey)
    (sources : List Source) : (s.has key = true ∧ s.put toToml key sources = (s, .ok ())) ∨
    (s.has key = false ∧ ∃ arts, Reads sources arts ∧ s.put toToml key sources =
      (s.setDir (nodeDir key.node) key.signature (entryFiles toToml key arts), .ok ())) ∨
    (s.has key = false ∧ (s.put toToml key sources).1 = s ∧
      (s.put toToml key sources).2 ≠ .ok ()) := by
  unfold put
  cases hhas : s.has key with
  | true => exact .inl ⟨rfl, rfl⟩
  | false =>
    right
    rw [if_neg Bool.false_ne_true]
    cases hstage : stage sources ∅ with
    | err e => exact .inr ⟨rfl, rfl, nofun⟩
    | panic => exact .inr ⟨rfl, rfl, nofun⟩
    | ok staged =>
      obtain ⟨arts, harts, hentries, htmp⟩ := stage_eq_ok.mp hstage
      have hfiles : staged.1.insert manifestName (toToml ⟨key.node, key.signature, staged.2⟩) =
          entryFiles toToml key arts := by
        rw [hentries, htmp]
        rfl
      show (_ ∧ ∃ arts, _ ∧ publish _ _ (staged.1.insert _ _) = _) ∨ _
      rw [hfiles]
      unfold publish
      rw [has_eq] at hhas
      cases hdir : s.entryDir key with
      | none => exact .inl ⟨rfl, arts, harts, rfl⟩
      | some dir =>
        have h : dir.contains manifestName = false := by rwa [hdir] at hhas
        cases hempty : dir.isEmpty with
        | true => exact .inl ⟨rfl, arts, harts, by simp [hempty]⟩
        | false =>
          refine .inr ⟨rfl, ?_⟩
          simp only [hempty, h, Bool.false_eq_true, if_false]
          exact ⟨trivial, nofun⟩

end ArtifactStore

end Boot2Deb.Engine
