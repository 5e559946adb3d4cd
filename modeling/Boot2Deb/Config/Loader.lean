import Boot2Deb.Config.BuildPoint
import Boot2Deb.Lib.Recorded

/-!
# The config search path

A config root is an ordered list of directories; a lookup walks them and records every path it
probes. The file tree is what `read_to_string` and `read_dir` find there.
-/

namespace Boot2Deb.Config
open Rust Lib

/-! ### Paths -/

/-- A path, by its components; the root directory is the component `/`. -/
abbrev Path := List Str

/-- The components a string stands for. -/
def components (s : Str) : Path :=
  (if s.head? = some '/' then [['/']] else []) ++
    (s.splitOn '/').filter fun c => c ≠ [] ∧ c ≠ ['.']

/-- `Path::join`: an absolute string replaces the path. -/
def Path.join (p : Path) (s : Str) : Path :=
  if s.head? = some '/' then components s else p ++ components s

/-- `Path::file_name`. -/
def Path.fileName (p : Path) : Option Str :=
  p.getLast?.filter fun c => c ≠ "..".toList ∧ c ≠ ['/']

/-- `Path::with_file_name`. -/
def Path.withFileName (p : Path) (name : Str) : Path :=
  Path.join (if p.fileName.isSome then p.dropLast else p) name

/-- `Path::file_stem` of a last component: what is before its last dot, unless it starts there. -/
def fileStem (name : Str) : Str :=
  match rfind name '.' with
  | some (i + 1) => name.take (i + 1)
  | _ => name

/-- `Path::with_extension`, of a non-empty extension. -/
def Path.withExtension (p : Path) (extension : Str) : Path :=
  match p.fileName with
  | some name => p.dropLast ++ [fileStem name ++ '.' :: extension]
  | none => p

/-! ### The file tree -/

/-- What reading a path as text finds: nothing, a text, or a failure of another kind. -/
inductive Entry where
  | absent
  | text (s : Str)
  | unreadable
deriving DecidableEq, Repr

/-- What listing a directory finds. -/
inductive Dir where
  | absent
  | names (l : List Str)
  | unreadable
deriving DecidableEq, Repr

/-- A file tree. A directory lists every file that can be read in it. -/
structure Tree where
  entry : Path → Entry
  readDir : Path → Dir
  mem_readDir : ∀ (d : Path) (name s : Str), entry (d ++ [name]) = .text s →
    readDir d = .unreadable ∨ ∃ l, readDir d = .names l ∧ name ∈ l

/-- `Path::exists`. -/
def Tree.exists (t : Tree) (p : Path) : Bool := t.entry p ≠ .absent

/-! ### The search path -/

/-- `ConfigRoot`: the shipped root, then the overlays, later ones winning. -/
structure ConfigRoot where
  primary : Path
  overlays : List Path

/-- A lookup on the search path, which records the paths it probes. -/
abbrev Lookup (α : Type) := Recorded Tree Path ConfigError α

namespace ConfigRoot

def roots (root : ConfigRoot) : List Path := root.primary :: root.overlays

/-- The highest root that has `<subdir>/<name>.toml`, or the shipped one. -/
def owner (root : ConfigRoot) (subdir name : Str) (t : Tree) : Path :=
  let rel := subdir ++ '/' :: name ++ ".toml".toList
  (root.roots.reverse.find? fun r => t.exists (Path.join r rel)).getD root.primary

/-- The root a layer file belongs to. -/
def owningRoot (root : ConfigRoot) (subdir name : Str) : Lookup Path := do
  let rel := subdir ++ '/' :: name ++ ".toml".toList
  let _ ← Recorded.mapM (fun r => Recorded.note (Path.join r rel)) root.roots
  Recorded.read (root.owner subdir name)

theorem owner_mem (root : ConfigRoot) (subdir name : Str) (t : Tree) :
    root.owner subdir name t ∈ root.roots := by
  unfold owner
  extract_lets rel
  cases h : root.roots.reverse.find? fun r => t.exists (Path.join r rel) with
  | none => exact List.mem_cons_self
  | some r => exact List.mem_reverse.mp (List.mem_of_find?_eq_some h)

@[simp] theorem value_owningRoot (root : ConfigRoot) (subdir name : Str) (t : Tree) :
    (root.owningRoot subdir name).value t = .ok (root.owner subdir name t) := by
  unfold owningRoot
  rw [Recorded.value_bind, Recorded.value_mapM_note]
  rfl

end ConfigRoot

end Boot2Deb.Config
