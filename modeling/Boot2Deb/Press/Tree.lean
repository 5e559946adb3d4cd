import Mathlib
import Boot2Deb.Error
import Boot2Deb.Lib.PathTree
import Boot2Deb.Rust.Outcome
import Boot2Deb.Rust.Text

/-!
# The entries of a root filesystem

The list a rootfs archive parses into: one entry a name, each with its kind and metadata. A hard
link is an entry of its own that names another entry's path, and is a second name of that file.
-/

namespace Boot2Deb.Press
open Rust

/-- A region of a file on the host. -/
structure FileRange where
  path : Str
  offset : UInt64
  len : UInt64
deriving DecidableEq

/-- The bytes of a file: in hand, or left where they are until they are read. -/
inductive FileContent where
  | owned (b : Bytes)
  | range (r : FileRange)
deriving DecidableEq

/-- What an entry is. -/
inductive EntryKind where
  | directory
  | file (content : FileContent)
  | symlink (target : Bytes)
  | hardLink (target : Bytes)
  | charDevice (major minor : UInt32)
  | blockDevice (major minor : UInt32)
  | fifo
  | socket
deriving DecidableEq

def EntryKind.isDirectory : EntryKind → Bool
  | directory => true
  | _ => false

/-- A modification time. -/
structure Timestamp where
  secs : Int
  nsec : UInt32
deriving DecidableEq

/-- What an entry carries beside its kind. -/
structure Metadata where
  mode : UInt16
  uid : UInt32
  gid : UInt32
  mtime : Timestamp
  xattrs : List (Bytes × Bytes)
deriving DecidableEq

/-- `Metadata::new`: owned by root, without attributes. -/
def Metadata.new (mode : UInt16) (mtime : Timestamp) : Metadata := ⟨mode, 0, 0, mtime, []⟩

/-- One name of a root filesystem. -/
structure SourceEntry where
  path : Bytes
  kind : EntryKind
  meta_ : Metadata
deriving DecidableEq

/-- `FileContent::read`, given how a region of a host file is read. -/
def FileContent.read (host : FileRange → Except String Bytes) : FileContent → Except String Bytes
  | owned b => .ok b
  | range r => host r

/-- The byte between the components of a path. -/
def slash : UInt8 := 0x2f

/-- The proper ancestors of an absolute path, shallowest first and without the root. -/
def ancestors (path : Bytes) : List Bytes :=
  (path.zipIdx.drop 1).filterMap fun b => if b.1 = slash then some (path.take b.2) else none

/-! ### The tree the entries are -/

/-- The path of the directory that holds a name, where that is not the root. -/
def parentPath (path : Bytes) : Option Bytes :=
  match (path.rdropWhile (· ≠ slash)).dropLast with
  | [] => none
  | dir => some dir

/-- The path a hard link names. -/
def SourceEntry.link (e : SourceEntry) : Option Bytes :=
  match e.kind with
  | .hardLink target => some target
  | _ => none

/-- Unique paths, and every entry in a directory. -/
abbrev ImageTree (entries : List SourceEntry) : Prop :=
  IsTree SourceEntry.path parentPath (fun e => e.kind.isDirectory = true) entries

/-- The kind and metadata of the file a path names, through the hard links. -/
abbrev Names (entries : List SourceEntry) (path : Bytes) (file : EntryKind × Metadata) : Prop :=
  LeadsTo SourceEntry.path SourceEntry.link (fun e => (e.kind, e.meta_)) entries path file

theorem mem_ancestors {a path : Bytes} :
    a ∈ ancestors path ↔ a ≠ [] ∧ ∃ rest, path = a ++ slash :: rest := by
  unfold ancestors
  rw [List.mem_filterMap]
  constructor
  · rintro ⟨⟨b, i⟩, hmem, hsome⟩
    obtain ⟨j, hj⟩ := List.mem_iff_getElem?.mp hmem
    rw [List.getElem?_drop, List.getElem?_zipIdx, Option.map_eq_some_iff] at hj
    obtain ⟨b', hb', hpair⟩ := hj
    obtain ⟨rfl, rfl⟩ := Prod.mk.inj hpair
    split_ifs at hsome with hb
    obtain rfl := Option.some.inj hsome
    obtain ⟨hlt, hget⟩ := List.getElem?_eq_some_iff.mp hb'
    refine ⟨?_, path.drop (1 + j + 1), ?_⟩
    · rw [← List.length_pos_iff, List.length_take]
      omega
    · have hslash : path[1 + j] = slash := hget.trans hb
      rw [← hslash, Nat.zero_add, ← List.drop_eq_getElem_cons hlt, List.take_append_drop]
  · rintro ⟨hne, rest, rfl⟩
    refine ⟨(slash, a.length), ?_, by simp⟩
    have hpos : 1 ≤ a.length := List.length_pos_iff.mpr hne
    refine List.mem_iff_getElem?.mpr ⟨a.length - 1, ?_⟩
    rw [List.getElem?_drop, List.getElem?_zipIdx, Nat.add_sub_cancel' hpos]
    simp

theorem rdropWhile_ne_slash {dir name : Bytes} (h : slash ∉ name) :
    (dir ++ slash :: name).rdropWhile (· ≠ slash) = dir ++ [slash] := by
  induction name using List.reverseRecOn with
  | nil => exact List.rdropWhile_concat_neg _ _ _ (by simp)
  | append_singleton name b ih =>
    obtain ⟨hname, hb⟩ : slash ∉ name ∧ ¬slash = b := by simpa using h
    rw [← List.cons_append, ← List.append_assoc,
      List.rdropWhile_concat_pos _ _ _ (by simpa using Ne.symm hb)]
    exact ih hname

theorem parentPath_eq_some {a path : Bytes} :
    parentPath path = some a ↔ a ≠ [] ∧ ∃ name, slash ∉ name ∧ path = a ++ slash :: name := by
  constructor
  · intro h
    have hsplit : path.rdropWhile (· ≠ slash) ++ path.rtakeWhile (· ≠ slash) = path :=
      List.rdropWhile_append_rtakeWhile ..
    have hname : slash ∉ path.rtakeWhile (· ≠ slash) := fun hm => by
      simpa using List.mem_rtakeWhile_imp hm
    have hlast := List.rdropWhile_last_not (p := (· ≠ slash)) path
    unfold parentPath at h
    split at h
    · exact absurd h (by simp)
    · rename_i hdir
      obtain rfl := Option.some.inj h
      have hne : path.rdropWhile (· ≠ slash) ≠ [] := fun h0 => hdir (by rw [h0]; rfl)
      refine ⟨hdir, _, hname, ?_⟩
      have hslash : (path.rdropWhile (· ≠ slash)).getLast hne = slash := by simpa using hlast hne
      conv_lhs => rw [← hsplit, ← List.dropLast_append_getLast hne, hslash]
      simp
  · rintro ⟨hne, name, hname, rfl⟩
    unfold parentPath
    rw [rdropWhile_ne_slash hname, List.dropLast_concat]
    cases a with
    | nil => exact absurd rfl hne
    | cons b a => rfl

/-- The directory of a name is among its ancestors, and so are those of its ancestors. -/
theorem mem_ancestors_of_parentPath {a path : Bytes} (h : parentPath path = some a) :
    a ∈ ancestors path := by
  obtain ⟨hne, name, -, rfl⟩ := parentPath_eq_some.mp h
  exact mem_ancestors.mpr ⟨hne, name, rfl⟩

theorem ancestors_trans {a b path : Bytes} (hab : a ∈ ancestors b) (hb : b ∈ ancestors path) :
    a ∈ ancestors path := by
  obtain ⟨hne, rest, rfl⟩ := mem_ancestors.mp hab
  obtain ⟨-, rest', rfl⟩ := mem_ancestors.mp hb
  exact mem_ancestors.mpr ⟨hne, rest ++ slash :: rest', by simp⟩

end Boot2Deb.Press
