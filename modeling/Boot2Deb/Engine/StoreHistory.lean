import Mathlib
import Boot2Deb.Engine.ArtifactStore

/-!
# The artifact store over its history

Puts and restores come in any order, and files of an entry are lost or cut short between them. What
a manifest says about its entry is then true of it for as long as every put stores artifacts its
directory can hold, under a key whose directory no other key has, and no loss leaves a manifest
behind without the files it names. In every such history the store is a map from keys to artifacts.
-/

namespace Boot2Deb.Engine

open Rust Std

namespace StoreKey

/-- The directory of a key under the root: its node's, and its own in that. -/
def slot (key : StoreKey) : Str × Str := (nodeDir key.node, key.signature)

def isComponent (name : Str) : Bool :=
  !name.isEmpty && name != ['.'] && name != ['.', '.'] && !name.contains '/' && !name.contains '\x00'

def isHexDigit (c : Char) : Bool := c.isDigit || ('a' ≤ c && c ≤ 'f')

/-- The node is the name of one directory, the signature is in hex. -/
def WellFormed (key : StoreKey) : Prop :=
  isComponent (nodeDir key.node) = true ∧ key.signature ≠ [] ∧
    key.signature.all isHexDigit = true

instance (key : StoreKey) : Decidable key.WellFormed := inferInstanceAs (Decidable (_ ∧ _ ∧ _))

theorem WellFormed.head?_ne {key : StoreKey} (h : key.WellFormed) :
    key.signature.head? ≠ some '.' := by
  obtain ⟨-, -, hhex⟩ := h
  intro hhead
  have hdot : isHexDigit '.' = true := List.all_eq_true.mp hhex '.' (List.mem_of_head? hhead)
  exact absurd hdot (by decide)

end StoreKey

namespace ArtifactStore

/-! ### Histories -/

/-- What happens to the store. -/
inductive StoreOp where
  | put (key : StoreKey) (sources : List Source)
  | restore (key : StoreKey) (dest : Dir)
  | lose (nodeDir name file : Str)
  | truncate (nodeDir name file : Str) (n : Nat)

def empty : ArtifactStore := ⟨∅⟩

/-- A change to the files of one entry, where there is one. -/
def damage (s : ArtifactStore) (nodeDir name : Str) (f : Dir → Dir) : ArtifactStore :=
  match s.dirAt nodeDir name with
  | some dir => s.setDir nodeDir name (f dir)
  | none => s

/-- A file cut short to `n` bytes. -/
def cut (file : Str) (n : Nat) (dir : Dir) : Dir :=
  match dir[file]? with
  | some bytes => dir.insert file (bytes.take n)
  | none => dir

/-- The store after an operation. A restore reads it only. -/
def step (toToml : StoreManifest → Bytes) (s : ArtifactStore) : StoreOp → ArtifactStore
  | .put key sources => (s.put toToml key sources).1
  | .restore _ _ => s
  | .lose nodeDir name file => s.damage nodeDir name (·.erase file)
  | .truncate nodeDir name file n => s.damage nodeDir name (cut file n)

variable {fromToml : Bytes → Option StoreManifest} {toToml : StoreManifest → Bytes}
  {K : Set StoreKey} {s : ArtifactStore} {key key' : StoreKey} {dir dest : Dir}
  {arts : List (StoredArtifact × Bytes)} {sources : List Source}

/-- A change that leaves no manifest behind, or all that the manifest says true. -/
def Harmless (fromToml : Bytes → Option StoreManifest) (s : ArtifactStore) (nodeDir name : Str)
    (f : Dir → Dir) : Prop :=
  ∀ dir, s.dirAt nodeDir name = some dir → ∀ key arts, Holds fromToml dir key arts →
    (f dir).contains manifestName = true → Holds fromToml (f dir) key arts

/-- An entry that is there holds the artifacts of the sources, or the sources can be stored. -/
def PutMeets (fromToml : Bytes → Option StoreManifest) (s : ArtifactStore) (key : StoreKey)
    (sources : List Source) : Prop :=
  if s.has key = true then
    ∃ arts dir, Reads sources arts ∧ s.entryDir key = some dir ∧ Holds fromToml dir key arts
  else ∀ arts, Reads sources arts → Storable arts

def Meets (fromToml : Bytes → Option StoreManifest) (K : Set StoreKey) (s : ArtifactStore) :
    StoreOp → Prop
  | .put key sources => key ∈ K ∧ s.PutMeets fromToml key sources
  | .restore _ _ => True
  | .lose nodeDir name file => s.Harmless fromToml nodeDir name (·.erase file)
  | .truncate nodeDir name file n => s.Harmless fromToml nodeDir name (cut file n)

/-- What a manifest says is true of its entry, and comes from a put. -/
def Sound (fromToml : Bytes → Option StoreManifest) (K : Set StoreKey)
    (stored : StoreKey → List (StoredArtifact × Bytes) → Prop) (s : ArtifactStore) : Prop :=
  ∀ nodeDir name dir, s.dirAt nodeDir name = some dir → dir.contains manifestName = true →
    ∃ key ∈ K, key.slot = (nodeDir, name) ∧ ∃ arts, stored key arts ∧ Holds fromToml dir key arts

/-- The artifacts come from a put of the history under the key. -/
def StoredBy (ops : List StoreOp) (key : StoreKey) (arts : List (StoredArtifact × Bytes)) : Prop :=
  ∃ sources, .put key sources ∈ ops ∧ Reads sources arts

/-! ### Every operation keeps the store sound -/

variable {stored : StoreKey → List (StoredArtifact × Bytes) → Prop}

theorem sound_setDir (hs : s.Sound fromToml K stored) {nd name : Str}
    (hdir : dir.contains manifestName = true → ∃ key ∈ K, key.slot = (nd, name) ∧
      ∃ arts, stored key arts ∧ Holds fromToml dir key arts) :
    (s.setDir nd name dir).Sound fromToml K stored := by
  intro nd' name' dir' hdir' hman
  rw [dirAt_setDir] at hdir'
  by_cases hslot : nd = nd' ∧ name = name'
  · rw [if_pos hslot, Option.some.injEq] at hdir'
    obtain ⟨rfl, rfl⟩ := hslot
    subst hdir'
    exact hdir hman
  · rw [if_neg hslot] at hdir'
    exact hs nd' name' dir' hdir' hman

theorem sound_damage (hs : s.Sound fromToml K stored) {nd name : Str} {f : Dir → Dir}
    (hman : ∀ dir, (f dir).contains manifestName = true → dir.contains manifestName = true)
    (hf : s.Harmless fromToml nd name f) : (s.damage nd name f).Sound fromToml K stored := by
  unfold damage
  cases hdir : s.dirAt nd name with
  | none => exact hs
  | some dir =>
    refine sound_setDir hs fun hleft => ?_
    obtain ⟨key, hkey, hslot, arts, hstored, hholds⟩ := hs nd name dir hdir (hman dir hleft)
    exact ⟨key, hkey, hslot, arts, hstored, hf dir hdir key arts hholds hleft⟩

theorem sound_put (htoml : ∀ man, fromToml (toToml man) = some man)
    (hs : s.Sound fromToml K stored) (hkey : key ∈ K) (hput : s.PutMeets fromToml key sources)
    (hstored : ∀ arts, Reads sources arts → stored key arts) :
    (s.put toToml key sources).1.Sound fromToml K stored := by
  rcases put_cases toToml s key sources with
    ⟨-, heq⟩ | ⟨hhas, arts, harts, heq⟩ | ⟨-, heq, -⟩
  · rw [heq]
    exact hs
  · rw [heq]
    unfold PutMeets at hput
    rw [if_neg (by rw [hhas]; exact Bool.false_ne_true)] at hput
    refine sound_setDir hs fun _ => ⟨key, hkey, rfl, arts, hstored arts harts, ?_⟩
    exact holds_entryFiles htoml (hput arts harts)
  · rw [heq]
    exact hs

theorem contains_of_erase {file : Str} (h : (dir.erase file).contains manifestName = true) :
    dir.contains manifestName = true := by
  rw [ExtTreeMap.contains_erase, Bool.and_eq_true] at h
  exact h.2

theorem contains_of_cut {file : Str} {n : Nat} (h : (cut file n dir).contains manifestName = true) :
    dir.contains manifestName = true := by
  unfold cut at h
  cases hfile : dir[file]? with
  | none => rwa [hfile] at h
  | some bytes =>
    rw [hfile] at h
    rw [contains_eq_isSome] at h ⊢
    by_cases hname : file = manifestName
    · rw [← hname, hfile]
      rfl
    · rwa [getElem?_insert, if_neg hname] at h

/-- One step of a history keeps the store sound. -/
theorem sound_step (htoml : ∀ man, fromToml (toToml man) = some man) {op : StoreOp}
    (hs : s.Sound fromToml K stored) (hop : s.Meets fromToml K op)
    (hstored : ∀ key sources arts, op = .put key sources → Reads sources arts → stored key arts) :
    (s.step toToml op).Sound fromToml K stored := by
  cases op with
  | put key sources =>
    exact sound_put htoml hs hop.1 hop.2 fun arts => hstored key sources arts rfl
  | restore key dest => exact hs
  | lose nodeDir name file => exact sound_damage hs (fun _ => contains_of_erase) hop
  | truncate nodeDir name file n => exact sound_damage hs (fun _ => contains_of_cut) hop

theorem sound_empty : empty.Sound fromToml K stored := by
  intro nodeDir name dir hdir
  exact absurd hdir (by simp [dirAt, empty])

/-- A history under the condition ends in a sound store. -/
theorem sound_run (htoml : ∀ man, fromToml (toToml man) = some man) {ops : List StoreOp}
    (h : AllMeet (step toToml) (Meets fromToml K) empty ops) :
    (ops.foldl (step toToml) empty).Sound fromToml K (StoredBy ops) := by
  refine h.invariant (fun s op hop hs hmeet => ?_) sound_empty
  exact sound_step htoml hs hmeet fun key sources arts heq hreads =>
    ⟨sources, heq ▸ hop, hreads⟩

/-! ### A sound store is a map -/

/-- Some entry directory's manifest records the key. -/
def Listed (fromToml : Bytes → Option StoreManifest) (s : ArtifactStore) (key : StoreKey) : Prop :=
  ∃ e ∈ s.entries fromToml, e.key = some key

/-- The store answers for the keys as a map does that the puts of the history filled. -/
structure AnswersAsMap (fromToml : Bytes → Option StoreManifest) (toToml : StoreManifest → Bytes)
    (K : Set StoreKey) (ops : List StoreOp) (s : ArtifactStore) : Prop where
  has_iff : ∀ key ∈ K, ∀ dest, s.has key = true ↔ (s.restore fromToml key dest).isSome
  listed_iff : ∀ key ∈ K, ∀ dest, s.Listed fromToml key ↔ (s.restore fromToml key dest).isSome
  /-- A put that returns `Ok` leaves its own artifacts to restore, each with its bytes. -/
  put_ok : ∀ key sources, s.Meets fromToml K (.put key sources) →
    (s.put toToml key sources).2 = .ok () → ∃ arts, Reads sources arts ∧
      ∀ dest, (s.put toToml key sources).1.restore fromToml key dest =
          some (arts.map Prod.fst, addFiles dest arts) ∧
        ∀ a ∈ arts, (addFiles dest arts)[a.1.file]? = some a.2
  /-- What a restore answers was put under its own key. -/
  own : ∀ key ∈ K, ∀ dest out, s.restore fromToml key dest = some out →
    ∃ arts, StoredBy ops key arts ∧ out = (arts.map Prod.fst, addFiles dest arts)
  /-- A put leaves the answers for the other keys as they are. -/
  frame : ∀ key ∈ K, ∀ key' ∈ K, key' ≠ key → ∀ sources,
    (s.put toToml key sources).1.has key' = s.has key' ∧
    (∀ dest, (s.put toToml key sources).1.restore fromToml key' dest =
      s.restore fromToml key' dest) ∧
    ((s.put toToml key sources).1.Listed fromToml key' ↔ s.Listed fromToml key')

theorem listed_iff_dirAt : s.Listed fromToml key ↔ ∃ nd name dir, s.dirAt nd name = some dir ∧
    name.head? ≠ some '.' ∧ keyOf fromToml name dir = some key := by
  unfold Listed
  constructor
  · rintro ⟨e, he, hkey⟩
    obtain ⟨dir, hdir, hname, heq⟩ := mem_entries.mp he
    exact ⟨e.nodeDir, e.name, dir, hdir, hname, heq ▸ hkey⟩
  · rintro ⟨nd, name, dir, hdir, hname, hkey⟩
    exact ⟨⟨nd, name, keyOf fromToml name dir⟩, mem_entries.mpr ⟨dir, hdir, hname, rfl⟩, hkey⟩

theorem contains_of_keyOf {name : Str} (h : keyOf fromToml name dir = some key) :
    dir.contains manifestName = true := by
  unfold keyOf at h
  obtain ⟨text, htext, -⟩ := Option.bind_eq_some_iff.mp h
  rw [contains_eq_isSome, htext]
  rfl

theorem has_iff_dir : s.has key = true ↔
    ∃ dir, s.entryDir key = some dir ∧ dir.contains manifestName = true := by
  rw [has_eq, Option.any_eq_true_iff_get]
  constructor
  · rintro ⟨h, hman⟩
    exact ⟨_, (Option.some_get h).symm, hman⟩
  · rintro ⟨dir, hdir, hman⟩
    exact ⟨by rw [hdir]; rfl, by simpa [hdir] using hman⟩

/-- In a sound store, an entry of a key holds artifacts put under the key. -/
theorem Sound.holds (hs : s.Sound fromToml K stored) (hK : Set.InjOn StoreKey.slot K)
    (hkey : key ∈ K) (h : s.has key = true) :
    ∃ dir arts, s.entryDir key = some dir ∧ stored key arts ∧ Holds fromToml dir key arts := by
  obtain ⟨dir, hdir, hman⟩ := has_iff_dir.mp h
  obtain ⟨other, hother, hslot, arts, hstored, hholds⟩ := hs _ _ dir hdir hman
  obtain rfl : other = key := hK hother hkey hslot
  exact ⟨dir, arts, hdir, hstored, hholds⟩

theorem Sound.has_iff (hs : s.Sound fromToml K stored) (hK : Set.InjOn StoreKey.slot K)
    (hkey : key ∈ K) (dest : Dir) : s.has key = true ↔ (s.restore fromToml key dest).isSome := by
  constructor
  · intro h
    obtain ⟨dir, arts, hdir, -, hholds⟩ := hs.holds hK hkey h
    rw [hholds.restore hdir]
    rfl
  · intro h
    by_contra hhas
    rw [restore_eq_none (Bool.eq_false_iff.mpr hhas)] at h
    exact absurd h Bool.false_ne_true

theorem Sound.listed_iff (hs : s.Sound fromToml K stored) (hK : Set.InjOn StoreKey.slot K)
    (hwf : key.WellFormed) (hkey : key ∈ K) : s.Listed fromToml key ↔ s.has key = true := by
  rw [listed_iff_dirAt]
  constructor
  · rintro ⟨nd, name, dir, hdir, -, hkeyOf⟩
    have hman : dir.contains manifestName = true := contains_of_keyOf hkeyOf
    obtain ⟨other, -, hslot, arts, -, hholds⟩ := hs nd name dir hdir hman
    obtain ⟨rfl, rfl⟩ : nodeDir other.node = nd ∧ other.signature = name := Prod.mk.inj hslot
    have hsame : other = key := by
      rw [hholds.keyOf] at hkeyOf
      exact Option.some.inj hkeyOf
    subst hsame
    exact has_iff_dir.mpr ⟨dir, hdir, hman⟩
  · intro h
    obtain ⟨dir, arts, hdir, -, hholds⟩ := hs.holds hK hkey h
    exact ⟨_, _, dir, hdir, hwf.head?_ne, hholds.keyOf⟩

theorem put_ok (htoml : ∀ man, fromToml (toToml man) = some man)
    (hmeet : s.Meets fromToml K (.put key sources))
    (hok : (s.put toToml key sources).2 = .ok ()) : ∃ arts, Reads sources arts ∧
      ∀ dest, (s.put toToml key sources).1.restore fromToml key dest =
          some (arts.map Prod.fst, addFiles dest arts) ∧
        ∀ a ∈ arts, (addFiles dest arts)[a.1.file]? = some a.2 := by
  obtain ⟨hkey, hput⟩ := hmeet
  unfold PutMeets at hput
  rcases put_cases toToml s key sources with
    ⟨hhas, heq⟩ | ⟨hhas, arts, harts, heq⟩ | ⟨-, -, hfail⟩
  · rw [if_pos hhas] at hput
    obtain ⟨arts, dir, harts, hdir, hholds⟩ := hput
    rw [heq]
    exact ⟨arts, harts, fun dest => ⟨hholds.restore hdir, fun a => hholds.getElem?_addFiles⟩⟩
  · rw [if_neg (by rw [hhas]; exact Bool.false_ne_true)] at hput
    have hholds : Holds fromToml (entryFiles toToml key arts) key arts :=
      holds_entryFiles htoml (hput arts harts)
    refine ⟨arts, harts, fun dest => ⟨?_, fun a => hholds.getElem?_addFiles⟩⟩
    rw [heq]
    have hdir : (s.setDir (nodeDir key.node) key.signature (entryFiles toToml key arts)).entryDir key
        = some (entryFiles toToml key arts) := by
      show dirAt _ _ _ = _
      rw [dirAt_setDir, if_pos ⟨rfl, rfl⟩]
    exact hholds.restore hdir
  · exact absurd hok hfail

/-- A put writes at the directory of its key only, and there the manifest it writes can be read. -/
theorem put_frame (htoml : ∀ man, fromToml (toToml man) = some man)
    (hslot : key'.slot ≠ key.slot) :
    (s.put toToml key sources).1.has key' = s.has key' ∧
    (∀ dest, (s.put toToml key sources).1.restore fromToml key' dest =
      s.restore fromToml key' dest) ∧
    ((s.put toToml key sources).1.Listed fromToml key' ↔ s.Listed fromToml key') := by
  rcases put_cases toToml s key sources with
    ⟨-, heq⟩ | ⟨hhas, arts, -, heq⟩ | ⟨-, heq, -⟩
  · rw [heq]
    exact ⟨rfl, fun _ => rfl, Iff.rfl⟩
  · rw [heq]
    have hdir : (s.setDir (nodeDir key.node) key.signature (entryFiles toToml key arts)).entryDir
        key' = s.entryDir key' := by
      show dirAt _ _ _ = _
      rw [dirAt_setDir, if_neg fun h => hslot (Prod.ext h.1.symm h.2.symm)]
      rfl
    refine ⟨by rw [has_eq, has_eq, hdir], fun dest => by unfold restore; rw [hdir], ?_⟩
    have hne : key ≠ key' := fun h => hslot (h ▸ rfl)
    have hnew : keyOf fromToml key.signature (entryFiles toToml key arts) = some key := by
      unfold keyOf entryFiles
      rw [getElem?_insert, if_pos rfl]
      show (fromToml _).bind _ = _
      rw [htoml]
      exact if_pos rfl
    rw [listed_iff_dirAt, listed_iff_dirAt]
    constructor
    · rintro ⟨nd, name, dir, hdir, hname, hkey⟩
      rw [dirAt_setDir] at hdir
      split at hdir
      · next hplace =>
        -- the entry just written records its own key
        obtain ⟨rfl, rfl⟩ := hplace
        obtain rfl : entryFiles toToml key arts = dir := Option.some.inj hdir
        exact absurd (Option.some.inj (hnew.symm.trans hkey)) hne
      · exact ⟨nd, name, dir, hdir, hname, hkey⟩
    · rintro ⟨nd, name, dir, hdir, hname, hkey⟩
      refine ⟨nd, name, dir, ?_, hname, hkey⟩
      rw [dirAt_setDir, if_neg]
      · exact hdir
      · -- what stood there had no manifest, so it recorded no key
        rintro ⟨rfl, rfl⟩
        rw [has_iff_dir.mpr ⟨dir, hdir, contains_of_keyOf hkey⟩] at hhas
        exact absurd hhas.symm Bool.false_ne_true
  · rw [heq]
    exact ⟨rfl, fun _ => rfl, Iff.rfl⟩

/-- In every state of a history whose operations meet the condition, the store is a map. -/
theorem answersAsMap_of_meet (htoml : ∀ man, fromToml (toToml man) = some man)
    (hwf : ∀ key ∈ K, key.WellFormed) (hK : Set.InjOn StoreKey.slot K) {ops : List StoreOp}
    (h : AllMeet (step toToml) (Meets fromToml K) empty ops) {done : List StoreOp}
    (hdone : done <+: ops) :
    AnswersAsMap fromToml toToml K done (done.foldl (step toToml) empty) := by
  obtain ⟨rest, rfl⟩ := hdone
  have hs : (done.foldl (step toToml) empty).Sound fromToml K (StoredBy done) :=
    sound_run htoml h.append_left
  constructor
  · intro key hkey dest
    exact hs.has_iff hK hkey dest
  · intro key hkey dest
    rw [hs.listed_iff hK (hwf key hkey) hkey]
    exact hs.has_iff hK hkey dest
  · intro key sources hmeet hok
    exact put_ok htoml hmeet hok
  · intro key hkey dest out hout
    have hhas : has _ key = true := (hs.has_iff hK hkey dest).mpr (by rw [hout]; rfl)
    obtain ⟨dir, arts, hdir, hstored, hholds⟩ := hs.holds hK hkey hhas
    rw [hholds.restore hdir] at hout
    exact ⟨arts, hstored, (Option.some.inj hout).symm⟩
  · intro key hkey key' hkey' hne sources
    exact put_frame htoml fun hslot => hne (hK hkey' hkey hslot)

/-! ### A kernel entry -/

def kernelKey : StoreKey := ⟨"kernel".toList, "ab".toList⟩

def kernelSource : Source := ⟨"deb".toList, "out/a.deb".toList, some [1]⟩

def kernelManifest : StoreManifest :=
  ⟨"kernel".toList, "ab".toList, [⟨"deb".toList, "a.deb".toList⟩]⟩

def kernelToml : Str :=
  "node = \"kernel\"\nsignature = \"ab\"\n\n[[artifacts]]\nrole = \"deb\"\nfile = \"a.deb\"\n".toList

theorem exists_injective_nat : ∃ f : StoreManifest → ℕ, Function.Injective f := by
  have hchar : Countable Char := Function.Injective.countable (f := Char.toNat)
    fun c d h => Char.ext (UInt32.toNat_inj.mp h)
  have hartifact : Countable StoredArtifact :=
    Function.Injective.countable (f := fun a : StoredArtifact => (a.role, a.file))
      fun a b h => by cases a; cases b; cases h; rfl
  have hmanifest : Countable StoreManifest :=
    Function.Injective.countable (f := fun m : StoreManifest => (m.node, m.signature, m.artifacts))
      fun a b h => by cases a; cases b; cases h; rfl
  exact hmanifest.exists_injective_nat

/-- A writer of manifests: the text of the kernel's, and for every other a text of its own. -/
noncomputable def writeToml (man : StoreManifest) : Bytes :=
  if man = kernelManifest then asBytes kernelToml
  else 0 :: List.replicate (exists_injective_nat.choose man) 1

theorem writeToml_injective : Function.Injective writeToml := by
  have hhead : (asBytes kernelToml).head? ≠ some 0 := by decide
  intro a b h
  unfold writeToml at h
  split at h <;> split at h
  · next ha hb => rw [ha, hb]
  · rw [h] at hhead
    exact absurd rfl hhead
  · rw [← h] at hhead
    exact absurd rfl hhead
  · apply exists_injective_nat.choose_spec
    simpa using congrArg List.length h

noncomputable def readToml : Bytes → Option StoreManifest := Function.partialInv writeToml

theorem readToml_writeToml (man : StoreManifest) : readToml (writeToml man) = some man :=
  Function.partialInv_left writeToml_injective man

theorem reads_kernelSource {arts : List (StoredArtifact × Bytes)} :
    Reads [kernelSource] arts ↔ arts = [(⟨"deb".toList, "a.deb".toList⟩, [1])] := by
  have hread : read kernelSource = some (⟨"deb".toList, "a.deb".toList⟩, [1]) := by decide
  unfold Reads
  rw [List.map_singleton, hread]
  constructor
  · intro h
    exact List.map_injective_iff.mpr (Option.some_injective _) (h.symm.trans List.map_singleton.symm)
  · rintro rfl
    rfl

theorem has_empty : empty.has key = false := by
  simp [has_eq, entryDir, empty]

/-- The store after a first put of the kernel's artifact. -/
theorem step_put_kernel : empty.step writeToml (.put kernelKey [kernelSource]) =
    empty.setDir "kernel".toList "ab".toList
      (entryFiles writeToml kernelKey [(⟨"deb".toList, "a.deb".toList⟩, [1])]) := by
  have hdir : empty.entryDir kernelKey = none := by simp [entryDir, empty]
  have hstage : stage [kernelSource] ∅ =
      .ok (addFiles ∅ [(⟨"deb".toList, "a.deb".toList⟩, [1])], [⟨"deb".toList, "a.deb".toList⟩]) :=
    stage_eq_ok.mpr ⟨_, reads_kernelSource.mpr rfl, rfl, rfl⟩
  show (put _ _ _ _).1 = _
  unfold put
  rw [if_neg (by rw [has_empty]; exact Bool.false_ne_true), hstage]
  show (publish _ _ _).1 = _
  unfold publish
  rw [hdir]
  rfl

/-- An artifact is lost under a manifest that names it: the entry is there, and no restore reads
it. -/
theorem lost_file_keeps_has {a : StoredArtifact × Bytes} (dest : Dir) (hdir : s.entryDir key = some dir)
    (hholds : Holds fromToml dir key arts) (ha : a ∈ arts) (hname : a.1.file ≠ manifestName) :
    (s.damage (nodeDir key.node) key.signature (·.erase a.1.file)).has key = true ∧
    (s.damage (nodeDir key.node) key.signature (·.erase a.1.file)).restore fromToml key dest =
      none := by
  have hleft : (s.damage (nodeDir key.node) key.signature (·.erase a.1.file)).entryDir key =
      some (dir.erase a.1.file) := by
    unfold damage
    rw [show s.dirAt (nodeDir key.node) key.signature = some dir from hdir]
    show dirAt _ _ _ = _
    rw [dirAt_setDir, if_pos ⟨rfl, rfl⟩]
  obtain ⟨⟨text, htext, hman⟩, -⟩ := hholds
  have hcmp : compare a.1.file manifestName ≠ .eq := fun h => hname (LawfulEqCmp.eq_of_compare h)
  have htext' : (dir.erase a.1.file)[manifestName]? = some text := by
    rw [ExtTreeMap.getElem?_erase, if_neg hcmp, htext]
  have hlost : ((arts.map Prod.fst).any fun b => !(dir.erase a.1.file).contains b.file) = true := by
    rw [List.any_eq_true]
    refine ⟨a.1, List.mem_map_of_mem ha, ?_⟩
    simp
  constructor
  · exact has_iff_dir.mpr ⟨_, hleft, by rw [contains_eq_isSome, htext']; rfl⟩
  · unfold restore
    simp only [hleft, htext', hman, Option.bind_eq_bind, Option.bind_some, ne_eq,
      not_true_eq_false, if_false, hlost, if_true]

/-- The kernel's only artifact is lost. A put of it is `Ok` again and stores nothing. -/
theorem put_after_loss :
    let s := [.put kernelKey [kernelSource], .lose "kernel".toList "ab".toList "a.deb".toList].foldl
      (step writeToml) empty
    s.has kernelKey = true ∧ s.restore readToml kernelKey ∅ = none ∧
      s.put writeToml kernelKey [kernelSource] = (s, .ok ()) := by
  intro s
  have hs : s = (empty.setDir "kernel".toList "ab".toList (entryFiles writeToml kernelKey
      [(⟨"deb".toList, "a.deb".toList⟩, [1])])).damage "kernel".toList "ab".toList
        (·.erase "a.deb".toList) := by
    rw [← step_put_kernel]
    rfl
  have hdir : (empty.setDir "kernel".toList "ab".toList (entryFiles writeToml kernelKey
      [(⟨"deb".toList, "a.deb".toList⟩, [1])])).entryDir kernelKey =
        some (entryFiles writeToml kernelKey [(⟨"deb".toList, "a.deb".toList⟩, [1])]) := by
    show dirAt _ _ _ = _
    rw [dirAt_setDir, if_pos ⟨rfl, rfl⟩]
  have hstorable : Storable [(⟨"deb".toList, "a.deb".toList⟩, [1])] := by
    unfold Storable
    decide
  obtain ⟨hhas, hrestore⟩ := lost_file_keeps_has ∅ hdir
    (holds_entryFiles readToml_writeToml hstorable) List.mem_cons_self (by decide)
  rw [hs]
  exact ⟨hhas, hrestore, if_pos hhas⟩

/-- A put, a restore and the loss of the manifest, beside a key the store never held. -/
theorem answersAsMap_kernel : AnswersAsMap readToml writeToml
    {kernelKey, ⟨"userspace:mpp".toList, "ab".toList⟩}
    [.put kernelKey [kernelSource], .restore kernelKey ∅]
    ([.put kernelKey [kernelSource], .restore kernelKey ∅].foldl (step writeToml) empty) := by
  have h : AllMeet (step writeToml)
      (Meets readToml {kernelKey, ⟨"userspace:mpp".toList, "ab".toList⟩}) empty
      [.put kernelKey [kernelSource], .restore kernelKey ∅,
        .lose "kernel".toList "ab".toList manifestName] := by
    refine ⟨⟨Or.inl rfl, ?_⟩, trivial, ?_, trivial⟩
    · unfold PutMeets
      rw [if_neg (by rw [has_empty]; exact Bool.false_ne_true)]
      intro arts harts
      rw [reads_kernelSource.mp harts]
      unfold Storable
      decide
    · intro dir _ key arts _ hleft
      exact absurd hleft (by simp)
  refine answersAsMap_of_meet readToml_writeToml ?_ ?_ h ⟨[_], rfl⟩
  · rintro key (rfl | rfl) <;> decide
  · rintro key (rfl | rfl) key' (rfl | rfl) <;> decide

end ArtifactStore

end Boot2Deb.Engine
