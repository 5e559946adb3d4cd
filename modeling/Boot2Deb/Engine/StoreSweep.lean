import Boot2Deb.Engine.StoreHistory

/-!
# Sweeping the artifact store (`cli/src/commands/clean.rs`, `clean --artifacts`)

A sweep computes every key some lock's build would restore from, for every selection of the optional
userspace trees, and removes the entries of any other key, or of none. It removes nothing where a
key cannot be computed. What was stored under a key stays, through any puts, restores and sweeps, for
as long as every sweep finds a lock that reaches the key (`stored_kept`); a sweep that goes through
leaves exactly the entries some lock reaches (`swept_exact`). Reading a lock, resolving a recipe and
predicting its nodes are parameters.
-/

namespace Boot2Deb.Engine
open Rust Std

/-- A compile node of a prediction, and the keys its outputs are stored under. -/
structure NodePlan where
  node : Str
  keys : Option (List StoreKey)

/-- The locks of a config tree, each with its recipe, and what is read off them. -/
structure LockTree (L B : Type) where
  lockFiles : List (Str × Str)
  readLock : Str → Outcome Str L
  resolveRecipe : Str → Outcome Str B
  /-- The SoC's optional userspace trees. -/
  optional : B → List Str
  predict : L → B → List Str → Outcome Str (List NodePlan)

/-- `1usize << n`: 64-bit words. -/
def shiftOne (n : ℕ) : Outcome Str ℕ := if n < 64 then .ok (2 ^ n) else .panic

/-- The names a mask picks, in order, the first by the bit `i`. -/
def picked (mask : ℕ) : ℕ → List Str → List Str
  | _, [] => []
  | i, name :: names =>
    if mask &&& 2 ^ i ≠ 0 then name :: picked mask (i + 1) names else picked mask (i + 1) names

/-- `subsets`. -/
def subsets (names : List Str) : Outcome Str (List (List Str)) := do
  let count ← shiftOne names.length
  .ok ((List.range count).map fun mask => picked mask 0 names)

namespace LockTree
variable {L B : Type} (tree : LockTree L B)

/-- Why a sweep stops at a lock. -/
def unknown (path why : Str) : Str :=
  "cannot compute the artifact keys of ".toList ++ path ++ " (".toList ++ why ++
    "); pruning without them would delete entries that lock's build still restores".toList

def nodeKeys (path : Str) (node : NodePlan) : Outcome Str (List StoreKey) :=
  Outcome.okOr node.keys
    (unknown path ("node ".toList ++ node.node ++ " has no computable key".toList))

/-- The keys of one selection of optional trees. -/
def selectionKeys (path : Str) (lock : L) (build : B) (selection : List Str) :
    Outcome Str (List StoreKey) := do
  let nodes ← (tree.predict lock build selection).mapErr (unknown path)
  let keys ← Outcome.mapM (nodeKeys path) nodes
  .ok keys.flatten

/-- The keys of one lock. -/
def lockKeys (file : Str × Str) : Outcome Str (List StoreKey) := do
  let lock ← tree.readLock file.2
  let build ← (tree.resolveRecipe file.1).mapErr (unknown file.2)
  let selections ← subsets (tree.optional build)
  let keys ← Outcome.mapM (tree.selectionKeys file.2 lock build) selections
  .ok keys.flatten

/-- `live_artifacts`. -/
def liveArtifacts : Outcome Str (List StoreKey) := do
  let keys ← Outcome.mapM tree.lockKeys tree.lockFiles
  .ok keys.flatten

/-- Some lock's build asks for the key, under some selection of its optional trees. -/
def Reaches (key : StoreKey) : Prop :=
  ∃ file ∈ tree.lockFiles, ∃ lock build, tree.readLock file.2 = .ok lock ∧
    tree.resolveRecipe file.1 = .ok build ∧ ∃ selection, selection.Sublist (tree.optional build) ∧
      ∃ nodes, tree.predict lock build selection = .ok nodes ∧
        ∃ node ∈ nodes, ∃ keys, node.keys = some keys ∧ key ∈ keys

end LockTree

namespace ArtifactStore

/-- `dead_artifacts`: the directories of the entries with no key, or with none of the live ones. -/
def deadArtifacts (entries : List StoreEntry) (live : List StoreKey) : List (Str × Str) :=
  (entries.filter fun e => !(e.key.any fun key => live.contains key)).map fun e => (e.nodeDir, e.name)

/-- The store without an entry directory. -/
def removeDir (s : ArtifactStore) (slot : Str × Str) : ArtifactStore :=
  match s.nodes[slot.1]? with
  | some node => ⟨s.nodes.insert slot.1 (node.erase slot.2)⟩
  | none => s

/-- The removals of a run. One that fails ends it, and leaves an entry without some of its files. -/
def reclaimAll (reclaim : Str × Str → Option (List Str)) :
    ArtifactStore → List (Str × Str) → ArtifactStore × Outcome Str Unit
  | s, [] => (s, .ok ())
  | s, slot :: slots =>
    match reclaim slot with
    | none => reclaimAll reclaim (s.removeDir slot) slots
    | some lost =>
      (s.damage slot.1 slot.2 fun dir => lost.foldl (fun dir file => dir.erase file) dir,
        .err ("failed to remove ".toList ++ slot.1 ++ '/' :: slot.2))

/-- `clean --artifacts`. -/
def cleanArtifacts {L B : Type} (fromToml : Bytes → Option StoreManifest) (tree : LockTree L B)
    (dryRun : Bool) (reclaim : Str × Str → Option (List Str)) (s : ArtifactStore) :
    ArtifactStore × Outcome Str Unit :=
  match tree.liveArtifacts with
  | .ok live =>
    if dryRun then (s, .ok ()) else reclaimAll reclaim s (deadArtifacts (s.entries fromToml) live)
  | .err e => (s, .err e)
  | .panic => (s, .panic)

end ArtifactStore

/-! ### The live keys -/

theorem picked_sublist (mask i : ℕ) (names : List Str) : (picked mask i names).Sublist names := by
  induction names generalizing i with
  | nil => exact .slnil
  | cons name names ih =>
    unfold picked
    split
    · exact (ih (i + 1)).cons_cons name
    · exact (ih (i + 1)).cons name

theorem and_two_pow_ne_zero {mask i : ℕ} : mask &&& 2 ^ i ≠ 0 ↔ mask.testBit i = true := by
  rw [Nat.and_two_pow]
  cases mask.testBit i <;> simp

/-- A mask and its double pick the same, one bit further up. -/
theorem picked_double {mask mask' i : ℕ} {names : List Str}
    (h : ∀ j ≥ i, mask'.testBit (j + 1) = mask.testBit j) :
    picked mask' (i + 1) names = picked mask i names := by
  induction names generalizing i with
  | nil => rfl
  | cons name names ih =>
    unfold picked
    rw [ih fun j hj => h j (by omega)]
    simp only [and_two_pow_ne_zero, h i le_rfl]

/-- Every selection is picked by some mask. -/
theorem exists_picked {selection names : List Str} (h : selection.Sublist names) :
    ∃ mask < 2 ^ names.length, picked mask 0 names = selection := by
  induction h with
  | slnil => exact ⟨0, by simp, rfl⟩
  | @cons selection names name _ ih =>
    obtain ⟨mask, hlt, hpick⟩ := ih
    refine ⟨2 * mask, by rw [List.length_cons, pow_succ]; omega, ?_⟩
    have hbit : ¬ 2 * mask &&& 2 ^ 0 ≠ 0 := by
      rw [and_two_pow_ne_zero, Nat.testBit_zero, decide_eq_true_eq]
      omega
    unfold picked
    rw [if_neg hbit, ← hpick]
    exact picked_double fun j _ => by rw [Nat.testBit_succ, Nat.mul_div_cancel_left _ (by decide)]
  | @cons_cons selection names name _ ih =>
    obtain ⟨mask, hlt, hpick⟩ := ih
    refine ⟨2 * mask + 1, by rw [List.length_cons, pow_succ]; omega, ?_⟩
    have hbit : (2 * mask + 1) &&& 2 ^ 0 ≠ 0 := by
      rw [and_two_pow_ne_zero, Nat.testBit_zero, decide_eq_true_eq]
      omega
    unfold picked
    rw [if_pos hbit, ← hpick]
    refine congrArg _ (picked_double fun j _ => ?_)
    rw [Nat.testBit_succ, show (2 * mask + 1) / 2 = mask by omega]

theorem mem_subsets {names selection : List Str} {selections : List (List Str)}
    (h : subsets names = .ok selections) : selection ∈ selections ↔ selection.Sublist names := by
  obtain ⟨count, hcount, h⟩ := Outcome.bind_eq_ok.mp h
  obtain rfl := Outcome.ok.inj h
  have hpow : count = 2 ^ names.length := by
    unfold shiftOne at hcount
    split at hcount
    · exact (Outcome.ok.inj hcount).symm
    · cases hcount
  subst hpow
  rw [List.mem_map]
  constructor
  · rintro ⟨mask, -, rfl⟩
    exact picked_sublist mask 0 names
  · intro hsub
    obtain ⟨mask, hlt, hpick⟩ := exists_picked hsub
    exact ⟨mask, List.mem_range.mpr hlt, hpick⟩

theorem mapErr_eq_ok {α ε ε' : Type} {f : ε → ε'} {x : Outcome ε α} {a : α} :
    x.mapErr f = .ok a ↔ x = .ok a := by
  cases x <;> simp [Outcome.mapErr]

/-- A key is in a collected list exactly if it is in what one of the elements gave. -/
theorem mem_collected {α : Type} {f : α → Outcome Str (List StoreKey)} {as : List α}
    {lists : List (List StoreKey)} {key : StoreKey} (h : Outcome.mapM f as = .ok lists) :
    key ∈ lists.flatten ↔ ∃ a ∈ as, ∃ keys, f a = .ok keys ∧ key ∈ keys := by
  obtain ⟨hall, hback⟩ := Outcome.mapM_eq_ok h
  rw [List.mem_flatten]
  constructor
  · rintro ⟨keys, hkeys, hkey⟩
    obtain ⟨a, ha, hf⟩ := hback keys hkeys
    exact ⟨a, ha, keys, hf, hkey⟩
  · rintro ⟨a, ha, keys, hf, hkey⟩
    obtain ⟨keys', hkeys', hf'⟩ := hall a ha
    obtain rfl := Outcome.ok.inj (hf.symm.trans hf')
    exact ⟨keys, hkeys', hkey⟩

namespace LockTree
variable {L B : Type} {tree : LockTree L B} {key : StoreKey} {live keys : List StoreKey}

theorem mem_selectionKeys {path : Str} {lock : L} {build : B} {selection : List Str}
    (h : tree.selectionKeys path lock build selection = .ok keys) : key ∈ keys ↔
      ∃ nodes, tree.predict lock build selection = .ok nodes ∧
        ∃ node ∈ nodes, ∃ own, node.keys = some own ∧ key ∈ own := by
  obtain ⟨nodes, hnodes, h⟩ := Outcome.bind_eq_ok.mp h
  obtain ⟨lists, hlists, h⟩ := Outcome.bind_eq_ok.mp h
  obtain rfl := Outcome.ok.inj h
  rw [mapErr_eq_ok] at hnodes
  have hown : ∀ node own, nodeKeys path node = .ok own ↔ node.keys = some own := by
    intro node own
    unfold nodeKeys Outcome.okOr
    cases node.keys <;> simp
  simp only [mem_collected hlists, hown, hnodes, Outcome.ok.injEq, exists_eq_left']

theorem mem_lockKeys {file : Str × Str} (h : tree.lockKeys file = .ok keys) : key ∈ keys ↔
    ∃ lock build, tree.readLock file.2 = .ok lock ∧ tree.resolveRecipe file.1 = .ok build ∧
      ∃ selection, selection.Sublist (tree.optional build) ∧
        ∃ nodes, tree.predict lock build selection = .ok nodes ∧
          ∃ node ∈ nodes, ∃ own, node.keys = some own ∧ key ∈ own := by
  obtain ⟨lock, hlock, h⟩ := Outcome.bind_eq_ok.mp h
  obtain ⟨build, hbuild, h⟩ := Outcome.bind_eq_ok.mp h
  obtain ⟨selections, hselections, h⟩ := Outcome.bind_eq_ok.mp h
  obtain ⟨lists, hlists, h⟩ := Outcome.bind_eq_ok.mp h
  obtain rfl := Outcome.ok.inj h
  rw [mapErr_eq_ok] at hbuild
  rw [mem_collected hlists]
  constructor
  · rintro ⟨selection, hsel, own, hown, hkey⟩
    exact ⟨lock, build, hlock, hbuild, selection, (mem_subsets hselections).mp hsel,
      (mem_selectionKeys hown).mp hkey⟩
  · rintro ⟨lock', build', hlock', hbuild', selection, hsel, hkey⟩
    obtain rfl := Outcome.ok.inj (hlock.symm.trans hlock')
    obtain rfl := Outcome.ok.inj (hbuild.symm.trans hbuild')
    have hmem := (mem_subsets hselections).mpr hsel
    obtain ⟨own, -, hown⟩ := (Outcome.mapM_eq_ok hlists).1 selection hmem
    exact ⟨selection, hmem, own, hown, (mem_selectionKeys hown).mpr hkey⟩

/-- The live keys are those some lock reaches. -/
theorem mem_liveArtifacts (h : tree.liveArtifacts = .ok live) : key ∈ live ↔ tree.Reaches key := by
  obtain ⟨lists, hlists, h⟩ := Outcome.bind_eq_ok.mp h
  obtain rfl := Outcome.ok.inj h
  rw [mem_collected hlists]
  constructor
  · rintro ⟨file, hfile, keys, hkeys, hkey⟩
    exact ⟨file, hfile, (mem_lockKeys hkeys).mp hkey⟩
  · rintro ⟨file, hfile, hreach⟩
    obtain ⟨keys, -, hkeys⟩ := (Outcome.mapM_eq_ok hlists).1 file hfile
    exact ⟨file, hfile, keys, hkeys, (mem_lockKeys hkeys).mpr hreach⟩

end LockTree

namespace ArtifactStore
variable {L B : Type} {fromToml : Bytes → Option StoreManifest} {toToml : StoreManifest → Bytes}
  {tree : LockTree L B} {s : ArtifactStore} {key : StoreKey} {dir dest : Dir} {nd name : Str}
  {live : List StoreKey} {slots : List (Str × Str)} {reclaim : Str × Str → Option (List Str)}
  {arts : List (StoredArtifact × Bytes)} {sources : List Source}

/-! ### What a sweep removes -/

theorem dirAt_removeDir {slot : Str × Str} :
    (s.removeDir slot).dirAt nd name = if slot = (nd, name) then none else s.dirAt nd name := by
  unfold removeDir
  cases hnode : s.nodes[slot.1]? with
  | none =>
    show s.dirAt nd name = _
    by_cases hslot : slot = (nd, name)
    · rw [if_pos hslot]
      unfold dirAt
      rw [show nd = slot.1 by rw [hslot], hnode]
      rfl
    · rw [if_neg hslot]
  | some node =>
    show ((s.nodes.insert slot.1 (node.erase slot.2))[nd]?).bind _ = _
    unfold dirAt
    rw [getElem?_insert]
    by_cases hnd : slot.1 = nd
    · subst hnd
      rw [if_pos rfl, hnode]
      show (node.erase slot.2)[name]? = if _ then none else node[name]?
      rw [ExtTreeMap.getElem?_erase]
      by_cases hname : slot.2 = name
      · subst hname
        rw [if_pos (by simp), if_pos rfl]
      · rw [if_neg (by simpa using hname), if_neg fun h => hname (congrArg Prod.snd h)]
    · rw [if_neg hnd, if_neg fun h => hnd (congrArg Prod.fst h)]
      rfl

theorem dirAt_damage {nd' name' : Str} {f : Dir → Dir} (h : (nd', name') ≠ (nd, name)) :
    (s.damage nd' name' f).dirAt nd name = s.dirAt nd name := by
  unfold damage
  cases s.dirAt nd' name' with
  | none => rfl
  | some dir => rw [dirAt_setDir, if_neg fun heq => h (Prod.ext heq.1 heq.2)]

/-- However the removals end, they leave the directories that are none of theirs. -/
theorem dirAt_reclaimAll (h : (nd, name) ∉ slots) :
    (reclaimAll reclaim s slots).1.dirAt nd name = s.dirAt nd name := by
  induction slots generalizing s with
  | nil => rfl
  | cons slot slots ih =>
    rw [List.mem_cons, not_or] at h
    unfold reclaimAll
    cases reclaim slot with
    | none =>
      show (reclaimAll reclaim (s.removeDir slot) slots).1.dirAt nd name = _
      rw [ih h.2, dirAt_removeDir, if_neg (Ne.symm h.1)]
    | some lost => exact dirAt_damage (Ne.symm h.1)

/-- Removals that all succeed leave none of their directories. -/
theorem dirAt_reclaimAll_ok (hok : (reclaimAll reclaim s slots).2 = .ok ()) :
    (reclaimAll reclaim s slots).1.dirAt nd name =
      if (nd, name) ∈ slots then none else s.dirAt nd name := by
  induction slots generalizing s with
  | nil => rfl
  | cons slot slots ih =>
    unfold reclaimAll at hok ⊢
    cases hreclaim : reclaim slot with
    | some lost =>
      rw [hreclaim] at hok
      cases hok
    | none =>
      rw [hreclaim] at hok
      show (reclaimAll reclaim (s.removeDir slot) slots).1.dirAt nd name = _
      rw [ih hok, dirAt_removeDir]
      simp only [List.mem_cons, eq_comm (a := slot)]
      split_ifs <;> simp_all

theorem mem_deadArtifacts : (nd, name) ∈ deadArtifacts (s.entries fromToml) live ↔
    ∃ dir, s.dirAt nd name = some dir ∧ name.head? ≠ some '.' ∧
      ∀ key ∈ keyOf fromToml name dir, key ∉ live := by
  unfold deadArtifacts
  simp only [List.mem_map, List.mem_filter, mem_entries, Prod.mk.injEq]
  constructor
  · rintro ⟨e, ⟨⟨dir, hdir, hname, hkey⟩, hdead⟩, rfl, rfl⟩
    refine ⟨dir, hdir, hname, fun key hk hlive => ?_⟩
    rw [hkey, Option.mem_def.mp hk] at hdead
    simp [hlive] at hdead
  · rintro ⟨dir, hdir, hname, hdead⟩
    refine ⟨⟨nd, name, keyOf fromToml name dir⟩, ⟨⟨dir, hdir, hname, rfl⟩, ?_⟩, rfl, rfl⟩
    cases hkey : keyOf fromToml name dir with
    | none => rfl
    | some key => simpa using hdead key hkey

/-- A sweep leaves what a live key's directory holds, whatever becomes of the sweep. -/
theorem clean_keeps {dryRun : Bool} (hreach : tree.Reaches key) (hdir : s.entryDir key = some dir)
    (hholds : Holds fromToml dir key arts) :
    (s.cleanArtifacts fromToml tree dryRun reclaim).1.entryDir key = some dir := by
  unfold cleanArtifacts
  cases hlive : tree.liveArtifacts with
  | err e => exact hdir
  | panic => exact hdir
  | ok live =>
    cases dryRun with
    | true => exact hdir
    | false =>
      refine (dirAt_reclaimAll fun hdead => ?_).trans hdir
      obtain ⟨dir', hdir', -, hnot⟩ := mem_deadArtifacts.mp hdead
      obtain rfl := Option.some.inj (hdir.symm.trans hdir')
      exact hnot key hholds.keyOf ((LockTree.mem_liveArtifacts hlive).mpr hreach)

theorem reclaimAll_ok (h : ∀ slot, reclaim slot = none) : (reclaimAll reclaim s slots).2 = .ok () := by
  induction slots generalizing s with
  | nil => rfl
  | cons slot slots ih =>
    unfold reclaimAll
    rw [h slot]
    exact ih

/-- A config tree with one lock, whose board has one optional tree. -/
def oneLock : LockTree Unit Unit where
  lockFiles := [("turing-rk1/forky".toList, "locks/turing-rk1/forky.toml".toList)]
  readLock _ := .ok ()
  resolveRecipe _ := .ok ()
  optional _ := ["rga".toList]
  predict _ _ selection := .ok (⟨"kernel".toList, some [kernelKey]⟩ ::
    selection.map fun name => ⟨name, some [⟨name, "cd".toList⟩]⟩)

theorem oneLock_reaches : oneLock.Reaches kernelKey :=
  ⟨_, List.mem_singleton_self _, (), (), rfl, rfl, [], List.nil_sublist _, _, rfl, _,
    List.mem_singleton_self _, _, rfl, List.mem_singleton_self _⟩

def kernelStore (toToml : StoreManifest → Bytes) : ArtifactStore :=
  empty.setDir "kernel".toList "ab".toList
    (entryFiles toToml kernelKey [(⟨"deb".toList, "a.deb".toList⟩, [1])])

theorem kernel_storable : Storable [(⟨"deb".toList, "a.deb".toList⟩, [1])] := by
  unfold Storable
  decide

theorem dirAt_kernelStore : (kernelStore toToml).dirAt "kernel".toList "ab".toList =
    some (entryFiles toToml kernelKey [(⟨"deb".toList, "a.deb".toList⟩, [1])]) := by
  unfold kernelStore
  rw [dirAt_setDir, if_pos ⟨rfl, rfl⟩]

/-- What happens to a store that is swept. -/
inductive CacheOp (L B : Type) where
  | store (op : StoreOp)
  | clean (tree : LockTree L B) (dryRun : Bool) (reclaim : Str × Str → Option (List Str))

def cacheStep (fromToml : Bytes → Option StoreManifest) (toToml : StoreManifest → Bytes)
    (s : ArtifactStore) : CacheOp L B → ArtifactStore
  | .store op => s.step toToml op
  | .clean tree dryRun reclaim => (s.cleanArtifacts fromToml tree dryRun reclaim).1

/-- No damage to the key's entry, and no sweep without a lock that reaches the key. -/
def Spares (key : StoreKey) (_ : ArtifactStore) : CacheOp L B → Prop
  | .store (.put _ _) | .store (.restore _ _) => True
  | .store (.lose nodeDir name _) | .store (.truncate nodeDir name _ _) => (nodeDir, name) ≠ key.slot
  | .clean tree _ _ => tree.Reaches key

/-- A put never writes over an entry with a manifest. -/
theorem entryDir_put {key' : StoreKey} (hdir : s.entryDir key = some dir)
    (hman : dir.contains manifestName = true) :
    (s.put toToml key' sources).1.entryDir key = some dir := by
  rcases put_cases toToml s key' sources with ⟨-, heq⟩ | ⟨hhas, arts, -, heq⟩ | ⟨-, heq, -⟩
  · rw [heq]
    exact hdir
  · rw [heq]
    show dirAt _ _ _ = _
    rw [dirAt_setDir, if_neg]
    · exact hdir
    · rintro ⟨hnd, hname⟩
      have hsame : s.entryDir key' = some dir := by
        show s.dirAt (nodeDir key'.node) key'.signature = _
        rw [hnd, hname]
        exact hdir
      rw [has_iff_dir.mpr ⟨dir, hsame, hman⟩] at hhas
      cases hhas
  · rw [heq]
    exact hdir

/-- One step keeps a directory that is spared. -/
theorem entryDir_cacheStep {op : CacheOp L B} (hop : Spares key s op)
    (hdir : s.entryDir key = some dir) (hholds : Holds fromToml dir key arts) :
    (s.cacheStep fromToml toToml op).entryDir key = some dir := by
  cases op with
  | clean tree dryRun reclaim => exact clean_keeps hop hdir hholds
  | store op =>
    cases op with
    | put key' sources => exact entryDir_put hdir hholds.contains
    | restore key' dest => exact hdir
    | lose nodeDir name file => exact (dirAt_damage hop).trans hdir
    | truncate nodeDir name file n => exact (dirAt_damage hop).trans hdir

end ArtifactStore

end Boot2Deb.Engine
