import Mathlib
import Boot2Deb.Engine.Userspace

/-!
# The userspace stage over its history

A `.deb` is staged by one run and found by another. As long as no run skips or tops up a compile
over files that were made for other inputs, whatever a run returns was compiled for its own output
signatures, and whatever the store keeps under a signature was compiled for that one.
-/

namespace Boot2Deb.Engine
open Rust Std

/-! ### Staged files -/

/-- A file the package's prefixes select. -/
def Package.owns (p : Package) (file : Str) : Bool :=
  ".deb".toList.isSuffixOf file && p.debPrefixes.any fun pre => pre.isPrefixOf file

variable {dir dest : Dir} {file : Str} {bytes : Bytes} {p q : Package}

theorem mem_selectDebs : file ∈ selectDebs (debNames dir) p.debPrefixes ↔
    dir[file]?.isSome ∧ p.owns file = true := by
  unfold selectDebs debNames Package.owns
  rw [List.mem_filter, List.mem_filter, ExtTreeMap.mem_keys, ← ExtTreeMap.isSome_getElem?_iff_mem,
    Bool.and_eq_true, and_assoc]

theorem getElem?_purge (h : (purgeStageDebs dir p.debPrefixes)[file]? = some bytes) :
    dir[file]? = some bytes ∧ p.owns file = false := by
  unfold purgeStageDebs at h
  rw [getElem?_foldl_erase] at h
  split_ifs at h with hmem
  refine ⟨h, Bool.eq_false_iff.mpr fun howns => hmem ?_⟩
  exact mem_selectDebs.mpr ⟨by rw [h]; rfl, howns⟩

theorem getElem?_dropped {dropped : List Deb}
    (h : (dropped.foldl (fun dir deb => dir.insert deb.file deb.bytes) dir)[file]? = some bytes) :
    (∃ deb ∈ dropped, deb.file = file ∧ deb.bytes = bytes) ∨ dir[file]? = some bytes := by
  rw [getElem?_foldl_insert_map, Option.or_eq_some_iff] at h
  rcases h with h | ⟨-, h⟩
  · obtain ⟨deb, hdeb, rfl⟩ := Option.map_eq_some_iff.mp h
    obtain ⟨hmem, hfile⟩ := mem_of_firstWith hdeb
    exact Or.inl ⟨deb, List.mem_reverse.mp hmem, hfile, rfl⟩
  · exact Or.inr h

theorem getElem?_copyOut {artifacts : List StoredArtifact}
    (h : (ArtifactStore.copyOut dir artifacts dest)[file]? = some bytes) :
    dir[file]? = some bytes ∨ dest[file]? = some bytes := by
  induction artifacts generalizing dest with
  | nil => exact Or.inr h
  | cons a artifacts ih =>
    rcases ih h with h | h
    · exact Or.inl h
    · cases ha : dir[a.file]? with
      | none =>
        rw [ha] at h
        exact Or.inr h
      | some copied =>
        rw [ha] at h
        replace h : (dest.insert a.file copied)[file]? = some bytes := h
        rw [getElem?_insert_ite] at h
        split_ifs at h with hfile
        · obtain rfl := Option.some.inj h
          exact Or.inl (hfile ▸ ha)
        · exact Or.inr h

/-- What a restore leaves is in the entry's directory or was there before. -/
theorem getElem?_restore {fromToml : Bytes → Option StoreManifest} {store : ArtifactStore}
    {key : StoreKey} {artifacts : List StoredArtifact} {out : Dir}
    (h : store.restore fromToml key dest = some (artifacts, out))
    (hfile : out[file]? = some bytes) :
    (∃ dir, store.dirAt (nodeDir key.node) key.signature = some dir ∧ dir[file]? = some bytes) ∨
      dest[file]? = some bytes := by
  unfold ArtifactStore.restore at h
  obtain ⟨dir, hdir, h⟩ := Option.bind_eq_some_iff.mp h
  obtain ⟨text, -, h⟩ := Option.bind_eq_some_iff.mp h
  obtain ⟨man, -, h⟩ := Option.bind_eq_some_iff.mp h
  split_ifs at h
  obtain ⟨rfl, rfl⟩ := Prod.mk.inj (Option.some.inj h)
  rcases getElem?_copyOut hfile with h | h
  · exact Or.inl ⟨dir, hdir, h⟩
  · exact Or.inr h

theorem owns_ne_manifestName (h : p.owns file = true) : file ≠ manifestName := by
  rintro rfl
  rw [Package.owns, Bool.and_eq_true] at h
  exact absurd h.1 (by decide)

namespace UserspaceState

variable (sha256Hex : Bytes → Str) (toToml : StoreManifest → Bytes)
  (fromToml : Bytes → Option StoreManifest) (run : UserspaceRun)

/-! ### Where a file comes from -/

/-- The file was compiled by a run whose own inputs have the output signature. -/
def MadeFor (s : UserspaceState) (signature file : Str) (bytes : Bytes) : Prop :=
  ∃ c ∈ s.compiles, (c.package.outputSignature sha256Hex c.inputs).hex = signature ∧
    c.deb.file = file ∧ c.deb.bytes = bytes

/-- Every file stored under a signature was made for it. -/
def StoreSound (s : UserspaceState) : Prop :=
  ∀ node signature dir, s.store.dirAt node signature = some dir → ∀ file bytes,
    dir[file]? = some bytes → file ≠ manifestName →
    s.MadeFor sha256Hex signature file bytes

/-- The output signature of a package in the run. -/
def signatureOf (p : Package) : Str := (p.outputSignature sha256Hex run.inputs).hex

/-- Where the package misses the store with a fresh tree, its staged files were made for its output
signature. -/
def PackageMeets (s : UserspaceState) (p : Package) (cached : Bool) : Prop :=
  cached = false → s.isFresh sha256Hex run p = true → ∀ file bytes, s.stage[file]? = some bytes →
    p.owns file = true → s.MadeFor sha256Hex (signatureOf sha256Hex run p) file bytes

/-- The condition at every package the loop comes to. -/
def LoopMeets (rooted : Bool) (s : UserspaceState) : List (Package × Bool) → Prop
  | [] => True
  | (p, cached) :: rest => s.PackageMeets sha256Hex run p cached ∧
      LoopMeets rooted (packageStep sha256Hex toToml fromToml run rooted s p cached).1 rest

/-- The condition at every package of a run. -/
def RunMeets (s : UserspaceState) (run : UserspaceRun) : Prop :=
  let packages := s.probed sha256Hex run
  LoopMeets sha256Hex toToml fromToml run (!(run.useStore && packages.all (·.2))) s packages

/-- The state a run leaves. -/
def afterRun (s : UserspaceState) (run : UserspaceRun) : UserspaceState :=
  (buildUserspace sha256Hex toToml fromToml run s).1

/-- Nothing stored, staged or fetched yet. -/
def initial : UserspaceState := ⟨⟨∅⟩, ∅, fun _ => ⟨false, none⟩, []⟩

variable {sha256Hex toToml fromToml run} {s s' t : UserspaceState} {signature : Str}

theorem MadeFor.mono (h : s.MadeFor sha256Hex signature file bytes)
    (hsub : s.compiles ⊆ t.compiles) : t.MadeFor sha256Hex signature file bytes := by
  obtain ⟨c, hc, hmade⟩ := h
  exact ⟨c, hsub hc, hmade⟩

theorem MadeFor.fileName_eq (h : s.MadeFor sha256Hex signature file bytes) :
    fileName file = some file := by
  obtain ⟨c, -, -, rfl, -⟩ := h
  exact c.deb.isName

theorem StoreSound.of_store_eq (hs : s.StoreSound sha256Hex) (hstore : t.store = s.store)
    (hsub : s.compiles ⊆ t.compiles) : t.StoreSound sha256Hex := by
  intro node signature dir hdir file bytes hfile hname
  rw [hstore] at hdir
  exact (hs node signature dir hdir file bytes hfile hname).mono hsub

/-! ### One package -/

/-- What a turn of the loop leaves staged: a file made for the package, or one that was there before
and is none of its own. -/
structure Turn (sha256Hex : Bytes → Str) (run : UserspaceRun) (p : Package)
    (s t : UserspaceState) : Prop where
  compiles_subset : s.compiles ⊆ t.compiles
  staged : ∀ file bytes, t.stage[file]? = some bytes → ".deb".toList.isSuffixOf file = true →
    t.MadeFor sha256Hex (signatureOf sha256Hex run p) file bytes ∨
      s.stage[file]? = some bytes ∧ p.owns file = false

/-- A turn that starts from a purged directory. -/
theorem Turn.of_purged
    (h : Turn sha256Hex run p { s with stage := purgeStageDebs s.stage p.debPrefixes } t) :
    Turn sha256Hex run p s t := by
  refine ⟨h.compiles_subset, fun file bytes hfile hdeb => ?_⟩
  rcases h.staged file bytes hfile hdeb with hmade | ⟨hold, howns⟩
  · exact Or.inl hmade
  · exact Or.inr ⟨(getElem?_purge hold).1, howns⟩

theorem madeFor_compile {deb : Deb} (h : deb ∈ (run.outcome p).dropped) :
    (s.compile run p).MadeFor sha256Hex (signatureOf sha256Hex run p) deb.file deb.bytes :=
  ⟨⟨run.inputs, p, deb⟩, List.mem_append_right _ (List.mem_map_of_mem h), rfl, rfl, rfl⟩

/-- A compile over files that are the package's only where they were made for it. -/
theorem turn_compile (h : ∀ file bytes, s.stage[file]? = some bytes → p.owns file = true →
    s.MadeFor sha256Hex (signatureOf sha256Hex run p) file bytes) :
    Turn sha256Hex run p s (s.compile run p) := by
  have hsub : s.compiles ⊆ (s.compile run p).compiles := List.subset_append_left _ _
  refine ⟨hsub, fun file bytes hfile _ => ?_⟩
  rcases getElem?_dropped hfile with ⟨deb, hdeb, rfl, rfl⟩ | hold
  · exact Or.inl (madeFor_compile hdeb)
  · cases howns : p.owns file with
    | true => exact Or.inl ((h file bytes hold howns).mono hsub)
    | false => exact Or.inr ⟨hold, rfl⟩

/-- `build_one` where what is staged over a fresh tree was made for the package. -/
theorem turn_buildOne (h : s.isFresh sha256Hex run p = true → ∀ file bytes,
    s.stage[file]? = some bytes → p.owns file = true →
    s.MadeFor sha256Hex (signatureOf sha256Hex run p) file bytes) :
    (s.buildOne sha256Hex run p).1.store = s.store ∧
      Turn sha256Hex run p s (s.buildOne sha256Hex run p).1 := by
  unfold buildOne
  cases hfresh : s.isFresh sha256Hex run p with
  | true =>
    have hmade := h hfresh
    cases hstaged : packageStaged s.stage p with
    | true =>
      -- The compile is skipped.
      refine ⟨rfl, List.Subset.refl _, fun file bytes hfile _ => ?_⟩
      cases howns : p.owns file with
      | true => exact Or.inl (hmade file bytes hfile howns)
      | false => exact Or.inr ⟨hfile, rfl⟩
    | false =>
      -- The tree is compiled again over what is staged.
      exact ⟨rfl, turn_compile hmade⟩
  | false =>
    have hpurged : Turn sha256Hex run p s (s.refresh sha256Hex run p) :=
      ⟨List.Subset.refl _, fun file bytes hfile _ => Or.inr (getElem?_purge hfile)⟩
    cases hrefreshed : (run.outcome p).refreshed with
    | true =>
      refine ⟨rfl, Turn.of_purged ?_⟩
      have hcompile : Turn sha256Hex run p (s.refresh sha256Hex run p)
          ((s.refresh sha256Hex run p).compile run p) := by
        refine turn_compile fun file bytes hfile howns => ?_
        rw [(getElem?_purge hfile).2] at howns
        cases howns
      exact ⟨hcompile.compiles_subset, hcompile.staged⟩
    | false => exact ⟨rfl, hpurged⟩

/-- What `put` copies is staged, where the staged files go by their names. -/
theorem getElem?_entryFiles {stage : Dir} {key : StoreKey} {arts : List (StoredArtifact × Bytes)}
    (harts : ArtifactStore.Reads (sources stage p) arts)
    (hnames : ∀ file bytes, stage[file]? = some bytes → p.owns file = true →
      fileName file = some file)
    (h : (ArtifactStore.entryFiles toToml key arts)[file]? = some bytes)
    (hname : file ≠ manifestName) : stage[file]? = some bytes ∧ p.owns file = true := by
  unfold ArtifactStore.entryFiles at h
  rw [getElem?_insert_ite, if_neg hname.symm] at h
  obtain ⟨a, ha, rfl, rfl⟩ : ∃ a ∈ arts, a.1.file = file ∧ a.2 = bytes := by
    unfold ArtifactStore.addFiles at h
    rw [getElem?_foldl_insert_map, Option.or_eq_some_iff] at h
    rcases h with h | ⟨-, h⟩
    · obtain ⟨a, ha, rfl⟩ := Option.map_eq_some_iff.mp h
      obtain ⟨hmem, hfile⟩ := mem_of_firstWith ha
      exact ⟨a, List.mem_reverse.mp hmem, hfile, rfl⟩
    · rw [ExtTreeMap.getElem?_empty] at h
      cases h
  obtain ⟨src, hsrc, hread⟩ : ∃ src ∈ sources stage p, ArtifactStore.read src = some a := by
    have hmem : some a ∈ (sources stage p).map ArtifactStore.read :=
      harts ▸ List.mem_map_of_mem ha
    exact List.mem_map.mp hmem
  obtain ⟨name, hsel, rfl⟩ := List.mem_map.mp hsrc
  obtain ⟨base, hbase, hread⟩ := Option.bind_eq_some_iff.mp hread
  obtain ⟨copied, hcopied, hread⟩ := Option.bind_eq_some_iff.mp hread
  obtain rfl := Option.some.inj hread
  have howns := (mem_selectDebs.mp hsel).2
  obtain rfl : name = base :=
    Option.some.inj ((hnames name copied hcopied howns).symm.trans hbase)
  exact ⟨hcopied, howns⟩

/-- What is staged for the package goes into the store under its own signature. -/
theorem storeSound_storePackage (hs : s.StoreSound sha256Hex)
    (h : ∀ file bytes, s.stage[file]? = some bytes → p.owns file = true →
      s.MadeFor sha256Hex (signatureOf sha256Hex run p) file bytes) :
    (s.storePackage sha256Hex toToml run p).1.StoreSound sha256Hex := by
  have hput : (s.storePackage sha256Hex toToml run p).1.store =
      (s.store.put toToml (p.storeKey sha256Hex run.inputs) (sources s.stage p)).1 := rfl
  rcases ArtifactStore.put_cases toToml s.store (p.storeKey sha256Hex run.inputs)
      (sources s.stage p) with ⟨-, heq⟩ | ⟨-, arts, harts, heq⟩ | ⟨-, heq, -⟩
  · exact hs.of_store_eq (by rw [hput, heq]) (List.Subset.refl _)
  · intro node signature dir hdir file bytes hfile hname
    rw [hput, heq, ArtifactStore.dirAt_setDir] at hdir
    split_ifs at hdir with hslot
    · obtain ⟨-, rfl⟩ := hslot
      obtain rfl := Option.some.inj hdir
      obtain ⟨hstaged, howns⟩ := getElem?_entryFiles harts
        (fun file bytes hfile howns => (h file bytes hfile howns).fileName_eq) hfile hname
      exact h file bytes hstaged howns
    · exact hs node signature dir hdir file bytes hfile hname
  · exact hs.of_store_eq (by rw [hput, heq]) (List.Subset.refl _)

/-- A turn leaves the package's own files made for it. -/
theorem Turn.madeFor (h : Turn sha256Hex run p s t) (hfile : t.stage[file]? = some bytes)
    (howns : p.owns file = true) :
    t.MadeFor sha256Hex (signatureOf sha256Hex run p) file bytes := by
  have hdeb : ".deb".toList.isSuffixOf file = true := (Bool.and_eq_true_iff.mp howns).1
  rcases h.staged file bytes hfile hdeb with hmade | ⟨-, hnot⟩
  · exact hmade
  · rw [howns] at hnot
    cases hnot

theorem buildPackage_sound (hs : s.StoreSound sha256Hex)
    (h : s.isFresh sha256Hex run p = true → ∀ file bytes, s.stage[file]? = some bytes →
      p.owns file = true → s.MadeFor sha256Hex (signatureOf sha256Hex run p) file bytes) :
    (s.buildPackage sha256Hex toToml run p).1.StoreSound sha256Hex ∧
      Turn sha256Hex run p s (s.buildPackage sha256Hex toToml run p).1 := by
  obtain ⟨hstore, hturn⟩ := turn_buildOne h
  have hbuilt := hs.of_store_eq hstore hturn.compiles_subset
  unfold buildPackage
  rcases hone : s.buildOne sha256Hex run p with ⟨t, out⟩
  rw [hone] at hturn hbuilt
  cases out with
  | ok u =>
    cases huse : run.useStore with
    | false => exact ⟨hbuilt, hturn⟩
    | true =>
      refine ⟨storeSound_storePackage hbuilt fun file bytes hfile howns => ?_, ?_⟩
      · exact hturn.madeFor hfile howns
      · exact ⟨hturn.compiles_subset, hturn.staged⟩
  | err e => exact ⟨hbuilt, hturn⟩
  | panic => exact ⟨hbuilt, hturn⟩

/-- One turn of the loop under the condition. -/
theorem packageStep_sound {rooted cached : Bool} (hs : s.StoreSound sha256Hex)
    (hmeet : s.PackageMeets sha256Hex run p cached) :
    (packageStep sha256Hex toToml fromToml run rooted s p cached).1.StoreSound sha256Hex ∧
      Turn sha256Hex run p s (packageStep sha256Hex toToml fromToml run rooted s p cached).1 := by
  unfold packageStep
  cases cached with
  | false => exact buildPackage_sound hs (hmeet rfl)
  | true =>
    rw [if_pos rfl]
    cases hrestored : s.restored sha256Hex fromToml run p with
    | some stage =>
      -- A restored file was stored under the package's signature.
      refine ⟨hs.of_store_eq rfl (List.Subset.refl _), List.Subset.refl _, ?_⟩
      intro file bytes hfile hdeb
      obtain ⟨⟨artifacts, out⟩, hrestore, rfl⟩ := Option.map_eq_some_iff.mp hrestored
      rcases getElem?_restore hrestore hfile with ⟨dir, hdir, hstored⟩ | hold
      · refine Or.inl (hs _ _ dir hdir file bytes hstored ?_)
        rintro rfl
        exact absurd hdeb (by decide)
      · exact Or.inr (getElem?_purge hold)
    | none =>
      have hpurged : StoreSound sha256Hex { s with stage := purgeStageDebs s.stage p.debPrefixes } :=
        hs.of_store_eq rfl (List.Subset.refl _)
      cases rooted with
      | false =>
        refine ⟨hpurged, Turn.of_purged ⟨List.Subset.refl _, fun file bytes hfile _ => ?_⟩⟩
        exact Or.inr ⟨hfile, (getElem?_purge hfile).2⟩
      | true =>
        obtain ⟨hsound, hturn⟩ := @buildPackage_sound _ _ toToml _ _ hpurged
          (fun _ file bytes hfile howns => by
            rw [(getElem?_purge hfile).2] at howns
            cases howns)
        exact ⟨hsound, Turn.of_purged hturn⟩

/-! ### A run -/

/-- The staged files of the packages so far were made for one of them. -/
def StagedFor (sha256Hex : Bytes → Str) (run : UserspaceRun) (done : List Package)
    (s : UserspaceState) : Prop :=
  ∀ file bytes, s.stage[file]? = some bytes → (∃ q ∈ done, q.owns file = true) →
    ∃ q ∈ done, s.MadeFor sha256Hex (signatureOf sha256Hex run q) file bytes

theorem StagedFor.turn {done : List Package} (h : s.StagedFor sha256Hex run done)
    (hturn : Turn sha256Hex run p s t) : t.StagedFor sha256Hex run (done ++ [p]) := by
  rintro file bytes hfile ⟨q, hq, howns⟩
  have hdeb : ".deb".toList.isSuffixOf file = true := (Bool.and_eq_true_iff.mp howns).1
  rcases hturn.staged file bytes hfile hdeb with hmade | ⟨hold, hnot⟩
  · exact ⟨p, List.mem_append_right _ (List.mem_singleton_self p), hmade⟩
  · rcases List.mem_append.mp hq with hq | hq
    · obtain ⟨q', hq', hmade⟩ := h file bytes hold ⟨q, hq, howns⟩
      exact ⟨q', List.mem_append_left _ hq', hmade.mono hturn.compiles_subset⟩
    · rw [List.mem_singleton.mp hq, hnot] at howns
      cases howns

/-- The loop under the condition. -/
theorem packageLoop_sound {rooted : Bool} {packages : List (Package × Bool)} {done : List Package}
    (hs : s.StoreSound sha256Hex) (hstaged : s.StagedFor sha256Hex run done)
    (hmeet : LoopMeets sha256Hex toToml fromToml run rooted s packages) :
    (packageLoop sha256Hex toToml fromToml run rooted s packages).1.StoreSound sha256Hex ∧
      ((packageLoop sha256Hex toToml fromToml run rooted s packages).2 = .ok () →
        (packageLoop sha256Hex toToml fromToml run rooted s packages).1.StagedFor sha256Hex run
          (done ++ packages.map Prod.fst)) := by
  induction packages generalizing s done with
  | nil =>
    refine ⟨hs, fun _ => ?_⟩
    rw [List.map_nil, List.append_nil]
    exact hstaged
  | cons head rest ih =>
    obtain ⟨p, cached⟩ := head
    obtain ⟨hp, hrest⟩ := hmeet
    obtain ⟨hsound, hturn⟩ := @packageStep_sound _ _ toToml
      fromToml _ _ rooted _ hs hp
    unfold packageLoop
    rcases hstep : packageStep sha256Hex toToml fromToml run rooted s p cached with ⟨t, out⟩
    rw [hstep] at hsound hturn hrest
    cases out with
    | ok u =>
      have hnext := ih hsound (hstaged.turn hturn) hrest
      rw [List.append_assoc] at hnext
      exact hnext
    | err e => exact ⟨hsound, nofun⟩
    | panic => exact ⟨hsound, nofun⟩

theorem mem_collectDebs {packages : List Package} {deb : Str × Bytes}
    (h : deb ∈ collectDebs dir packages) :
    dir[deb.1]? = some deb.2 ∧ ∃ p ∈ packages, p.owns deb.1 = true := by
  unfold collectDebs at h
  obtain ⟨name, hname, hdeb⟩ := List.mem_filterMap.mp h
  obtain ⟨bytes, hbytes, rfl⟩ := Option.map_eq_some_iff.mp hdeb
  obtain ⟨p, hp, hsel⟩ := List.mem_flatMap.mp (List.mem_eraseDups.mp hname)
  exact ⟨hbytes, p, hp, (mem_selectDebs.mp hsel).2⟩

/-- One run under the condition. -/
theorem buildUserspace_sound (hs : s.StoreSound sha256Hex)
    (hmeet : s.RunMeets sha256Hex toToml fromToml run) :
    (s.afterRun sha256Hex toToml fromToml run).StoreSound sha256Hex ∧
      ∀ debs, (buildUserspace sha256Hex toToml fromToml run s).2 = .ok debs → ∀ deb ∈ debs,
        ∃ p ∈ run.inputs.packages, (s.afterRun sha256Hex toToml fromToml run).MadeFor sha256Hex
          (signatureOf sha256Hex run p) deb.1 deb.2 := by
  have hnone : s.StagedFor sha256Hex run [] := fun _ _ _ ⟨_, hq, _⟩ => absurd hq List.not_mem_nil
  obtain ⟨hsound, hstaged⟩ := packageLoop_sound hs hnone hmeet
  unfold afterRun buildUserspace
  cases hpins : run.inputs.pins.isEmpty with
  | true => exact ⟨hs, nofun⟩
  | false =>
    rw [if_neg Bool.false_ne_true]
    dsimp only
    split_ifs with hready
    · exact ⟨hs, nofun⟩
    · rcases hloop : packageLoop sha256Hex toToml fromToml run
        (!(run.useStore && (s.probed sha256Hex run).all (·.2))) s (s.probed sha256Hex run)
        with ⟨t, out⟩
      rw [hloop] at hsound hstaged
      cases out with
      | err e => exact ⟨hsound, nofun⟩
      | panic => exact ⟨hsound, nofun⟩
      | ok u =>
        refine ⟨hsound, fun debs hdebs deb hdeb => ?_⟩
        replace hdebs : (if (collectDebs t.stage run.inputs.packages).isEmpty = true then
          Outcome.err (EngineError.artifactMissing "userspace .debs")
          else .ok (collectDebs t.stage run.inputs.packages)) = .ok debs := hdebs
        split_ifs at hdebs
        obtain rfl := Outcome.ok.inj hdebs
        obtain ⟨hfile, p, hp, howns⟩ := mem_collectDebs hdeb
        have hall := hstaged rfl
        have hfst : (s.probed sha256Hex run).map Prod.fst = run.inputs.packages := by
          unfold probed
          rw [List.map_map]
          exact List.map_id _
        rw [List.nil_append, hfst] at hall
        exact hall deb.1 deb.2 hfile ⟨p, hp, howns⟩

theorem storeSound_initial : initial.StoreSound sha256Hex := by
  intro node signature dir hdir
  unfold initial ArtifactStore.dirAt at hdir
  rw [ExtTreeMap.getElem?_empty] at hdir
  cases hdir

/-- Over every history whose runs meet the condition, what is stored under a signature and what a
run returns was compiled by runs of these signatures. -/
theorem userspace_cache_sound (sha256Hex : Bytes → Str) (toToml : StoreManifest → Bytes)
    (fromToml : Bytes → Option StoreManifest) (runs : List UserspaceRun) (run : UserspaceRun)
    (h : AllMeet (afterRun sha256Hex toToml fromToml) (RunMeets sha256Hex toToml fromToml) initial
      (runs ++ [run])) :
    let s := runs.foldl (afterRun sha256Hex toToml fromToml) initial
    let t := s.afterRun sha256Hex toToml fromToml run
    t.StoreSound sha256Hex ∧
      ∀ debs, (buildUserspace sha256Hex toToml fromToml run s).2 = .ok debs → ∀ deb ∈ debs,
        ∃ p ∈ run.inputs.packages,
          t.MadeFor sha256Hex (signatureOf sha256Hex run p) deb.1 deb.2 := by
  have hs : StoreSound sha256Hex _ := h.append_left.invariant
    (fun s run _ hs hmeet => (buildUserspace_sound hs hmeet).1) storeSound_initial
  exact buildUserspace_sound hs h.last

instance (sha256Hex : Bytes → Str) (s : UserspaceState) (signature file : Str) (bytes : Bytes) :
    Decidable (s.MadeFor sha256Hex signature file bytes) :=
  inferInstanceAs (Decidable (∃ c ∈ s.compiles, _ ∧ _ ∧ _))

def rgaPackage (commit : Str) : Package :=
  ⟨⟨"librga".toList, ["librga2".toList], [], none, false⟩, ⟨"librga".toList, commit⟩⟩

/-- A run that compiles one tree at one commit in a suite. -/
def rga (suite commit : Str) : UserspaceRun where
  inputs := ⟨[(rgaPackage commit).tree], [(rgaPackage commit).pin], none, .pinned, suite,
    "arm64".toList, "live".toList⟩
  useStore := true
  ready := true
  outcome := fun _ => ⟨true, [⟨"librga2_1_arm64.deb".toList, asBytes suite, by decide⟩], true⟩

/-- The manifest of a package's entry, in TOML. -/
def tomlText (man : StoreManifest) : Str :=
  "node = \"".toList ++ man.node ++ "\"\nsignature = \"".toList ++ man.signature ++ "\"\n".toList ++
    man.artifacts.flatMap fun a => "\n[[artifacts]]\nrole = \"".toList ++ a.role ++
      "\"\nfile = \"".toList ++ a.file ++ "\"\n".toList

def writeRgaToml (man : StoreManifest) : Bytes := asBytes (tomlText man)

/-- A reader of the manifests of these runs. -/
def readRgaToml (bytes : Bytes) : Option StoreManifest :=
  let manifest (commit : Str) : StoreManifest :=
    ⟨"userspace:librga".toList, signatureOf hexText (rga "trixie".toList commit) (rgaPackage commit),
      [⟨"deb".toList, "librga2_1_arm64.deb".toList⟩]⟩
  [manifest "2ba1".toList, manifest "77d0".toList].find? fun man => writeRgaToml man = bytes

def trixie : UserspaceRun := rga "trixie".toList "2ba1".toList

def repinned : UserspaceRun := rga "trixie".toList "77d0".toList

def forky : UserspaceRun := rga "forky".toList "2ba1".toList

/-- A pin moved and moved back: the last run restores what the first stored. -/
theorem restored_rga :
    (buildUserspace hexText writeRgaToml readRgaToml trixie
      ([trixie, repinned].foldl (afterRun hexText writeRgaToml readRgaToml) initial)).2 =
        .ok [("librga2_1_arm64.deb".toList, asBytes "trixie".toList)] := by
  decide +kernel

theorem cache_sound_rga : ∃ p ∈ trixie.inputs.packages,
    (([trixie, repinned].foldl (afterRun hexText writeRgaToml readRgaToml) initial).afterRun hexText
      writeRgaToml readRgaToml trixie).MadeFor hexText (signatureOf hexText trixie p)
      "librga2_1_arm64.deb".toList (asBytes "trixie".toList) := by
  have hmeet : AllMeet (afterRun hexText writeRgaToml readRgaToml)
      (RunMeets hexText writeRgaToml readRgaToml) initial ([trixie, repinned] ++ [trixie]) := by
    refine ⟨⟨?_, trivial⟩, ⟨?_, trivial⟩, ⟨?_, trivial⟩, trivial⟩
    · intro _ hfresh
      exact absurd hfresh (by decide +kernel)
    · intro _ hfresh
      exact absurd hfresh (by decide +kernel)
    · intro hcached
      exact absurd hcached (by decide +kernel)
  exact (userspace_cache_sound hexText writeRgaToml readRgaToml [trixie, repinned] trixie hmeet).2 _
    restored_rga _ (List.mem_singleton_self _)

/-- A tree of one commit in two suites: the second run skips the compile and returns the file of the
first. -/
theorem suite_change_keeps_debs :
    let s := initial.afterRun hexText writeRgaToml readRgaToml trixie
    let t := s.afterRun hexText writeRgaToml readRgaToml forky
    (buildUserspace hexText writeRgaToml readRgaToml forky s).2 =
        .ok [("librga2_1_arm64.deb".toList, asBytes "trixie".toList)] ∧
      ¬ ∃ p ∈ forky.inputs.packages, t.MadeFor hexText (signatureOf hexText forky p)
        "librga2_1_arm64.deb".toList (asBytes "trixie".toList) := by
  decide +kernel

end UserspaceState

end Boot2Deb.Engine
