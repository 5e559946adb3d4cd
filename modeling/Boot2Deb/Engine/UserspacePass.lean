import Boot2Deb.Engine.UserspaceHistory
import Boot2Deb.Rust.Pattern

/-!
# The cache pass of the userspace stage

Whether a build root is staged is asked of the manifests, whether a package is compiled of its
entry as a whole. The two differ where a manifest is there and the entry is not whole, and a put
does not replace an entry that lost its manifest only. Between two packages the progress is counted
in a `u8`. `checks` is whether the profile checks for overflow.
-/

namespace Boot2Deb.Engine
open Rust Std

/-- A value of `u8` arithmetic. -/
def fitU8 (checks : Bool) (exact : ℕ) : Outcome EngineError ℕ :=
  if exact < 256 then .ok exact else if checks then .panic else .ok (exact % 256)

/-- `25 + span * (i as u8 + 1) / packages.len() as u8`. -/
def progressAt (checks : Bool) (i len : ℕ) : Outcome EngineError ℕ := do
  let next ← fitU8 checks (i % 256 + 1)
  let scaled ← fitU8 checks (65 * next)
  if len % 256 = 0 then .panic else fitU8 checks (25 + scaled / (len % 256))

/-- The progress can be counted for so many packages. -/
def ProgressFits (checks : Bool) (len : ℕ) : Prop := if checks then len ≤ 3 else len % 256 ≠ 0

/-- What the step reports of a package: that it was restored, or that it was compiled, and whether
in a build root. -/
inductive Report where
  | restored (p : Package)
  | compiled (p : Package) (rooted : Bool)
deriving DecidableEq

namespace UserspaceState

section
variable (sha256Hex : Bytes → Str) (toToml : StoreManifest → Bytes)
  (fromToml : Bytes → Option StoreManifest) (run : UserspaceRun) (checks : Bool)

/-- What a turn of the loop reports. -/
def reportsOf (rooted : Bool) (s : UserspaceState) (p : Package) (cached : Bool) : List Report :=
  let missed (s : UserspaceState) : List Report :=
    match (s.buildOne sha256Hex run p).2 with
    | .ok () => [.compiled p rooted]
    | _ => []
  if cached then
    match s.restored sha256Hex fromToml run p with
    | some _ => [.restored p]
    | none => if rooted then missed { s with stage := purgeStageDebs s.stage p.debPrefixes } else []
  else missed s

/-- The loop with its reports and its progress, from the package of an index on. -/
def passLoop (rooted : Bool) (len : ℕ) : ℕ → UserspaceState → List (Package × Bool) →
    UserspaceState × List Report × Outcome EngineError Unit
  | _, s, [] => (s, [], .ok ())
  | i, s, (p, cached) :: rest =>
    let reports := reportsOf sha256Hex fromToml run rooted s p cached
    match packageStep sha256Hex toToml fromToml run rooted s p cached with
    | (s, .ok ()) =>
      match progressAt checks i len with
      | .ok _ =>
        let (s, more, out) := passLoop rooted len (i + 1) s rest
        (s, reports ++ more, out)
      | .err e => (s, reports, .err e)
      | .panic => (s, reports, .panic)
    | (s, failed) => (s, reports, failed)

/-- Whether the build root is staged. -/
def rooted (s : UserspaceState) : Bool :=
  !(run.useStore && (s.probed sha256Hex run).all (·.2))

/-- The cache pass: the sandbox, where not every package is cached, and the loop. -/
def cachePass (s : UserspaceState) : UserspaceState × List Report × Outcome EngineError Unit :=
  if s.rooted sha256Hex run && !run.ready then (s, [], .err (.commandFailed "sandbox".toList))
  else
    let packages := s.probed sha256Hex run
    passLoop sha256Hex toToml fromToml run checks (s.rooted sha256Hex run) packages.length 0 s
      packages

/-- `build_userspace` with its progress. -/
def buildWithProgress (s : UserspaceState) :
    UserspaceState × Outcome EngineError (List (Str × Bytes)) :=
  if run.inputs.pins.isEmpty then (s, .err (.missingMediaAccelPins "userspace"))
  else match cachePass sha256Hex toToml fromToml run checks s with
    | (s, _, .ok ()) =>
      let debs := collectDebs s.stage run.inputs.packages
      (s, if debs.isEmpty then .err (.artifactMissing "userspace .debs") else .ok debs)
    | (s, _, .err e) => (s, .err e)
    | (s, _, .panic) => (s, .panic)

/-- The store holds the package's entry in full. -/
def EntryRestores (inputs : UserspaceInputs) (store : ArtifactStore) (p : Package) : Prop :=
  (store.restore fromToml (p.storeKey sha256Hex inputs) ∅).isSome = true

instance (inputs : UserspaceInputs) (store : ArtifactStore) (p : Package) :
    Decidable (EntryRestores sha256Hex fromToml inputs store p) :=
  inferInstanceAs (Decidable (_ = true))

/-- What is to be reported of a package. -/
def expected (inputs : UserspaceInputs) (useStore : Bool) (store : ArtifactStore) (p : Package) :
    Report :=
  if useStore = true ∧ EntryRestores sha256Hex fromToml inputs store p then .restored p
  else .compiled p true

/-- The pass recovers from a store, however the commands end: it does not panic, restores the
packages whose entries restore, and compiles the others in a build root, all of them where the
commands succeed. -/
structure Recovers (inputs : UserspaceInputs) (useStore : Bool) (s : UserspaceState) : Prop where
  not_panic : ∀ ready outcome,
    (buildWithProgress sha256Hex toToml fromToml ⟨inputs, useStore, ready, outcome⟩ checks s).2 ≠
      .panic
  reports : ∀ ready outcome,
    (cachePass sha256Hex toToml fromToml ⟨inputs, useStore, ready, outcome⟩ checks s).2.1 <+:
      inputs.packages.map (expected sha256Hex fromToml inputs useStore s.store)
  complete : ∀ outcome, (∀ p, (outcome p).refreshed = true ∧ (outcome p).compiled = true) →
    (cachePass sha256Hex toToml fromToml ⟨inputs, useStore, true, outcome⟩ checks s).2 =
      (inputs.packages.map (expected sha256Hex fromToml inputs useStore s.store), .ok ())

/-- An entry of which only the manifest is missing: its directory is not empty. -/
def Stranded (store : ArtifactStore) (key : StoreKey) : Prop :=
  store.has key = false ∧ ∃ dir, store.entryDir key = some dir ∧ dir.isEmpty = false

/-- What a store and a set of packages need for that. -/
structure PassFits (inputs : UserspaceInputs) (useStore : Bool) (store : ArtifactStore) : Prop where
  whole : useStore = true → (∀ p ∈ inputs.packages, store.has (p.storeKey sha256Hex inputs) = true) →
    ∀ p ∈ inputs.packages, EntryRestores sha256Hex fromToml inputs store p
  not_stranded : useStore = true → ∀ p ∈ inputs.packages, ¬Stranded store (p.storeKey sha256Hex inputs)
  progress : inputs.packages = [] ∨ ProgressFits checks inputs.packages.length

end

/-! ### The progress -/

variable {checks : Bool} {i len : ℕ}

theorem fitU8_ne_panic {n : ℕ} (h : checks = true → n < 256) : ∃ m, fitU8 checks n = .ok m := by
  unfold fitU8
  split_ifs with hn hchecks
  · exact ⟨_, rfl⟩
  · exact absurd (h hchecks) hn
  · exact ⟨_, rfl⟩

theorem fitU8_of_lt {n : ℕ} (h : n < 256) : fitU8 checks n = .ok n := if_pos h

theorem exists_progressAt (h : ProgressFits checks len) (hi : i < len) :
    ∃ n, progressAt checks i len = .ok n := by
  cases checks with
  | true =>
    have hlen : len ≤ 3 := h
    have hmod : len % 256 = len := Nat.mod_eq_of_lt (by omega)
    have hle : 65 * (i + 1) / len ≤ 65 := by
      refine Nat.div_le_of_le_mul ?_
      omega
    refine ⟨25 + 65 * (i + 1) / len, ?_⟩
    unfold progressAt
    rw [Nat.mod_eq_of_lt (show i < 256 by omega), fitU8_of_lt (by omega), Outcome.ok_bind,
      fitU8_of_lt (by omega), Outcome.ok_bind, hmod, if_neg (by omega), fitU8_of_lt (by omega)]
  | false =>
    have hlen : len % 256 ≠ 0 := h
    obtain ⟨next, hnext⟩ := @fitU8_ne_panic false (i % 256 + 1) nofun
    obtain ⟨scaled, hscaled⟩ := @fitU8_ne_panic false (65 * next) nofun
    unfold progressAt
    rw [hnext, Outcome.ok_bind, hscaled, Outcome.ok_bind, if_neg hlen]
    exact fitU8_ne_panic nofun

theorem progressFits_of_ok (hlen : len ≠ 0) (h : ∀ i < len, ∃ n, progressAt checks i len = .ok n) :
    ProgressFits checks len := by
  cases checks with
  | true =>
    show len ≤ 3
    by_contra hlt
    -- The fourth package.
    obtain ⟨n, hn⟩ := h 3 (by omega)
    exact absurd hn nofun
  | false =>
    show len % 256 ≠ 0
    intro hzero
    obtain ⟨n, hn⟩ := h 0 (by omega)
    obtain ⟨next, hnext, hn⟩ := Outcome.bind_eq_ok.mp hn
    obtain ⟨scaled, hscaled, hn⟩ := Outcome.bind_eq_ok.mp hn
    rw [if_pos hzero] at hn
    cases hn

/-! ### Storing a package -/

variable {sha256Hex : Bytes → Str} {toToml : StoreManifest → Bytes}
  {fromToml : Bytes → Option StoreManifest} {run : UserspaceRun} {s t : UserspaceState}
  {p : Package} {dir : Dir} {name : Str}

theorem isSome_fileName (h : ".deb".toList <:+ name) : (fileName name).isSome = true := by
  obtain ⟨stem, rfl⟩ := h
  obtain ⟨init, last, -, hsplit⟩ :=
    @splitOn_append_of_not_mem '/' stem ".deb".toList (by decide)
  have hne : ∀ t : Str, t.length < 4 → last ++ ".deb".toList ≠ t := by
    rintro t ht rfl
    rw [List.length_append] at ht
    exact absurd ht (by simp)
  have hkept : (!((last ++ ".deb".toList).isEmpty || last ++ ".deb".toList = ['.'])) = true := by
    simp only [Bool.not_eq_true', Bool.or_eq_false_iff, decide_eq_false_iff_not]
    exact ⟨List.isEmpty_eq_false_iff.mpr (hne [] (by decide)), hne ['.'] (by decide)⟩
  unfold fileName
  rw [hsplit, List.filter_append, List.filter_cons, if_pos hkept, List.filter_nil,
    List.getLast?_append, List.getLast?_singleton]
  show (if _ then none else some _).isSome = true
  rw [if_neg (hne ['.', '.'] (by decide))]
  rfl

/-- Staged `.deb`s can be read and have names. -/
theorem exists_stage_of_debs {names : List Str} {tmp : Dir}
    (h : ∀ n ∈ names, dir[n]?.isSome ∧ ".deb".toList <:+ n) : ∃ staged, ArtifactStore.stage
      (names.map fun n => ⟨"deb".toList, n, dir[n]?⟩) tmp = .ok staged := by
  induction names generalizing tmp with
  | nil => exact ⟨_, rfl⟩
  | cons n names ih =>
    obtain ⟨⟨bytes, hbytes⟩, hsuffix⟩ :=
      (h n List.mem_cons_self).imp_left Option.isSome_iff_exists.mp
    obtain ⟨file, hfile⟩ := Option.isSome_iff_exists.mp (isSome_fileName hsuffix)
    obtain ⟨staged, hstaged⟩ :=
      @ih (tmp.insert file bytes) fun m hm => h m (List.mem_cons_of_mem _ hm)
    refine ⟨(staged.1, ⟨"deb".toList, file⟩ :: staged.2), ?_⟩
    rw [List.map_cons, ArtifactStore.stage]
    simp only [hfile, hbytes, hstaged]
    rfl

theorem exists_stage_sources {tmp : Dir} :
    ∃ staged, ArtifactStore.stage (sources dir p) tmp = .ok staged := by
  refine exists_stage_of_debs fun n hn => ?_
  obtain ⟨hstaged, howns⟩ := mem_selectDebs.mp hn
  exact ⟨hstaged, List.isSuffixOf_iff_suffix.mp (Bool.and_eq_true_iff.mp howns).1⟩

/-- A package is stored where its entry has a manifest already or no file yet. -/
theorem storePackage_cases (sha256Hex : Bytes → Str) (toToml : StoreManifest → Bytes)
    (run : UserspaceRun) (s : UserspaceState) (p : Package) :
    let key := p.storeKey sha256Hex run.inputs
    (s.store.has key = true ∧ s.storePackage sha256Hex toToml run p = (s, .ok ())) ∨
    (s.store.has key = false ∧ ¬Stranded s.store key ∧ ∃ dir, dir.contains manifestName = true ∧
      s.storePackage sha256Hex toToml run p =
        ({ s with store := s.store.setDir (nodeDir key.node) key.signature dir }, .ok ())) ∨
    (Stranded s.store key ∧ ∃ e, s.storePackage sha256Hex toToml run p = (s, .err e)) := by
  intro key
  obtain ⟨⟨tmp, artifacts⟩, hstage⟩ := @exists_stage_sources p s.stage ∅
  cases hhas : s.store.has key with
  | true =>
    refine .inl ⟨rfl, ?_⟩
    rw [storePackage, ArtifactStore.put, if_pos hhas]
  | false =>
    right
    have hput : s.store.put toToml key (sources s.stage p) = s.store.publish key
        (tmp.insert manifestName (toToml ⟨key.node, key.signature, artifacts⟩)) := by
      rw [ArtifactStore.put, if_neg (by rw [hhas]; exact Bool.false_ne_true), hstage]
    have hmanifest : (tmp.insert manifestName
        (toToml ⟨key.node, key.signature, artifacts⟩)).contains manifestName = true :=
      ExtTreeMap.contains_insert_self
    rw [storePackage]
    simp only [show p.storeKey sha256Hex run.inputs = key from rfl, hput, ArtifactStore.publish]
    rw [ArtifactStore.has_eq] at hhas
    cases hdir : s.store.entryDir key with
    | none =>
      refine .inl ⟨trivial, ?_, _, hmanifest, rfl⟩
      rintro ⟨-, dir, h, -⟩
      rw [hdir] at h
      cases h
    | some dir =>
      rw [hdir] at hhas
      have hcontains : dir.contains manifestName = false := hhas
      cases hempty : dir.isEmpty with
      | true =>
        refine .inl ⟨trivial, ?_, _, hmanifest, by simp [hempty]⟩
        rintro ⟨-, dir', h, hne⟩
        rw [hdir, Option.some.injEq] at h
        rw [← h, hempty] at hne
        cases hne
      | false =>
        refine .inr ⟨⟨?_, dir, hdir, hempty⟩, ?_⟩
        · rw [ArtifactStore.has_eq, hdir]
          exact hcontains
        · simp only [hempty, hcontains, Bool.false_eq_true, if_false]
          exact ⟨_, rfl⟩

/-! ### How the store changes -/

variable {s₀ store : ArtifactStore} {key key' : StoreKey} {dest : Dir}

theorem has_congr (h : store.entryDir key = s₀.entryDir key) : store.has key = s₀.has key := by
  rw [ArtifactStore.has_eq, ArtifactStore.has_eq, h]

theorem stranded_congr (h : store.entryDir key = s₀.entryDir key) :
    Stranded store key ↔ Stranded s₀ key := by
  rw [Stranded, Stranded, has_congr h, h]

/-- Every entry is as it was, or has been stored where none was. -/
def Grown (s₀ store : ArtifactStore) : Prop := ∀ key, store.entryDir key = s₀.entryDir key ∨
  s₀.has key = false ∧ ¬Stranded s₀ key ∧ store.has key = true

theorem Grown.stranded_iff (h : Grown s₀ store) : Stranded store key ↔ Stranded s₀ key := by
  rcases h key with hdir | ⟨-, hs₀, hhas⟩
  · exact stranded_congr hdir
  · refine iff_of_false (fun hstore => ?_) hs₀
    rw [hstore.1] at hhas
    cases hhas

theorem Grown.storePackage (h : Grown s₀ s.store) :
    Grown s₀ (s.storePackage sha256Hex toToml run p).1.store := by
  rcases storePackage_cases sha256Hex toToml run s p with
    ⟨-, heq⟩ | ⟨hhas, hfree, dir, hmanifest, heq⟩ | ⟨-, e, heq⟩
  · rw [heq]
    exact h
  · rw [heq]
    intro key
    have hdir : (s.store.setDir (nodeDir (p.storeKey sha256Hex run.inputs).node)
        (p.storeKey sha256Hex run.inputs).signature dir).entryDir key = _ :=
      ArtifactStore.dirAt_setDir
    split_ifs at hdir with hslot
    · -- The entry that is stored, or another key with the same directory.
      have hsame : s.store.entryDir key = s.store.entryDir (p.storeKey sha256Hex run.inputs) := by
        show s.store.dirAt _ _ = s.store.dirAt _ _
        rw [hslot.1, hslot.2]
      have hkey : s.store.has key = false := by
        rwa [ArtifactStore.has_eq, hsame, ← ArtifactStore.has_eq]
      rcases h key with hold | ⟨-, -, hnew⟩
      · refine .inr ⟨(has_congr hold).symm.trans hkey, fun hstranded => hfree ?_, ?_⟩
        · obtain ⟨-, dir', hdir', hne⟩ := (stranded_congr hold).mpr hstranded
          exact ⟨hhas, dir', hsame.symm.trans hdir', hne⟩
        · rw [ArtifactStore.has_eq, hdir]
          exact hmanifest
      · rw [hkey] at hnew
        cases hnew
    · rcases h key with hold | ⟨hs₀, hfree, hnew⟩
      · exact .inl (hdir.trans hold)
      · exact .inr ⟨hs₀, hfree, (@has_congr _ (s.store.setDir _ _ dir) _ hdir).trans hnew⟩
  · rw [heq]
    exact h

/-- A restore looks at the entry only. -/
theorem isSome_restore (h : store.entryDir key = s₀.entryDir key) :
    (store.restore fromToml key dest).isSome = (s₀.restore fromToml key ∅).isSome := by
  unfold ArtifactStore.restore
  rw [h]
  cases s₀.entryDir key with
  | none => rfl
  | some dir =>
    simp only [Option.bind_eq_bind, Option.bind_some]
    cases dir[manifestName]? with
    | none => rfl
    | some text =>
      cases hman : fromToml text with
      | none => simp [hman]
      | some man =>
        simp only [Option.bind_some, hman]
        split_ifs <;> rfl

theorem EntryRestores.has {inputs : UserspaceInputs}
    (h : EntryRestores sha256Hex fromToml inputs s₀ p) :
    s₀.has (p.storeKey sha256Hex inputs) = true := by
  by_contra hhas
  rw [EntryRestores, ArtifactStore.restore_eq_none (Bool.eq_false_iff.mpr hhas)] at h
  cases h

/-! ### One package -/

theorem buildOne_store : (s.buildOne sha256Hex run p).1.store = s.store := by
  unfold buildOne
  simp only [apply_ite Prod.fst]
  split_ifs <;> rfl

theorem buildOne_ne_panic : (s.buildOne sha256Hex run p).2 ≠ .panic := by
  unfold buildOne
  simp only [apply_ite Prod.snd]
  split_ifs <;> nofun

theorem buildOne_ok (h : (run.outcome p).refreshed = true ∧ (run.outcome p).compiled = true) :
    (s.buildOne sha256Hex run p).2 = .ok () := by
  unfold buildOne
  simp only [apply_ite Prod.snd, h.1, h.2, Bool.or_true, if_true]
  split_ifs <;> rfl

/-- What is built and stored of a package: nothing panics, and it goes through where the commands
succeed and the entry can be stored. -/
theorem buildPackage_spec :
    (s.buildPackage sha256Hex toToml run p).2 ≠ .panic ∧
    (Grown s₀ s.store → Grown s₀ (s.buildPackage sha256Hex toToml run p).1.store) ∧
    ((s.buildPackage sha256Hex toToml run p).2 = .ok () →
      (s.buildOne sha256Hex run p).2 = .ok () ∧
        (run.useStore = true → ¬Stranded s.store (p.storeKey sha256Hex run.inputs))) ∧
    ((run.outcome p).refreshed = true ∧ (run.outcome p).compiled = true →
      (run.useStore = true → ¬Stranded s.store (p.storeKey sha256Hex run.inputs)) →
      (s.buildPackage sha256Hex toToml run p).2 = .ok ()) := by
  have hstore := @buildOne_store sha256Hex run s p
  have hpanic := @buildOne_ne_panic sha256Hex run s p
  have hok := @buildOne_ok sha256Hex run s p
  unfold buildPackage
  rcases hone : s.buildOne sha256Hex run p with ⟨t, out⟩
  rw [hone] at hstore hpanic hok
  rw [← hstore]
  cases out with
  | panic => exact absurd rfl hpanic
  | err e => exact ⟨nofun, fun h => h, nofun, fun h => nomatch hok h⟩
  | ok u =>
    cases huse : run.useStore with
    | false => exact ⟨nofun, fun h => h, fun _ => ⟨rfl, nofun⟩, fun _ _ => rfl⟩
    | true =>
      show (t.storePackage sha256Hex toToml run p).2 ≠ .panic ∧ _
      refine ⟨?_, fun h => h.storePackage, fun h => ⟨rfl, fun _ => ?_⟩, fun _ hfree => ?_⟩
      all_goals
        rcases storePackage_cases sha256Hex toToml run t p with
          ⟨hhas, heq⟩ | ⟨-, hkept, dir, -, heq⟩ | ⟨hstranded, e, heq⟩
      · rw [heq]
        nofun
      · rw [heq]
        nofun
      · rw [heq]
        nofun
      · rintro ⟨hnone, -⟩
        rw [hhas] at hnone
        cases hnone
      · exact hkept
      · have hstored : (t.storePackage sha256Hex toToml run p).2 = .ok () := h
        rw [heq] at hstored
        cases hstored
      · exact congrArg Prod.snd heq
      · exact congrArg Prod.snd heq
      · exact absurd hstranded (hfree rfl)

/-- What a turn of the loop can do. -/
theorem packageStep_cases {rooted cached : Bool} (s : UserspaceState) (p : Package) :
    (cached = true ∧ ∃ stage, s.restored sha256Hex fromToml run p = some stage ∧
      packageStep sha256Hex toToml fromToml run rooted s p cached =
        ({ s with stage := stage }, .ok ()) ∧
      reportsOf sha256Hex fromToml run rooted s p cached = [.restored p]) ∨
    (cached = true ∧ s.restored sha256Hex fromToml run p = none ∧ rooted = false ∧
      (packageStep sha256Hex toToml fromToml run rooted s p cached).2 = .panic ∧
      reportsOf sha256Hex fromToml run rooted s p cached = []) ∨
    ((cached = true → s.restored sha256Hex fromToml run p = none ∧ rooted = true) ∧
      ∃ t : UserspaceState, t.store = s.store ∧
        packageStep sha256Hex toToml fromToml run rooted s p cached =
          t.buildPackage sha256Hex toToml run p ∧
        ((t.buildOne sha256Hex run p).2 = .ok () →
          reportsOf sha256Hex fromToml run rooted s p cached = [.compiled p rooted]) ∧
        ((t.buildOne sha256Hex run p).2 ≠ .ok () →
          reportsOf sha256Hex fromToml run rooted s p cached = [])) := by
  have hmissed : ∀ t : UserspaceState,
      ((t.buildOne sha256Hex run p).2 = .ok () → (match (t.buildOne sha256Hex run p).2 with
        | .ok () => [Report.compiled p rooted]
        | _ => []) = [.compiled p rooted]) ∧
      ((t.buildOne sha256Hex run p).2 ≠ .ok () → (match (t.buildOne sha256Hex run p).2 with
        | .ok () => [Report.compiled p rooted]
        | _ => []) = []) := by
    intro t
    rcases (t.buildOne sha256Hex run p).2 with u | e | -
    · exact ⟨fun _ => rfl, fun h => absurd rfl h⟩
    · exact ⟨nofun, fun _ => rfl⟩
    · exact ⟨nofun, fun _ => rfl⟩
  unfold packageStep reportsOf
  cases cached with
  | false => exact .inr (.inr ⟨nofun, s, rfl, rfl, hmissed s⟩)
  | true =>
    cases hrestored : s.restored sha256Hex fromToml run p with
    | some stage => exact .inl ⟨rfl, stage, rfl, rfl, rfl⟩
    | none =>
      right
      cases rooted with
      | false => exact .inl ⟨rfl, rfl, rfl, rfl, rfl⟩
      | true =>
        exact .inr ⟨fun _ => ⟨rfl, rfl⟩, { s with stage := purgeStageDebs s.stage p.debPrefixes },
          rfl, rfl, hmissed _⟩

/-! ### The loop -/

variable {rooted : Bool} {packages : List (Package × Bool)} {inputs : UserspaceInputs}

/-- Whether the store is asked and has the packages' manifests. -/
def Probed (sha256Hex : Bytes → Str) (run : UserspaceRun) (s₀ : ArtifactStore)
    (packages : List (Package × Bool)) : Prop :=
  ∀ x ∈ packages, x.2 = (run.useStore && s₀.has (x.1.storeKey sha256Hex run.inputs))

/-- A package is restored exactly if its entry restores in the store the pass began with. -/
theorem isSome_restored {cached : Bool} (hgrown : Grown s₀ s.store)
    (hcached : cached = (run.useStore && s₀.has (p.storeKey sha256Hex run.inputs))) :
    cached = true ∧ (s.restored sha256Hex fromToml run p).isSome = true ↔
      run.useStore = true ∧ EntryRestores sha256Hex fromToml run.inputs s₀ p := by
  have hhas : s₀.has (p.storeKey sha256Hex run.inputs) = true →
      (s.restored sha256Hex fromToml run p).isSome =
        (s₀.restore fromToml (p.storeKey sha256Hex run.inputs) ∅).isSome := by
    intro hhas
    rcases hgrown (p.storeKey sha256Hex run.inputs) with hdir | ⟨hnone, -⟩
    · rw [restored, Option.isSome_map, isSome_restore hdir]
    · rw [hhas] at hnone
      cases hnone
  rw [hcached, Bool.and_eq_true]
  constructor
  · rintro ⟨⟨huse, hmanifest⟩, hrestored⟩
    exact ⟨huse, (hhas hmanifest).symm.trans hrestored⟩
  · rintro ⟨huse, hrestores⟩
    exact ⟨⟨huse, hrestores.has⟩, (hhas hrestores.has).trans hrestores⟩

theorem passLoop_cons_ok {cached : Bool} {rest : List (Package × Bool)} {n : ℕ}
    (hstep : packageStep sha256Hex toToml fromToml run rooted s p cached = (t, .ok ()))
    (hn : progressAt checks i len = .ok n) :
    passLoop sha256Hex toToml fromToml run checks rooted len i s ((p, cached) :: rest) =
      let next := passLoop sha256Hex toToml fromToml run checks rooted len (i + 1) t rest
      (next.1, reportsOf sha256Hex fromToml run rooted s p cached ++ next.2.1, next.2.2) := by
  rw [passLoop]
  simp only [hstep, hn]

theorem passLoop_cons_failed {cached : Bool} {rest : List (Package × Bool)}
    {out : Outcome EngineError Unit} (hout : out ≠ .ok ())
    (hstep : packageStep sha256Hex toToml fromToml run rooted s p cached = (t, out)) :
    passLoop sha256Hex toToml fromToml run checks rooted len i s ((p, cached) :: rest) =
      (t, reportsOf sha256Hex fromToml run rooted s p cached, out) := by
  rw [passLoop]
  simp only [hstep]

/-- One turn, for a package the store was asked for: it reports what is to be reported, or a command
failed. -/
theorem packageStep_spec {cached : Bool} (hgrown : Grown s₀ s.store)
    (hcached : cached = (run.useStore && s₀.has (p.storeKey sha256Hex run.inputs)))
    (hroot : rooted = false →
      run.useStore = true ∧ EntryRestores sha256Hex fromToml run.inputs s₀ p) :
    let step := packageStep sha256Hex toToml fromToml run rooted s p cached
    let reports := reportsOf sha256Hex fromToml run rooted s p cached
    let report := expected sha256Hex fromToml run.inputs run.useStore s₀ p
    step.2 ≠ .panic ∧ Grown s₀ step.1.store ∧ reports <+: [report] ∧
      (step.2 = .ok () → reports = [report]) ∧
      ((run.outcome p).refreshed = true ∧ (run.outcome p).compiled = true →
        (run.useStore = true → ¬Stranded s₀ (p.storeKey sha256Hex run.inputs)) →
        step.2 = .ok ()) := by
  have hsome := (@isSome_restored _ fromToml) hgrown hcached
  intro step reports report
  rcases @packageStep_cases sha256Hex toToml fromToml run rooted cached s p with
    ⟨hcache, stage, hrestored, hstep, hreports⟩ | ⟨hcache, hrestored, hrooted, -⟩ |
      ⟨hmiss, t, hstore, hstep, hbuilt, hfailed⟩
  · have hreport : report = .restored p := if_pos (hsome.mp ⟨hcache, by rw [hrestored]; rfl⟩)
    have hstep' : step = _ := hstep
    have hreports' : reports = _ := hreports
    rw [hstep', hreports', hreport]
    exact ⟨nofun, hgrown, List.prefix_rfl, fun _ => rfl, fun _ _ => rfl⟩
  · have hboth := hsome.mpr (hroot hrooted)
    rw [hrestored] at hboth
    cases hboth.2
  · have hnot : ¬(run.useStore = true ∧ EntryRestores sha256Hex fromToml run.inputs s₀ p) := by
      intro h
      have hboth := hsome.mpr h
      rw [(hmiss hboth.1).1] at hboth
      cases hboth.2
    have hrooted : rooted = true := by
      by_contra h
      exact hnot (hroot (Bool.eq_false_iff.mpr h))
    have hreport : report = .compiled p true := if_neg hnot
    obtain ⟨hpanic, hgrow, hok, hgoes⟩ := @buildPackage_spec sha256Hex toToml run t p s₀
    subst hrooted
    have hstep' : step = _ := hstep
    rw [hstep', hreport]
    rw [hstore] at hgrow hok hgoes
    refine ⟨hpanic, hgrow hgrown, ?_, fun h => hbuilt (hok h).1, fun h hfree => hgoes h fun huse => ?_⟩
    · by_cases hone : (t.buildOne sha256Hex run p).2 = .ok ()
      · exact (show reports = _ from hbuilt hone) ▸ List.prefix_rfl
      · exact (show reports = _ from hfailed hone) ▸ List.nil_prefix
    · exact fun hstranded => hfree huse (hgrown.stranded_iff.mp hstranded)

/-- The loop over packages the store was asked for. -/
theorem passLoop_spec (hgrown : Grown s₀ s.store) (hprobed : Probed sha256Hex run s₀ packages)
    (hroot : rooted = false → ∀ x ∈ packages, run.useStore = true ∧
      EntryRestores sha256Hex fromToml run.inputs s₀ x.1)
    (hprogress : ∀ j, i ≤ j → j < i + packages.length → ∃ n, progressAt checks j len = .ok n) :
    let pass := passLoop sha256Hex toToml fromToml run checks rooted len i s packages
    let reports := packages.map fun x => expected sha256Hex fromToml run.inputs run.useStore s₀ x.1
    pass.2.2 ≠ .panic ∧ pass.2.1 <+: reports ∧ (pass.2.2 = .ok () → pass.2.1 = reports) ∧
      ((∀ p, (run.outcome p).refreshed = true ∧ (run.outcome p).compiled = true) →
        (run.useStore = true → ∀ x ∈ packages, ¬Stranded s₀ (x.1.storeKey sha256Hex run.inputs)) →
        pass.2.2 = .ok ()) := by
  induction packages generalizing i s with
  | nil => exact ⟨nofun, List.prefix_rfl, fun _ => rfl, fun _ _ => rfl⟩
  | cons x rest ih =>
    obtain ⟨p, cached⟩ := x
    obtain ⟨hpanic, hgrown, hprefix, hall, hok⟩ :=
      (@packageStep_spec _ toToml _ _ _ _ _ rooted) hgrown (hprobed (p, cached) List.mem_cons_self)
      (fun h => hroot h (p, cached) List.mem_cons_self)
    obtain ⟨n, hn⟩ := hprogress i le_rfl (by simp)
    rcases hstep : packageStep sha256Hex toToml fromToml run rooted s p cached with ⟨t, out⟩
    rw [hstep] at hpanic hgrown hall hok
    cases out with
    | panic => exact absurd rfl hpanic
    | err e =>
      rw [(@passLoop_cons_failed _ _ _ _ _ _ _ _ _ _ _ _ _ (.err e)) nofun hstep]
      refine ⟨nofun, hprefix.trans ?_, nofun, fun h hfree => ?_⟩
      · exact List.prefix_append [_] _
      · exact nomatch hok (h p) fun huse => hfree huse _ List.mem_cons_self
    | ok u =>
      obtain ⟨hpanic', hprefix', hall', hok'⟩ := ih (i := i + 1) (s := t) hgrown
        (fun x hx => hprobed x (List.mem_cons_of_mem _ hx))
        (fun h x hx => hroot h x (List.mem_cons_of_mem _ hx))
        (fun j hlo hhi => hprogress j (by omega) (by rw [List.length_cons]; omega))
      have hreports := hall rfl
      rw [passLoop_cons_ok hstep hn, hreports]
      refine ⟨hpanic', ?_, fun h => ?_, fun h hfree => ?_⟩
      · exact (List.prefix_append_right_inj _).mpr hprefix'
      · exact congrArg (_ :: ·) (hall' h)
      · exact hok' h fun huse x hx => hfree huse x (List.mem_cons_of_mem _ hx)

/-- A turn that goes through leaves the store grown, and the package's entry was not stranded. -/
theorem packageStep_ok {cached : Bool} (hgrown : Grown s₀ s.store)
    (hcached : cached = (run.useStore && s₀.has (p.storeKey sha256Hex run.inputs)))
    (hstep : packageStep sha256Hex toToml fromToml run rooted s p cached = (t, .ok ())) :
    Grown s₀ t.store ∧ (run.useStore = true → ¬Stranded s₀ (p.storeKey sha256Hex run.inputs)) := by
  rcases @packageStep_cases sha256Hex toToml fromToml run rooted cached s p with
    ⟨hcache, stage, -, heq, -⟩ | ⟨-, -, -, hpanic, -⟩ | ⟨-, u, hstore, heq, -⟩
  · obtain ⟨rfl, -⟩ := Prod.mk.inj (heq.symm.trans hstep)
    refine ⟨hgrown, fun _ hstranded => ?_⟩
    rw [hcache, eq_comm, Bool.and_eq_true, hstranded.1] at hcached
    cases hcached.2
  · rw [hstep] at hpanic
    cases hpanic
  · obtain ⟨-, hgrow, hok, -⟩ := @buildPackage_spec sha256Hex toToml run u p s₀
    rw [← heq, hstep, hstore] at hgrow hok
    exact ⟨hgrow hgrown, fun huse hstranded =>
      (hok rfl).2 huse (hgrown.stranded_iff.mpr hstranded)⟩

/-- A loop that goes through counted the progress of every package and stored what it compiled. -/
theorem passLoop_ok (hgrown : Grown s₀ s.store) (hprobed : Probed sha256Hex run s₀ packages)
    (hok : (passLoop sha256Hex toToml fromToml run checks rooted len i s packages).2.2 = .ok ()) :
    (∀ j, i ≤ j → j < i + packages.length → ∃ n, progressAt checks j len = .ok n) ∧
      (run.useStore = true → ∀ x ∈ packages,
        ¬Stranded s₀ (x.1.storeKey sha256Hex run.inputs)) := by
  induction packages generalizing i s with
  | nil =>
    refine ⟨fun j hlo hhi => ?_, fun _ x hx => absurd hx List.not_mem_nil⟩
    rw [List.length_nil] at hhi
    omega
  | cons x rest ih =>
    obtain ⟨p, cached⟩ := x
    have hcached := hprobed (p, cached) List.mem_cons_self
    rcases hstep : packageStep sha256Hex toToml fromToml run rooted s p cached with ⟨t, out⟩
    by_cases hout : out = .ok ()
    · subst hout
      obtain ⟨hgrown', hfree⟩ := packageStep_ok hgrown hcached hstep
      obtain ⟨n, hn⟩ : ∃ n, progressAt checks i len = .ok n := by
        rw [passLoop] at hok
        simp only [hstep] at hok
        rcases hn : progressAt checks i len with n | e | -
        · exact ⟨n, rfl⟩
        · rw [hn] at hok
          cases hok
        · rw [hn] at hok
          cases hok
      rw [passLoop_cons_ok hstep hn] at hok
      obtain ⟨hprogress, hrest⟩ := ih hgrown' (fun x hx => hprobed x (List.mem_cons_of_mem _ hx)) hok
      refine ⟨fun j hlo hhi => ?_, fun huse => List.forall_mem_cons.mpr ⟨hfree huse, hrest huse⟩⟩
      rcases Nat.eq_or_lt_of_le hlo with rfl | hlo
      · exact ⟨n, hn⟩
      · exact hprogress j hlo (by rw [List.length_cons] at hhi; omega)
    · rw [passLoop_cons_failed hout hstep] at hok
      exact absurd hok hout

/-- Without a build root nothing is compiled in one. -/
theorem notMem_passLoop {q : Package} : Report.compiled q true ∉
    (passLoop sha256Hex toToml fromToml run checks false len i s packages).2.1 := by
  have hone : ∀ (s : UserspaceState) p cached,
      Report.compiled q true ∉ reportsOf sha256Hex fromToml run false s p cached := by
    intro s p cached
    rcases @packageStep_cases sha256Hex toToml fromToml run false cached s p with
      ⟨-, stage, -, -, h⟩ | ⟨-, -, -, -, h⟩ | ⟨-, t, -, -, hbuilt, hfailed⟩
    · simp [h]
    · simp [h]
    · by_cases h : (t.buildOne sha256Hex run p).2 = .ok ()
      · simp [hbuilt h]
      · simp [hfailed h]
  induction packages generalizing i s with
  | nil => exact List.not_mem_nil
  | cons x rest ih =>
    obtain ⟨p, cached⟩ := x
    rcases hstep : packageStep sha256Hex toToml fromToml run false s p cached with ⟨t, out⟩
    by_cases hout : out = .ok ()
    · subst hout
      rw [passLoop]
      simp only [hstep]
      cases progressAt checks i len with
      | ok n => exact fun h => (List.mem_append.mp h).elim (hone s p cached) ih
      | err e => exact hone s p cached
      | panic => exact hone s p cached
    · rw [passLoop_cons_failed hout hstep]
      exact hone s p cached

/-- Where the progress can be counted, the loop is that without it. -/
theorem passLoop_eq (hprogress : ∀ j, i ≤ j → j < i + packages.length →
    ∃ n, progressAt checks j len = .ok n) :
    let pass := passLoop sha256Hex toToml fromToml run checks rooted len i s packages
    (pass.1, pass.2.2) = packageLoop sha256Hex toToml fromToml run rooted s packages := by
  induction packages generalizing i s with
  | nil => rfl
  | cons x rest ih =>
    obtain ⟨p, cached⟩ := x
    obtain ⟨n, hn⟩ := hprogress i le_rfl (by simp)
    rcases hstep : packageStep sha256Hex toToml fromToml run rooted s p cached with ⟨t, out⟩
    rw [packageLoop]
    by_cases hout : out = .ok ()
    · subst hout
      rw [passLoop_cons_ok hstep hn, hstep]
      exact ih fun j hlo hhi => hprogress j (by omega) (by rw [List.length_cons]; omega)
    · rw [passLoop_cons_failed hout hstep, hstep]
      rcases out with u | e | -
      · exact absurd rfl hout
      · rfl
      · rfl

/-! ### The pass -/

theorem probed_packages : (s.probed sha256Hex run).map (fun x => x.1) = run.inputs.packages := by
  rw [probed, List.map_map]
  exact List.map_id _

theorem probed_probed : Probed sha256Hex run s.store (s.probed sha256Hex run) := by
  intro x hx
  obtain ⟨p, -, rfl⟩ := List.mem_map.mp hx
  rfl

theorem length_probed : (s.probed sha256Hex run).length = run.inputs.packages.length := by
  rw [← @probed_packages sha256Hex _ s, List.length_map]

theorem map_expected : (s.probed sha256Hex run).map (fun x =>
    expected sha256Hex fromToml run.inputs run.useStore s.store x.1) =
      run.inputs.packages.map (expected sha256Hex fromToml run.inputs run.useStore s.store) := by
  rw [← @probed_packages sha256Hex _ s, List.map_map]
  rfl

/-- The root is not staged exactly if the store has the manifest of every package. -/
theorem rooted_eq_false : s.rooted sha256Hex run = false ↔ run.useStore = true ∧
    ∀ p ∈ run.inputs.packages, s.store.has (p.storeKey sha256Hex run.inputs) = true := by
  rw [rooted, Bool.not_eq_false', Bool.and_eq_true, List.all_eq_true]
  refine and_congr_right fun huse => ?_
  rw [← @probed_packages sha256Hex _ s]
  constructor
  · intro h p hp
    obtain ⟨x, hx, rfl⟩ := List.mem_map.mp hp
    have hall := h x hx
    rwa [probed_probed x hx, huse, Bool.true_and] at hall
  · intro h x hx
    rw [probed_probed x hx, huse, Bool.true_and]
    exact h x.1 (List.mem_map_of_mem hx)

theorem cachePass_spec
    (h : PassFits sha256Hex fromToml checks run.inputs run.useStore s.store) :
    let pass := cachePass sha256Hex toToml fromToml run checks s
    let reports := run.inputs.packages.map
      (expected sha256Hex fromToml run.inputs run.useStore s.store)
    pass.2.2 ≠ .panic ∧ pass.2.1 <+: reports ∧ (pass.2.2 = .ok () → pass.2.1 = reports) ∧
      (run.ready = true →
        (∀ p, (run.outcome p).refreshed = true ∧ (run.outcome p).compiled = true) →
        pass.2.2 = .ok ()) := by
  have hroot : s.rooted sha256Hex run = false → ∀ x ∈ s.probed sha256Hex run,
      run.useStore = true ∧ EntryRestores sha256Hex fromToml run.inputs s.store x.1 := by
    intro hrooted x hx
    obtain ⟨huse, hall⟩ := rooted_eq_false.mp hrooted
    refine ⟨huse, h.whole huse hall x.1 ?_⟩
    rw [← @probed_packages sha256Hex _ s]
    exact List.mem_map_of_mem hx
  have hprogress : ∀ j, 0 ≤ j → j < 0 + (s.probed sha256Hex run).length →
      ∃ n, progressAt checks j (s.probed sha256Hex run).length = .ok n := by
    intro j _ hj
    rw [Nat.zero_add, length_probed] at hj
    rcases h.progress with hnone | hfits
    · rw [hnone] at hj
      cases hj
    · rw [length_probed]
      exact exists_progressAt hfits hj
  obtain ⟨hpanic, hprefix, hall, hok⟩ := (@passLoop_spec _ _ _ _ toToml _ _ _ s.store)
    (fun _ => .inl rfl) probed_probed hroot hprogress
  rw [map_expected] at hprefix hall
  unfold cachePass
  split_ifs with hready
  · refine ⟨nofun, List.nil_prefix, nofun, fun hr _ => ?_⟩
    rw [hr, Bool.not_true, Bool.and_false] at hready
    cases hready
  · refine ⟨hpanic, hprefix, hall, fun _ hcommands => hok hcommands fun huse x hx => ?_⟩
    refine h.not_stranded huse x.1 ?_
    rw [← @probed_packages sha256Hex _ s]
    exact List.mem_map_of_mem hx

/-- For packages whose progress can be counted, the stage is that without it. -/
theorem buildWithProgress_eq (h : ProgressFits checks run.inputs.packages.length) :
    buildWithProgress sha256Hex toToml fromToml run checks s =
      buildUserspace sha256Hex toToml fromToml run s := by
  have hloop := @passLoop_eq checks 0 (s.probed sha256Hex run).length sha256Hex toToml fromToml
    run s (s.rooted sha256Hex run) (s.probed sha256Hex run)
    fun j _ hj => by
      rw [length_probed] at hj ⊢
      exact exists_progressAt h (by omega)
  have hrooted : (!(run.useStore && (s.probed sha256Hex run).all (·.2))) =
      s.rooted sha256Hex run := rfl
  unfold buildWithProgress buildUserspace cachePass
  by_cases hpins : run.inputs.pins.isEmpty = true
  · rw [if_pos hpins, if_pos hpins]
  · simp only [if_neg hpins, hrooted, ← hloop]
    split_ifs
    · rfl
    · rcases passLoop sha256Hex toToml fromToml run checks (s.rooted sha256Hex run)
        (s.probed sha256Hex run).length 0 s (s.probed sha256Hex run) with ⟨t, reports, u | e | -⟩
      · rfl
      · rfl
      · rfl

/-- Commands that all succeed. -/
def allSucceed : Package → PackageOutcome := fun _ => ⟨true, [], true⟩

/-- The pass recovers exactly from the stores and for the packages that fit. -/
theorem recovers_iff (sha256Hex : Bytes → Str) (toToml : StoreManifest → Bytes)
    (fromToml : Bytes → Option StoreManifest) (checks : Bool) (inputs : UserspaceInputs)
    (useStore : Bool) (s : UserspaceState) :
    Recovers sha256Hex toToml fromToml checks inputs useStore s ↔
      PassFits sha256Hex fromToml checks inputs useStore s.store := by
  constructor
  · intro h
    have hpass := h.complete allSucceed fun _ => ⟨rfl, rfl⟩
    unfold cachePass at hpass
    rw [Bool.not_true, Bool.and_false, if_neg Bool.false_ne_true] at hpass
    obtain ⟨hprogress, hfree⟩ := (@passLoop_ok _ _ _ _ _ _ _ _ s.store) (fun _ => .inl rfl)
      probed_probed
      (congrArg Prod.snd hpass)
    refine ⟨fun huse hall p hp => ?_, fun huse p hp => ?_, ?_⟩
    · -- Nothing is compiled in a build root, so every report is of a restore.
      by_contra hnot
      have hrooted : s.rooted sha256Hex ⟨inputs, useStore, true, allSucceed⟩ = false :=
        rooted_eq_false.mpr ⟨huse, hall⟩
      have hmem : Report.compiled p true ∈
          inputs.packages.map (expected sha256Hex fromToml inputs useStore s.store) :=
        List.mem_map.mpr ⟨p, hp, if_neg fun h => hnot h.2⟩
      have hreports := congrArg Prod.fst hpass
      rw [hrooted] at hreports
      dsimp only at hreports
      rw [← hreports] at hmem
      exact notMem_passLoop hmem
    · obtain ⟨x, hx, rfl⟩ :
          ∃ x ∈ s.probed sha256Hex ⟨inputs, useStore, true, allSucceed⟩, x.1 = p := by
        rw [← List.mem_map, probed_packages]
        exact hp
      exact hfree huse x hx
    · refine or_iff_not_imp_left.mpr fun hne => ?_
      rw [length_probed] at hprogress
      exact progressFits_of_ok (List.length_pos_iff.mpr hne).ne' fun i hi =>
        hprogress i (Nat.zero_le _) (by rw [Nat.zero_add]; exact hi)
  · intro h
    have hspec := fun ready outcome =>
      (@cachePass_spec _ _ toToml _ ⟨inputs, useStore, ready, outcome⟩) h
    refine ⟨fun ready outcome => ?_, fun ready outcome => (hspec ready outcome).2.1,
      fun outcome hcommands => ?_⟩
    · have hpanic := (hspec ready outcome).1
      unfold buildWithProgress
      split_ifs
      · nofun
      · rcases hpass : cachePass sha256Hex toToml fromToml ⟨inputs, useStore, ready, outcome⟩ checks
          s with ⟨t, reports, u | e | -⟩
        · show (if _ then _ else _) ≠ _
          split_ifs <;> nofun
        · nofun
        · rw [hpass] at hpanic
          exact absurd rfl hpanic
    · obtain ⟨-, -, hall, hok⟩ := hspec true outcome
      have hdone := hok rfl hcommands
      exact Prod.ext (hall hdone) hdone

/-- The store of one run, with the files of its entry lost but for the manifest. -/
def lost : UserspaceState :=
  let s := initial.afterRun hexText writeRgaToml readRgaToml trixie
  let key := (rgaPackage "2ba1".toList).storeKey hexText trixie.inputs
  let kept := ((s.store.entryDir key).getD ∅).erase "librga2_1_arm64.deb".toList
  { s with store := s.store.setDir (nodeDir key.node) key.signature kept }

/-- An entry that lost its file: no root is staged for the compile. -/
theorem lost_file_panics :
    (buildWithProgress hexText writeRgaToml readRgaToml trixie true lost).2 = .panic ∧
      ¬Recovers hexText writeRgaToml readRgaToml true trixie.inputs true lost := by
  have hpanic : (buildWithProgress hexText writeRgaToml readRgaToml trixie true lost).2 = .panic := by
    decide +kernel
  exact ⟨hpanic, fun h => h.not_panic trixie.ready trixie.outcome hpanic⟩

end UserspaceState

end Boot2Deb.Engine
