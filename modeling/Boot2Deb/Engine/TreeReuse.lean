import Boot2Deb.Engine.TreeDetermined
import Boot2Deb.Lib.Run

/-!
# Reusing a patched tree (`reuse_or_refresh_tree`, `engine/src/signature.rs`)

A compile stage keeps its tree in one directory and its stamp in a file beside it. A stage that
finds its own signature in the stamp goes on with the tree. Any other removes the tree, checks it out
anew and stamps it, and may be killed behind any of its writes. The old stamp stands until the new
one is written: a stage goes on with a tree of its own signature as long as no stage ends with a tree
standing under the stamp of an earlier one (`vouched_runs`, `severed_refresh`).
-/

namespace Boot2Deb.Engine
open Rust Relation

/-- The directory of a tree, and the text of the stamp beside it. -/
structure TreeSpot (τ : Type) where
  tree : Option τ
  stamp : Option Bytes
deriving DecidableEq

/-- `remove_dir_all`: what is left of the tree step by step, and whether it fails. -/
structure Removal (τ : Type) where
  left : List τ
  fails : Bool

/-- A call of `refresh`: what stands in the directory meanwhile, and how it ends. -/
structure Refresh (τ : Type) where
  passed : List (Option τ)
  result : Outcome EngineError τ

/-- The spot behind each write of the gate, in front of the stamp and from it on, and what the gate
returns. -/
structure GateTrace (τ : Type) where
  unstamped : List (TreeSpot τ)
  stamped : List (TreeSpot τ)
  result : Outcome EngineError Bool

/-- A stage on its tree: its manifest, what its removal and its refresh do, its work in the tree, and
the number of writes it lived for. -/
structure StageRun (τ : Type) where
  man : SignatureManifest
  removal : Removal τ
  refresh : Refresh τ
  work : List (τ → τ)
  stop : ℕ

namespace TreeSpot

section Gate
variable {τ : Type} (toToml : SignatureManifest → Bytes) (fromToml : Bytes → Option SignatureManifest)
  (s : TreeSpot τ)

def empty : TreeSpot τ := ⟨none, none⟩

/-- `read_manifest`. -/
def readManifest : Option SignatureManifest := s.stamp.bind fromToml

/-- `is_fresh`. -/
def isFresh (expected : SignatureManifest) : Bool :=
  s.tree.isSome &&
    ((s.readManifest fromToml).map fun m => m.signature == expected.signature).getD false

/-- `write_manifest`: the file is cut to nothing and written out. -/
def writeManifest (man : SignatureManifest) (tree : τ) : List (TreeSpot τ) :=
  (List.range ((toToml man).length + 1)).map fun n => ⟨some tree, some ((toToml man).take n)⟩

/-- `reuse_or_refresh_tree`. -/
def reuseOrRefreshTree (man : SignatureManifest) (removal : Removal τ) (refresh : Refresh τ) :
    GateTrace τ :=
  if s.isFresh fromToml man then ⟨[], [], .ok true⟩
  else
    let removed := if s.tree.isSome then removal.left.map fun t => ⟨some t, s.stamp⟩ else []
    if s.tree.isSome && removal.fails then ⟨removed, [], .err (.io "tree".toList)⟩
    else
      let passed := removed ++ (none :: refresh.passed).map fun t => ⟨t, s.stamp⟩
      match refresh.result with
      | .ok tree => ⟨passed ++ [⟨some tree, s.stamp⟩], writeManifest toToml man tree, .ok false⟩
      | .err e => ⟨passed, [], .err e⟩
      | .panic => ⟨passed, [], .panic⟩

/-- The work of a stage in its tree. -/
def worked : TreeSpot τ → List (τ → τ) → List (TreeSpot τ)
  | _, [] => []
  | s, f :: fs => ⟨s.tree.map f, s.stamp⟩ :: worked ⟨s.tree.map f, s.stamp⟩ fs

/-- The spot behind a list of writes. -/
def behind (writes : List (TreeSpot τ)) : TreeSpot τ := writes.getLast?.getD s

variable (r : StageRun τ)

def gate : GateTrace τ := s.reuseOrRefreshTree toToml fromToml r.man r.removal r.refresh

/-- The spot behind the gate. -/
def gated : TreeSpot τ :=
  s.behind ((s.gate toToml fromToml r).unstamped ++ (s.gate toToml fromToml r).stamped)

/-- The writes of a stage behind those in front of its stamp. -/
def fromStamp : List (TreeSpot τ) :=
  (s.gate toToml fromToml r).stamped ++ match (s.gate toToml fromToml r).result with
    | .ok _ => worked (s.gated toToml fromToml r) r.work
    | _ => []

/-- The spot a stage leaves, killed or not. -/
def after : TreeSpot τ :=
  s.behind (((s.gate toToml fromToml r).unstamped ++ s.fromStamp toToml fromToml r).take r.stop)

/-- A stage that ends in front of its stamp leaves no tree, or found no stamp that can be read. -/
def Unsevered : Prop :=
  r.stop ≤ (s.gate toToml fromToml r).unstamped.length ∨ s.fromStamp toToml fromToml r = [] →
    ∀ u ∈ ((s.gate toToml fromToml r).unstamped.take r.stop).getLast?,
      u.tree = none ∨ u.readManifest fromToml = none

end Gate

/-! ### Trees that can be told apart by their stamps -/

section Vouched
variable {τ : Type} {toToml : SignatureManifest → Bytes}
  {fromToml : Bytes → Option SignatureManifest} {s u : TreeSpot τ} {runs : List (StageRun τ)}
  {r : StageRun τ} {signature : Str} {t : τ}

/-- A tree that a stage of the signature checked out, and such stages worked on. -/
inductive Derived (runs : List (StageRun τ)) (signature : Str) : τ → Prop
  | refreshed (r : StageRun τ) (hr : r ∈ runs) (hsig : r.man.signature = signature) (t : τ)
    (ht : r.refresh.result = .ok t) : Derived runs signature t
  | worked (r : StageRun τ) (hr : r ∈ runs) (hsig : r.man.signature = signature) (f : τ → τ)
    (hf : f ∈ r.work) (t : τ) (ht : Derived runs signature t) : Derived runs signature (f t)

/-- A text cut short reads as nothing, or by its signature. -/
def CutSafe (toToml : SignatureManifest → Bytes) (fromToml : Bytes → Option SignatureManifest)
    (man : SignatureManifest) : Prop :=
  ∀ n m, fromToml ((toToml man).take n) = some m → m.signature = man.signature

/-- The stamp says of the tree what is true of it. -/
def Vouched (fromToml : Bytes → Option SignatureManifest) (runs : List (StageRun τ))
    (s : TreeSpot τ) : Prop :=
  ∀ t ∈ s.tree, ∀ m ∈ s.readManifest fromToml, Derived runs m.signature t

/-- A tree of the signature, under a stamp that names no other. -/
structure Stands (fromToml : Bytes → Option SignatureManifest) (runs : List (StageRun τ))
    (signature : Str) (s : TreeSpot τ) : Prop where
  tree : ∃ t, s.tree = some t ∧ Derived runs signature t
  stamp : ∀ m ∈ s.readManifest fromToml, m.signature = signature

theorem Stands.vouched (h : Stands fromToml runs signature s) : Vouched fromToml runs s := by
  intro t ht m hm
  obtain ⟨t', ht', hd⟩ := h.tree
  have htt : t' = t := Option.some.inj (ht'.symm.trans ht)
  subst htt
  rw [h.stamp m hm]
  exact hd

theorem vouched_of_none (h : u.tree = none ∨ u.readManifest fromToml = none) :
    Vouched fromToml runs u := by
  intro t ht m hm
  rcases h with h | h
  · simp [h] at ht
  · simp [h] at hm

theorem isFresh_iff {man : SignatureManifest} : s.isFresh fromToml man = true ↔
    ∃ t m, s.tree = some t ∧ s.readManifest fromToml = some m ∧ m.signature = man.signature := by
  unfold isFresh
  cases s.tree <;> cases s.readManifest fromToml <;> simp

theorem behind_append {ws vs : List (TreeSpot τ)} : s.behind (ws ++ vs) = (s.behind ws).behind vs := by
  unfold behind
  rw [List.getLast?_append]
  cases vs.getLast? <;> simp

theorem behind_mem {ws : List (TreeSpot τ)} (h : ws ≠ []) : s.behind ws ∈ ws := by
  unfold behind
  rw [List.getLast?_eq_some_getLast h]
  exact List.getLast_mem h

/-- Work in a tree leaves it a tree of the signature. -/
theorem Stands.worked (hr : r ∈ runs) (hsig : r.man.signature = signature) {fs : List (τ → τ)}
    (hfs : ∀ f ∈ fs, f ∈ r.work) (h : Stands fromToml runs signature s) :
    ∀ u ∈ s.worked fs, Stands fromToml runs signature u := by
  induction fs generalizing s with
  | nil =>
    intro u hu
    cases hu
  | cons f fs ih =>
    obtain ⟨hf, hfs⟩ := List.forall_mem_cons.mp hfs
    obtain ⟨t, ht, hd⟩ := h.tree
    have hnext : Stands fromToml runs signature ⟨s.tree.map f, s.stamp⟩ :=
      ⟨⟨f t, by rw [ht]; rfl, .worked r hr hsig f hf t hd⟩, h.stamp⟩
    exact List.forall_mem_cons.mpr ⟨hnext, ih hfs hnext⟩

/-- The gate goes on with a tree of the signature: one it finds, or one it checks out and stamps. -/
theorem gate_ok (hcut : CutSafe toToml fromToml r.man) (hr : r ∈ runs)
    (hs : Vouched fromToml runs s) {reused : Bool}
    (hok : (s.gate toToml fromToml r).result = .ok reused) :
    (∀ u ∈ (s.gate toToml fromToml r).stamped, Stands fromToml runs r.man.signature u) ∧
      Stands fromToml runs r.man.signature (s.gated toToml fromToml r) := by
  unfold gated
  unfold gate reuseOrRefreshTree at hok ⊢
  by_cases hfresh : s.isFresh fromToml r.man = true
  · obtain ⟨t, m, ht, hm, hsig⟩ := isFresh_iff.mp hfresh
    simp only [hfresh, if_true]
    have hstands : Stands fromToml runs r.man.signature s := by
      refine ⟨⟨t, ht, hsig ▸ hs t ht m hm⟩, fun m' hm' => ?_⟩
      rw [← Option.some.inj (hm.symm.trans hm'), hsig]
    exact ⟨fun u hu => absurd hu List.not_mem_nil, hstands⟩
  · simp only [hfresh, Bool.false_eq_true, if_false] at hok ⊢
    by_cases hfails : (s.tree.isSome && r.removal.fails) = true
    · simp only [hfails, if_true] at hok
      cases hok
    · simp only [hfails, Bool.false_eq_true, if_false] at hok ⊢
      cases hresult : r.refresh.result with
      | err e => simp [hresult] at hok
      | panic => simp [hresult] at hok
      | ok tree =>
        have hstamped : ∀ u ∈ writeManifest toToml r.man tree,
            Stands fromToml runs r.man.signature u := by
          intro u hu
          obtain ⟨n, -, rfl⟩ := List.mem_map.mp hu
          exact ⟨⟨tree, rfl, .refreshed r hr rfl tree hresult⟩, fun m hm => hcut n m hm⟩
        refine ⟨hstamped, ?_⟩
        have hne : writeManifest toToml r.man tree ≠ [] := by simp [writeManifest]
        show Stands _ _ _ (s.behind (_ ++ writeManifest toToml r.man tree))
        rw [behind_append]
        exact hstamped _ (behind_mem hne)

/-- Where the gate fails it writes no stamp. -/
theorem stamped_eq_nil (hfail : ∀ reused, (s.gate toToml fromToml r).result ≠ .ok reused) :
    s.fromStamp toToml fromToml r = [] := by
  have hstamped : (s.gate toToml fromToml r).stamped = [] := by
    unfold gate reuseOrRefreshTree at hfail ⊢
    split
    · rfl
    · dsimp only at hfail ⊢
      split
      · rfl
      · cases hresult : r.refresh.result with
        | ok tree =>
          next hfresh hfails =>
            rw [if_neg hfresh, if_neg hfails, hresult] at hfail
            exact absurd rfl (hfail false)
        | err e => rfl
        | panic => rfl
  unfold fromStamp
  rw [hstamped]
  cases hresult : (s.gate toToml fromToml r).result with
  | ok reused => exact absurd hresult (hfail reused)
  | err e => rfl
  | panic => rfl

/-- From the stamp on, a tree of the stage's signature stands under it. -/
theorem stands_fromStamp (hcut : CutSafe toToml fromToml r.man) (hr : r ∈ runs)
    (hs : Vouched fromToml runs s) :
    ∀ u ∈ s.fromStamp toToml fromToml r, Stands fromToml runs r.man.signature u := by
  intro u hu
  by_cases hok : ∃ reused, (s.gate toToml fromToml r).result = .ok reused
  · obtain ⟨reused, hok⟩ := hok
    obtain ⟨hstamped, hgated⟩ := gate_ok hcut hr hs hok
    unfold fromStamp at hu
    rw [hok] at hu
    rcases List.mem_append.mp hu with hu | hu
    · exact hstamped u hu
    · exact hgated.worked hr rfl (fun f hf => hf) u hu
  · rw [stamped_eq_nil fun reused h => hok ⟨reused, h⟩] at hu
    cases hu

/-- One stage keeps the stamp true. -/
theorem vouched_after (hcut : CutSafe toToml fromToml r.man) (hr : r ∈ runs)
    (hs : Vouched fromToml runs s) (h : s.Unsevered toToml fromToml r) :
    Vouched fromToml runs (s.after toToml fromToml r) := by
  have hbefore : r.stop ≤ (s.gate toToml fromToml r).unstamped.length ∨
      s.fromStamp toToml fromToml r = [] →
      Vouched fromToml runs (s.behind ((s.gate toToml fromToml r).unstamped.take r.stop)) := by
    intro hend
    unfold behind
    cases hlast : ((s.gate toToml fromToml r).unstamped.take r.stop).getLast? with
    | none => exact hs
    | some u => exact vouched_of_none (h hend u hlast)
  unfold after
  rw [List.take_append, behind_append]
  cases hrest : (s.fromStamp toToml fromToml r).take
      (r.stop - (s.gate toToml fromToml r).unstamped.length) with
  | nil =>
    refine hbefore ?_
    rcases List.take_eq_nil_iff.mp hrest with hlen | hnil
    · exact .inl (by omega)
    · exact .inr hnil
  | cons w ws =>
    have hmem := @behind_mem τ (s.behind ((s.gate toToml fromToml r).unstamped.take r.stop))
      (w :: ws) (List.cons_ne_nil _ _)
    refine (stands_fromStamp hcut hr hs _ ?_).vouched
    rw [← hrest] at hmem ⊢
    exact List.mem_of_mem_take hmem

theorem vouched_empty : Vouched fromToml runs empty := by
  intro t ht
  cases ht

/-- What stands behind a list of runs under a stamp is a tree of the signature in it. -/
theorem vouched_runs (hcut : ∀ r ∈ runs, CutSafe toToml fromToml r.man)
    (h : AllMeet (after toToml fromToml) (Unsevered toToml fromToml) empty runs) :
    Vouched fromToml runs (runs.foldl (after toToml fromToml) empty) :=
  h.invariant (fun _ r hr hs hmeet => vouched_after (hcut r hr) hr hs hmeet) vouched_empty

theorem Derived.mono {runs' : List (StageRun τ)} (hsub : ∀ r ∈ runs, r ∈ runs')
    (h : Derived runs signature t) : Derived runs' signature t := by
  induction h with
  | refreshed r hr hsig t ht => exact .refreshed r (hsub r hr) hsig t ht
  | worked r hr hsig f hf t _ ih => exact .worked r (hsub r hr) hsig f hf t ih

/-- A stage that gets past the gate goes on with a tree of its signature. -/
theorem gate_current (hcut : ∀ run ∈ r :: runs, CutSafe toToml fromToml run.man)
    (h : AllMeet (after toToml fromToml) (Unsevered toToml fromToml) empty runs) {reused : Bool}
    (hok : ((runs.foldl (after toToml fromToml) empty).gate toToml fromToml r).result = .ok reused) :
    ∃ t, ((runs.foldl (after toToml fromToml) empty).gated toToml fromToml r).tree = some t ∧
      Derived (r :: runs) r.man.signature t := by
  obtain ⟨hcutr, hcut⟩ := List.forall_mem_cons.mp hcut
  have hs : Vouched fromToml (r :: runs) (runs.foldl (after toToml fromToml) empty) :=
    fun t ht m hm => (vouched_runs hcut h t ht m hm).mono fun _ => List.mem_cons_of_mem _
  exact (gate_ok hcutr List.mem_cons_self hs hok).2.tree

/-! ### What a stage that came to its end leaves -/

theorem behind_writeManifest {man : SignatureManifest} :
    s.behind (writeManifest toToml man t) = ⟨some t, some (toToml man)⟩ := by
  unfold behind writeManifest
  rw [List.range_succ, List.map_append, List.getLast?_append]
  simp

theorem gated_isFresh (hread : fromToml (toToml r.man) = some r.man) {reused : Bool}
    (hok : (s.gate toToml fromToml r).result = .ok reused) :
    (s.gated toToml fromToml r).isFresh fromToml r.man = true := by
  unfold gated
  unfold gate reuseOrRefreshTree at hok ⊢
  by_cases hfresh : s.isFresh fromToml r.man = true
  · rw [if_pos hfresh]
    exact hfresh
  · rw [if_neg hfresh] at hok ⊢
    by_cases hfails : (s.tree.isSome && r.removal.fails) = true
    · simp only [hfails, if_true] at hok
      cases hok
    · simp only [hfails, Bool.false_eq_true, if_false] at hok ⊢
      cases hresult : r.refresh.result with
      | err e => simp [hresult] at hok
      | panic => simp [hresult] at hok
      | ok tree =>
        show isFresh _ (s.behind (_ ++ writeManifest toToml r.man tree)) _ = true
        rw [behind_append, behind_writeManifest]
        exact isFresh_iff.mpr ⟨tree, r.man, rfl, hread, rfl⟩

theorem worked_isFresh {man : SignatureManifest} {fs : List (τ → τ)}
    (h : s.isFresh fromToml man = true) : (s.behind (s.worked fs)).isFresh fromToml man = true := by
  induction fs generalizing s with
  | nil => exact h
  | cons f fs ih =>
    obtain ⟨t, m, ht, hm, hsig⟩ := isFresh_iff.mp h
    have hnext : isFresh fromToml ⟨s.tree.map f, s.stamp⟩ man = true :=
      isFresh_iff.mpr ⟨f t, m, by rw [ht]; rfl, hm, hsig⟩
    show isFresh fromToml (s.behind ([⟨s.tree.map f, s.stamp⟩] ++ _)) man = true
    rw [behind_append]
    exact ih hnext

/-- The tree of a stage that came to its end is reused under its signature. -/
theorem reused_of_finished {r' : StageRun τ} (hread : fromToml (toToml r.man) = some r.man)
    {reused : Bool} (hok : (s.gate toToml fromToml r).result = .ok reused)
    (hstop : (s.gate toToml fromToml r).unstamped.length + (s.fromStamp toToml fromToml r).length ≤
      r.stop) (hsig : r'.man.signature = r.man.signature) :
    ((s.after toToml fromToml r).gate toToml fromToml r').result = .ok true := by
  have hafter : s.after toToml fromToml r = (s.gated toToml fromToml r).behind
      (worked (s.gated toToml fromToml r) r.work) := by
    unfold after
    rw [List.take_of_length_le (by rw [List.length_append]; exact hstop)]
    unfold fromStamp
    rw [hok, ← List.append_assoc, behind_append]
    rfl
  have hfresh : (s.after toToml fromToml r).isFresh fromToml r.man = true := by
    rw [hafter]
    exact worked_isFresh (gated_isFresh hread hok)
  obtain ⟨t, m, ht, hm, hman⟩ := isFresh_iff.mp hfresh
  have hfresh' : (s.after toToml fromToml r).isFresh fromToml r'.man = true :=
    isFresh_iff.mpr ⟨t, m, ht, hm, hman.trans hsig.symm⟩
  unfold gate reuseOrRefreshTree
  rw [if_pos hfresh']

end Vouched

/-! ### The tree of a build -/

section Builds
variable {τ : Type} {S : Semver.Crate} {sha256Hex : Bytes → Str} {stage : TreeStage}
  {patched : τ → Str × List (Str × Bytes)} {runs : List (StageRun τ)} {signature : Str} {t : τ}

/-- A run of the stage for a build: under its manifest, on the tree its inputs patch. -/
structure RunsFor (S : Semver.Crate) (sha256Hex : Bytes → Str) (stage : TreeStage)
    (patched : τ → Str × List (Str × Bytes)) (b : TreeBuild) (r : StageRun τ) : Prop where
  man : ∃ builder, b.treeManifest sha256Hex stage = .ok builder ∧ r.man = builder.manifest sha256Hex
  tree : ∀ t, r.refresh.result = .ok t → b.patchedTree S stage = .ok (patched t)

/-- Work of stages of the signature makes one tree of the other. -/
inductive Worked (runs : List (StageRun τ)) (signature : Str) : τ → τ → Prop
  | refl (t : τ) : Worked runs signature t t
  | tail {t u : τ} (h : Worked runs signature t u) (r : StageRun τ) (hr : r ∈ runs)
    (hsig : r.man.signature = signature) (f : τ → τ) (hf : f ∈ r.work) : Worked runs signature t (f u)

theorem Derived.worked_from (h : Derived runs signature t) :
    ∃ r ∈ runs, r.man.signature = signature ∧ ∃ t₀, r.refresh.result = .ok t₀ ∧
      Worked runs signature t₀ t := by
  induction h with
  | refreshed r hr hsig t ht => exact ⟨r, hr, hsig, t, ht, .refl t⟩
  | worked r hr hsig f hf t _ ih =>
    obtain ⟨r₀, hr₀, hsig₀, t₀, ht₀, hw⟩ := ih
    exact ⟨r₀, hr₀, hsig₀, t₀, ht₀, hw.tail r hr hsig f hf⟩

theorem RunsFor.treeSignature {b : TreeBuild} {r : StageRun τ}
    (h : RunsFor S sha256Hex stage patched b r) :
    b.treeSignature sha256Hex stage = .ok ⟨r.man.signature⟩ := by
  obtain ⟨builder, hbuilder, hman⟩ := h.man
  unfold TreeBuild.treeSignature
  rw [hbuilder, hman]
  rfl

def recordText (r : Record) : Str :=
  "\n[[records]]\nlabel = \"".toList ++ r.label ++ "\"\nvalues = [".toList ++
    [','].intercalate (r.values.map fun v => '"' :: v ++ ['"']) ++ "]\n".toList

/-- The text of a stamp. -/
def stampText (man : SignatureManifest) : Bytes :=
  asBytes ("node = \"".toList ++ man.node ++ "\"\nstage_version = ".toList ++
    Nat.toDigits 10 man.stageVersion.toNat ++ "\nsignature = \"".toList ++ man.signature ++
    "\"\n".toList ++ man.records.flatMap recordText)

/-- A reader of the stamps of some manifests. -/
def readStamp (mans : List SignatureManifest) (text : Bytes) : Option SignatureManifest :=
  mans.find? fun man => stampText man = text

theorem fits_v71 : byteLen "v7.1".toList ≤ isizeMax := by decide

def kernelMan : SignatureManifest :=
  match (TreeBuild.ranged (lit "v7.1" fits_v71)).treeManifest hexText .kernel with
  | .ok builder => builder.manifest hexText
  | _ => ⟨[], 0, [], []⟩

/-- A kernel stage that checks its tree out, patches and compiles it, and comes to its end. -/
def kernelRun : StageRun ((Str × List (Str × Bytes)) × ℕ) where
  man := kernelMan
  removal := ⟨[], false⟩
  refresh := ⟨[], .ok (("4f1c".toList, []), 0)⟩
  work := [fun t => (t.1, t.2 + 1)]
  stop := 2 + ((stampText kernelMan).length + 1) + 1

def ffmpegMan (signature : Str) : SignatureManifest := ⟨"ffmpeg".toList, 1, signature, []⟩

/-- An ffmpeg stage that lives for some of its writes. -/
def ffmpegRun (signature tree half : Str) (stop : ℕ) : StageRun Str :=
  ⟨ffmpegMan signature, ⟨[], false⟩, ⟨[some half], .ok tree⟩, [], stop⟩

/-- A build of other pins is killed in its checkout, and the pins go back: the half of the other
tree is taken for this one. -/
theorem severed_refresh :
    let read := readStamp [ffmpegMan "aa".toList, ffmpegMan "bb".toList]
    let s := [ffmpegRun "aa".toList "n7.1".toList "n7".toList 100,
      ffmpegRun "bb".toList "n8.0".toList "n8".toList 2].foldl (after stampText read) empty
    let r := ffmpegRun "aa".toList "n7.1".toList "n7".toList 100
    (s.gate stampText read r).result = .ok true ∧
      (s.gated stampText read r).tree = some "n8".toList := by
  decide +kernel

end Builds

end TreeSpot

end Boot2Deb.Engine
