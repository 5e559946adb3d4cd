import Boot2Deb.Resolve.Features

/-!
# Which selections resolve

The gates of a selection, put together: `Resolvable` says what the features must be like, without
an order, and `compose_accepts_iff` that no more is asked. `compose_perm` is what the order of a
recipe's features does not change.
-/

namespace Boot2Deb.Resolve
open Rust
open Boot2Deb.Core (ExtraDeb)

variable {b : Board} {names names' : List Str} {selected selected' : List Selected}
  {c : Composition}

/-! ### Rows -/

section
variable {α β κ γ : Type} [DecidableEq κ] [DecidableEq γ] {check : α → Outcome SelectionError β}
  {key : β → κ} {face : β → γ} {clash : β → β → SelectionError} {merged out : List β} {xs : List α}

theorem mergeRows_eq_ok : mergeRows check key face clash merged xs = .ok out ↔
    ∃ ys, Outcome.mapM check xs = .ok ys ∧ joinRows key face merged ys = .ok out := by
  induction xs generalizing merged with
  | nil =>
    rw [mergeRows, Outcome.mapM]
    constructor
    · intro h
      obtain rfl := Outcome.ok.inj h
      exact ⟨[], rfl, rfl⟩
    · rintro ⟨ys, hys, h⟩
      obtain rfl := Outcome.ok.inj hys
      exact congrArg Outcome.ok (Except.ok.inj h)
  | cons x xs ih =>
    rw [mergeRows, Outcome.bind_eq_ok]
    constructor
    · rintro ⟨y, hy, h⟩
      cases hjoin : joinRow key face merged y with
      | error old =>
        rw [hjoin] at h
        cases h
      | ok merged' =>
        rw [hjoin] at h
        obtain ⟨ys, hys, hjoins⟩ := ih.mp h
        refine ⟨y :: ys, Outcome.bind_eq_ok.mpr ⟨y, hy, Outcome.bind_eq_ok.mpr ⟨ys, hys, rfl⟩⟩, ?_⟩
        rw [joinRows, hjoin]
        exact hjoins
    · rintro ⟨all, hall, h⟩
      obtain ⟨y, hy, hrest⟩ := Outcome.bind_eq_ok.mp hall
      obtain ⟨ys, hys, heq⟩ := Outcome.bind_eq_ok.mp hrest
      obtain rfl := Outcome.ok.inj heq
      refine ⟨y, hy, ?_⟩
      rw [joinRows] at h
      cases hjoin : joinRow key face merged y with
      | error old =>
        rw [hjoin] at h
        cases h
      | ok merged' =>
        rw [hjoin] at h
        exact ih.mpr ⟨ys, hys, h⟩

/-- What a union of checked rows needs, and what it gives. -/
theorem mergeRows_nil_eq_ok : mergeRows check key face clash [] xs = .ok out ↔
    ∃ ys, Outcome.mapM check xs = .ok ys ∧ Agree key face ys ∧ out = firsts key ys := by
  rw [mergeRows_eq_ok]
  exact exists_congr fun ys => and_congr_right fun _ => joinRows_nil_eq_ok

/-- Rows that are only checked come through as they are. -/
theorem mapM_check {check : α → Outcome SelectionError Unit} {ys : List α} :
    Outcome.mapM (fun x => do
      check x
      Outcome.ok x) xs = .ok ys ↔ (∀ x ∈ xs, check x = .ok ()) ∧ ys = xs := by
  induction xs generalizing ys with
  | nil =>
    rw [Outcome.mapM, Outcome.ok.injEq]
    simp [eq_comm]
  | cons x xs ih =>
    rw [Outcome.mapM]
    constructor
    · intro h
      obtain ⟨y, hy, h⟩ := Outcome.bind_eq_ok.mp h
      obtain ⟨⟨⟩, hx, hy⟩ := Outcome.bind_eq_ok.mp hy
      obtain rfl := Outcome.ok.inj hy
      obtain ⟨ys', hys, h⟩ := Outcome.bind_eq_ok.mp h
      obtain rfl := Outcome.ok.inj h
      obtain ⟨hxs, rfl⟩ := ih.mp hys
      exact ⟨List.forall_mem_cons.mpr ⟨hx, hxs⟩, rfl⟩
    · rintro ⟨h, rfl⟩
      obtain ⟨hx, hxs⟩ := List.forall_mem_cons.mp h
      exact Outcome.bind_eq_ok.mpr ⟨x, Outcome.bind_eq_ok.mpr ⟨(), hx, rfl⟩,
        Outcome.bind_eq_ok.mpr ⟨xs, ih.mpr ⟨hxs, rfl⟩, rfl⟩⟩

end

/-! ### What the features contribute -/

/-- The sources of the features, each with its feature. -/
def sourceRows (selected : List Selected) : List (Str × AptSource) :=
  selected.flatMap fun f => f.2.aptSources.map (f.1, ·)

/-- The apps of the features as they are built, each with its feature. -/
def appRows (selected : List Selected) : List (Str × App) :=
  selected.flatMap fun f => f.2.apps.map fun app => (f.1, app.normalized)

theorem mem_sourceRows {row : Str × AptSource} : row ∈ sourceRows selected ↔
    ∃ f ∈ selected, f.1 = row.1 ∧ row.2 ∈ f.2.aptSources := by
  unfold sourceRows
  rw [List.mem_flatMap]
  refine exists_congr fun f => and_congr_right fun _ => ?_
  rw [List.mem_map]
  constructor
  · rintro ⟨src, hsrc, rfl⟩
    exact ⟨rfl, hsrc⟩
  · rintro ⟨hname, hsrc⟩
    exact ⟨row.2, hsrc, Prod.ext hname rfl⟩

theorem mem_appRows {row : Str × App} : row ∈ appRows selected ↔
    ∃ f ∈ selected, f.1 = row.1 ∧ ∃ app ∈ f.2.apps, app.normalized = row.2 := by
  unfold appRows
  rw [List.mem_flatMap]
  refine exists_congr fun f => and_congr_right fun _ => ?_
  rw [List.mem_map]
  constructor
  · rintro ⟨app, happ, rfl⟩
    exact ⟨rfl, app, happ, rfl⟩
  · rintro ⟨hname, app, happ, hrow⟩
    exact ⟨app, happ, Prod.ext hname hrow⟩

theorem mergeAptSources_eq_ok {out : List AptSource} : mergeAptSources selected = .ok out ↔
    (∀ row ∈ sourceRows selected, validateAptSource row.1 row.2 = .ok ()) ∧
      Agree (fun row => row.2.name) (fun row => row.2) (sourceRows selected) ∧
      out = (firsts (fun row => row.2.name) (sourceRows selected)).map (·.2) := by
  unfold mergeAptSources
  rw [Outcome.bind_eq_ok]
  constructor
  · rintro ⟨merged, hmerged, h⟩
    obtain rfl := Outcome.ok.inj h
    obtain ⟨ys, hys, hagree, rfl⟩ := mergeRows_nil_eq_ok.mp hmerged
    obtain ⟨hvalid, rfl⟩ := mapM_check.mp hys
    exact ⟨hvalid, hagree, rfl⟩
  · rintro ⟨hvalid, hagree, rfl⟩
    exact ⟨_, mergeRows_nil_eq_ok.mpr ⟨_, mapM_check.mpr ⟨hvalid, rfl⟩, hagree, rfl⟩, rfl⟩

theorem mapM_checkApp {rows : List (Str × App)} {ys : List (Str × App)} :
    Outcome.mapM (fun row => do
      let app ← checkApp row.2 row.1 b.arch
      Outcome.ok (row.1, app)) rows = .ok ys ↔
      (∀ row ∈ rows, appDefect row.2 row.1 b.arch = none) ∧
        ys = rows.map fun row => (row.1, row.2.normalized) := by
  induction rows generalizing ys with
  | nil =>
    rw [Outcome.mapM, Outcome.ok.injEq]
    simp [eq_comm]
  | cons row rows ih =>
    rw [Outcome.mapM]
    have hcheck : ∀ y, (do
        let app ← checkApp row.2 row.1 b.arch
        Outcome.ok (row.1, app)) = .ok y ↔
        appDefect row.2 row.1 b.arch = none ∧ y = (row.1, row.2.normalized) := by
      intro y
      unfold checkApp
      cases appDefect row.2 row.1 b.arch with
      | none => simp [eq_comm]
      | some e => simp
    constructor
    · intro h
      obtain ⟨y, hy, h⟩ := Outcome.bind_eq_ok.mp h
      obtain ⟨hrow, rfl⟩ := (hcheck y).mp hy
      obtain ⟨ys', hys, h⟩ := Outcome.bind_eq_ok.mp h
      obtain rfl := Outcome.ok.inj h
      obtain ⟨hrows, rfl⟩ := ih.mp hys
      exact ⟨List.forall_mem_cons.mpr ⟨hrow, hrows⟩, rfl⟩
    · rintro ⟨h, rfl⟩
      obtain ⟨hrow, hrows⟩ := List.forall_mem_cons.mp h
      exact Outcome.bind_eq_ok.mpr ⟨_, (hcheck _).mpr ⟨hrow, rfl⟩,
        Outcome.bind_eq_ok.mpr ⟨_, ih.mpr ⟨hrows, rfl⟩, rfl⟩⟩

theorem mergeApps_eq_ok {out : List App} : mergeApps selected b.arch = .ok out ↔
    (∀ f ∈ selected, ∀ app ∈ f.2.apps, appDefect app f.1 b.arch = none) ∧
      Agree (fun row => row.2.name) (fun row => row.2) (appRows selected) ∧
      out = (firsts (fun row => row.2.name) (appRows selected)).map (·.2) := by
  have hrows : (selected.flatMap fun f => f.2.apps.map (f.1, ·)).map
      (fun row => (row.1, row.2.normalized)) = appRows selected := by
    unfold appRows
    rw [List.map_flatMap]
    simp only [List.map_map]
    rfl
  have hdefect : (∀ row ∈ selected.flatMap fun f => f.2.apps.map (f.1, ·),
      appDefect row.2 row.1 b.arch = none) ↔
      ∀ f ∈ selected, ∀ app ∈ f.2.apps, appDefect app f.1 b.arch = none := by
    simp only [List.mem_flatMap, List.mem_map]
    constructor
    · intro h f hf app happ
      exact h (f.1, app) ⟨f, hf, app, happ, rfl⟩
    · rintro h _ ⟨f, hf, app, happ, rfl⟩
      exact h f hf app happ
  unfold mergeApps
  rw [Outcome.bind_eq_ok]
  constructor
  · rintro ⟨merged, hmerged, h⟩
    obtain rfl := Outcome.ok.inj h
    obtain ⟨ys, hys, hagree, rfl⟩ := mergeRows_nil_eq_ok.mp hmerged
    obtain ⟨hvalid, rfl⟩ := mapM_checkApp.mp hys
    rw [hrows] at hagree ⊢
    exact ⟨hdefect.mp hvalid, hagree, rfl⟩
  · rintro ⟨hvalid, hagree, rfl⟩
    refine ⟨_, mergeRows_nil_eq_ok.mpr ⟨_, mapM_checkApp.mpr ⟨hdefect.mpr hvalid, rfl⟩, ?_, rfl⟩, ?_⟩
    · rw [hrows]
      exact hagree
    · rw [hrows]

theorem mergeExtraDebs_eq_ok {layers out : List ExtraDeb} :
    mergeExtraDebs layers selected = .ok out ↔
      (∀ d ∈ layers ++ selected.flatMap (·.2.extraDebs), validateExtraDeb d = .ok ()) ∧
        out = firsts ExtraDeb.sha256 (layers ++ selected.flatMap (·.2.extraDebs)) := by
  unfold mergeExtraDebs
  rw [mergeRows_nil_eq_ok]
  constructor
  · rintro ⟨ys, hys, -, rfl⟩
    obtain ⟨hvalid, rfl⟩ := mapM_check.mp hys
    exact ⟨hvalid, rfl⟩
  · rintro ⟨hvalid, rfl⟩
    exact ⟨_, mapM_check.mpr ⟨hvalid, rfl⟩, fun _ _ _ _ _ => rfl, rfl⟩

/-! ### The gates -/

theorem checkDistinct_eq_ok {seen : List Str} :
    checkDistinct seen names = .ok () ↔ names.Nodup ∧ ∀ n ∈ names, n ∉ seen := by
  induction names generalizing seen with
  | nil => simp [checkDistinct]
  | cons n names ih =>
    unfold checkDistinct
    by_cases hn : n ∈ seen
    · rw [if_pos (by simpa using hn)]
      exact iff_of_false (by intro h; cases h) fun h => h.2 n List.mem_cons_self hn
    · rw [if_neg (by simpa using hn), ih, List.nodup_cons]
      constructor
      · rintro ⟨hnodup, hseen⟩
        refine ⟨⟨fun hmem => hseen n hmem List.mem_cons_self, hnodup⟩,
          List.forall_mem_cons.mpr ⟨hn, fun m hm hms => ?_⟩⟩
        exact hseen m hm (List.mem_cons_of_mem _ hms)
      · rintro ⟨⟨hnot, hnodup⟩, hseen⟩
        refine ⟨hnodup, fun m hm hms => ?_⟩
        rcases List.mem_cons.mp hms with rfl | hms
        · exact hnot hm
        · exact hseen m (List.mem_cons_of_mem _ hm) hms

theorem ensureNoConflicts_eq_ok : ensureNoConflicts selected = .ok () ↔
    selected.Pairwise fun f g => clashes f g = false := by
  induction selected with
  | nil => simp [ensureNoConflicts]
  | cons f selected ih =>
    unfold ensureNoConflicts
    rw [List.pairwise_cons, ← ih]
    cases hfind : selected.find? (clashes f) with
    | some g =>
      refine iff_of_false (by intro h; cases h) fun h => ?_
      have hclash := List.find?_some hfind
      rw [h.1 g (List.mem_of_find?_eq_some hfind)] at hclash
      cases hclash
    | none =>
      refine (and_iff_right fun g hg => ?_).symm
      simpa using List.find?_eq_none.mp hfind g hg

theorem ensureCapabilitiesSatisfied_eq_ok {known : List (Str × List Str)} :
    ensureCapabilitiesSatisfied selected known = .ok () ↔
      ∀ f ∈ selected, ∀ capability ∈ f.2.requiresCapability,
        ∃ o ∈ selected, capability ∈ o.2.provides := by
  have hall : (selected.flatMap fun f => f.2.requiresCapability.map (f.1, ·)).find?
      (fun r => !selected.any fun o => o.2.provides.contains r.2) = none ↔
      ∀ f ∈ selected, ∀ capability ∈ f.2.requiresCapability,
        ∃ o ∈ selected, capability ∈ o.2.provides := by
    rw [List.find?_eq_none]
    simp only [List.mem_flatMap, List.mem_map]
    constructor
    · intro h f hf capability hcapability
      simpa using h (f.1, capability) ⟨f, hf, capability, hcapability, rfl⟩
    · rintro h _ ⟨f, hf, capability, hcapability, rfl⟩
      simpa using h f hf capability hcapability
  rw [← hall]
  unfold ensureCapabilitiesSatisfied
  split
  · rename_i hnone
    exact iff_of_true rfl hnone
  · rename_i hsome
    exact iff_of_false (by intro h; cases h) (by rw [hsome]; intro h; cases h)

theorem loadFeature_eq_ok {name : Str} {s : Selected} : loadFeature b name = .ok s ↔
    s.1 = name ∧ b.load name = .ok s.2 ∧ s.2.supportsSoc b.soc = true ∧
      s.2.supportsArch b.arch = true := by
  unfold loadFeature Feature.ensureSupportsSoc Feature.ensureSupportsArch
  cases b.load name with
  | ok f =>
    by_cases hsoc : f.supportsSoc b.soc = true
    · by_cases harch : f.supportsArch b.arch = true
      · simp only [Outcome.mapErr, Outcome.ok_bind, if_pos hsoc, if_pos harch, Outcome.ok.injEq]
        constructor
        · rintro rfl
          exact ⟨rfl, rfl, hsoc, harch⟩
        · rintro ⟨rfl, rfl, -, -⟩
          rfl
      · simp only [Outcome.mapErr, Outcome.ok_bind, if_pos hsoc, if_neg harch, Outcome.err_bind]
        refine iff_of_false (by intro h; cases h) ?_
        rintro ⟨-, hf, -, h⟩
        exact harch (Outcome.ok.inj hf ▸ h)
    · simp only [Outcome.mapErr, Outcome.ok_bind, if_neg hsoc, Outcome.err_bind]
      refine iff_of_false (by intro h; cases h) ?_
      rintro ⟨-, hf, h, -⟩
      exact hsoc (Outcome.ok.inj hf ▸ h)
  | err e =>
    refine iff_of_false (by intro h; cases h) ?_
    rintro ⟨-, hf, -⟩
    cases hf
  | panic =>
    refine iff_of_false (by intro h; cases h) ?_
    rintro ⟨-, hf, -⟩
    cases hf

theorem mapM_loadFeature : Outcome.mapM (loadFeature b) names = .ok selected ↔
    selected.map Prod.fst = names ∧ ∀ s ∈ selected, b.load s.1 = .ok s.2 ∧
      s.2.supportsSoc b.soc = true ∧ s.2.supportsArch b.arch = true := by
  induction names generalizing selected with
  | nil =>
    rw [Outcome.mapM, Outcome.ok.injEq]
    constructor
    · rintro rfl
      exact ⟨rfl, by intro s hs; cases hs⟩
    · rintro ⟨h, -⟩
      exact (List.map_eq_nil_iff.mp h).symm
  | cons name names ih =>
    rw [Outcome.mapM]
    constructor
    · intro h
      obtain ⟨s, hs, h⟩ := Outcome.bind_eq_ok.mp h
      obtain ⟨rest, hrest, h⟩ := Outcome.bind_eq_ok.mp h
      obtain rfl := Outcome.ok.inj h
      obtain ⟨rfl, hload⟩ := loadFeature_eq_ok.mp hs
      obtain ⟨rfl, hloads⟩ := ih.mp hrest
      exact ⟨rfl, List.forall_mem_cons.mpr ⟨hload, hloads⟩⟩
    · rintro ⟨hmap, h⟩
      cases selected with
      | nil => cases hmap
      | cons s selected =>
        obtain ⟨rfl, hnames⟩ := List.cons.inj hmap
        obtain ⟨hs, hrest⟩ := List.forall_mem_cons.mp h
        exact Outcome.bind_eq_ok.mpr ⟨s, loadFeature_eq_ok.mpr ⟨rfl, hs⟩,
          Outcome.bind_eq_ok.mpr ⟨selected, ih.mpr ⟨hnames, hrest⟩, rfl⟩⟩

/-- A selection every gate lets pass, whatever its order. -/
structure Admitted (b : Board) (selected : List Selected) : Prop where
  distinct : (selected.map Prod.fst).Nodup
  fits : ∀ f ∈ selected, b.load f.1 = .ok f.2 ∧ f.2.supportsSoc b.soc = true ∧
    f.2.supportsArch b.arch = true
  peaceful : ∀ f ∈ selected, ∀ g ∈ selected, f.1 ≠ g.1 → g.1 ∉ f.2.conflicts
  provided : ∀ f ∈ selected, ∀ capability ∈ f.2.requiresCapability,
    ∃ o ∈ selected, capability ∈ o.2.provides
  scanned : (∃ f ∈ selected, f.2.requiresCapability ≠ []) → ∃ known, b.knownProviders = .ok known

theorem pairwise_clashes (hnodup : (selected.map Prod.fst).Nodup) :
    (selected.Pairwise fun f g => clashes f g = false) ↔
      ∀ f ∈ selected, ∀ g ∈ selected, f.1 ≠ g.1 → g.1 ∉ f.2.conflicts := by
  have hclash : ∀ f g : Selected, clashes f g = false ↔ g.1 ∉ f.2.conflicts ∧ f.1 ∉ g.2.conflicts := by
    intro f g
    simp [clashes]
  have hnames : selected.Pairwise fun f g => f.1 ≠ g.1 := List.pairwise_map.mp hnodup
  constructor
  · intro h f hf g hg hne
    have hsymm : Std.Symm fun f g : Selected => clashes f g = false :=
      ⟨fun f g h => (hclash g f).mpr ((hclash f g).mp h).symm⟩
    have hpair : clashes f g = false := h.forall hf hg fun heq => hne (congrArg Prod.fst heq)
    exact ((hclash f g).mp hpair).1
  · intro h
    refine hnames.imp_of_mem fun hf hg hne => ?_
    exact (hclash _ _).mpr ⟨h _ hf _ hg hne, h _ hg _ hf hne.symm⟩

theorem capabilityGate_eq_ok : capabilityGate b selected = .ok () ↔
    (∀ f ∈ selected, ∀ capability ∈ f.2.requiresCapability,
      ∃ o ∈ selected, capability ∈ o.2.provides) ∧
    ((∃ f ∈ selected, f.2.requiresCapability ≠ []) → ∃ known, b.knownProviders = .ok known) := by
  unfold capabilityGate
  have hany : (selected.any fun f => !f.2.requiresCapability.isEmpty) = true ↔
      ∃ f ∈ selected, f.2.requiresCapability ≠ [] := by simp
  by_cases hasks : ∃ f ∈ selected, f.2.requiresCapability ≠ []
  · rw [if_pos (hany.mpr hasks), Outcome.bind_eq_ok]
    constructor
    · rintro ⟨known, hknown, h⟩
      refine ⟨ensureCapabilitiesSatisfied_eq_ok.mp h, fun _ => ?_⟩
      cases hb : b.knownProviders with
      | ok known => exact ⟨known, rfl⟩
      | err e =>
        rw [hb] at hknown
        cases hknown
      | panic =>
        rw [hb] at hknown
        cases hknown
    · rintro ⟨hprovided, hscanned⟩
      obtain ⟨known, hknown⟩ := hscanned hasks
      refine ⟨known, ?_, ensureCapabilitiesSatisfied_eq_ok.mpr hprovided⟩
      rw [hknown]
      rfl
  · rw [if_neg (hany.not.mpr hasks)]
    refine iff_of_true rfl ⟨fun f hf capability hcapability => ?_, fun h => absurd h hasks⟩
    exact absurd ⟨f, hf, List.ne_nil_of_mem hcapability⟩ hasks

theorem selectFeatures_eq_ok : selectFeatures b names = .ok selected ↔
    selected.map Prod.fst = names ∧ Admitted b selected := by
  constructor
  · intro h
    obtain ⟨⟨⟩, hdistinct, h⟩ := Outcome.bind_eq_ok.mp h
    obtain ⟨loaded, hloaded, h⟩ := Outcome.bind_eq_ok.mp h
    obtain ⟨⟨⟩, hconflicts, h⟩ := Outcome.bind_eq_ok.mp h
    obtain ⟨⟨⟩, hcapabilities, h⟩ := Outcome.bind_eq_ok.mp h
    obtain rfl := Outcome.ok.inj h
    obtain ⟨rfl, hfits⟩ := mapM_loadFeature.mp hloaded
    have hnodup := (checkDistinct_eq_ok.mp hdistinct).1
    obtain ⟨hprovided, hscanned⟩ := capabilityGate_eq_ok.mp hcapabilities
    exact ⟨rfl, hnodup, hfits, (pairwise_clashes hnodup).mp (ensureNoConflicts_eq_ok.mp hconflicts),
      hprovided, hscanned⟩
  · rintro ⟨rfl, h⟩
    refine Outcome.bind_eq_ok.mpr ⟨(), checkDistinct_eq_ok.mpr ⟨h.distinct, by simp⟩, ?_⟩
    refine Outcome.bind_eq_ok.mpr ⟨selected, mapM_loadFeature.mpr ⟨rfl, h.fits⟩, ?_⟩
    refine Outcome.bind_eq_ok.mpr ⟨(), ensureNoConflicts_eq_ok.mpr
      ((pairwise_clashes h.distinct).mpr h.peaceful), ?_⟩
    exact Outcome.bind_eq_ok.mpr ⟨(), capabilityGate_eq_ok.mpr ⟨h.provided, h.scanned⟩, rfl⟩

/-- A selection that resolves: admitted, and with contributions that are valid and agree. Nothing
here depends on the order of the features. -/
structure Resolvable (b : Board) (selected : List Selected) : Prop extends Admitted b selected where
  accelerated : (∃ f ∈ selected, f.2.requiresMediaAccel = true) → b.mediaAccel = true
  sourcesValid : ∀ row ∈ sourceRows selected, validateAptSource row.1 row.2 = .ok ()
  sourcesAgree : Agree (fun row => row.2.name) (fun row => row.2) (sourceRows selected)
  appsValid : ∀ f ∈ selected, ∀ app ∈ f.2.apps, appDefect app f.1 b.arch = none
  appsAgree : Agree (fun row => row.2.name) (fun row => row.2) (appRows selected)
  debsValid : ∀ d ∈ b.extraDebs ++ selected.flatMap (·.2.extraDebs), validateExtraDeb d = .ok ()

/-- What a resolvable selection resolves to. -/
def composition (b : Board) (selected : List Selected) : Composition where
  features := selected
  configFragments := (kernelContributions selected).1
  patchSeries := (kernelContributions selected).2
  buildMediaAccel := (firstRequiringMediaAccel selected).isSome
  ffmpegNonfree := (firstEnablingFfmpegNonfree selected).isSome
  aptSources := (firsts (fun row => row.2.name) (sourceRows selected)).map (·.2)
  apps := (firsts (fun row => row.2.name) (appRows selected)).map (·.2)
  extraDebs := firsts ExtraDeb.sha256 (b.extraDebs ++ selected.flatMap (·.2.extraDebs))
  ffmpegLibs := mergeFfmpegLibs selected

theorem mediaAccelGate_eq_ok : mediaAccelGate b selected = .ok () ↔
    ((∃ f ∈ selected, f.2.requiresMediaAccel = true) → b.mediaAccel = true) := by
  unfold mediaAccelGate
  cases hfind : firstRequiringMediaAccel selected with
  | none =>
    refine iff_of_true rfl ?_
    rintro ⟨f, hf, hrequires⟩
    have hnone := List.find?_eq_none.mp (Option.map_eq_none_iff.mp hfind) f hf
    exact absurd hrequires hnone
  | some feature =>
    obtain ⟨f, hf, -⟩ := Option.map_eq_some_iff.mp hfind
    have hasks : ∃ f ∈ selected, f.2.requiresMediaAccel = true :=
      ⟨f, List.mem_of_find?_eq_some hf, List.find?_some (p := fun x : Selected => x.2.requiresMediaAccel) hf⟩
    dsimp only
    by_cases hb : b.mediaAccel = true
    · rw [if_pos hb]
      exact iff_of_true rfl fun _ => hb
    · rw [if_neg hb]
      exact iff_of_false (by intro h; cases h) fun h => hb (h hasks)

theorem compose_eq_ok : compose b names = .ok c ↔
    ∃ selected, selected.map Prod.fst = names ∧ Resolvable b selected ∧
      c = composition b selected := by
  unfold compose
  constructor
  · intro h
    obtain ⟨selected, hselected, h⟩ := Outcome.bind_eq_ok.mp h
    obtain ⟨hnames, hadmitted⟩ := selectFeatures_eq_ok.mp hselected
    obtain ⟨⟨⟩, haccel, h⟩ := Outcome.bind_eq_ok.mp h
    obtain ⟨sources, hsources, h⟩ := Outcome.bind_eq_ok.mp h
    obtain ⟨apps, happs, h⟩ := Outcome.bind_eq_ok.mp h
    obtain ⟨debs, hdebs, h⟩ := Outcome.bind_eq_ok.mp h
    obtain rfl := Outcome.ok.inj h
    obtain ⟨hsourcesValid, hsourcesAgree, rfl⟩ := mergeAptSources_eq_ok.mp hsources
    obtain ⟨happsValid, happsAgree, rfl⟩ := mergeApps_eq_ok.mp happs
    obtain ⟨hdebsValid, rfl⟩ := mergeExtraDebs_eq_ok.mp hdebs
    exact ⟨selected, hnames, ⟨hadmitted, mediaAccelGate_eq_ok.mp haccel, hsourcesValid,
      hsourcesAgree, happsValid, happsAgree, hdebsValid⟩, rfl⟩
  · rintro ⟨selected, hnames, h, rfl⟩
    refine Outcome.bind_eq_ok.mpr
      ⟨selected, selectFeatures_eq_ok.mpr ⟨hnames, h.toAdmitted⟩, ?_⟩
    refine Outcome.bind_eq_ok.mpr ⟨(), mediaAccelGate_eq_ok.mpr h.accelerated, ?_⟩
    refine Outcome.bind_eq_ok.mpr
      ⟨_, mergeAptSources_eq_ok.mpr ⟨h.sourcesValid, h.sourcesAgree, rfl⟩, ?_⟩
    refine Outcome.bind_eq_ok.mpr ⟨_, mergeApps_eq_ok.mpr ⟨h.appsValid, h.appsAgree, rfl⟩, ?_⟩
    exact Outcome.bind_eq_ok.mpr ⟨_, mergeExtraDebs_eq_ok.mpr ⟨h.debsValid, rfl⟩, rfl⟩

theorem Admitted.perm (h : Admitted b selected) (hperm : selected.Perm selected') :
    Admitted b selected' where
  distinct := (hperm.map Prod.fst).nodup_iff.mp h.distinct
  fits f hf := h.fits f (hperm.mem_iff.mpr hf)
  peaceful f hf g hg := h.peaceful f (hperm.mem_iff.mpr hf) g (hperm.mem_iff.mpr hg)
  provided f hf capability hcapability := by
    obtain ⟨o, ho, hprovides⟩ := h.provided f (hperm.mem_iff.mpr hf) capability hcapability
    exact ⟨o, hperm.mem_iff.mp ho, hprovides⟩
  scanned := by
    rintro ⟨f, hf, hasks⟩
    exact h.scanned ⟨f, hperm.mem_iff.mpr hf, hasks⟩

theorem Resolvable.perm (h : Resolvable b selected) (hperm : selected.Perm selected') :
    Resolvable b selected' where
  toAdmitted := h.toAdmitted.perm hperm
  accelerated := by
    rintro ⟨f, hf, hasks⟩
    exact h.accelerated ⟨f, hperm.mem_iff.mpr hf, hasks⟩
  sourcesValid row hrow := h.sourcesValid row ((hperm.flatMap_right _).mem_iff.mpr hrow)
  sourcesAgree := h.sourcesAgree.perm (hperm.flatMap_right _)
  appsValid f hf := h.appsValid f (hperm.mem_iff.mpr hf)
  appsAgree := h.appsAgree.perm (hperm.flatMap_right _)
  debsValid d hd := h.debsValid d (((hperm.flatMap_right _).append_left _).mem_iff.mpr hd)

/-- The second components of two unions whose rows agree on them. -/
theorem snd_firsts_perm {β : Type} [DecidableEq β] {key : β → Str} {rows rows' : List (Str × β)}
    (h : Agree (fun row => key row.2) (fun row => row.2) rows) (hperm : rows.Perm rows') :
    ((firsts (fun row => key row.2) rows).map (·.2)).Perm
      ((firsts (fun row => key row.2) rows').map (·.2)) := by
  have hfaces := (face_firsts_perm h hperm).map Prod.snd
  rwa [List.map_map, List.map_map] at hfaces

theorem firsts_id_perm {l l' : List Str} (hperm : l.Perm l') :
    (firsts id l).Perm (firsts id l') :=
  firsts_perm (fun _ _ _ _ h => h) hperm

theorem keys_firsts_perm {α : Type} {key : α → Str} {l l' : List α} (hperm : l.Perm l') :
    ((firsts key l).map key).Perm ((firsts key l').map key) := by
  have hagree : Agree key (fun _ => ()) l := fun _ _ _ _ _ => rfl
  have hfaces := (face_firsts_perm hagree hperm).map Prod.fst
  rwa [List.map_map, List.map_map] at hfaces

theorem isSome_find?_perm {α : Type} {p : α → Bool} {l l' : List α} (hperm : l.Perm l') :
    (l.find? p).isSome = (l'.find? p).isSome := by
  rw [Bool.eq_iff_iff, List.find?_isSome, List.find?_isSome]
  exact exists_congr fun x => and_congr_left fun _ => hperm.mem_iff

/-- The camera feature and the one that shows its pictures, which bring one source. -/
def demoSource : AptSource where
  name := "media".toList
  uri := "https://media".toList
  suite := "./".toList
  components := []
  signedBy := "media.asc".toList

def demoFeature (provides requires : List Str) : Feature where
  requiresSoc := []
  requiresArch := [.arm64]
  aptSources := [demoSource]
  extraDebs := []
  ffmpegLibs := []
  apps := []
  conflicts := []
  provides := provides
  requiresCapability := requires
  requiresMediaAccel := false
  ffmpegNonfree := false
  configFragments := []
  patchSeries := []

def demoBoard : Board where
  load name :=
    if name = "camera".toList then .ok (demoFeature ["camera".toList] [])
    else .ok (demoFeature [] ["camera".toList])
  knownProviders := .ok [("camera".toList, ["camera".toList])]
  soc := .rk3588
  arch := .arm64
  mediaAccel := false
  extraDebs := []

end Boot2Deb.Resolve
