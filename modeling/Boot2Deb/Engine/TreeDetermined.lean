import Boot2Deb.Engine.TreeSignature

/-!
# What a tree signature determines

Two builds with one tree signature of a stage check out one commit and name one series at one
commit, or carry one fingerprint. The files are then the same, path by path; which of the paths are
applied hangs on the version the entries are filtered by, and that version is folded by the kernel
stage only.
-/

namespace Boot2Deb.Engine
open Rust Series Semver

/-! ### The folds of a tree -/

/-- The fingerprint of a co-developed series. -/
def SeriesIdentity.fingerprint : SeriesIdentity → Option (Slice Text)
  | pinned => none
  | dev fingerprint => some fingerprint

theorem fits_one : byteLen "1".toList ≤ isizeMax := by decide

def SeriesIdentity.flag : SeriesIdentity → Text
  | pinned => lit "0"
  | dev _ => lit "1" fits_one

/-- What a stage folds of the patches: nothing for a tree without them, else a pin or none, and how
its series is identified. -/
abbrev PatchInputs := Option (Option PatchesPin × SeriesIdentity)

namespace PatchInputs

/-- A patched tree of a build without a series. -/
def unpinned : PatchInputs → Option Unit
  | some (none, _) => some ()
  | _ => none

def pin : PatchInputs → Option (PatchesPin × SeriesIdentity)
  | some (some pin, patches) => some (pin, patches)
  | _ => none

/-- The inputs as folds, none where one is left out. -/
def folds (i : PatchInputs) : List (Option Fold) :=
  [i.unpinned.map fun _ => .scalar (lit "patches") (lit "none"),
    i.pin.map fun p => .ordered (lit "patches.series") p.1.series,
    i.pin.map fun p => .scalar (lit "patches.commit") p.1.commit,
    i.pin.map fun p => .scalar (lit "patches_dev") p.2.flag,
    (i.pin.bind fun p => p.2.fingerprint).map (.ordered (lit "patch_series"))]

def schema : List (Str × Kind) :=
  [("patches".toList, .scalar), ("patches.series".toList, .ordered),
    ("patches.commit".toList, .scalar), ("patches_dev".toList, .scalar),
    ("patch_series".toList, .ordered)]

theorem standsFor_folds (i : PatchInputs) : List.Forall₂ Fold.StandsFor schema i.folds :=
  .cons (Fold.standsFor_map fun _ => rfl) <| .cons (Fold.standsFor_map fun _ => rfl) <|
    .cons (Fold.standsFor_map fun _ => rfl) <| .cons (Fold.standsFor_map fun _ => rfl) <|
    .cons (Fold.standsFor_map fun _ => rfl) .nil

/-- The builder after the folds of the series. -/
theorem foldPatchSeries_eq (b : SignatureBuilder) (pin : Option PatchesPin)
    (patches : SeriesIdentity) : foldPatchSeries b pin patches =
      (folds (some (pin, patches))).reduceOption.foldl Fold.apply b := by
  cases pin with
  | none => rfl
  | some pin => cases patches <;> rfl

/-- No series on either side, or one pin identified in one way. -/
inductive Same : PatchInputs → PatchInputs → Prop
  | unpatched : Same none none
  | unpinned (patches patches' : SeriesIdentity) : Same (some (none, patches)) (some (none, patches'))
  | pinned (pin : PatchesPin) (patches : SeriesIdentity) :
      Same (some (some pin, patches)) (some (some pin, patches))

theorem Same.isSome_eq {i j : PatchInputs} (h : Same i j) : i.isSome = j.isSome := by
  cases h <;> rfl

theorem Same.pin_eq {i j : PatchInputs} (h : Same i j) : i.pin = j.pin := by
  cases h <;> rfl

theorem flags_ne : lit "0" ≠ lit "1" := by decide

theorem same_of_rel {i j : PatchInputs}
    (h : List.Forall₂ (Option.Rel Fold.Same) i.folds j.folds) : Same i j := by
  unfold folds at h
  simp only [List.forall₂_cons, List.forall₂_nil_left_iff, and_true] at h
  obtain ⟨hunpinned, hseries, hcommit, hflag, hfingerprint⟩ := h
  rcases i with _ | ⟨_ | p, patches⟩ <;> rcases j with _ | ⟨_ | q, patches'⟩
  case none.none => exact .unpatched
  case some.none.some.none => exact .unpinned patches patches'
  case none.some.none => cases hunpinned
  case none.some.some => cases hseries
  case some.none.none => cases hunpinned
  case some.none.some.some => cases hseries
  case some.some.none => cases hseries
  case some.some.some.none => cases hseries
  case some.some.some.some =>
    have hp : p.series = q.series :=
      CacheKeyInputs.same_ordered_iff.mp (Option.rel_some_some.mp hseries)
    have hc : p.commit = q.commit :=
      CacheKeyInputs.same_scalar_iff.mp (Option.rel_some_some.mp hcommit)
    have hf : patches.flag = patches'.flag :=
      CacheKeyInputs.same_scalar_iff.mp (Option.rel_some_some.mp hflag)
    have hprint : patches.fingerprint = patches'.fingerprint :=
      (Fold.rel_map_iff fun _ _ => CacheKeyInputs.same_ordered_iff).mp hfingerprint
    obtain ⟨series, commit⟩ := p
    obtain ⟨series', commit'⟩ := q
    obtain rfl : series = series' := hp
    obtain rfl : commit = commit' := hc
    cases patches with
    | pinned =>
      cases patches' with
      | pinned => exact .pinned _ _
      | dev _ => exact absurd hf flags_ne
    | dev fingerprint =>
      cases patches' with
      | pinned => exact absurd hf flags_ne.symm
      | dev fingerprint' =>
        obtain rfl := Option.some.inj hprint
        exact .pinned _ _

end PatchInputs

/-! ### The folds of a stage -/

namespace TreeBuild
variable (sha256Hex : Bytes → Str) (S : Crate) (stage : TreeStage) (b : TreeBuild)

/-- The label of the commit, and the reference the kernel stage folds beside it. -/
def commitFolds : List (Option Fold) :=
  match stage with
  | .kernel => [some (.scalar (lit "kernel.commit") b.commit),
      some (.scalar (lit "kernel.reference") b.reference)]
  | .uboot => [some (.scalar (lit "uboot.commit") b.commit)]
  | .ffmpeg => [some (.scalar (lit "ffmpeg.base.commit") b.commit)]
  | .userspace _ => [some (.scalar (lit "commit") b.commit)]

def deviceFolds : List (Option Fold) :=
  match stage with
  | .kernel =>
    [CacheKeyInputs.unlessEmpty b.deviceDts (.ordered (lit "device_dts") b.deviceDts)]
  | _ => []

def folds (fingerprint : Slice Text) : List (Option Fold) :=
  b.commitFolds stage ++ (PatchInputs.folds (b.patchInputs stage fingerprint) ++
    b.deviceFolds stage)

def commitSchema : List (Str × Kind) :=
  match stage with
  | .kernel => [("kernel.commit".toList, .scalar), ("kernel.reference".toList, .scalar)]
  | .uboot => [("uboot.commit".toList, .scalar)]
  | .ffmpeg => [("ffmpeg.base.commit".toList, .scalar)]
  | .userspace _ => [("commit".toList, .scalar)]

def schema : List (Str × Kind) :=
  commitSchema stage ++ (PatchInputs.schema ++
    match stage with
    | .kernel => [("device_dts".toList, .ordered)]
    | _ => [])

theorem schema_nodup : ((schema stage).map Prod.fst).Nodup := by
  cases stage with
  | kernel => decide
  | uboot => decide
  | ffmpeg => decide
  | userspace name =>
    show ((("commit".toList, Kind.scalar) :: (PatchInputs.schema ++ [])).map Prod.fst).Nodup
    decide

theorem standsFor_folds (fingerprint : Slice Text) :
    List.Forall₂ Fold.StandsFor (schema stage) (b.folds stage fingerprint) := by
  have hpatches := PatchInputs.standsFor_folds (b.patchInputs stage fingerprint)
  cases stage with
  | kernel =>
    exact .cons (Fold.standsFor_some _) <| .cons (Fold.standsFor_some _) <|
      List.rel_append hpatches (.cons (CacheKeyInputs.standsFor_unlessEmpty rfl) .nil)
  | uboot => exact .cons (Fold.standsFor_some _) (List.rel_append hpatches .nil)
  | ffmpeg => exact .cons (Fold.standsFor_some _) (List.rel_append hpatches .nil)
  | userspace name => exact .cons (Fold.standsFor_some _) (List.rel_append hpatches .nil)

/-- The stream a stage hashes is that of its folds. -/
theorem buf_treeManifest {b : TreeBuild} {manifest : SignatureBuilder}
    (h : b.treeManifest sha256Hex stage = .ok manifest) : ∃ fingerprint node,
      devSeriesFingerprint sha256Hex (b.patchSource stage) stage.scope = .ok fingerprint ∧
      manifest.buf = Fold.stream node 1 (b.folds stage fingerprint).reduceOption := by
  obtain ⟨fingerprint, hfingerprint, h⟩ := Outcome.bind_eq_ok.mp h
  have hrun : ∀ (node : Text) (commits patches devices : List (Option Fold)),
      (devices.reduceOption.foldl Fold.apply (patches.reduceOption.foldl Fold.apply
        (commits.reduceOption.foldl Fold.apply (.new node 1)))).buf =
      Fold.stream node 1 (commits ++ (patches ++ devices)).reduceOption := by
    intro node commits patches devices
    unfold Fold.stream Fold.run
    rw [List.reduceOption_append, List.reduceOption_append, List.foldl_append, List.foldl_append]
  cases stage with
  | kernel =>
    obtain rfl := Outcome.ok.inj h
    refine ⟨fingerprint, lit "kernel", hfingerprint, ?_⟩
    refine Eq.trans ?_ (hrun (lit "kernel") (b.commitFolds .kernel) _ (b.deviceFolds .kernel))
    simp only [kernelCloneManifest, PatchInputs.foldPatchSeries_eq, deviceFolds,
      CacheKeyInputs.unlessEmpty]
    split_ifs <;> rfl
  | uboot =>
    obtain rfl := Outcome.ok.inj h
    refine ⟨fingerprint, lit "uboot", hfingerprint, ?_⟩
    refine Eq.trans ?_ (hrun (lit "uboot") (b.commitFolds .uboot) _ [])
    simp only [ubootCloneManifest, PatchInputs.foldPatchSeries_eq]
    rfl
  | ffmpeg =>
    obtain rfl := Outcome.ok.inj h
    refine ⟨fingerprint, lit "ffmpeg", hfingerprint, ?_⟩
    refine Eq.trans ?_ (hrun (lit "ffmpeg") (b.commitFolds .ffmpeg) _ [])
    simp only [ffmpegCloneManifest, PatchInputs.foldPatchSeries_eq]
    rfl
  | userspace name =>
    obtain ⟨node, -, h⟩ := Outcome.bind_eq_ok.mp h
    obtain rfl := Outcome.ok.inj h
    refine ⟨fingerprint, node, hfingerprint, ?_⟩
    refine Eq.trans ?_ (hrun node (b.commitFolds (.userspace name)) _ [])
    unfold userspaceSignatureManifest
    cases hinputs : b.patchInputs (.userspace name) fingerprint with
    | none => rfl
    | some inputs =>
      obtain ⟨pin, patches⟩ := inputs
      show (foldPatchSeries _ pin patches).buf = _
      rw [PatchInputs.foldPatchSeries_eq]
      rfl

/-- Equal signatures of one stage: one commit, and one series identified in one way. -/
theorem same_of_treeSignature_eq {sha256Hex : Bytes → Str} (hsha : Function.Injective sha256Hex)
    {a b : TreeBuild} {signature : Signature} (ha : a.treeSignature sha256Hex stage = .ok signature)
    (hb : b.treeSignature sha256Hex stage = .ok signature) : a.commit = b.commit ∧
      (stage = .kernel → a.reference = b.reference) ∧
      ∃ f g, devSeriesFingerprint sha256Hex (a.patchSource stage) stage.scope = .ok f ∧
        devSeriesFingerprint sha256Hex (b.patchSource stage) stage.scope = .ok g ∧
        PatchInputs.Same (a.patchInputs stage f) (b.patchInputs stage g) := by
  obtain ⟨m, hm, he⟩ := Outcome.bind_eq_ok.mp ha
  obtain ⟨n, hn, he'⟩ := Outcome.bind_eq_ok.mp hb
  obtain ⟨f, node, hf, hbuf⟩ := buf_treeManifest sha256Hex stage hm
  obtain ⟨g, node', hg, hbuf'⟩ := buf_treeManifest sha256Hex stage hn
  have hhex : sha256Hex m.buf = sha256Hex n.buf :=
    congrArg Signature.hex ((Outcome.ok.inj he).trans (Outcome.ok.inj he').symm)
  rw [hbuf, hbuf'] at hhex
  obtain ⟨-, hrel⟩ := Fold.same_of_signature_eq hsha (schema_nodup stage)
    (standsFor_folds stage a f) (standsFor_folds stage b g) hhex
  refine ⟨?commit, ?reference, f, g, hf, hg, PatchInputs.same_of_rel ?rel⟩
  case commit =>
    cases stage with
    | kernel =>
      exact CacheKeyInputs.same_scalar_iff.mp (Option.rel_some_some.mp (List.forall₂_cons.mp hrel).1)
    | uboot =>
      exact CacheKeyInputs.same_scalar_iff.mp (Option.rel_some_some.mp (List.forall₂_cons.mp hrel).1)
    | ffmpeg =>
      exact CacheKeyInputs.same_scalar_iff.mp (Option.rel_some_some.mp (List.forall₂_cons.mp hrel).1)
    | userspace name =>
      exact CacheKeyInputs.same_scalar_iff.mp (Option.rel_some_some.mp (List.forall₂_cons.mp hrel).1)
  case reference =>
    rintro rfl
    exact CacheKeyInputs.same_scalar_iff.mp
      (Option.rel_some_some.mp (List.forall₂_cons.mp (List.forall₂_cons.mp hrel).2).1)
  case rel =>
    have hcut : ∀ b : TreeBuild, ∀ f, List.take 5 (List.drop (commitSchema stage).length
        (b.folds stage f)) = PatchInputs.folds (b.patchInputs stage f) := by
      intro b f
      cases stage <;> rfl
    rw [← hcut a f, ← hcut b g]
    exact List.forall₂_take 5 (List.forall₂_drop _ hrel)

end TreeBuild

/-! ### What is applied -/

variable {S : Crate} {root : Checkout} {labels : List Str} {applied : List (Str × Bytes)}
  {p : PatchSource} {scope : Scope} {loaded : List (Str × PatchSeries)}

theorem of_verifyPatchesPin {expected : Str} {dev : Bool}
    (h : verifyPatchesPin root expected dev = .ok ()) :
    dev = true ∨ root.head = expected ∧ root.clean = true := by
  unfold verifyPatchesPin at h
  split_ifs at h with hpin hdev
  · exact Or.inr hpin
  · exact Or.inl hdev

/-- The files handed over are the labels, each with its bytes in the checkout. -/
theorem applyTree_eq_ok (h : applyTree root labels = .ok applied) :
    applied.map Prod.fst = labels ∧ ∀ x ∈ applied, root.file x.1 = some x.2 := by
  have hread : applyTree root labels = Outcome.mapM (fun label => (root.file label).elim
      (.err (.io label)) fun bytes => .ok (label, bytes)) labels := by
    unfold applyTree
    congr 1
    funext label
    cases root.file label <;> rfl
  rw [hread] at h
  have hstep : ∀ label x, (root.file label).elim (.err (.io label))
      (fun bytes => (.ok (label, bytes) : Outcome EngineError (Str × Bytes))) = .ok x →
      x.1 = label ∧ root.file x.1 = some x.2 := by
    intro label x hx
    cases hfile : root.file label with
    | none =>
      rw [hfile] at hx
      cases hx
    | some bytes =>
      rw [hfile] at hx
      obtain rfl := Outcome.ok.inj hx
      exact ⟨rfl, hfile⟩
  refine ⟨Outcome.map_of_mapM (fun label x hx => (hstep label x hx).1) h, fun x hx => ?_⟩
  obtain ⟨label, -, hlabel⟩ := (Outcome.mapM_eq_ok h).2 x hx
  exact (hstep label x hlabel).2

/-- Two runs over the same files apply the same where the labels are the same. -/
theorem applied_eq_iff {root' : Checkout} {labels' : List Str} {applied' : List (Str × Bytes)}
    (h : applyTree root labels = .ok applied) (h' : applyTree root' labels' = .ok applied')
    (hfile : labels = labels' → ∀ label ∈ labels, ∀ bytes bytes', root.file label = some bytes →
      root'.file label = some bytes' → bytes = bytes') :
    applied = applied' ↔ labels = labels' := by
  obtain ⟨hlabels, hbytes⟩ := applyTree_eq_ok h
  obtain ⟨hlabels', hbytes'⟩ := applyTree_eq_ok h'
  constructor
  · rintro rfl
    exact hlabels.symm.trans hlabels'
  · intro he
    have hfst : applied.map Prod.fst = applied'.map Prod.fst := by rw [hlabels, hlabels', he]
    refine List.ext_getElem (by simpa using congrArg List.length hfst) fun i hi hi' => ?_
    have hname : (applied[i]).1 = (applied'[i]).1 := by
      have := List.getElem_of_eq hfst (by simpa using hi)
      simpa using this
    have hmem : (applied[i]).1 ∈ labels := hlabels ▸ List.mem_map_of_mem (List.getElem_mem hi)
    refine Prod.ext hname (hfile he _ hmem _ _ (hbytes _ (List.getElem_mem hi)) ?_)
    rw [hname]
    exact hbytes' _ (List.getElem_mem hi')

/-- A run of the stage: the pin holds, the series load, and the selected labels are applied. -/
theorem of_applySeriesScope {gateReference : Option Str}
    (h : applySeriesScope S (some p) scope gateReference = .ok applied) :
    verifyPatchesPin p.root p.pin.commit p.dev = .ok () ∧ ∃ loaded labels,
      loadNamed p = .ok loaded ∧ composedLabels S scope p.version loaded = .ok labels ∧
      applyTree p.root labels = .ok applied := by
  obtain ⟨_, hpin, h⟩ := Outcome.bind_eq_ok.mp h
  obtain ⟨loaded, hloaded, h⟩ := Outcome.bind_eq_ok.mp h
  refine ⟨hpin, loaded, ?_⟩
  cases gateReference with
  | none =>
    obtain ⟨labels, hlabels, h⟩ := Outcome.bind_eq_ok.mp h
    exact ⟨labels, hloaded, hlabels, h⟩
  | some reference =>
    obtain ⟨_, -, h⟩ := Outcome.bind_eq_ok.mp h
    obtain ⟨labels, hlabels, h⟩ := Outcome.bind_eq_ok.mp h
    exact ⟨labels, hloaded, hlabels, h⟩

theorem liveEntries_eq_flatMap (h : loadNamed p = .ok loaded) :
    liveEntries p.root p.pin.series.val scope =
      loaded.flatMap fun named => named.2.scope scope := by
  unfold loadNamed at h
  generalize p.pin.series.val = series at h ⊢
  induction series generalizing loaded with
  | nil =>
    obtain rfl := Outcome.ok.inj h
    rfl
  | cons name names ih =>
    obtain ⟨named, hnamed, h⟩ := Outcome.bind_eq_ok.mp h
    obtain ⟨rest, hrest, he⟩ := Outcome.bind_eq_ok.mp h
    obtain rfl := Outcome.ok.inj he
    obtain ⟨series, hseries, he⟩ := Outcome.bind_eq_ok.mp (Outcome.mapErr_eq_ok.mp hnamed)
    obtain rfl := Outcome.ok.inj he
    unfold liveEntries at ih ⊢
    rw [List.flatMap_cons, List.flatMap_cons, ih hrest, hseries]

/-- The labels are the paths of the live entries the version selects, in order. -/
theorem labels_eq (hloaded : loadNamed p = .ok loaded) {version : Str}
    (hlabels : composedLabels S scope version loaded = .ok labels) :
    labels = ((liveEntries p.root p.pin.series.val scope).filter
      (·.selects S version .release)).map PatchEntry.path := by
  obtain ⟨lists, hlists, he⟩ := Outcome.bind_eq_ok.mp hlabels
  obtain rfl := Outcome.ok.inj he
  rw [liveEntries_eq_flatMap hloaded]
  clear hlabels hloaded he
  induction loaded generalizing lists with
  | nil =>
    obtain rfl := Outcome.ok.inj hlists
    rfl
  | cons named loaded ih =>
    obtain ⟨list, hlist, hlists⟩ := Outcome.bind_eq_ok.mp hlists
    obtain ⟨rest, hrest, he⟩ := Outcome.bind_eq_ok.mp hlists
    obtain rfl := Outcome.ok.inj he
    rw [List.flatten_cons, List.flatMap_cons, List.filter_append, List.map_append, ih rest hrest,
      PatchSeries.selectedPaths_eq (Outcome.mapErr_eq_ok.mp hlist)]

/-- A selected label is the path of an entry the fingerprint covers. -/
theorem mem_liveEntries_of_label (hloaded : loadNamed p = .ok loaded) {version : Str}
    (hlabels : composedLabels S scope version loaded = .ok labels) {label : Str}
    (h : label ∈ labels) :
    ∃ entry ∈ liveEntries p.root p.pin.series.val scope, entry.path = label := by
  rw [labels_eq hloaded hlabels] at h
  obtain ⟨entry, hentry, hpath⟩ := List.mem_map.mp h
  exact ⟨entry, List.mem_of_mem_filter hentry, hpath⟩

/-! ### Fingerprints -/

theorem map_val_of_mapM_format {α : Type} {text : α → Str} {as : List α} {texts : List Text}
    (h : Outcome.mapM (fun a => (format (text a) : Outcome EngineError Text)) as = .ok texts) :
    texts.map Subtype.val = as.map text := by
  induction as generalizing texts with
  | nil =>
    obtain rfl := Outcome.ok.inj h
    rfl
  | cons a as ih =>
    obtain ⟨t, ht, h⟩ := Outcome.bind_eq_ok.mp h
    obtain ⟨ts, hts, h⟩ := Outcome.bind_eq_ok.mp h
    obtain rfl := Outcome.ok.inj h
    rw [List.map_cons, List.map_cons, format_eq_ok.mp ht, ih hts]

/-- A fingerprint spells the live entries, in order. -/
theorem fingerprint_spells {sha256Hex : Bytes → Str} {series fingerprint : Slice Text}
    (h : patchSeriesFingerprint sha256Hex root series scope = .ok fingerprint) :
    fingerprint.val.map Subtype.val =
      (liveEntries root series.val scope).map (entryText sha256Hex root) := by
  obtain ⟨texts, htexts, h⟩ := Outcome.bind_eq_ok.mp h
  rw [collect_eq_ok.mp h]
  exact map_val_of_mapM_format htexts

/-- Two entries of one text have files of the same bytes. -/
theorem bytes_eq_of_entryText {sha256Hex : Bytes → Str} (hsha : Function.Injective sha256Hex)
    (hhex : ∀ bytes, '=' ∉ sha256Hex bytes) {root' : Checkout} {e e' : PatchEntry}
    (htext : entryText sha256Hex root e = entryText sha256Hex root' e')
    {bytes bytes' : Bytes} (h : root.file e.path = some bytes)
    (h' : root'.file e'.path = some bytes') : bytes = bytes' := by
  have hend : ∀ (root : Checkout) (e : PatchEntry) bytes, root.file e.path = some bytes →
      ∃ front, entryText sha256Hex root e = front ++ '=' :: sha256Hex bytes := by
    intro root e bytes h
    unfold entryText
    rw [h]
    cases e.kernels with
    | none => exact ⟨e.path, rfl⟩
    | some range => exact ⟨e.path ++ '@' :: range, rfl⟩
  obtain ⟨front, hfront⟩ := hend root e bytes h
  obtain ⟨front', hfront'⟩ := hend root' e' bytes' h'
  rw [hfront, hfront'] at htext
  exact hsha ((append_cons_inj (hhex bytes) (hhex bytes')).mp htext).2

/-- Two entries of one path and one text have one range. -/
theorem entry_eq_of_entryText {sha256Hex : Bytes → Str} (hhex : ∀ bytes, '=' ∉ sha256Hex bytes)
    {root' : Checkout} {e e' : PatchEntry} (hpath : e.path = e'.path)
    (htext : entryText sha256Hex root e = entryText sha256Hex root' e') : e = e' := by
  have hspell : ∀ (root : Checkout) (e : PatchEntry), ∃ digest, '=' ∉ digest ∧
      entryText sha256Hex root e =
        (e.path ++ (e.kernels.elim [] ('@' :: ·))) ++ '=' :: digest := by
    intro root e
    have hdigest : '=' ∉ (root.file e.path).elim "<unreadable>".toList sha256Hex := by
      cases root.file e.path with
      | none =>
        show '=' ∉ "<unreadable>".toList
        decide
      | some bytes => exact hhex bytes
    refine ⟨_, hdigest, ?_⟩
    unfold entryText
    cases root.file e.path with
    | none =>
      cases e with
      | always path =>
        show _ = (path ++ []) ++ _
        rw [List.append_nil]
        rfl
      | ranged path range => rfl
    | some bytes =>
      cases e with
      | always path =>
        show _ = (path ++ []) ++ _
        rw [List.append_nil]
        rfl
      | ranged path range => rfl
  obtain ⟨digest, hdigest, he⟩ := hspell root e
  obtain ⟨digest', hdigest', he'⟩ := hspell root' e'
  rw [he, he'] at htext
  have hfront := ((append_cons_inj hdigest hdigest').mp htext).1
  rw [hpath] at hfront
  have hrange := List.append_cancel_left hfront
  cases e with
  | always path =>
    cases e' with
    | always path' => exact congrArg PatchEntry.always hpath
    | ranged path' range' => cases hrange
  | ranged path range =>
    cases e' with
    | always path' => cases hrange
    | ranged path' range' =>
      obtain rfl : path = path' := hpath
      obtain rfl : range = range' := List.tail_eq_of_cons_eq hrange
      rfl

/-! ### What the signature determines -/

/-- What git promises of two checkouts: clean at one commit, they hold the same. -/
def ContentAddressed (c d : Checkout) : Prop :=
  c.clean = true → d.clean = true → c.head = d.head →
    c.loadSeries = d.loadSeries ∧ c.file = d.file

namespace TreeBuild
variable (S : Crate) (stage : TreeStage)

/-- The paths the stage's version selects, series by series. -/
def selected (b : TreeBuild) : Outcome EngineError (List Str) :=
  if b.receives stage then
    match b.patchSource stage with
    | none => .ok []
    | some p => do
      let loaded ← loadNamed p
      composedLabels S stage.scope p.version loaded
  else .ok []

/-- No entry of a co-developed series spells, in the fingerprint, an entry of another path. -/
def Unaliased (a b : TreeBuild) : Prop :=
  ∀ p ∈ a.patchSource stage, ∀ q ∈ b.patchSource stage, p.dev = true →
    List.Forall₂ (fun e e' => e.path = e'.path)
      (liveEntries p.root p.pin.series.val stage.scope)
      (liveEntries q.root q.pin.series.val stage.scope)

variable {S stage} {a b : TreeBuild} {p q : PatchSource} {sha256Hex : Bytes → Str}

/-- One pin identified in one way is pinned on both sides, or has one fingerprint. -/
theorem dev_eq_of_same {f g : Slice Text} (hp : a.patchSource stage = some p)
    (hq : b.patchSource stage = some q) (ha : a.receives stage = true)
    (hb : b.receives stage = true)
    (h : PatchInputs.Same (a.patchInputs stage f) (b.patchInputs stage g)) :
    p.pin = q.pin ∧ p.dev = q.dev ∧ (p.dev = true → f = g) := by
  unfold patchInputs at h
  rw [ha, hb, hp, hq, if_pos rfl, if_pos rfl] at h
  unfold seriesIdentity at h
  obtain ⟨rootp, pinp, devp, vp⟩ := p
  obtain ⟨rootq, pinq, devq, vq⟩ := q
  cases devp <;> cases devq <;> cases h <;> simp

theorem receives_eq_of_same {f g : Slice Text}
    (h : PatchInputs.Same (a.patchInputs stage f) (b.patchInputs stage g)) :
    a.receives stage = b.receives stage := by
  have hsome : ∀ (b : TreeBuild) f, (b.patchInputs stage f).isSome = b.receives stage := by
    intro b f
    unfold patchInputs
    cases b.receives stage <;> rfl
  rw [← hsome a f, ← hsome b g, h.isSome_eq]

theorem isSome_patchSource_eq_of_same {f g : Slice Text} (ha : a.receives stage = true)
    (hb : b.receives stage = true)
    (h : PatchInputs.Same (a.patchInputs stage f) (b.patchInputs stage g)) :
    (a.patchSource stage).isSome = (b.patchSource stage).isSome := by
  have hpin : ∀ b : TreeBuild, b.receives stage = true → ∀ f,
      (PatchInputs.pin (b.patchInputs stage f)).isSome = (b.patchSource stage).isSome := by
    intro b hb f
    unfold patchInputs
    rw [hb, if_pos rfl]
    cases b.patchSource stage <;> rfl
  rw [← hpin a ha f, ← hpin b hb g, h.pin_eq]

/-- The files two builds select from are the same, path by path. -/
theorem file_eq_of_same (hsha : Function.Injective sha256Hex) (hhex : ∀ bytes, '=' ∉ sha256Hex bytes)
    (hgit : ContentAddressed p.root q.root) {f g : Slice Text}
    (hf : devSeriesFingerprint sha256Hex (some p) stage.scope = .ok f)
    (hg : devSeriesFingerprint sha256Hex (some q) stage.scope = .ok g) (hpin : p.pin = q.pin)
    (hdev : p.dev = q.dev) (hfg : p.dev = true → f = g)
    (hverify : verifyPatchesPin p.root p.pin.commit p.dev = .ok ())
    (hverify' : verifyPatchesPin q.root q.pin.commit q.dev = .ok ())
    (hun : p.dev = true → List.Forall₂ (fun e e' => e.path = e'.path)
      (liveEntries p.root p.pin.series.val stage.scope)
      (liveEntries q.root q.pin.series.val stage.scope)) {label : Str}
    (hlabel : ∃ e ∈ liveEntries p.root p.pin.series.val stage.scope, e.path = label)
    {bytes bytes' : Bytes} (hbytes : p.root.file label = some bytes)
    (hbytes' : q.root.file label = some bytes') : bytes = bytes' := by
  cases hp : p.dev with
  | false =>
    -- Both checkouts are clean at the pinned commit.
    obtain ⟨hhead, hclean⟩ := (of_verifyPatchesPin hverify).resolve_left (by rw [hp]; nofun)
    obtain ⟨hhead', hclean'⟩ :=
      (of_verifyPatchesPin hverify').resolve_left (by rw [← hdev, hp]; nofun)
    obtain ⟨-, hfile⟩ := hgit hclean hclean' (by rw [hhead, hhead', hpin])
    rw [← hfile] at hbytes'
    exact Option.some.inj (hbytes.symm.trans hbytes')
  | true =>
    -- The fingerprints spell the same text for the entry and its counterpart.
    have hq : q.dev = true := hdev.symm.trans hp
    unfold devSeriesFingerprint at hf hg
    simp only [hp, hq, if_true] at hf hg
    have htexts := (fingerprint_spells hf).symm.trans
      ((congrArg (fun f : Slice Text => f.val.map Subtype.val) (hfg hp)).trans (fingerprint_spells hg))
    obtain ⟨e, he, rfl⟩ := hlabel
    obtain ⟨i, hi, rfl⟩ := List.getElem_of_mem he
    have hlen := (hun hp).length_eq
    have hpath := (hun hp).get hi (hlen ▸ hi)
    have htext := List.getElem_of_eq htexts (by simpa using hi)
    simp only [List.getElem_map] at htext
    simp only [List.get_eq_getElem] at hpath
    rw [hpath] at hbytes'
    exact bytes_eq_of_entryText hsha hhex htext hbytes hbytes'

/-- The live entries of two builds are the same, in a co-developed series by their texts. -/
theorem liveEntries_eq_of_same (hhex : ∀ bytes, '=' ∉ sha256Hex bytes)
    (hgit : ContentAddressed p.root q.root) {f g : Slice Text}
    (hf : devSeriesFingerprint sha256Hex (some p) stage.scope = .ok f)
    (hg : devSeriesFingerprint sha256Hex (some q) stage.scope = .ok g) (hpin : p.pin = q.pin)
    (hdev : p.dev = q.dev) (hfg : p.dev = true → f = g)
    (hverify : verifyPatchesPin p.root p.pin.commit p.dev = .ok ())
    (hverify' : verifyPatchesPin q.root q.pin.commit q.dev = .ok ())
    (hun : p.dev = true → List.Forall₂ (fun e e' => e.path = e'.path)
      (liveEntries p.root p.pin.series.val stage.scope)
      (liveEntries q.root q.pin.series.val stage.scope)) :
    liveEntries p.root p.pin.series.val stage.scope =
      liveEntries q.root q.pin.series.val stage.scope := by
  cases hp : p.dev with
  | false =>
    obtain ⟨hhead, hclean⟩ := (of_verifyPatchesPin hverify).resolve_left (by rw [hp]; nofun)
    obtain ⟨hhead', hclean'⟩ :=
      (of_verifyPatchesPin hverify').resolve_left (by rw [← hdev, hp]; nofun)
    obtain ⟨hload, -⟩ := hgit hclean hclean' (by rw [hhead, hhead', hpin])
    unfold liveEntries
    rw [hload, hpin]
  | true =>
    have hq : q.dev = true := hdev.symm.trans hp
    unfold devSeriesFingerprint at hf hg
    simp only [hp, hq, if_true] at hf hg
    have htexts := (fingerprint_spells hf).symm.trans
      ((congrArg (fun f : Slice Text => f.val.map Subtype.val) (hfg hp)).trans
        (fingerprint_spells hg))
    have hlen := (hun hp).length_eq
    refine List.ext_getElem hlen fun i hi hi' => ?_
    have hpath := (hun hp).get hi hi'
    have htext := List.getElem_of_eq htexts (by simpa using hi)
    simp only [List.getElem_map] at htext
    exact entry_eq_of_entryText hhex hpath htext

section
variable (hsha : Function.Injective sha256Hex) (hhex : ∀ bytes, '=' ∉ sha256Hex bytes)
  (hgit : ∀ p ∈ a.patchSource stage, ∀ q ∈ b.patchSource stage, ContentAddressed p.root q.root)
  {signature : Signature} (ha : a.treeSignature sha256Hex stage = .ok signature)
  (hb : b.treeSignature sha256Hex stage = .ok signature)
  {x y : Str × List (Str × Bytes)} (hx : a.patchedTree S stage = .ok x)
  (hy : b.patchedTree S stage = .ok y) (hun : Unaliased stage a b)
include hsha hhex hgit ha hb hx hy hun

/-- One commit is patched, and what is applied is the same where the same paths are selected. -/
theorem patched_eq_iff_selected : x = y ↔ a.selected S stage = b.selected S stage := by
  obtain ⟨hcommit, -, f, g, hf, hg, hsame⟩ := same_of_treeSignature_eq stage hsha ha hb
  obtain ⟨la, hla, hx⟩ := Outcome.bind_eq_ok.mp hx
  obtain ⟨lb, hlb, hy⟩ := Outcome.bind_eq_ok.mp hy
  obtain rfl := Outcome.ok.inj hx
  obtain rfl := Outcome.ok.inj hy
  rw [Prod.mk.injEq, hcommit, and_iff_right rfl]
  unfold appliedPatches at hla hlb
  unfold selected
  have hreceives := receives_eq_of_same hsame
  cases hra : a.receives stage with
  | false =>
    rw [hra, if_neg Bool.false_ne_true] at hla
    rw [← hreceives, hra, if_neg Bool.false_ne_true] at hlb
    rw [← hreceives, hra, if_neg Bool.false_ne_true]
    exact iff_of_true ((Outcome.ok.inj hla).symm.trans (Outcome.ok.inj hlb)) rfl
  | true =>
    have hrb : b.receives stage = true := hreceives.symm.trans hra
    rw [hra, if_pos rfl] at hla
    rw [hrb, if_pos rfl] at hlb
    rw [hrb, if_pos rfl, if_pos rfl]
    have hsource := isSome_patchSource_eq_of_same hra hrb hsame
    cases hpa : a.patchSource stage with
    | none =>
      have hpb : b.patchSource stage = none := by
        rw [hpa] at hsource
        exact Option.isSome_eq_false_iff.mp hsource.symm |> Option.isNone_iff_eq_none.mp
      rw [hpa] at hla
      rw [hpb] at hlb ⊢
      exact iff_of_true ((Outcome.ok.inj hla).symm.trans (Outcome.ok.inj hlb)) rfl
    | some p =>
      obtain ⟨q, hpb⟩ : ∃ q, b.patchSource stage = some q := by
        rw [hpa] at hsource
        exact Option.isSome_iff_exists.mp hsource.symm
      rw [hpa] at hla hf
      rw [hpb] at hlb hg ⊢
      obtain ⟨hpin, hdev, hfg⟩ := dev_eq_of_same hpa hpb hra hrb hsame
      obtain ⟨hverify, loaded, labels, hload, hlabels, happly⟩ := of_applySeriesScope hla
      obtain ⟨hverify', loaded', labels', hload', hlabels', happly'⟩ :=
        of_applySeriesScope hlb
      have hsel : (loadNamed p >>= fun loaded => composedLabels S stage.scope p.version loaded) =
          .ok labels := Outcome.bind_eq_ok.mpr ⟨loaded, hload, hlabels⟩
      have hsel' : (loadNamed q >>= fun loaded => composedLabels S stage.scope q.version loaded) =
          .ok labels' := Outcome.bind_eq_ok.mpr ⟨loaded', hload', hlabels'⟩
      show la = lb ↔ (loadNamed p >>= _) = (loadNamed q >>= _)
      rw [hsel, hsel', Outcome.ok.injEq]
      refine applied_eq_iff happly happly' fun _ label hlabel bytes bytes' hbytes hbytes' => ?_
      exact file_eq_of_same hsha hhex (hgit p hpa q hpb) hf hg hpin hdev hfg hverify hverify'
        (hun p hpa q hpb) (mem_liveEntries_of_label hload hlabels hlabel) hbytes hbytes'

/-- The kernel stage folds the version it selects by. -/
theorem selected_eq_of_kernel (hstage : stage = .kernel) :
    a.selected S stage = b.selected S stage := by
  obtain ⟨-, hreference, f, g, hf, hg, hsame⟩ := same_of_treeSignature_eq stage hsha ha hb
  obtain ⟨la, hla, -⟩ := Outcome.bind_eq_ok.mp hx
  obtain ⟨lb, hlb, -⟩ := Outcome.bind_eq_ok.mp hy
  have hra : a.receives stage = true := by rw [hstage]; rfl
  have hrb : b.receives stage = true := by rw [hstage]; rfl
  unfold appliedPatches at hla hlb
  unfold selected
  rw [hra, if_pos rfl] at hla
  rw [hrb, if_pos rfl] at hlb
  rw [hra, hrb, if_pos rfl, if_pos rfl]
  have hsource := isSome_patchSource_eq_of_same hra hrb hsame
  cases hpa : a.patchSource stage with
  | none =>
    rw [hpa] at hsource
    rw [Option.isNone_iff_eq_none.mp (Option.isSome_eq_false_iff.mp hsource.symm)]
  | some p =>
    obtain ⟨q, hpb⟩ : ∃ q, b.patchSource stage = some q := by
      rw [hpa] at hsource
      exact Option.isSome_iff_exists.mp hsource.symm
    rw [hpa] at hla hf
    rw [hpb] at hlb hg ⊢
    obtain ⟨hpin, hdev, hfg⟩ := dev_eq_of_same hpa hpb hra hrb hsame
    obtain ⟨hverify, loaded, labels, hload, hlabels, -⟩ := of_applySeriesScope hla
    obtain ⟨hverify', loaded', labels', hload', hlabels', -⟩ := of_applySeriesScope hlb
    have hversion : p.version = q.version := by
      obtain ⟨_, -, rfl⟩ := Option.map_eq_some_iff.mp hpa
      obtain ⟨_, -, rfl⟩ := Option.map_eq_some_iff.mp hpb
      rw [hstage]
      exact hreference hstage
    have hlive := liveEntries_eq_of_same hhex (hgit p hpa q hpb) hf hg hpin hdev hfg hverify
      hverify' (hun p hpa q hpb)
    have hlabel : labels = labels' := by
      rw [labels_eq hload hlabels, labels_eq hload' hlabels', hlive, hversion]
    show (loadNamed p >>= _) = (loadNamed q >>= _)
    rw [Outcome.bind_eq_ok.mpr ⟨loaded, hload, hlabels⟩,
      Outcome.bind_eq_ok.mpr ⟨loaded', hload', hlabels'⟩, hlabel]

end

/-- A pinned build whose ffmpeg series drops a patch from one kernel on. -/
def ranged (kernelReference : Text) : TreeBuild where
  commit := lit "4f1c"
  reference := lit "n7.1"
  kernelReference := kernelReference
  patches := some (⟨"9a0b".toList, true,
    fun _ => .ok ⟨none, none, none, [], [.ranged "v4l2.patch".toList "<7.3".toList], [], [], [], []⟩,
    fun _ => some [0x2d]⟩, ⟨slice [lit "rk3588"], lit "9a0b"⟩, false)
  patched := true
  deviceDts := slice [] (Nat.zero_le _)

end TreeBuild

end Boot2Deb.Engine
