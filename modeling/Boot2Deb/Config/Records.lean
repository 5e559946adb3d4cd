import Boot2Deb.Config.Loader

/-!
# Committed records

The files a build point commits beside its recipe: the lock, the outputs record, the solved package
manifest and an app's NuGet sidecar. All stay in the `recipes` folder of a search root
(`recordPath_under_recipes`); two of them collide exactly where a name spells another's suffix
(`recordPath_inj_iff`).
-/

namespace Boot2Deb.Config
open Rust Lib

/-- `validate_build_ref`: a recipe reference, then features behind `+`. -/
def validateBuildRef (name : Str) : Outcome ConfigError Unit :=
  let parts := name.splitOn featureSep
  do
    validateRecipeRef (parts.headD [])
    let _ ← Outcome.mapM (validateName "feature") parts.tail
    .ok ()

/-- Everything before the first `+`. -/
def recipeHalf (name : Str) : Str := (name.splitOn featureSep).headD name

namespace ConfigRoot

/-- The path of `recipes/<name>.lock`, in the root of the recipe. -/
def lockPath (root : ConfigRoot) (name : Str) : Lookup Path := do
  Recorded.lift (validateBuildRef name)
  let owner ← root.owningRoot "recipes".toList (recipeHalf name)
  let path := Path.join (Path.join owner "recipes".toList) (name ++ ".lock".toList)
  Recorded.note path
  Recorded.pure path

/-- The path of a file beside the lock. -/
def lockSibling (root : ConfigRoot) (name filename : Str) : Lookup Path :=
  let bare := !filename.isEmpty && !filename.contains '/' && !filename.contains '\\' &&
    filename != ".".toList && filename != "..".toList && filename.head? != some '-'
  if !bare then Recorded.lift (.err (.invalidName "lock sibling" filename))
  else do
    let lock ← root.lockPath name
    let path := lock.withFileName filename
    Recorded.note path
    Recorded.pure path

/-- The path of the outputs record beside the lock. -/
def outputsPath (root : ConfigRoot) (name : Str) : Lookup Path := do
  let lock ← root.lockPath name
  let path := lock.withExtension "outputs".toList
  Recorded.note path
  Recorded.pure path

end ConfigRoot

/-- `manifest_name`. -/
def manifestName (stem : Str) : Str := stem ++ ".pkgs.lock".toList

/-- `sidecar_name`. -/
def sidecarName (stem app : Str) : Str := stem ++ '.' :: app ++ ".nuget.lock".toList

/-- The leaf the files beside a lock are named for: what is behind the last `/`. -/
def leafOf (name : Str) : Str := (name.splitOn '/').getLastD name

/-- The app names `check_app` accepts. -/
def isAppName (name : Str) : Bool :=
  !name.isEmpty && name.all fun c => c.isLower || c.isDigit || c == '-' || c == '_'

/-- The kinds of committed file; a sidecar is that of an app. -/
inductive RecordKind where
  | lock
  | outputs
  | manifest
  | nuget (app : {name : Str // isAppName name})
deriving DecidableEq

/-- Where a build point commits a file of a kind. -/
def recordPath (root : ConfigRoot) : RecordKind → Str → Lookup Path
  | .lock, name => root.lockPath name
  | .outputs, name => root.outputsPath name
  | .manifest, name => root.lockSibling name (manifestName (leafOf name))
  | .nuget app, name => root.lockSibling name (sidecarName (leafOf name) app)

/-! ### The parts of a reference -/

variable {name leaf device' : Str} {device : Option Str} {root : ConfigRoot} {t : Tree}

/-- The device folder of a reference, where it names one. -/
def deviceOf (name : Str) : Option Str := (splitOnce name '/').map Prod.fst

/-- A reference cut at its slash: the device folder, where there is one, and the leaf with what the
features put behind it. -/
structure Parts (name : Str) (device : Option Str) (leaf : Str) : Prop where
  name_eq : name = (device.map (· ++ ['/'])).getD [] ++ leaf
  slash_leaf : '/' ∉ leaf
  backslash_leaf : '\\' ∉ leaf
  head_leaf : leaf.head? ≠ some '.'
  leaf_ne_nil : leaf ≠ []
  device_bare : ∀ d ∈ device, isBareName d

theorem notMem_of_isBareName {s : Str} {c : Char} (h : isBareName s)
    (hc : ¬(c.isAlphanum ∨ c = '.' ∨ c = '_' ∨ c = '-')) : c ∉ s :=
  fun hmem => hc (BuildPoint.isAlphanum_or_of_mem h hmem)

theorem notMem_intercalate {c : Char} {parts : List Str} (hc : c ≠ '+')
    (h : ∀ f ∈ parts, c ∉ f) : c ∉ ['+'].intercalate parts := by
  induction parts with
  | nil => simp
  | cons f parts ih =>
    have hf := h f List.mem_cons_self
    have hrest := ih fun g hg => h g (List.mem_cons_of_mem _ hg)
    cases parts with
    | nil => simpa using hf
    | cons g parts =>
      rw [List.intercalate_cons_cons]
      simp [hf, hrest, hc]

theorem intercalate_append_cons (sep x y : Str) (parts : List Str) :
    sep.intercalate ((x ++ y) :: parts) = x ++ sep.intercalate (y :: parts) := by
  cases parts with
  | nil => simp
  | cons f parts => simp [List.intercalate_cons_cons]

theorem head?_intercalate_cons {sep x : Str} (parts : List Str) (hx : x ≠ []) :
    (sep.intercalate (x :: parts)).head? = x.head? := by
  cases parts with
  | nil => simp
  | cons f parts =>
    rw [List.intercalate_cons_cons, List.append_assoc, List.head?_append_of_ne_nil _ hx]

theorem isBareName_of_mapM {kind : String} {names : List Str} {us : List Unit}
    (h : Outcome.mapM (validateName kind) names = .ok us) : ∀ f ∈ names, isBareName f := by
  intro f hf
  obtain ⟨_, -, hname⟩ := (Outcome.mapM_eq_ok h).1 f hf
  unfold validateName at hname
  split_ifs at hname with hbare
  exact hbare

/-- A bare leaf and bare features make the leaf of a reference. -/
theorem parts_of_isBareName {first : Str} {features : List Str} (hdevice : ∀ d ∈ device, isBareName d)
    (hfirst : isBareName first) (hfeatures : ∀ f ∈ features, isBareName f) :
    Parts ((device.map (· ++ ['/'])).getD [] ++ ['+'].intercalate (first :: features)) device
      (['+'].intercalate (first :: features)) := by
  have hparts : ∀ f ∈ first :: features, isBareName f := List.forall_mem_cons.mpr ⟨hfirst, hfeatures⟩
  have hne := BuildPoint.ne_nil_of_isBareName hfirst
  have hhead := @head?_intercalate_cons ['+'] first features hne
  refine ⟨rfl, notMem_intercalate (by decide) fun f hf => BuildPoint.slash_not_mem (hparts f hf),
    notMem_intercalate (by decide) fun f hf => notMem_of_isBareName (hparts f hf) (by decide),
    ?_, ?_, hdevice⟩
  · rw [hhead]
    unfold isBareName at hfirst
    simp only [Bool.and_eq_true, bne_iff_ne] at hfirst
    exact hfirst.1.2
  · intro hnil
    rw [hnil] at hhead
    exact hne (List.head?_eq_none_iff.mp hhead.symm)

/-- An accepted reference has its parts. -/
theorem exists_parts (h : validateBuildRef name = .ok ()) : ∃ device leaf, Parts name device leaf := by
  have hjoin : ['+'].intercalate (name.splitOn '+') = name := List.intercalate_splitOn '+'
  unfold validateBuildRef featureSep at h
  obtain ⟨first, features, hsplit⟩ := List.exists_cons_of_ne_nil (List.splitOn_ne_nil '+' name)
  rw [hsplit] at h hjoin
  obtain ⟨_, hrecipe, h⟩ := Outcome.bind_eq_ok.mp h
  obtain ⟨_, hfeatures, -⟩ := Outcome.bind_eq_ok.mp h
  unfold validateRecipeRef at hrecipe
  split_ifs at hrecipe with href
  have hbare := isBareName_of_mapM hfeatures
  rcases BuildPoint.of_isRecipeRef href with hfirst | ⟨device, leaf, hfirst, hdevice, hleaf⟩
  · have hparts := @parts_of_isBareName none _ _ (by simp) hfirst hbare
    rw [List.headD_cons, List.tail_cons, hjoin] at hparts
    exact ⟨none, name, hparts⟩
  · have hparts := @parts_of_isBareName (some device) _ _ (by simpa using hdevice) hleaf hbare
    rw [List.headD_cons] at hfirst
    have hsplit' : device ++ '/' :: leaf = (device ++ ['/']) ++ leaf := by simp
    rw [hfirst, hsplit', intercalate_append_cons] at hjoin
    rw [List.tail_cons] at hparts
    refine ⟨some device, ['+'].intercalate (leaf :: features), ?_⟩
    rw [← hjoin]
    exact hparts

theorem mapM_validateName {kind : String} {names : List Str} (h : ∀ f ∈ names, isBareName f) :
    Outcome.mapM (validateName kind) names = .ok (names.map fun _ => ()) := by
  induction names with
  | nil => rfl
  | cons f names ih =>
    have hf : validateName kind f = .ok () := if_pos (h f List.mem_cons_self)
    rw [Outcome.mapM, hf, ih fun g hg => h g (List.mem_cons_of_mem _ hg)]
    rfl

/-- A build point's reference is accepted. -/
theorem validateBuildRef_reference (p : BuildPoint) : validateBuildRef p.reference = .ok () := by
  have hrecipe : validateRecipeRef p.recipe = .ok () := if_pos p.isRecipeRef_recipe
  unfold validateBuildRef
  rw [BuildPoint.reference_eq, featureSep,
    List.splitOn_intercalate '+' p.plus_not_mem_parts (List.cons_ne_nil _ _)]
  show (validateRecipeRef p.recipe >>= fun _ =>
    Outcome.mapM (validateName "feature") p.features >>= fun _ => .ok ()) = .ok ()
  rw [hrecipe, mapM_validateName p.isBareName_of_mem_features]
  rfl

/-! ### The paths -/

theorem Parts.slash_device (h : Parts name (some device') leaf) : '/' ∉ device' :=
  BuildPoint.slash_not_mem (h.device_bare device' rfl)

theorem leafOf_eq (h : Parts name device leaf) : leafOf name = leaf := by
  unfold leafOf
  rw [h.name_eq]
  cases device with
  | none => simp [List.splitOn_eq_singleton h.slash_leaf]
  | some d =>
    have hsplit : List.splitOn '/' (d ++ '/' :: leaf) = [d, leaf] := by
      rw [List.splitOn_append_cons_self_of_not_mem h.slash_device,
        List.splitOn_eq_singleton h.slash_leaf]
    simp [hsplit]

theorem deviceOf_eq (h : Parts name device leaf) : deviceOf name = device := by
  unfold deviceOf
  rw [h.name_eq]
  cases device with
  | none => simp [splitOnce_eq_none.mpr h.slash_leaf]
  | some d => simp [splitOnce_append_cons h.slash_device]

/-- A name that stays one component. -/
theorem components_of_slash_notMem {s : Str} (h : '/' ∉ s) (hne : s ≠ []) (hdot : s ≠ ['.']) :
    components s = [s] := by
  have hhead : s.head? ≠ some '/' := fun hs => h (List.mem_of_head? hs)
  unfold components
  rw [if_neg hhead, List.splitOn_eq_singleton h]
  simp [hne, hdot]

theorem components_append_cons {d s : Str} (hd : '/' ∉ d) (hne : d ≠ []) (hdot : d ≠ ['.'])
    (h : '/' ∉ s) (hs : s ≠ []) (hsdot : s ≠ ['.']) : components (d ++ '/' :: s) = [d, s] := by
  have hhead : (d ++ '/' :: s).head? ≠ some '/' := by
    rw [List.head?_append_of_ne_nil _ hne]
    exact fun hs => hd (List.mem_of_head? hs)
  unfold components
  rw [if_neg hhead, List.splitOn_append_cons_self_of_not_mem hd, List.splitOn_eq_singleton h]
  simp [hne, hdot, hs, hsdot]

/-- A ending of a file name: it starts with a dot and has no separator. -/
structure IsSuffix (ending : Str) : Prop where
  head : ending.head? = some '.'
  slash : '/' ∉ ending
  backslash : '\\' ∉ ending
  long : 2 ≤ ending.length

variable {ending : Str}

theorem Parts.file_ne (h : Parts name device leaf) (hs : IsSuffix ending) :
    '/' ∉ leaf ++ ending ∧ leaf ++ ending ≠ [] ∧ 3 ≤ (leaf ++ ending).length := by
  have hleaf := List.length_pos_of_ne_nil h.leaf_ne_nil
  have hlong := hs.long
  refine ⟨by simp [h.slash_leaf, hs.slash], by simp [h.leaf_ne_nil], ?_⟩
  rw [List.length_append]
  omega

theorem Parts.components_file (h : Parts name device leaf) (hs : IsSuffix ending) :
    components (leaf ++ ending) = [leaf ++ ending] := by
  obtain ⟨hslash, hne, hlong⟩ := h.file_ne hs
  refine components_of_slash_notMem hslash hne fun hdot => ?_
  rw [hdot] at hlong
  simp at hlong

theorem Parts.head_file (h : Parts name device leaf) (ending : Str) :
    (leaf ++ ending).head? = leaf.head? := List.head?_append_of_ne_nil _ h.leaf_ne_nil

theorem Parts.join_file (h : Parts name device leaf) (hs : IsSuffix ending) (p : Path) :
    Path.join p (leaf ++ ending) = p ++ [leaf ++ ending] := by
  obtain ⟨hslash, -, -⟩ := h.file_ne hs
  unfold Path.join
  rw [if_neg fun hh => hslash (List.mem_of_head? hh), h.components_file hs]

/-- Joining a reference with a ending descends into the device folder. -/
theorem Parts.join_name (h : Parts name device leaf) (hs : IsSuffix ending) (p : Path) :
    Path.join p (name ++ ending) = p ++ (device.toList ++ [leaf ++ ending]) := by
  rw [h.name_eq]
  cases device with
  | none => simpa using h.join_file hs p
  | some d =>
    have hbare := h.device_bare d rfl
    have hne := BuildPoint.ne_nil_of_isBareName hbare
    obtain ⟨hslash, hfile, hlong⟩ := h.file_ne hs
    have hdot : leaf ++ ending ≠ ['.'] := fun he => by
      rw [he] at hlong
      simp at hlong
    have hd : d ≠ ['.'] := by
      rintro rfl
      revert hbare
      decide
    have hsplit : (Option.map (· ++ ['/']) (some d)).getD [] ++ leaf ++ ending =
        d ++ '/' :: (leaf ++ ending) := by simp
    have hhead : (d ++ '/' :: (leaf ++ ending)).head? ≠ some '/' := by
      rw [List.head?_append_of_ne_nil _ hne]
      exact fun he => h.slash_device (List.mem_of_head? he)
    rw [hsplit]
    unfold Path.join
    rw [if_neg hhead, components_append_cons h.slash_device hne hd hslash hfile hdot]
    rfl

/-- The folder a reference's records stand in. -/
def folder (root : ConfigRoot) (t : Tree) (name : Str) : Path :=
  root.owner "recipes".toList (recipeHalf name) t ++ "recipes".toList :: (deviceOf name).toList

/-- What a kind puts behind the leaf. -/
def RecordKind.suffix : RecordKind → Str
  | .lock => ".lock".toList
  | .outputs => ".outputs".toList
  | .manifest => ".pkgs.lock".toList
  | .nuget app => '.' :: app ++ ".nuget.lock".toList

/-- A manifest or sidecar is refused for a leaf that looks like an option. -/
def RecordKind.Written (kind : RecordKind) (leaf : Str) : Prop :=
  kind = .lock ∨ kind = .outputs ∨ leaf.head? ≠ some '-'

theorem notMem_of_isAppName {app : Str} (h : isAppName app) {c : Char}
    (hc : ¬(c.isLower ∨ c.isDigit ∨ c = '-' ∨ c = '_')) : c ∉ app := by
  intro hmem
  unfold isAppName at h
  rw [Bool.and_eq_true, List.all_eq_true] at h
  exact hc (by simpa [or_assoc] using h.2 c hmem)

theorem isSuffix_append {app ending : Str} (happ : '/' ∉ app) (hback : '\\' ∉ app)
    (h : IsSuffix ending) : IsSuffix ('.' :: app ++ ending) := by
  have hlong := h.long
  refine ⟨rfl, ?_, ?_, ?_⟩
  · simpa [happ] using h.slash
  · simpa [hback] using h.backslash
  · rw [List.length_append]
    omega

theorem RecordKind.isSuffix (kind : RecordKind) : IsSuffix kind.suffix := by
  cases kind with
  | lock => exact ⟨by decide, by decide, by decide, by decide⟩
  | outputs => exact ⟨by decide, by decide, by decide, by decide⟩
  | manifest => exact ⟨by decide, by decide, by decide, by decide⟩
  | nuget app =>
    exact isSuffix_append (notMem_of_isAppName app.2 (by decide))
      (notMem_of_isAppName app.2 (by decide)) ⟨by decide, by decide, by decide, by decide⟩

theorem isSuffix_lock : IsSuffix ".lock".toList := RecordKind.lock.isSuffix

/-- The lock's path is the folder, the leaf and its suffix. -/
theorem value_lockPath (hname : validateBuildRef name = .ok ()) (h : Parts name device leaf) :
    (root.lockPath name).value t = .ok (folder root t name ++ [leaf ++ ".lock".toList]) := by
  have hrecipes : ∀ p, Path.join p "recipes".toList = p ++ ["recipes".toList] := fun p => by
    unfold Path.join
    rw [if_neg (by decide), components_of_slash_notMem (by decide) (by decide) (by decide)]
  unfold ConfigRoot.lockPath folder
  simp only [Recorded.value_bind, Recorded.value_lift, hname, Outcome.ok_bind,
    ConfigRoot.value_owningRoot, Recorded.value_note, Recorded.value_pure, hrecipes,
    h.join_name isSuffix_lock, deviceOf_eq h, List.append_assoc, List.cons_append, List.nil_append]

theorem fileName_append (p : Path) {s : Str} (h : 3 ≤ s.length) :
    Path.fileName (p ++ [s]) = some s := by
  have hdots : s ≠ "..".toList := by
    rintro rfl
    exact absurd h (by decide)
  have hslash : s ≠ ['/'] := by
    rintro rfl
    exact absurd h (by decide)
  unfold Path.fileName
  rw [List.getLast?_append_of_ne_nil _ (List.cons_ne_nil _ _)]
  exact if_pos (decide_eq_true ⟨hdots, hslash⟩)

theorem Parts.withFileName_lock (h : Parts name device leaf) {ending : Str} (hs : IsSuffix ending)
    (p : Path) : (p ++ [leaf ++ ".lock".toList]).withFileName (leaf ++ ending) =
      p ++ [leaf ++ ending] := by
  obtain ⟨-, -, hlong⟩ := h.file_ne isSuffix_lock
  unfold Path.withFileName
  rw [fileName_append p hlong, Option.isSome_some, if_pos rfl, List.dropLast_concat, h.join_file hs]

theorem fileStem_lock (h : leaf ≠ []) : fileStem (leaf ++ ".lock".toList) = leaf := by
  have hfind : rfind (leaf ++ ".lock".toList) '.' = some leaf.length :=
    rfind_append_cons (by decide)
  obtain ⟨n, hn⟩ := Nat.exists_eq_succ_of_ne_zero (List.length_pos_of_ne_nil h).ne'
  unfold fileStem
  rw [hfind, hn]
  show List.take (n + 1) _ = leaf
  rw [← Nat.succ_eq_add_one, ← hn, List.take_left]

theorem Parts.withExtension_lock (h : Parts name device leaf) (p : Path) :
    (p ++ [leaf ++ ".lock".toList]).withExtension "outputs".toList =
      p ++ [leaf ++ ".outputs".toList] := by
  obtain ⟨-, -, hlong⟩ := h.file_ne isSuffix_lock
  unfold Path.withExtension
  rw [fileName_append p hlong, List.dropLast_concat]
  show p ++ [fileStem (leaf ++ ".lock".toList) ++ _] = _
  rw [fileStem_lock h.leaf_ne_nil]
  rfl

/-- A sibling is written unless its name looks like an option. -/
theorem value_lockSibling (hname : validateBuildRef name = .ok ()) (h : Parts name device leaf)
    {ending : Str} (hs : IsSuffix ending) {path : Path} :
    (root.lockSibling name (leaf ++ ending)).value t = .ok path ↔
      leaf.head? ≠ some '-' ∧ path = folder root t name ++ [leaf ++ ending] := by
  obtain ⟨hslash, hne, hlong⟩ := h.file_ne hs
  have hback : '\\' ∉ leaf ++ ending := by simp [h.backslash_leaf, hs.backslash]
  have hdot : leaf ++ ending ≠ ".".toList := fun he => by simp [he] at hlong
  have hdots : leaf ++ ending ≠ "..".toList := fun he => by simp [he] at hlong
  unfold ConfigRoot.lockSibling
  by_cases hhead : leaf.head? = some '-'
  · have hfile : (leaf ++ ending).head? = some '-' := (h.head_file ending).trans hhead
    simp [hfile, hhead]
  · have hfile : (leaf ++ ending).head? ≠ some '-' := (h.head_file ending).trans_ne hhead
    have hbare : (!(leaf ++ ending).isEmpty && !(leaf ++ ending).contains '/' &&
        !(leaf ++ ending).contains '\\' && leaf ++ ending != ".".toList &&
        leaf ++ ending != "..".toList && (leaf ++ ending).head? != some '-') = true := by
      simp only [Bool.and_eq_true, Bool.not_eq_true', List.isEmpty_eq_false_iff, bne_iff_ne,
        List.contains_eq_mem, decide_eq_false_iff_not]
      exact ⟨⟨⟨⟨⟨hne, hslash⟩, hback⟩, hdot⟩, hdots⟩, hfile⟩
    simp only [hbare, Bool.not_true, Bool.false_eq_true, if_false, Recorded.value_bind,
      value_lockPath hname h, Outcome.ok_bind, Recorded.value_note, Recorded.value_pure,
      h.withFileName_lock hs, Outcome.ok.injEq, ne_eq, hhead, not_false_eq_true, true_and]
    exact eq_comm

/-- Where a kind's file is written, and when. -/
theorem value_recordPath (hname : validateBuildRef name = .ok ()) (h : Parts name device leaf)
    {kind : RecordKind} {path : Path} : (recordPath root kind name).value t = .ok path ↔
      kind.Written leaf ∧ path = folder root t name ++ [leaf ++ kind.suffix] := by
  have hleaf := leafOf_eq h
  cases kind with
  | lock =>
    show (root.lockPath name).value t = _ ↔ _
    rw [value_lockPath hname h]
    exact ⟨fun he => ⟨Or.inl rfl, (Outcome.ok.inj he).symm⟩, fun he => congrArg _ he.2.symm⟩
  | outputs =>
    have hpath : (root.outputsPath name).value t =
        .ok (folder root t name ++ [leaf ++ ".outputs".toList]) := by
      unfold ConfigRoot.outputsPath
      simp only [Recorded.value_bind, value_lockPath hname h, Outcome.ok_bind, Recorded.value_note,
        Recorded.value_pure, h.withExtension_lock]
    show (root.outputsPath name).value t = _ ↔ _
    rw [hpath]
    exact ⟨fun he => ⟨Or.inr (Or.inl rfl), (Outcome.ok.inj he).symm⟩,
      fun he => congrArg _ he.2.symm⟩
  | manifest =>
    show (root.lockSibling name (manifestName (leafOf name))).value t = _ ↔ _
    rw [hleaf]
    refine (value_lockSibling hname h RecordKind.manifest.isSuffix).trans ?_
    rw [RecordKind.Written, or_iff_right (by simp), or_iff_right (by simp)]
  | nuget app =>
    have hfile : sidecarName leaf app = leaf ++ (RecordKind.nuget app).suffix :=
      List.append_assoc ..
    show (root.lockSibling name (sidecarName (leafOf name) app)).value t = _ ↔ _
    rw [hleaf, hfile]
    refine (value_lockSibling hname h (RecordKind.nuget app).isSuffix).trans ?_
    rw [RecordKind.Written, or_iff_right (by simp), or_iff_right (by simp)]

/-! ### Collisions -/

variable {p q d e : Str} {dp dq : Option Str} {kind other : RecordKind}

/-- Two references whose records stand in one folder: those of one device in one root, or those of
the device `recipes` of a root and the bare leaves of a root that is the former's recipe folder. -/
def SameFolder (root : ConfigRoot) (t : Tree) (p q : Str) : Prop :=
  let owner := fun name => root.owner "recipes".toList (recipeHalf name) t
  (owner p = owner q ∧ deviceOf p = deviceOf q) ∨
  (owner q = owner p ++ ["recipes".toList] ∧ deviceOf p = some "recipes".toList ∧
    deviceOf q = none) ∨
  (owner p = owner q ++ ["recipes".toList] ∧ deviceOf q = some "recipes".toList ∧
    deviceOf p = none)

/-- A leaf with a lock that spells the other leaf's manifest or sidecar. -/
def Spells : RecordKind → RecordKind → Str → Str → Prop
  | .lock, .manifest, leaf, other => leaf = other ++ ".pkgs".toList
  | .lock, .nuget app, leaf, other => leaf = other ++ '.' :: app ++ ".nuget".toList
  | _, _, _, _ => False

/-- Two different records of one path. -/
def Collide (root : ConfigRoot) (t : Tree) (kind other : RecordKind) (p q : Str) : Prop :=
  SameFolder root t p q ∧ kind.Written (leafOf p) ∧ other.Written (leafOf q) ∧
    (Spells kind other (leafOf p) (leafOf q) ∨ Spells other kind (leafOf q) (leafOf p) ∨
      kind = other ∧ leafOf p = leafOf q ∧ p ≠ q)

theorem append_cons_toList_eq_iff {r : Str} {a b : Path} {x y : Option Str} :
    a ++ r :: x.toList = b ++ r :: y.toList ↔
      (a = b ∧ x = y) ∨ (b = a ++ [r] ∧ x = some r ∧ y = none) ∨
        (a = b ++ [r] ∧ y = some r ∧ x = none) := by
  cases x with
  | none =>
    cases y with
    | none => simp
    | some d =>
      have hcut : b ++ [r, d] = (b ++ [r]) ++ [d] := by simp
      simp only [Option.toList_none, Option.toList_some, hcut, reduceCtorEq, and_false, false_or,
        and_true, Option.some.injEq]
      constructor
      · intro h
        obtain ⟨rfl, hr⟩ := List.append_inj' h rfl
        exact ⟨rfl, (List.cons.inj hr).1.symm⟩
      · rintro ⟨rfl, rfl⟩
        rfl
  | some d =>
    cases y with
    | none =>
      have hcut : a ++ [r, d] = (a ++ [r]) ++ [d] := by simp
      simp only [Option.toList_none, Option.toList_some, hcut, reduceCtorEq, and_false, false_or,
        and_true, or_false, Option.some.injEq]
      constructor
      · intro h
        obtain ⟨rfl, hr⟩ := List.append_inj' h rfl
        exact ⟨rfl, (List.cons.inj hr).1⟩
      · rintro ⟨rfl, rfl⟩
        rfl
    | some e =>
      simp only [Option.toList_some, Option.some.injEq, reduceCtorEq, and_false, or_false]
      constructor
      · intro h
        obtain ⟨rfl, hr⟩ := List.append_inj' h rfl
        exact ⟨rfl, (List.cons.inj (List.cons.inj hr).2).1⟩
      · rintro ⟨rfl, rfl⟩
        rfl

theorem folder_eq_iff : folder root t p = folder root t q ↔ SameFolder root t p q :=
  append_cons_toList_eq_iff

/-- What a suffix has before its extension. -/
def RecordKind.stem : RecordKind → Str
  | .lock | .outputs => []
  | .manifest => ".pkgs".toList
  | .nuget app => '.' :: app ++ ".nuget".toList

/-- The extension of a kind. -/
def RecordKind.extension : RecordKind → Str
  | .outputs => "outputs".toList
  | _ => "lock".toList

theorem RecordKind.suffix_eq (kind : RecordKind) :
    kind.suffix = kind.stem ++ '.' :: kind.extension := by
  cases kind with
  | lock => rfl
  | outputs => rfl
  | manifest => rfl
  | nuget app =>
    show '.' :: app.1 ++ ".nuget.lock".toList = ('.' :: app.1 ++ ".nuget".toList) ++ ".lock".toList
    rw [List.append_assoc]
    rfl

theorem RecordKind.dot_notMem_extension (kind : RecordKind) : '.' ∉ kind.extension := by
  have hlock : '.' ∉ "lock".toList := by decide
  cases kind with
  | lock => exact hlock
  | outputs => decide
  | manifest => exact hlock
  | nuget app => exact hlock

theorem append_suffix_eq_iff_stem : d ++ kind.suffix = e ++ other.suffix ↔
    d ++ kind.stem = e ++ other.stem ∧ kind.extension = other.extension := by
  rw [kind.suffix_eq, other.suffix_eq, ← List.append_assoc, ← List.append_assoc]
  exact append_cons_inj kind.dot_notMem_extension other.dot_notMem_extension

theorem append_nuget_eq {app : Str} :
    d ++ ('.' :: app ++ ".nuget".toList) = (d ++ '.' :: app) ++ '.' :: "nuget".toList :=
  (List.append_assoc ..).symm

/-- When two files of one folder have one name. -/
theorem append_suffix_eq_iff : d ++ kind.suffix = e ++ other.suffix ↔
    Spells kind other d e ∨ Spells other kind e d ∨ kind = other ∧ d = e := by
  have hnuget : '.' ∉ "nuget".toList := by decide
  have hpkgs : '.' ∉ "pkgs".toList := by decide
  rw [append_suffix_eq_iff_stem]
  cases kind <;> cases other
  case lock.lock => simp [RecordKind.stem, Spells]
  case outputs.outputs => simp [RecordKind.stem, Spells]
  case lock.outputs => simp [RecordKind.extension, Spells]
  case outputs.lock => simp [RecordKind.extension, Spells]
  case outputs.manifest => simp [RecordKind.extension, Spells]
  case manifest.outputs => simp [RecordKind.extension, Spells]
  case outputs.nuget => simp [RecordKind.extension, Spells]
  case nuget.outputs => simp [RecordKind.extension, Spells]
  case lock.manifest => simp [RecordKind.stem, RecordKind.extension, Spells]
  case manifest.lock => simp [RecordKind.stem, RecordKind.extension, Spells, eq_comm]
  case lock.nuget app => simp [RecordKind.stem, RecordKind.extension, Spells]
  case nuget.lock app => simp [RecordKind.stem, RecordKind.extension, Spells, eq_comm]
  case manifest.manifest => simp [RecordKind.stem, RecordKind.extension, Spells]
  case manifest.nuget app =>
    have hne : ¬d ++ '.' :: "pkgs".toList = e ++ ('.' :: app.1 ++ ".nuget".toList) := by
      rw [append_nuget_eq, append_cons_inj hpkgs hnuget]
      exact fun h => absurd h.2 (by decide)
    have hstem : ¬d ++ RecordKind.manifest.stem = e ++ (RecordKind.nuget app).stem := hne
    simp [hstem, Spells]
  case nuget.manifest app =>
    have hne : ¬d ++ ('.' :: app.1 ++ ".nuget".toList) = e ++ '.' :: "pkgs".toList := by
      rw [append_nuget_eq, append_cons_inj hnuget hpkgs]
      exact fun h => absurd h.2 (by decide)
    have hstem : ¬d ++ (RecordKind.nuget app).stem = e ++ RecordKind.manifest.stem := hne
    simp [hstem, Spells]
  case nuget.nuget a b =>
    have hdot : ∀ app : {name : Str // isAppName name}, '.' ∉ app.1 := fun app =>
      notMem_of_isAppName app.2 (by decide)
    have hstem : d ++ (RecordKind.nuget a).stem = e ++ (RecordKind.nuget b).stem ↔
        d = e ∧ a = b := by
      show d ++ ('.' :: a.1 ++ ".nuget".toList) = e ++ ('.' :: b.1 ++ ".nuget".toList) ↔ _
      rw [append_nuget_eq, append_nuget_eq, append_cons_inj hnuget hnuget,
        append_cons_inj (hdot a) (hdot b), Subtype.ext_iff]
      exact and_iff_left rfl
    rw [hstem]
    simp [RecordKind.extension, Spells, and_comm]

/-- Every committed file stands in the recipe folder of a search root, at most one folder down. -/
theorem recordPath_under_recipes (hname : validateBuildRef name = .ok ()) {path : Path}
    (h : (recordPath root kind name).value t = .ok path) :
    ∃ r ∈ root.roots, ∃ rest, path = r ++ "recipes".toList :: rest ∧ rest ≠ [] ∧
      ∀ c ∈ rest, '/' ∉ c ∧ c ≠ [] ∧ c ≠ ".".toList ∧ c ≠ "..".toList := by
  obtain ⟨device, leaf, hparts⟩ := exists_parts hname
  obtain ⟨-, rfl⟩ := (value_recordPath hname hparts).mp h
  obtain ⟨hslash, hne, hlong⟩ := hparts.file_ne kind.isSuffix
  refine ⟨_, ConfigRoot.owner_mem root "recipes".toList (recipeHalf name) t,
    (deviceOf name).toList ++ [leaf ++ kind.suffix], ?_, by simp, ?_⟩
  · unfold folder
    simp only [List.append_assoc, List.cons_append]
  · intro c hc
    rcases List.mem_append.mp hc with hc | hc
    · rw [deviceOf_eq hparts] at hc
      have hbare := hparts.device_bare c (Option.mem_toList.mp hc)
      have hdot : c.head? ≠ some '.' := by
        unfold isBareName at hbare
        simp only [Bool.and_eq_true, bne_iff_ne] at hbare
        exact hbare.1.2
      refine ⟨BuildPoint.slash_not_mem hbare, BuildPoint.ne_nil_of_isBareName hbare, ?_, ?_⟩
      · rintro rfl
        exact hdot rfl
      · rintro rfl
        exact hdot rfl
    · obtain rfl := List.mem_singleton.mp hc
      refine ⟨hslash, hne, ?_, ?_⟩
      · intro he
        rw [he] at hlong
        exact absurd hlong (by decide)
      · intro he
        rw [he] at hlong
        exact absurd hlong (by decide)

/-- The committed files of two references stay in `recipes`, and share a path only where they are
one file, exactly unless the names collide. -/
theorem recordPath_inj_iff (root : ConfigRoot) (t : Tree) (kind other : RecordKind) (p q : Str)
    (hp : validateBuildRef p = .ok ()) (hq : validateBuildRef q = .ok ()) :
    (∀ path, (recordPath root kind p).value t = .ok path →
      ∃ r ∈ root.roots, ∃ rest, path = r ++ "recipes".toList :: rest ∧ rest ≠ [] ∧
        ∀ c ∈ rest, '/' ∉ c ∧ c ≠ [] ∧ c ≠ ".".toList ∧ c ≠ "..".toList) ∧
    ((∀ path, (recordPath root kind p).value t = .ok path →
        (recordPath root other q).value t = .ok path → p = q ∧ kind = other) ↔
      ¬Collide root t kind other p q) := by
  refine ⟨fun path h => recordPath_under_recipes hp h, ?_⟩
  obtain ⟨dp, x, hx⟩ := exists_parts hp
  obtain ⟨dq, y, hy⟩ := exists_parts hq
  have hshared : (∃ path, (recordPath root kind p).value t = .ok path ∧
      (recordPath root other q).value t = .ok path) ↔
      SameFolder root t p q ∧ kind.Written x ∧ other.Written y ∧
        (Spells kind other x y ∨ Spells other kind y x ∨ kind = other ∧ x = y) := by
    simp only [value_recordPath hp hx, value_recordPath hq hy, ← folder_eq_iff,
      ← append_suffix_eq_iff]
    constructor
    · rintro ⟨path, ⟨hwritten, rfl⟩, hwritten', he⟩
      obtain ⟨hfolder, hfile⟩ := List.append_inj' he rfl
      exact ⟨hfolder, hwritten, hwritten', (List.cons.inj hfile).1⟩
    · rintro ⟨hfolder, hwritten, hwritten', hfile⟩
      exact ⟨_, ⟨hwritten, rfl⟩, hwritten', by rw [hfolder, hfile]⟩
  have hspells : ∀ {k l : RecordKind} {x y : Str}, Spells k l x y → k ≠ l := by
    intro k l x y h he
    subst he
    cases k <;> exact h
  unfold Collide
  rw [leafOf_eq hx, leafOf_eq hy]
  constructor
  · rintro h ⟨hfolder, hwritten, hwritten', hcase⟩
    obtain ⟨path, hpath, hpath'⟩ := hshared.mpr ⟨hfolder, hwritten, hwritten',
      hcase.imp_right fun hcase => hcase.imp_right fun hcase => ⟨hcase.1, hcase.2.1⟩⟩
    obtain ⟨hpq, hkind⟩ := h path hpath hpath'
    rcases hcase with hcase | hcase | hcase
    · exact hspells hcase hkind
    · exact hspells hcase hkind.symm
    · exact hcase.2.2 hpq
  · intro h path hpath hpath'
    obtain ⟨hfolder, hwritten, hwritten', hcase⟩ := hshared.mp ⟨path, hpath, hpath'⟩
    by_contra hne
    refine h ⟨hfolder, hwritten, hwritten', ?_⟩
    rcases hcase with hcase | hcase | ⟨hkind, hxy⟩
    · exact Or.inl hcase
    · exact Or.inr (Or.inl hcase)
    · exact Or.inr (Or.inr ⟨hkind, hxy, fun hpq => hne ⟨hpq, hkind⟩⟩)

/-- A root with no file in it. -/
def emptyTree : Tree where
  entry _ := .absent
  readDir _ := .absent
  mem_readDir _ _ _ h := by cases h

/-- The theorem at a recipe and a variant of it. -/
theorem recordPath_variant : ¬∃ path,
    (recordPath ⟨["cfg".toList], []⟩ .lock "rk1/forky".toList).value emptyTree = .ok path ∧
    (recordPath ⟨["cfg".toList], []⟩ .manifest "rk1/forky+x".toList).value emptyTree = .ok path := by
  rintro ⟨path, hlock, hmanifest⟩
  have hsame := (recordPath_inj_iff ⟨["cfg".toList], []⟩ emptyTree .lock .manifest
    "rk1/forky".toList "rk1/forky+x".toList (by decide) (by decide)).2
  refine absurd (hsame.mpr ?_ path hlock hmanifest).2 (by decide)
  rintro ⟨-, -, -, h | h | h⟩
  · revert h
    show ¬("forky".toList = "forky+x".toList ++ ".pkgs".toList)
    decide
  · exact h
  · exact absurd h.1 (by decide)

/-- The lock of a recipe whose leaf ends in `.pkgs` is the manifest of another recipe. -/
theorem lock_of_pkgs_is_manifest : ¬∀ (root : ConfigRoot) (t : Tree) (kind other : RecordKind)
    (p q : Str) (path : Path), validateBuildRef p = .ok () → validateBuildRef q = .ok () →
    (recordPath root kind p).value t = .ok path → (recordPath root other q).value t = .ok path →
    p = q ∧ kind = other := by
  intro h
  exact absurd (h ⟨["cfg".toList], []⟩ emptyTree .lock .manifest "rk1/forky.pkgs".toList
    "rk1/forky".toList
    ["cfg".toList, "recipes".toList, "rk1".toList, "forky.pkgs.lock".toList]
    (by decide) (by decide) (by rfl) (by rfl)).2 (by decide)

end Boot2Deb.Config
