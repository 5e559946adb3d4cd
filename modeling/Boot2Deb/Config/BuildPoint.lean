import Boot2Deb.Error
import Boot2Deb.Rust.Outcome

/-!
# Build points

A build point is a recipe and the features it is built with; its reference is the recipe followed by
the features, each behind a `+`. The reference determines the point (`reference_injective`). The
stem of the published artifacts is the reference with the `/` of the recipe flattened to a `-`,
which recipe names may hold themselves: two points share a stem exactly when their features are the
same and their recipes differ in nothing but which hyphen is the slash (`artifactStem_eq_iff`).
-/

namespace Boot2Deb.Config

open Rust

/-- Whether a name is a bare identifier: non-empty, no leading dot, of `[A-Za-z0-9._-]`. -/
def isBareName (s : Str) : Bool :=
  !s.isEmpty && s.head? != some '.' &&
    s.all fun c => c.isAlphanum || c == '.' || c == '_' || c == '-'

def validateName (kind : String) (name : Str) : Outcome ConfigError Unit :=
  if isBareName name then .ok () else .err (.invalidName kind name)

/-- A recipe reference is `<device>/<leaf>` or a bare `<leaf>`. -/
def isRecipeRef (name : Str) : Bool :=
  match name.splitOn '/' with
  | [leaf] => isBareName leaf
  | [device, leaf] => isBareName device && isBareName leaf
  | _ => false

def validateRecipeRef (name : Str) : Outcome ConfigError Unit :=
  if isRecipeRef name then .ok () else .err (.invalidRecipeRef name)

/-- The separator between the recipe and each feature. -/
def featureSep : Char := '+'

namespace BuildPoint

/-- The loop of `new` over the features, behind those it has seen. -/
def checkFeatures (seen : List Str) : List Str → Outcome ConfigError Unit
  | [] => .ok ()
  | feature :: features => do
    validateName "feature" feature
    if feature ∈ seen then .err (.duplicateFeature feature)
    else checkFeatures (feature :: seen) features

/-- The checks of `new`. -/
def check (recipe : Str) (features : List Str) : Outcome ConfigError Unit := do
  validateRecipeRef recipe
  checkFeatures [] features

end BuildPoint

/-- A recipe paired with the features to build it with. -/
structure BuildPoint where
  recipe : Str
  features : List Str
  wellFormed : BuildPoint.check recipe features = .ok ()

namespace BuildPoint

/-- Pair a recipe with features. -/
def new (recipe : Str) (features : List Str) : Outcome ConfigError BuildPoint :=
  match h : check recipe features with
  | .ok () => .ok ⟨recipe, features, h⟩
  | .err e => .err e
  | .panic => .panic

/-- Parse a reference, `<recipe>[+<feature>…]`. -/
def parse (reference : Str) : Outcome ConfigError BuildPoint :=
  let parts := reference.splitOn featureSep
  new (parts.headD []) parts.tail

/-- The canonical textual form. -/
def reference (p : BuildPoint) : Str :=
  if p.features.isEmpty then p.recipe
  else p.recipe ++ featureSep :: join [featureSep] p.features

/-- The stem every artifact of the point is named for. -/
def artifactStem (p : BuildPoint) : Str := replaceChar p.reference '/' '-'

/-! ### What the checks accept -/

variable {recipe s : Str} {features : List Str} {c : Char}

theorem isAlphanum_or_of_mem (h : isBareName s) (hc : c ∈ s) :
    c.isAlphanum ∨ c = '.' ∨ c = '_' ∨ c = '-' := by
  unfold isBareName at h
  rw [Bool.and_eq_true, List.all_eq_true] at h
  simpa [or_assoc] using h.2 c hc

theorem ne_nil_of_isBareName (h : isBareName s) : s ≠ [] := by
  rintro rfl
  cases h

theorem slash_not_mem (h : isBareName s) : '/' ∉ s := by
  intro hc
  rcases isAlphanum_or_of_mem h hc with h | h | h | h <;> revert h <;> decide

theorem plus_not_mem (h : isBareName s) : '+' ∉ s := by
  intro hc
  rcases isAlphanum_or_of_mem h hc with h | h | h | h <;> revert h <;> decide

/-- A recipe reference is one bare name, or two with a slash between them. -/
theorem of_isRecipeRef (h : isRecipeRef recipe) : isBareName recipe ∨
    ∃ device leaf, recipe = device ++ '/' :: leaf ∧ isBareName device ∧ isBareName leaf := by
  have hjoin : List.intercalate ['/'] (recipe.splitOn '/') = recipe :=
    List.intercalate_splitOn '/'
  unfold isRecipeRef at h
  split at h
  · rename_i leaf hsplit
    rw [hsplit, List.intercalate_singleton] at hjoin
    exact Or.inl (hjoin ▸ h)
  · rename_i device leaf hsplit
    rw [hsplit] at hjoin
    rw [Bool.and_eq_true] at h
    exact Or.inr ⟨device, leaf, by rw [← hjoin]; simp [List.intercalate], h.1, h.2⟩
  · cases h

theorem of_checkFeatures {seen : List Str} (h : checkFeatures seen features = .ok ()) :
    ∀ f ∈ features, isBareName f := by
  induction features generalizing seen with
  | nil => simp
  | cons f features ih =>
    rw [checkFeatures] at h
    obtain ⟨_, hname, h⟩ := Outcome.bind_eq_ok.mp h
    split_ifs at h
    refine List.forall_mem_cons.mpr ⟨?_, ih h⟩
    unfold validateName at hname
    split_ifs at hname with hbare
    exact hbare

variable (p q : BuildPoint)

theorem isRecipeRef_recipe : isRecipeRef p.recipe := by
  obtain ⟨_, h, -⟩ := Outcome.bind_eq_ok.mp p.wellFormed
  unfold validateRecipeRef at h
  split_ifs at h with href
  exact href

theorem isBareName_of_mem_features : ∀ f ∈ p.features, isBareName f := by
  obtain ⟨_, -, h⟩ := Outcome.bind_eq_ok.mp p.wellFormed
  exact of_checkFeatures h

theorem plus_not_mem_recipe : '+' ∉ p.recipe := by
  rcases of_isRecipeRef p.isRecipeRef_recipe with h | ⟨device, leaf, hrecipe, hdevice, hleaf⟩
  · exact plus_not_mem h
  · rw [hrecipe]
    simp [plus_not_mem hdevice, plus_not_mem hleaf]

theorem plus_not_mem_parts : ∀ part ∈ p.recipe :: p.features, '+' ∉ part :=
  List.forall_mem_cons.mpr ⟨p.plus_not_mem_recipe,
    fun f hf => plus_not_mem (p.isBareName_of_mem_features f hf)⟩

/-! ### The reference -/

theorem reference_eq : p.reference = ['+'].intercalate (p.recipe :: p.features) := by
  unfold reference
  cases hfeatures : p.features with
  | nil => simp
  | cons f features =>
    rw [List.intercalate_cons_cons]
    simp [featureSep, join]

theorem new_eq : new p.recipe p.features = .ok p := by
  unfold new
  split
  · rfl
  · rename_i h
    rw [p.wellFormed] at h
    cases h
  · rename_i h
    rw [p.wellFormed] at h
    cases h

/-- A reference parses back to its point. -/
theorem parse_reference : parse p.reference = .ok p := by
  unfold parse
  rw [reference_eq, featureSep,
    List.splitOn_intercalate '+' p.plus_not_mem_parts (List.cons_ne_nil _ _)]
  exact p.new_eq

theorem reference_injective : Function.Injective reference := by
  intro p q h
  have hparse := p.parse_reference
  rw [h, q.parse_reference] at hparse
  exact (Outcome.ok.inj hparse).symm

/-! ### The artifact stem -/

/-- A name with its slash flattened. -/
def flat (s : Str) : Str := replaceChar s '/' '-'

theorem flat_append (s t : Str) : flat (s ++ t) = flat s ++ flat t := List.map_append

theorem flat_cons (c : Char) (s : Str) :
    flat (c :: s) = (if c = '/' then '-' else c) :: flat s := rfl

theorem flat_eq_self (h : '/' ∉ s) : flat s = s := by
  unfold flat replaceChar
  refine (List.map_congr_left fun c hc => ?_).trans (List.map_id s)
  have hne : c ≠ '/' := fun he => h (he ▸ hc)
  exact if_neg hne

theorem plus_not_mem_flat (h : '+' ∉ s) : '+' ∉ flat s := by
  intro hmem
  obtain ⟨c, hc, he⟩ := List.mem_map.mp hmem
  split_ifs at he with hslash
  · exact absurd he (by decide)
  · exact h (he ▸ hc)

theorem flat_intercalate (parts : List Str) :
    flat (['+'].intercalate parts) = ['+'].intercalate (parts.map flat) := by
  induction parts with
  | nil => rfl
  | cons part parts ih =>
    cases parts with
    | nil => simp
    | cons next parts =>
      rw [List.intercalate_cons_cons, flat_append, flat_append, ih, List.map_cons, List.map_cons,
        List.map_cons, List.intercalate_cons_cons]
      rfl

/-- The stem spells the flattened recipe and every feature. -/
theorem artifactStem_eq : p.artifactStem = ['+'].intercalate (flat p.recipe :: p.features) := by
  have hfeatures : p.features.map flat = p.features :=
    (List.map_congr_left fun f hf =>
      flat_eq_self (slash_not_mem (p.isBareName_of_mem_features f hf))).trans (List.map_id _)
  show flat p.reference = _
  rw [reference_eq, flat_intercalate, List.map_cons, hfeatures]

theorem artifactStem_inj : p.artifactStem = q.artifactStem ↔
    flat p.recipe = flat q.recipe ∧ p.features = q.features := by
  have hplus : ∀ p : BuildPoint, ∀ part ∈ flat p.recipe :: p.features, '+' ∉ part := fun p =>
    List.forall_mem_cons.mpr ⟨plus_not_mem_flat p.plus_not_mem_recipe,
      fun f hf => plus_not_mem (p.isBareName_of_mem_features f hf)⟩
  rw [artifactStem_eq, artifactStem_eq]
  constructor
  · intro h
    have hsplit := congrArg (List.splitOn '+') h
    rw [List.splitOn_intercalate '+' (hplus p) (List.cons_ne_nil _ _),
      List.splitOn_intercalate '+' (hplus q) (List.cons_ne_nil _ _)] at hsplit
    exact List.cons.inj hsplit
  · rintro ⟨hrecipe, hfeatures⟩
    rw [hrecipe, hfeatures]

/-- Recipes that differ in which hyphen is the slash, the first having its slash further left or
being the only one with a slash. -/
def SlashMoved (r r' : Str) : Prop :=
  (∃ x y, r = x ++ '/' :: y ∧ r' = x ++ '-' :: y) ∨
  ∃ x y z, r = x ++ '/' :: (y ++ '-' :: z) ∧ r' = x ++ '-' :: (y ++ '/' :: z)

theorem flat_of_slashMoved {r r' : Str} (h : SlashMoved r r') : flat r = flat r' ∧ r ≠ r' := by
  rcases h with ⟨x, y, rfl, rfl⟩ | ⟨x, y, z, rfl, rfl⟩ <;> simp [flat_append, flat_cons]

/-- Recipes that flatten to one name differ, if at all, in the place of the slash. -/
theorem eq_or_slashMoved {r r' : Str} (hr : isRecipeRef r) (hr' : isRecipeRef r')
    (h : flat r = flat r') : r = r' ∨ SlashMoved r r' ∨ SlashMoved r' r := by
  rcases of_isRecipeRef hr with hbare | ⟨x, y, rfl, hx, hy⟩
  · rcases of_isRecipeRef hr' with hbare' | ⟨x', y', rfl, hx', hy'⟩
    · rw [flat_eq_self (slash_not_mem hbare), flat_eq_self (slash_not_mem hbare')] at h
      exact Or.inl h
    · rw [flat_eq_self (slash_not_mem hbare), flat_append, flat_cons, if_pos rfl,
        flat_eq_self (slash_not_mem hx'), flat_eq_self (slash_not_mem hy')] at h
      exact Or.inr (Or.inr (Or.inl ⟨x', y', rfl, h⟩))
  · rw [flat_append, flat_cons, if_pos rfl, flat_eq_self (slash_not_mem hx),
      flat_eq_self (slash_not_mem hy)] at h
    rcases of_isRecipeRef hr' with hbare' | ⟨x', y', rfl, hx', hy'⟩
    · rw [flat_eq_self (slash_not_mem hbare')] at h
      exact Or.inr (Or.inl (Or.inl ⟨x, y, rfl, h.symm⟩))
    · rw [flat_append, flat_cons, if_pos rfl, flat_eq_self (slash_not_mem hx'),
        flat_eq_self (slash_not_mem hy')] at h
      rcases List.append_eq_append_iff.mp h with ⟨m, rfl, hm⟩ | ⟨m, rfl, hm⟩
      · cases m with
        | nil =>
          obtain ⟨-, rfl⟩ := List.cons.inj hm
          simp
        | cons c m =>
          obtain ⟨rfl, rfl⟩ := List.cons.inj hm
          exact Or.inr (Or.inl (Or.inr ⟨x, m, y', rfl, by simp⟩))
      · cases m with
        | nil =>
          obtain ⟨-, rfl⟩ := List.cons.inj hm
          simp
        | cons c m =>
          obtain ⟨rfl, rfl⟩ := List.cons.inj hm
          exact Or.inr (Or.inr (Or.inr ⟨x', m, y, rfl, by simp⟩))

theorem eq_of_parts (hrecipe : p.recipe = q.recipe) (hfeatures : p.features = q.features) :
    p = q := by
  cases p
  cases q
  cases hrecipe
  cases hfeatures
  rfl

/-- The stem names the point unless only the place of the recipe's slash tells two points apart. -/
theorem artifactStem_injective_iff (p q : BuildPoint) :
    (p.artifactStem = q.artifactStem → p = q) ↔
      ¬(p.features = q.features ∧
        (SlashMoved p.recipe q.recipe ∨ SlashMoved q.recipe p.recipe)) := by
  rw [artifactStem_inj]
  constructor
  · rintro h ⟨hfeatures, hmoved | hmoved⟩
    · obtain ⟨hflat, hne⟩ := flat_of_slashMoved hmoved
      exact hne (congrArg recipe (h ⟨hflat, hfeatures⟩))
    · obtain ⟨hflat, hne⟩ := flat_of_slashMoved hmoved
      exact hne (congrArg recipe (h ⟨hflat.symm, hfeatures⟩)).symm
  · rintro h ⟨hflat, hfeatures⟩
    rcases eq_or_slashMoved p.isRecipeRef_recipe q.isRecipeRef_recipe hflat with he | hmoved
    · exact eq_of_parts p q he hfeatures
    · exact absurd ⟨hfeatures, hmoved⟩ h

/-- A board's Libreboot variant and a recipe of the board itself. -/
theorem libreboot_stems_collide :
    ∃ p q : BuildPoint, parse "asus-c201-libreboot/forky".toList = .ok p ∧
      parse "asus-c201/libreboot-forky".toList = .ok q ∧
      p.artifactStem = q.artifactStem ∧ p ≠ q := by
  refine ⟨⟨"asus-c201-libreboot/forky".toList, [], by decide⟩,
    ⟨"asus-c201/libreboot-forky".toList, [], by decide⟩, by rfl, by rfl, by decide, ?_⟩
  intro h
  exact absurd (congrArg recipe h) (by decide)

end BuildPoint

end Boot2Deb.Config
