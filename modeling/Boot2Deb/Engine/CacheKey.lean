import Boot2Deb.Engine.Collision

/-!
# The rootfs cache key

`cache_key` folds what shapes a root filesystem, each input under a label of its own and by one kind
of fold, so its sequence of folds follows a schema and nothing in it reads as anything else. Two
keys are equal exactly when the inputs are (`cacheKey_eq_iff`), the sets among them as sets.
-/

namespace Boot2Deb.Engine

open Rust

/-- Stage-recipe version of the rootfs node. -/
def rootfsStageVersion : UInt32 := 14

/-- What determines the produced root filesystem. -/
structure CacheKeyInputs where
  solved : Slice Text
  overlay : Slice Text
  repoDebs : Slice Text
  aptSources : Slice Text
  arch : Text
  suite : Text
  components : Text
  user : Text
  interpreter : Option Text
  sudoPolicy : Text
  authorizedKeys : Slice Text
  sourceDateEpoch : UInt64
deriving DecidableEq

/-- The strings of a slice. -/
def strs (items : Slice Text) : List Str := items.val.map Subtype.val

/-- The rootfs cache key. -/
def cacheKey (sha256Hex : Bytes → Str) (inputs : CacheKeyInputs) : Signature :=
  let b := SignatureBuilder.new "rootfs".toList rootfsStageVersion
  let b := b.foldScalar "arch".toList inputs.arch
  let b := b.foldScalar "suite".toList inputs.suite
  let b := b.foldScalar "components".toList inputs.components
  let b := b.foldScalar "user".toList inputs.user
  let b := b.foldSet "solved".toList (strs inputs.solved)
  let b := b.foldSet "overlay".toList (strs inputs.overlay)
  let b := b.foldSet "repo_debs".toList (strs inputs.repoDebs)
  let b := if inputs.aptSources.val.isEmpty then b
    else b.foldSet "apt_sources".toList (strs inputs.aptSources)
  let b := match inputs.interpreter with
    | some interpreter => b.foldScalar "interpreter".toList interpreter
    | none => b
  let b := b.foldScalar "sudo".toList inputs.sudoPolicy
  let b := b.foldScalar "source_date_epoch".toList (Nat.toDigits 10 inputs.sourceDateEpoch.toNat)
  let b := if inputs.authorizedKeys.val.isEmpty then b
    else b.foldOrdered "authorized_keys".toList (strs inputs.authorizedKeys)
  b.finish sha256Hex

namespace CacheKeyInputs

/-- Everything that shapes the tree is the same, sets as sets. -/
def Same (a b : CacheKeyInputs) : Prop :=
  a.arch = b.arch ∧ a.suite = b.suite ∧ a.components = b.components ∧ a.user = b.user ∧
  (∀ v, v ∈ a.solved.val ↔ v ∈ b.solved.val) ∧ (∀ v, v ∈ a.overlay.val ↔ v ∈ b.overlay.val) ∧
  (∀ v, v ∈ a.repoDebs.val ↔ v ∈ b.repoDebs.val) ∧
  (∀ v, v ∈ a.aptSources.val ↔ v ∈ b.aptSources.val) ∧ a.interpreter = b.interpreter ∧
  a.sudoPolicy = b.sudoPolicy ∧ a.sourceDateEpoch = b.sourceDateEpoch ∧
  a.authorizedKeys = b.authorizedKeys

/-- A fold that is left out where its items are empty. -/
def unlessEmpty (items : Slice Text) (f : Fold) : Option Fold :=
  if items.val.isEmpty then none else some f

/-- `u64::to_string`. -/
def epochText (n : UInt64) : Text :=
  ⟨Nat.toDigits 10 n.toNat, le_trans (byteLen_toDigits n.toNat_lt) (by decide)⟩

/-- The folds of a key, none where one is left out. -/
def entries (a : CacheKeyInputs) : List (Option Fold) :=
  [some (.scalar (lit "arch") a.arch),
    some (.scalar (lit "suite") a.suite),
    some (.scalar (lit "components") a.components),
    some (.scalar (lit "user") a.user),
    some (.set (lit "solved") a.solved),
    some (.set (lit "overlay") a.overlay),
    some (.set (lit "repo_debs") a.repoDebs),
    unlessEmpty a.aptSources (.set (lit "apt_sources") a.aptSources),
    a.interpreter.map (.scalar (lit "interpreter")),
    some (.scalar (lit "sudo") a.sudoPolicy),
    some (.scalar (lit "source_date_epoch") (epochText a.sourceDateEpoch)),
    unlessEmpty a.authorizedKeys (.ordered (lit "authorized_keys") a.authorizedKeys)]

/-- The labels of a key and how each is folded. -/
def schema : List (Str × Kind) :=
  [("arch".toList, .scalar), ("suite".toList, .scalar), ("components".toList, .scalar),
    ("user".toList, .scalar), ("solved".toList, .set), ("overlay".toList, .set),
    ("repo_debs".toList, .set), ("apt_sources".toList, .set), ("interpreter".toList, .scalar),
    ("sudo".toList, .scalar), ("source_date_epoch".toList, .scalar),
    ("authorized_keys".toList, .ordered)]

theorem cacheKey_eq (sha256Hex : Bytes → Str) (a : CacheKeyInputs) : cacheKey sha256Hex a =
    ⟨sha256Hex (Fold.stream (lit "rootfs") rootfsStageVersion
      a.entries.reduceOption)⟩ := by
  unfold cacheKey entries unlessEmpty
  split_ifs <;> cases a.interpreter <;> rfl

theorem standsFor_unlessEmpty {entry : Str × Kind} {items : Slice Text} {f : Fold}
    (h : (f.label, f.kind) = entry) : Fold.StandsFor entry (unlessEmpty items f) := by
  intro g hg
  unfold unlessEmpty at hg
  split_ifs at hg
  · cases hg
  · cases hg
    exact h

theorem standsFor_entries (a : CacheKeyInputs) :
    List.Forall₂ Fold.StandsFor schema a.entries := by
  have hsome : ∀ f : Fold, Fold.StandsFor (f.label, f.kind) (some f) := by
    intro f g hg
    cases hg
    rfl
  have hinterpreter : Fold.StandsFor ("interpreter".toList, .scalar)
      (a.interpreter.map (.scalar (lit "interpreter"))) := by
    cases a.interpreter with
    | none => rintro f ⟨⟩
    | some interpreter => exact hsome _
  exact .cons (hsome _) <| .cons (hsome _) <| .cons (hsome _) <| .cons (hsome _) <|
    .cons (hsome _) <| .cons (hsome _) <| .cons (hsome _) <|
    .cons (standsFor_unlessEmpty rfl) <| .cons hinterpreter <| .cons (hsome _) <|
    .cons (hsome _) <| .cons (standsFor_unlessEmpty rfl) .nil

theorem schema_nodup : (schema.map Prod.fst).Nodup := by decide

theorem stream_eq_iff_entries (node : Text) (stageVersion : UInt32) (a b : CacheKeyInputs) :
    Fold.stream node stageVersion a.entries.reduceOption =
      Fold.stream node stageVersion b.entries.reduceOption ↔
    List.Forall₂ (Option.Rel Fold.Same) a.entries b.entries := by
  rw [Fold.stream_eq_iff, Fold.same_reduceOption_iff schema_nodup (standsFor_entries a)
    (standsFor_entries b)]
  exact or_iff_left (Fold.not_clash_of_follows schema_nodup
    (Fold.follows_reduceOption (standsFor_entries a))
    (Fold.follows_reduceOption (standsFor_entries b)))

theorem same_scalar_iff {label value value' : Text} :
    Fold.Same (.scalar label value) (.scalar label value') ↔ value = value' := by
  constructor
  · rintro ⟨⟩
    rfl
  · rintro rfl
    exact Fold.Same.refl _

theorem same_ordered_iff {label : Text} {items items' : Slice Text} :
    Fold.Same (.ordered label items) (.ordered label items') ↔ items = items' := by
  constructor
  · rintro ⟨⟩
    rfl
  · rintro rfl
    exact Fold.Same.refl _

theorem same_set_iff {label : Text} {items items' : Slice Text} :
    Fold.Same (.set label items) (.set label items') ↔
      ∀ v, v ∈ items.val ↔ v ∈ items'.val := by
  constructor
  · rintro (_ | h)
    · exact fun v => Iff.rfl
    · exact h
  · exact Fold.Same.set

theorem epochText_injective : Function.Injective epochText := by
  intro m n h
  exact UInt64.toNat_inj.mp (toDigits_injective (congrArg Subtype.val h))

theorem rel_interpreter_iff {label : Text} {i j : Option Text} :
    Option.Rel Fold.Same (i.map (.scalar label)) (j.map (.scalar label)) ↔ i = j := by
  cases i <;> cases j <;> simp [same_scalar_iff]

theorem rel_unlessEmpty_set_iff {label : Text} {items items' : Slice Text} :
    Option.Rel Fold.Same (unlessEmpty items (.set label items))
      (unlessEmpty items' (.set label items')) ↔ ∀ v, v ∈ items.val ↔ v ∈ items'.val := by
  obtain ⟨l, hl⟩ := items
  obtain ⟨l', hl'⟩ := items'
  cases l with
  | nil =>
    cases l' with
    | nil => simp [unlessEmpty]
    | cons v l' =>
      refine iff_of_false (fun h => by cases h) fun h => ?_
      exact List.not_mem_nil ((h v).mpr (List.mem_cons_self ..))
  | cons v l =>
    cases l' with
    | nil =>
      refine iff_of_false (fun h => by cases h) fun h => ?_
      exact List.not_mem_nil ((h v).mp (List.mem_cons_self ..))
    | cons v' l' =>
      show Option.Rel Fold.Same (some _) (some _) ↔ _
      rw [Option.rel_some_some, same_set_iff]

theorem rel_unlessEmpty_ordered_iff {label : Text} {items items' : Slice Text} :
    Option.Rel Fold.Same (unlessEmpty items (.ordered label items))
      (unlessEmpty items' (.ordered label items')) ↔ items = items' := by
  obtain ⟨l, hl⟩ := items
  obtain ⟨l', hl'⟩ := items'
  cases l <;> cases l' <;> simp [unlessEmpty, same_ordered_iff]

theorem rel_entries_iff {a b : CacheKeyInputs} :
    List.Forall₂ (Option.Rel Fold.Same) a.entries b.entries ↔ a.Same b := by
  simp only [entries, Same, List.forall₂_cons, List.forall₂_nil_left_iff, Option.rel_some_some,
    same_scalar_iff, same_set_iff, rel_unlessEmpty_set_iff, rel_interpreter_iff,
    rel_unlessEmpty_ordered_iff, epochText_injective.eq_iff, and_true]

/-- Two keys are equal exactly when nothing that shapes the tree differs. -/
theorem cacheKey_eq_iff (sha256Hex : Bytes → Str) (hsha : Function.Injective sha256Hex)
    (a b : CacheKeyInputs) : cacheKey sha256Hex a = cacheKey sha256Hex b ↔ a.Same b := by
  rw [cacheKey_eq, cacheKey_eq, Signature.mk.injEq, hsha.eq_iff, stream_eq_iff_entries,
    rel_entries_iff]

/-- The inputs of a small arm64 tree. -/
def smallTree : CacheKeyInputs where
  solved := slice [lit "a 1", lit "b 2"]
  overlay := slice []
  repoDebs := slice []
  aptSources := slice []
  arch := lit "arm64"
  suite := lit "trixie"
  components := lit "main"
  user := lit "u"
  interpreter := some (lit "q")
  sudoPolicy := lit "nopasswd"
  authorizedKeys := slice []
  sourceDateEpoch := 0

/-- The same packages listed in another order, one of them twice. -/
def smallTreeAgain : CacheKeyInputs :=
  { smallTree with
    solved := slice [lit "b 2", lit "a 1", lit "b 2"] }

/-- The digests of the small tree with its interpreter and without. -/
def smallDigest : Bytes → Str := digestTable
  [(Fold.stream (lit "rootfs") rootfsStageVersion smallTree.entries.reduceOption,
      "003c6ea569166da31766b5818f63e280f14b5c4c285df7bd36039f6e8ce2e7b9".toList),
    (Fold.stream (lit "rootfs") rootfsStageVersion
        { smallTree with interpreter := none }.entries.reduceOption,
      "a60d61644a624116471e6bbe8a11de70243745cadaae3582ce894e47cfa79516".toList)]

/-- The order of the packages leaves the key, a native build changes it. -/
theorem cacheKey_small : cacheKey smallDigest smallTree = cacheKey smallDigest smallTreeAgain ∧
    cacheKey smallDigest smallTree ≠ cacheKey smallDigest { smallTree with interpreter := none } := by
  have hsha : Function.Injective smallDigest := digestTable_injective (by decide) (by simp)
  refine ⟨(cacheKey_eq_iff smallDigest hsha _ _).mpr ?_, fun h => ?_⟩
  · simp [Same, smallTreeAgain, smallTree, slice, or_comm]
  · have hsame := (cacheKey_eq_iff smallDigest hsha _ _).mp h
    exact absurd hsame.2.2.2.2.2.2.2.2.1 (by simp [smallTree])

end CacheKeyInputs

end Boot2Deb.Engine
