import Std.Data.ExtTreeMap
import Boot2Deb.Engine.Collision

/-!
# Explaining a rebuild

`SignatureManifest::diff` groups the records of two manifests by label and names the labels whose
values differ. The signature is taken over the folds in their order, so the two agree only where
the sequences are neither regrouped (the same values under every label, cut or ordered in another
way) nor misread (a clash between labels with other values): `diff_faithful_iff`. A stage that folds
each of its labels once, in a fixed order, is never in either case.
-/

namespace Boot2Deb.Engine

open Rust Std

/-- How one labelled input differs. -/
inductive ChangeKind where
  | added | removed | changed
deriving DecidableEq, Repr

/-- One label's change, with the old and the new values. -/
structure RecordChange where
  label : Str
  kind : ChangeKind
  old : List Str
  new : List Str
deriving DecidableEq, Repr

/-- The values of each label. -/
abbrev Grouped := ExtTreeMap Str (List Str) compare

namespace SignatureManifest

/-- `m.entry(label).or_default().extend(values)`. -/
def extend (m : Grouped) (r : Record) : Grouped :=
  m.insert r.label ((m[r.label]?).getD [] ++ r.values)

def group (recs : List Record) : Grouped := recs.foldl extend ∅

/-- The change of one label. -/
def change (o n : Grouped) (label : Str) : Option RecordChange :=
  match o[label]?, n[label]? with
  | some a, some b => if a ≠ b then some ⟨label, .changed, a, b⟩ else none
  | some a, none => some ⟨label, .removed, a, []⟩
  | none, some b => some ⟨label, .added, [], b⟩
  | none, none => none

/-- The change set from `old` to `new`, label by label. -/
def diff (old new : SignatureManifest) : List RecordChange :=
  let o := group old.records
  let n := group new.records
  let labels := dedup (sortUnstable (o.keys ++ n.keys))
  labels.filterMap (change o n)

/-- The values recorded under a label, none where it has no record. -/
def valuesUnder (label : Str) : List Record → Option (List Str)
  | [] => none
  | r :: recs =>
    if r.label = label then some (r.values ++ (valuesUnder label recs).getD [])
    else valuesUnder label recs

theorem foldl_extend (m : Grouped) (recs : List Record) (label : Str) :
    (recs.foldl extend m)[label]? = match valuesUnder label recs with
      | none => m[label]?
      | some vs => some ((m[label]?).getD [] ++ vs) := by
  induction recs generalizing m with
  | nil => rfl
  | cons r recs ih =>
    rw [List.foldl_cons, ih, valuesUnder, extend, ExtTreeMap.getElem?_insert]
    by_cases h : r.label = label
    · subst h
      cases valuesUnder r.label recs <;> simp
    · have hne : compare r.label label ≠ .eq := fun he => h (LawfulEqCmp.eq_of_compare he)
      rw [if_neg hne, if_neg h]

theorem getElem?_group (recs : List Record) (label : Str) :
    (group recs)[label]? = valuesUnder label recs := by
  rw [group, foldl_extend]
  cases valuesUnder label recs <;> simp

variable {o n : Grouped} {label : Str} {c : RecordChange}

theorem change_eq_none : change o n label = none ↔ o[label]? = n[label]? := by
  unfold change
  cases o[label]? with
  | none => cases n[label]? <;> simp
  | some a =>
    cases n[label]? with
    | none => simp
    | some b => simp

theorem label_of_change (h : change o n label = some c) : c.label = label := by
  unfold change at h
  split at h
  · split_ifs at h
    cases h
    rfl
  all_goals
    cases h
    try rfl

variable {old new : SignatureManifest}

theorem mem_diff : c ∈ diff old new ↔
    change (group old.records) (group new.records) c.label = some c := by
  unfold diff
  rw [List.mem_filterMap]
  constructor
  · rintro ⟨label, -, h⟩
    rwa [label_of_change h]
  · intro h
    refine ⟨c.label, ?_, h⟩
    rw [mem_dedup, mem_sortUnstable, List.mem_append, ExtTreeMap.mem_keys, ExtTreeMap.mem_keys,
      ExtTreeMap.mem_iff_isSome_getElem?, ExtTreeMap.mem_iff_isSome_getElem?]
    by_contra hnone
    rw [not_or, Bool.not_eq_true, Bool.not_eq_true, Option.isSome_eq_false_iff,
      Option.isSome_eq_false_iff, Option.isNone_iff_eq_none, Option.isNone_iff_eq_none] at hnone
    rw [change_eq_none.mpr (hnone.1.trans hnone.2.symm)] at h
    cases h

/-- A label is named exactly where its values differ. -/
theorem exists_mem_diff_iff : (∃ c ∈ diff old new, c.label = label) ↔
    valuesUnder label old.records ≠ valuesUnder label new.records := by
  rw [← getElem?_group, ← getElem?_group, ne_eq, ← change_eq_none]
  constructor
  · rintro ⟨c, hc, rfl⟩
    rw [mem_diff.mp hc]
    simp
  · intro h
    obtain ⟨c, hc⟩ := Option.ne_none_iff_exists'.mp h
    have hlabel := label_of_change hc
    exact ⟨c, mem_diff.mpr (by rwa [hlabel]), hlabel⟩

theorem diff_eq_nil : diff old new = [] ↔
    ∀ label, valuesUnder label old.records = valuesUnder label new.records := by
  rw [List.eq_nil_iff_forall_not_mem]
  constructor
  · intro h label
    by_contra hne
    obtain ⟨c, hc, -⟩ := exists_mem_diff_iff.mpr hne
    exact h c hc
  · intro h c hc
    exact exists_mem_diff_iff.mp ⟨c, hc, rfl⟩ (h c.label)

end SignatureManifest

/-! ### Manifests of folds -/

/-- What a diff promises: it is empty exactly on equal signatures, and otherwise names a label whose
values differ and none whose values agree. -/
def SignatureManifest.Faithful (old new : SignatureManifest) : Prop :=
  (SignatureManifest.diff old new = [] ↔ old.signature = new.signature) ∧
  (SignatureManifest.diff old new ≠ [] → ∃ c ∈ SignatureManifest.diff old new,
    SignatureManifest.valuesUnder c.label old.records ≠
      SignatureManifest.valuesUnder c.label new.records) ∧
  ∀ c ∈ SignatureManifest.diff old new,
    SignatureManifest.valuesUnder c.label old.records ≠
      SignatureManifest.valuesUnder c.label new.records

namespace Fold

/-- The values a sequence of folds has under a label. -/
def folded (label : Str) (folds : List Fold) : Option (List Str) :=
  SignatureManifest.valuesUnder label (folds.map record)

/-- The same values under every label. -/
def SameValues (as bs : List Fold) : Prop := ∀ label, folded label as = folded label bs

/-- The same values under every label, from folds cut or ordered in another way. -/
def Regrouped (as bs : List Fold) : Prop :=
  SameValues as bs ∧ ¬List.Forall₂ Same as bs ∧ ¬Clash as bs

/-- A clash between folds with other values. -/
def Misread (as bs : List Fold) : Prop := Clash as bs ∧ ¬SameValues as bs

/-- The manifest a stage stamps. -/
def manifest (sha256Hex : Bytes → Str) (node : Text) (stageVersion : UInt32) (folds : List Fold) :
    SignatureManifest :=
  (run node stageVersion folds).manifest sha256Hex

variable {f : Fold} {as bs : List Fold} {label : Str}

theorem folded_cons_eq (h : f.label = label) :
    folded label (f :: as) = some (f.values ++ (folded label as).getD []) := by
  show SignatureManifest.valuesUnder label (f.record :: as.map record) = _
  rw [SignatureManifest.valuesUnder]
  exact if_pos h

theorem folded_cons_ne (h : f.label ≠ label) : folded label (f :: as) = folded label as := by
  show SignatureManifest.valuesUnder label (f.record :: as.map record) = _
  rw [SignatureManifest.valuesUnder]
  exact if_neg h

theorem folded_eq_none (h : label ∉ as.map Fold.label) : folded label as = none := by
  induction as with
  | nil => rfl
  | cons f as ih =>
    rw [List.map_cons, List.mem_cons, not_or] at h
    rw [folded_cons_ne (Ne.symm h.1), ih h.2]

theorem map_record_eq (h : List.Forall₂ Same as bs) : as.map record = bs.map record := by
  induction h with
  | nil => rfl
  | cons hhead _ ih =>
    rw [List.map_cons, List.map_cons, ih, record, record, hhead.label_eq, hhead.values_eq]

theorem sameValues_of_same (h : List.Forall₂ Same as bs) : SameValues as bs := by
  intro label
  rw [folded, folded, map_record_eq h]

variable {sha256Hex : Bytes → Str}

/-- Equal signatures, under a digest without collisions. -/
theorem signature_eq_iff (hsha : Function.Injective sha256Hex) (node : Text)
    (stageVersion : UInt32) :
    (manifest sha256Hex node stageVersion as).signature =
      (manifest sha256Hex node stageVersion bs).signature ↔
    List.Forall₂ Same as bs ∨ Clash as bs := by
  rw [← stream_eq_iff node stageVersion]
  exact hsha.eq_iff

theorem records_manifest (node : Text) (stageVersion : UInt32) :
    (manifest sha256Hex node stageVersion as).records = as.map record :=
  records_run node stageVersion as

theorem diff_manifest_eq_nil (node : Text) (stageVersion : UInt32) :
    SignatureManifest.diff (manifest sha256Hex node stageVersion as)
      (manifest sha256Hex node stageVersion bs) = [] ↔ SameValues as bs := by
  rw [SignatureManifest.diff_eq_nil, records_manifest, records_manifest]
  rfl

/-- The order of two labels does not show in a diff. -/
theorem sameValues_swap {g : Fold} (h : f.label ≠ g.label) :
    SameValues (f :: g :: as) (g :: f :: as) := by
  intro label
  by_cases hf : f.label = label
  · have hg : g.label ≠ label := fun hg => h (hf.trans hg.symm)
    rw [folded_cons_eq hf, folded_cons_ne hg, folded_cons_ne hg, folded_cons_eq hf]
  · rw [folded_cons_ne hf]
    by_cases hg : g.label = label
    · rw [folded_cons_eq hg, folded_cons_eq hg, folded_cons_ne hf]
    · rw [folded_cons_ne hg, folded_cons_ne hg, folded_cons_ne hf]

/-! ### Stages with a fixed program -/

variable {schema : List (Str × Kind)} {entry : Str × Kind}

theorem follows_cons (h : Follows (entry :: schema) as) : Follows schema as ∨
    ∃ f rest, as = f :: rest ∧ f.label = entry.1 ∧ f.kind = entry.2 ∧ Follows schema rest := by
  rcases List.sublist_cons_iff.mp h with h | ⟨entries, hmap, h⟩
  · exact Or.inl h
  · obtain ⟨f, rest, rfl, he, rfl⟩ := List.map_eq_cons_iff.mp hmap
    exact Or.inr ⟨f, rest, rfl, congrArg Prod.fst he, congrArg Prod.snd he, h⟩

theorem folded_of_follows (h : Follows schema as) (hlabel : label ∉ schema.map Prod.fst) :
    folded label as = none := by
  refine folded_eq_none fun hmem => hlabel ?_
  obtain ⟨f, hf, rfl⟩ := List.mem_map.mp hmem
  exact label_mem_of_follows h hf

/-- In a fixed program the values under the labels are all there is to a sequence. -/
theorem same_of_sameValues (hnodup : (schema.map Prod.fst).Nodup) (has : Follows schema as)
    (hbs : Follows schema bs) (h : SameValues as bs) : List.Forall₂ Same as bs := by
  induction schema generalizing as bs with
  | nil =>
    obtain rfl := List.map_eq_nil_iff.mp (List.sublist_nil.mp has)
    obtain rfl := List.map_eq_nil_iff.mp (List.sublist_nil.mp hbs)
    exact List.Forall₂.nil
  | cons entry schema ih =>
    obtain ⟨hentry, hnodup⟩ := List.nodup_cons.mp hnodup
    rcases follows_cons has with has | ⟨f, as, rfl, hf, hfkind, has⟩
    · rcases follows_cons hbs with hbs | ⟨g, bs, rfl, hg, hgkind, hbs⟩
      · exact ih hnodup has hbs h
      · have hvalues := h entry.1
        rw [folded_of_follows has hentry, folded_cons_eq hg] at hvalues
        cases hvalues
    · rcases follows_cons hbs with hbs | ⟨g, bs, rfl, hg, hgkind, hbs⟩
      · have hvalues := h entry.1
        rw [folded_of_follows hbs hentry, folded_cons_eq hf] at hvalues
        cases hvalues
      · have hvalues := h entry.1
        rw [folded_cons_eq hf, folded_cons_eq hg, folded_of_follows has hentry,
          folded_of_follows hbs hentry] at hvalues
        have hsame : Same f g := same_of_kind_eq (hfkind.trans hgkind.symm) (hf.trans hg.symm)
          (by simpa using hvalues)
        refine List.Forall₂.cons hsame (ih hnodup has hbs fun label => ?_)
        by_cases hlabel : entry.1 = label
        · rw [← hlabel, folded_of_follows has hentry, folded_of_follows hbs hentry]
        · have hrest := h label
          rwa [folded_cons_ne (by rwa [hf]), folded_cons_ne (by rwa [hg])] at hrest

/-- The sequences of a fixed program are neither regrouped nor misread. -/
theorem not_regrouped_of_follows (hnodup : (schema.map Prod.fst).Nodup) (has : Follows schema as)
    (hbs : Follows schema bs) : ¬Regrouped as bs ∧ ¬Misread as bs := by
  refine ⟨?_, ?_⟩
  · rintro ⟨hvalues, hsame, -⟩
    exact hsame (same_of_sameValues hnodup has hbs hvalues)
  · rintro ⟨hclash, -⟩
    exact not_clash_of_follows hnodup has hbs hclash

/-! ### Which diffs explain their rebuild -/

/-- The diff explains a rebuild, except between regrouped or misread sequences. -/
theorem diff_faithful_iff (sha256Hex : Bytes → Str) (hsha : Function.Injective sha256Hex) (node : Text)
    (stageVersion : UInt32) (as bs : List Fold) :
    (manifest sha256Hex node stageVersion as).Faithful (manifest sha256Hex node stageVersion bs) ↔
      ¬Regrouped as bs ∧ ¬Misread as bs := by
  have hsame : List.Forall₂ Same as bs → SameValues as bs := sameValues_of_same
  rw [SignatureManifest.Faithful, diff_manifest_eq_nil, signature_eq_iff hsha, Regrouped, Misread]
  constructor
  · rintro ⟨h, -⟩
    tauto
  · intro h
    refine ⟨by tauto, fun hne => ?_, fun c hc => ?_⟩
    · obtain ⟨c, hc⟩ := List.exists_mem_of_ne_nil _ hne
      exact ⟨c, hc, SignatureManifest.exists_mem_diff_iff.mp ⟨c, hc, rfl⟩⟩
    · exact SignatureManifest.exists_mem_diff_iff.mp ⟨c, hc, rfl⟩

/-- The digest of two streams of the node `n`, and no collisions elsewhere. -/
def changedDigest : Bytes → Str := digestTable
  [(stream (lit "n") 1 [.scalar (lit "x") (lit "1")],
      "0731cfd2a5561237fd7caa0ae7b369f41377cac94c6ef152e7129a6ebc1deab4".toList),
    (stream (lit "n") 1 [.scalar (lit "x") (lit "2")],
      "14fc97112f0f9138cf2d32ce7e29211e5e2434511cef03b74d0952188fba13a0".toList)]

theorem changedDigest_injective : Function.Injective changedDigest :=
  digestTable_injective (by decide) (by simp)

/-- A changed scalar is named. -/
theorem faithful_changed :
    (manifest changedDigest (lit "n") 1 [.scalar (lit "x") (lit "1")]).Faithful
      (manifest changedDigest (lit "n") 1 [.scalar (lit "x") (lit "2")]) := by
  refine (diff_faithful_iff changedDigest changedDigest_injective _ _ _ _).mpr ⟨?_, ?_⟩
  · rintro ⟨hvalues, -⟩
    exact absurd (hvalues ['x']) (by decide)
  · rintro ⟨hclash, -⟩
    exact not_clash_of_kinds (by simp [kind]) hclash

/-- The digest of the streams of two scalars, folded in the two orders. -/
def swappedDigest : Bytes → Str := digestTable
  [(stream (lit "n") 1 [.scalar (lit "a") (lit "1"), .scalar (lit "b") (lit "2")],
      "6ebfeca8f9a58e23b5337e39317f512b2b46d9b97270cfc740de2106f1073a71".toList),
    (stream (lit "n") 1 [.scalar (lit "b") (lit "2"), .scalar (lit "a") (lit "1")],
      "e7dc2cdad5d62e2ef9a0086b29192db9c5cfd966982a108bf9b64a0571f2e56b".toList)]

/-- Two scalars swapped: the signature moves and no label is named. -/
theorem swapped_not_faithful :
    ¬(manifest swappedDigest (lit "n") 1
      [.scalar (lit "a") (lit "1"), .scalar (lit "b") (lit "2")]).Faithful
    (manifest swappedDigest (lit "n") 1
      [.scalar (lit "b") (lit "2"), .scalar (lit "a") (lit "1")]) := by
  rintro ⟨hiff, -⟩
  have hsha : Function.Injective swappedDigest := digestTable_injective (by decide) (by simp)
  rw [diff_manifest_eq_nil, signature_eq_iff hsha] at hiff
  rcases hiff.mp (sameValues_swap (by decide)) with hsame | hclash
  · exact absurd (List.forall₂_cons.mp hsame).1.label_eq (by decide)
  · exact not_clash_of_kinds (by simp [kind]) hclash

end Fold

end Boot2Deb.Engine
