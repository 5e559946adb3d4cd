import Boot2Deb.Engine.Signature

/-!
# When two stages hash the same stream

No field of the stream says which kind of fold wrote it. `Clash` describes the sequences of folds
that are not the same inputs and still write the same fields: at the first place where they differ,
either two kinds of fold write the same label and values, or a list stands against a single value
that spells its count. Everywhere else distinct inputs make distinct streams (`distinct_iff`), in
particular where every label is always folded by one kind of fold (`not_clash_of_kinds`).
-/

namespace Boot2Deb.Engine

open Rust

/-- The four ways to fold an input. -/
inductive Kind where
  | scalar | ordered | set | dep
deriving DecidableEq

namespace Fold

def kind : Fold → Kind
  | scalar .. => .scalar
  | ordered .. => .ordered
  | set .. => .set
  | dep _ => .dep

/-- Two folds of the same input: equal up to the order and the repeats inside a set. -/
inductive Same : Fold → Fold → Prop
  | refl (f : Fold) : Same f f
  | set {label : Text} {items items' : Slice Text} (h : ∀ v, v ∈ items.val ↔ v ∈ items'.val) :
      Same (.set label items) (.set label items')

/-- Folds of two kinds that write the same fields. -/
def Alias (a b : Fold) : Prop :=
  a.kind ≠ b.kind ∧ a.counted = b.counted ∧ a.label = b.label ∧ a.values = b.values

/-- A list fold, and a single value under its label that spells its count. -/
def Counts (a b : Fold) : Prop :=
  a.counted = true ∧ b.counted = false ∧ a.label = b.label ∧
    b.values = [Nat.toDigits 10 a.values.length]

instance : DecidableRel Alias := fun _ _ => inferInstanceAs (Decidable (_ ∧ _))

instance : DecidableRel Counts := fun _ _ => inferInstanceAs (Decidable (_ ∧ _))

/-- Sequences that first differ where one fold reads as another, the rest spelled out alike. -/
inductive Clash : List Fold → List Fold → Prop
  | cons {a b : Fold} {as bs : List Fold} (head : Same a b) (tail : Clash as bs) :
      Clash (a :: as) (b :: bs)
  | kinds {a b : Fold} {as bs : List Fold} (head : Alias a b)
      (rest : as.flatMap fields = bs.flatMap fields) : Clash (a :: as) (b :: bs)
  | counts {a b : Fold} {as bs : List Fold} (head : Counts a b)
      (rest : a.values.map (a.label, ·) ++ as.flatMap fields = bs.flatMap fields) :
      Clash (a :: as) (b :: bs)
  | counted {a b : Fold} {as bs : List Fold} (head : Counts b a)
      (rest : as.flatMap fields = b.values.map (b.label, ·) ++ bs.flatMap fields) :
      Clash (a :: as) (b :: bs)

variable {a b : Fold} {as bs : List Fold}

theorem Same.kind_eq (h : Same a b) : a.kind = b.kind := by
  cases h <;> rfl

theorem Same.label_eq (h : Same a b) : a.label = b.label := by
  cases h <;> rfl

theorem Same.values_eq (h : Same a b) : a.values = b.values := by
  cases h with
  | refl => rfl
  | set h =>
    rw [values, values, dedup_sortUnstable_inj]
    intro v
    constructor
    · intro hv
      obtain ⟨t, ht, rfl⟩ := List.mem_map.mp hv
      exact List.mem_map_of_mem ((h t).mp ht)
    · intro hv
      obtain ⟨t, ht, rfl⟩ := List.mem_map.mp hv
      exact List.mem_map_of_mem ((h t).mpr ht)

theorem Same.counted_eq (h : Same a b) : a.counted = b.counted := by
  cases h <;> rfl

theorem counted_of_kind_eq (h : a.kind = b.kind) : a.counted = b.counted := by
  cases a <;> cases b <;> first | rfl | cases h

theorem Same.fields_eq (h : Same a b) : a.fields = b.fields := by
  rw [fields, fields, written, written, h.label_eq, h.values_eq, h.counted_eq]

theorem map_val_injective : Function.Injective (List.map (Subtype.val : Text → Str)) :=
  List.map_injective_iff.mpr Subtype.val_injective

/-- A fold is determined by its kind, its label and its values. -/
theorem same_of_kind_eq (hkind : a.kind = b.kind) (hlabel : a.label = b.label)
    (hvalues : a.values = b.values) : Same a b := by
  cases a with
  | scalar label value =>
    cases b with
    | scalar label' value' =>
      rw [Subtype.ext hlabel, Subtype.ext (List.singleton_inj.mp hvalues)]
      exact Same.refl _
    | ordered | set | dep => cases hkind
  | ordered label items =>
    cases b with
    | ordered label' items' =>
      rw [Subtype.ext hlabel, Subtype.ext (map_val_injective hvalues)]
      exact Same.refl _
    | scalar | set | dep => cases hkind
  | set label items =>
    cases b with
    | set label' items' =>
      rw [Subtype.ext hlabel]
      refine Same.set fun v => ?_
      have hmem := dedup_sortUnstable_inj.mp hvalues v
      rwa [List.mem_map_of_injective Subtype.val_injective,
        List.mem_map_of_injective Subtype.val_injective] at hmem
    | scalar | ordered | dep => cases hkind
  | dep signature =>
    cases b with
    | dep signature' =>
      rw [Subtype.ext (List.singleton_inj.mp hvalues)]
      exact Same.refl _
    | scalar | ordered | set => cases hkind

theorem fields_of_counted (h : a.counted = true) : a.fields =
    (a.label, Nat.toDigits 10 a.values.length) :: a.values.map (a.label, ·) := by
  rw [fields, written, if_pos h, List.map_cons]

/-- A fold without a count writes one field. -/
theorem exists_value (h : a.counted = false) : ∃ v, a.values = [v] ∧ a.fields = [(a.label, v)] := by
  cases a with
  | scalar label value => exact ⟨value, rfl, rfl⟩
  | dep signature => exact ⟨signature, rfl, rfl⟩
  | ordered | set => cases h

theorem fields_ne_nil (a : Fold) : a.fields ≠ [] := by
  intro h
  cases hcounted : a.counted with
  | true =>
    rw [fields_of_counted hcounted] at h
    cases h
  | false =>
    obtain ⟨v, -, hfields⟩ := exists_value hcounted
    rw [hfields] at h
    cases h

theorem map_label_inj {label : Str} {vs vs' : List Str} :
    vs.map (label, ·) = vs'.map (label, ·) ↔ vs = vs' :=
  List.map_inj_right fun _ _ h => (Prod.mk.inj h).2

/-- What follows from one sequence of fields being read in two ways. -/
theorem fields_append_eq {l l' : List (Str × Str)} (h : a.fields ++ l = b.fields ++ l') :
    (a.counted = b.counted ∧ a.label = b.label ∧ a.values = b.values ∧ l = l') ∨
    (Counts a b ∧ a.values.map (a.label, ·) ++ l = l') ∨
    (Counts b a ∧ l = b.values.map (b.label, ·) ++ l') := by
  cases ha : a.counted with
  | true =>
    rw [fields_of_counted ha, List.cons_append] at h
    cases hb : b.counted with
    | true =>
      rw [fields_of_counted hb, List.cons_append] at h
      obtain ⟨hhead, htail⟩ := List.cons.inj h
      obtain ⟨hlabel, hcount⟩ := Prod.mk.inj hhead
      have hlen : a.values.length = b.values.length := toDigits_injective hcount
      obtain ⟨hvalues, hrest⟩ := List.append_inj htail (by simp [hlen])
      rw [hlabel, map_label_inj] at hvalues
      exact Or.inl ⟨rfl, hlabel, hvalues, hrest⟩
    | false =>
      obtain ⟨v, hv, hfields⟩ := exists_value hb
      rw [hfields, List.singleton_append] at h
      obtain ⟨hhead, htail⟩ := List.cons.inj h
      obtain ⟨hlabel, hcount⟩ := Prod.mk.inj hhead
      exact Or.inr (Or.inl ⟨⟨ha, hb, hlabel, by rw [hv, hcount]⟩, htail⟩)
  | false =>
    obtain ⟨v, hv, hfields⟩ := exists_value ha
    rw [hfields, List.singleton_append] at h
    cases hb : b.counted with
    | true =>
      rw [fields_of_counted hb, List.cons_append] at h
      obtain ⟨hhead, htail⟩ := List.cons.inj h
      obtain ⟨hlabel, hcount⟩ := Prod.mk.inj hhead
      exact Or.inr (Or.inr ⟨⟨hb, ha, hlabel.symm, by rw [hv, hcount]⟩, htail⟩)
    | false =>
      obtain ⟨w, hw, hfields'⟩ := exists_value hb
      rw [hfields', List.singleton_append] at h
      obtain ⟨hhead, htail⟩ := List.cons.inj h
      obtain ⟨hlabel, hvalue⟩ := Prod.mk.inj hhead
      exact Or.inl ⟨rfl, hlabel, by rw [hv, hw, hvalue], htail⟩

/-- One list of fields is written by the same folds, or the folds clash. -/
theorem same_or_clash (h : as.flatMap fields = bs.flatMap fields) :
    List.Forall₂ Same as bs ∨ Clash as bs := by
  induction as generalizing bs with
  | nil =>
    cases bs with
    | nil => exact Or.inl List.Forall₂.nil
    | cons b bs => exact absurd (List.append_eq_nil_iff.mp h.symm).1 b.fields_ne_nil
  | cons a as ih =>
    cases bs with
    | nil => exact absurd (List.append_eq_nil_iff.mp h).1 a.fields_ne_nil
    | cons b bs =>
      rw [List.flatMap_cons, List.flatMap_cons] at h
      rcases fields_append_eq h with ⟨hcounted, hlabel, hvalues, hrest⟩ | ⟨hcounts, hrest⟩ |
        ⟨hcounts, hrest⟩
      · by_cases hkind : a.kind = b.kind
        · have hsame := same_of_kind_eq hkind hlabel hvalues
          rcases ih hrest with htail | htail
          · exact Or.inl (List.Forall₂.cons hsame htail)
          · exact Or.inr (Clash.cons hsame htail)
        · exact Or.inr (Clash.kinds ⟨hkind, hcounted, hlabel, hvalues⟩ hrest)
      · exact Or.inr (Clash.counts hcounts hrest)
      · exact Or.inr (Clash.counted hcounts hrest)

theorem fields_eq_of_same (h : List.Forall₂ Same as bs) :
    as.flatMap fields = bs.flatMap fields := by
  induction h with
  | nil => rfl
  | cons hhead _ ih => rw [List.flatMap_cons, List.flatMap_cons, hhead.fields_eq, ih]

theorem Alias.fields_eq (h : Alias a b) : a.fields = b.fields := by
  obtain ⟨-, hcounted, hlabel, hvalues⟩ := h
  rw [fields, fields, written, written, hlabel, hvalues, hcounted]

theorem Counts.fields_eq (h : Counts a b) : a.fields = b.fields ++ a.values.map (a.label, ·) := by
  obtain ⟨ha, hb, hlabel, hvalues⟩ := h
  obtain ⟨v, hv, hfields⟩ := exists_value hb
  obtain rfl : v = _ := List.singleton_inj.mp (hv.symm.trans hvalues)
  rw [fields_of_counted ha, hfields, hlabel, List.singleton_append]

theorem Clash.fields_eq (h : Clash as bs) : as.flatMap fields = bs.flatMap fields := by
  induction h with
  | cons head _ ih => rw [List.flatMap_cons, List.flatMap_cons, head.fields_eq, ih]
  | kinds head rest => rw [List.flatMap_cons, List.flatMap_cons, head.fields_eq, rest]
  | counts head rest =>
    rw [List.flatMap_cons, List.flatMap_cons, head.fields_eq, List.append_assoc, rest]
  | counted head rest =>
    rw [List.flatMap_cons, List.flatMap_cons, head.fields_eq, List.append_assoc, rest]

/-- Sequences that clash are not of the same inputs. -/
theorem Clash.not_same (h : Clash as bs) : ¬List.Forall₂ Same as bs := by
  intro hsame
  induction h with
  | cons _ _ ih => exact ih (List.forall₂_cons.mp hsame).2
  | kinds head => exact head.1 (List.forall₂_cons.mp hsame).1.kind_eq
  | counts head =>
    have hcounted := (List.forall₂_cons.mp hsame).1.counted_eq
    rw [head.1, head.2.1] at hcounted
    cases hcounted
  | counted head =>
    have hcounted := (List.forall₂_cons.mp hsame).1.counted_eq
    rw [head.1, head.2.1] at hcounted
    cases hcounted

/-- Which sequences of folds hash the same stream. -/
theorem stream_eq_iff (node : Text) (stageVersion : UInt32) :
    stream node stageVersion as = stream node stageVersion bs ↔
      List.Forall₂ Same as bs ∨ Clash as bs := by
  rw [stream_inj]
  constructor
  · exact same_or_clash
  · rintro (h | h)
    · exact fields_eq_of_same h
    · exact h.fields_eq

/-- Where each label has its one kind of fold, nothing reads as anything else. -/
theorem not_clash_of_kinds (h : ∀ a ∈ as, ∀ b ∈ bs, a.label = b.label → a.kind = b.kind) :
    ¬Clash as bs := by
  intro hclash
  induction hclash with
  | cons _ _ ih =>
    exact ih fun a ha b hb => h a (List.mem_cons_of_mem _ ha) b (List.mem_cons_of_mem _ hb)
  | kinds head =>
    obtain ⟨hkind, -, hlabel, -⟩ := head
    exact hkind (h _ (List.mem_cons_self ..) _ (List.mem_cons_self ..) hlabel)
  | counts head =>
    obtain ⟨ha, hb, hlabel, -⟩ := head
    have hcounted := counted_of_kind_eq
      (h _ (List.mem_cons_self ..) _ (List.mem_cons_self ..) hlabel)
    rw [ha, hb] at hcounted
    cases hcounted
  | counted head =>
    obtain ⟨hb, ha, hlabel, -⟩ := head
    have hcounted := counted_of_kind_eq
      (h _ (List.mem_cons_self ..) _ (List.mem_cons_self ..) hlabel.symm)
    rw [ha, hb] at hcounted
    cases hcounted

/-! ### Stages with a fixed program -/

/-- Some of the labels of a schema, each folded once, in its order and by its kind of fold. -/
def Follows (schema : List (Str × Kind)) (folds : List Fold) : Prop :=
  List.Sublist (folds.map fun f => (f.label, f.kind)) schema

variable {schema : List (Str × Kind)}

theorem label_mem_of_follows (h : Follows schema as) (ha : a ∈ as) :
    a.label ∈ schema.map Prod.fst :=
  List.mem_map.mpr ⟨_, h.subset (List.mem_map_of_mem ha), rfl⟩

theorem not_clash_of_follows (hnodup : (schema.map Prod.fst).Nodup) (has : Follows schema as)
    (hbs : Follows schema bs) : ¬Clash as bs := by
  refine not_clash_of_kinds fun a ha b hb hlabel => ?_
  have hentry := List.inj_on_of_nodup_map hnodup (has.subset (List.mem_map_of_mem ha))
    (hbs.subset (List.mem_map_of_mem hb)) hlabel
  exact congrArg Prod.snd hentry

/-- What stands for an entry of the schema: nothing, or its fold. -/
def StandsFor (entry : Str × Kind) (o : Option Fold) : Prop :=
  ∀ f ∈ o, (f.label, f.kind) = entry

variable {entries entries' : List (Option Fold)}

theorem follows_reduceOption (h : List.Forall₂ StandsFor schema entries) :
    Follows schema entries.reduceOption := by
  induction h with
  | nil => exact List.Sublist.refl _
  | @cons entry o _ _ hhead _ ih =>
    cases o with
    | none =>
      rw [List.reduceOption_cons_of_none]
      exact ih.cons entry
    | some f =>
      rw [List.reduceOption_cons_of_some, ← hhead f rfl]
      exact ih.cons_cons _

/-- Entry by entry, two sequences of one schema fold the same inputs. -/
theorem same_reduceOption_iff (hnodup : (schema.map Prod.fst).Nodup)
    (h : List.Forall₂ StandsFor schema entries) (h' : List.Forall₂ StandsFor schema entries') :
    List.Forall₂ Same entries.reduceOption entries'.reduceOption ↔
      List.Forall₂ (Option.Rel Same) entries entries' := by
  induction h generalizing entries' with
  | nil =>
    cases h'
    simp
  | @cons entry o _ entries hhead htail ih =>
    cases h' with
    | @cons _ o' _ entries' hhead' htail' =>
    obtain ⟨hentry, hnodup⟩ := List.nodup_cons.mp hnodup
    rw [List.forall₂_cons]
    cases o with
    | none =>
      rw [List.reduceOption_cons_of_none]
      cases o' with
      | none =>
        rw [List.reduceOption_cons_of_none, ih hnodup htail']
        simp
      | some g =>
        rw [List.reduceOption_cons_of_some]
        refine iff_of_false (fun hsame => hentry ?_) (fun hrel => by cases hrel.1)
        obtain ⟨f, _, hfg, -, he⟩ := List.forall₂_cons_right_iff.mp hsame
        rw [← hhead' g rfl, ← hfg.label_eq]
        exact label_mem_of_follows (follows_reduceOption htail) (he ▸ List.mem_cons_self ..)
    | some f =>
      rw [List.reduceOption_cons_of_some]
      cases o' with
      | none =>
        rw [List.reduceOption_cons_of_none]
        refine iff_of_false (fun hsame => hentry ?_) (fun hrel => by cases hrel.1)
        obtain ⟨g, _, hfg, -, he⟩ := List.forall₂_cons_left_iff.mp hsame
        rw [← hhead f rfl, hfg.label_eq]
        exact label_mem_of_follows (follows_reduceOption htail') (he ▸ List.mem_cons_self ..)
      | some g =>
        rw [List.reduceOption_cons_of_some, List.forall₂_cons, ih hnodup htail',
          Option.rel_some_some]

/-- The count of a slice, as a scalar's value. -/
def countText (items : Slice Text) : Text :=
  ⟨Nat.toDigits 10 items.val.length,
    le_trans (byteLen_toDigits (lt_of_le_of_lt items.property (by decide))) (by decide)⟩

/-- Every list fold is spelled out by scalars: its count, then its items. -/
theorem clash_spelledOut (label : Text) (items : Slice Text) : Clash [.ordered label items]
    (.scalar label (countText items) :: items.val.map (.scalar label)) := by
  refine Clash.counts ⟨rfl, rfl, rfl, by simp [values, countText]⟩ ?_
  rw [List.flatMap_nil, List.append_nil, List.flatMap_map, values, List.map_map]
  exact List.map_eq_flatMap

/-- Distinct inputs make distinct streams, unless they clash. -/
theorem distinct_iff (node : Text) (stageVersion : UInt32) (as bs : List Fold) :
    (¬List.Forall₂ Same as bs → stream node stageVersion as ≠ stream node stageVersion bs) ↔
      ¬Clash as bs := by
  constructor
  · intro h hclash
    exact h hclash.not_same ((stream_eq_iff node stageVersion).mpr (Or.inr hclash))
  · intro hclash hsame heq
    rcases (stream_eq_iff node stageVersion).mp heq with h | h
    · exact hsame h
    · exact hclash h

/-- The ordered list `["a"]` under `x` against the scalars `"1"` and `"a"`. -/
theorem list_read_as_scalars :
    ¬(¬List.Forall₂ Same [.ordered (lit "x") (slice [lit "a"])]
        [.scalar (lit "x") (lit "1"), .scalar (lit "x") (lit "a")] →
      stream (lit "n") 1 [.ordered (lit "x") (slice [lit "a"])] ≠
        stream (lit "n") 1 [.scalar (lit "x") (lit "1"), .scalar (lit "x") (lit "a")]) := by
  have hclash := clash_spelledOut (lit "x") (slice [lit "a"])
  intro h
  exact h hclash.not_same ((stream_eq_iff _ _).mpr (Or.inr hclash))

end Fold

end Boot2Deb.Engine
