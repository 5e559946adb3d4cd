import Boot2Deb.Engine.Collision
import Boot2Deb.Engine.CacheKey

/-!
# Signatures of a schema

A stage folds some of the labels of its schema, each by its kind of fold. Two equal signatures of one
schema come from one node and fold the same inputs, entry by entry (`same_of_signature_eq`).
-/

namespace Boot2Deb.Engine
open Rust

namespace Fold

theorem header_fitting (node : Text) (stageVersion : UInt32) (folds : List Fold) :
    ∀ field ∈ header node stageVersion ++ folds.flatMap fields, field ∈ fitting := by
  intro field hfield
  rcases List.mem_append.mp hfield with hfield | hfield
  · have hnode : (asBytes "node".toList).length < 256 ^ 8 := by decide
    have hversion : (asBytes "stage_version".toList).length < 256 ^ 8 := by decide
    simp only [header, List.mem_cons, List.not_mem_nil, or_false] at hfield
    rcases hfield with rfl | rfl
    · exact ⟨hnode, length_asBytes_lt node⟩
    · exact ⟨hversion,
        length_asBytes_toDigits_lt (lt_trans stageVersion.toNat_lt (by decide))⟩
  · obtain ⟨f, -, hfield⟩ := List.mem_flatMap.mp hfield
    exact f.fields_fitting field hfield

/-- A stream names its node. -/
theorem node_eq_of_stream_eq {node node' : Text} {stageVersion : UInt32} {folds folds' : List Fold}
    (h : stream node stageVersion folds = stream node' stageVersion folds') : node = node' := by
  rw [stream_eq, stream_eq] at h
  have hfields := fieldBytes_injOn (header_fitting node stageVersion folds)
    (header_fitting node' stageVersion folds') h
  have hhead := (List.cons.inj hfields).1
  exact Subtype.ext (congrArg Prod.snd hhead)

variable {schema : List (Str × Kind)} {entries entries' : List (Option Fold)}

/-- Equal signatures of one schema are of one node, and of the same inputs. -/
theorem same_of_signature_eq {sha256Hex : Bytes → Str} (hsha : Function.Injective sha256Hex)
    (hnodup : (schema.map Prod.fst).Nodup) {node node' : Text} {stageVersion : UInt32}
    (hentries : List.Forall₂ StandsFor schema entries)
    (hentries' : List.Forall₂ StandsFor schema entries')
    (h : sha256Hex (stream node stageVersion entries.reduceOption) =
      sha256Hex (stream node' stageVersion entries'.reduceOption)) :
    node = node' ∧ List.Forall₂ (Option.Rel Same) entries entries' := by
  have hstream := hsha h
  obtain rfl := node_eq_of_stream_eq hstream
  refine ⟨rfl, (same_reduceOption_iff hnodup hentries hentries').mp ?_⟩
  exact ((stream_eq_iff node stageVersion).mp hstream).resolve_right
    (not_clash_of_follows hnodup (follows_reduceOption hentries) (follows_reduceOption hentries'))

theorem standsFor_some (f : Fold) : StandsFor (f.label, f.kind) (some f) := by
  intro g hg
  cases hg
  rfl

theorem standsFor_map {α : Type} {entry : Str × Kind} {f : α → Fold} {o : Option α}
    (h : ∀ a, ((f a).label, (f a).kind) = entry) : StandsFor entry (o.map f) := by
  intro g hg
  obtain ⟨a, -, rfl⟩ := Option.map_eq_some_iff.mp hg
  exact h a

/-- A stage that folds every label of its schema. -/
theorem same_of_full_signature_eq {sha256Hex : Bytes → Str} (hsha : Function.Injective sha256Hex)
    (hnodup : (schema.map Prod.fst).Nodup) {node node' : Text} {stageVersion : UInt32}
    {folds folds' : List Fold} (hfolds : folds.map (fun f => (f.label, f.kind)) = schema)
    (hfolds' : folds'.map (fun f => (f.label, f.kind)) = schema)
    (h : sha256Hex (stream node stageVersion folds) =
      sha256Hex (stream node' stageVersion folds')) :
    node = node' ∧ List.Forall₂ Same folds folds' := by
  have hstands : ∀ {folds : List Fold}, folds.map (fun f => (f.label, f.kind)) = schema →
      List.Forall₂ StandsFor schema (folds.map some) := by
    rintro folds rfl
    rw [List.forall₂_map_left_iff, List.forall₂_map_right_iff]
    exact List.forall₂_same.mpr fun f _ => standsFor_some f
  have hreduce : ∀ folds : List Fold, (folds.map some).reduceOption = folds := fun folds => by
    rw [List.reduceOption, List.filterMap_map]
    exact List.filterMap_some
  rw [← hreduce folds, ← hreduce folds'] at h
  obtain ⟨hnode, hrel⟩ := same_of_signature_eq hsha hnodup (hstands hfolds) (hstands hfolds') h
  rw [List.forall₂_map_left_iff, List.forall₂_map_right_iff] at hrel
  exact ⟨hnode, hrel.imp fun _ _ => Option.rel_some_some.mp⟩

/-- Optional inputs of one kind are the same where the inputs are. -/
theorem rel_map_iff {α : Type} {f : α → Fold} (hf : ∀ a b, Same (f a) (f b) ↔ a = b)
    {o o' : Option α} : Option.Rel Same (o.map f) (o'.map f) ↔ o = o' := by
  cases o <;> cases o' <;> simp [hf]

end Fold

/-! ### A digest in hex -/

/-- A hexadecimal digit. -/
def hexDigit (n : ℕ) : Char := "0123456789abcdef".toList.getD n '0'

/-- The bytes spelled in hex: a digest that loses nothing. -/
def hexText (bytes : Bytes) : Str :=
  bytes.flatMap fun b => [hexDigit (b.toNat / 16), hexDigit (b.toNat % 16)]

theorem hexDigit_inj : ∀ m < 16, ∀ n < 16, hexDigit m = hexDigit n → m = n := by
  decide

theorem hexText_injective : Function.Injective hexText := by
  intro bytes bytes' h
  induction bytes generalizing bytes' with
  | nil =>
    cases bytes' with
    | nil => rfl
    | cons b bytes' => cases h
  | cons a bytes ih =>
    cases bytes' with
    | nil => cases h
    | cons b bytes' =>
      obtain ⟨hhigh, h⟩ := List.cons.inj h
      obtain ⟨hlow, h⟩ := List.cons.inj h
      have ha := a.toNat_lt
      have hb := b.toNat_lt
      have hdiv := hexDigit_inj _ (by omega) _ (by omega) hhigh
      have hmod := hexDigit_inj _ (by omega) _ (by omega) hlow
      have hab : a = b := UInt8.toNat_inj.mp (by omega)
      rw [hab, ih h]

theorem isHexDigit_of_mem_hexText {bytes : Bytes} {c : Char} (h : c ∈ hexText bytes) :
    c ∈ "0123456789abcdef".toList := by
  have hdigit : ∀ n < 16, hexDigit n ∈ "0123456789abcdef".toList := by decide
  obtain ⟨b, -, hc⟩ := List.mem_flatMap.mp h
  have hb := b.toNat_lt
  rcases List.mem_cons.mp hc with rfl | hc
  · exact hdigit _ (by omega)
  · rw [List.mem_singleton.mp hc]
    exact hdigit _ (by omega)

end Boot2Deb.Engine
