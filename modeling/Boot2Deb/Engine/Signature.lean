import Boot2Deb.Rust.Text
import Boot2Deb.Lib.Framing

/-!
# Build signatures

A stage signature is the digest of a byte stream. A `SignatureBuilder` writes the stream as labelled,
length-prefixed fields, one `fold…` for each input of the stage, and keeps beside it a `Record` of
every fold for `why-rebuild`. The stream is read back field by field (`stream_inj`): no two lists
of fields share a stream. The digest `sha256_hex` is a parameter.
-/

namespace Boot2Deb.Engine

open Rust

/-- A node's build signature: the digest of its inputs. -/
structure Signature where
  hex : Str
deriving DecidableEq, Repr

/-- One folded input: its label and its canonical values. -/
structure Record where
  label : Str
  values : List Str
deriving DecidableEq, Repr

structure SignatureBuilder where
  node : Str
  stageVersion : UInt32
  buf : Bytes
  records : List Record

/-- A tree's stamped signature and the inputs that produced it. -/
structure SignatureManifest where
  node : Str
  stageVersion : UInt32
  signature : Str
  records : List Record

namespace SignatureBuilder

/-- Append one length-prefixed (label, value) field to the stream. -/
def writeField (b : SignatureBuilder) (label : Str) (value : Bytes) : SignatureBuilder :=
  { b with
    buf := b.buf ++ u64ToLeBytes (asBytes label).length ++ asBytes label ++
      u64ToLeBytes value.length ++ value }

/-- `self.records.push`. -/
def pushRecord (b : SignatureBuilder) (label : Str) (values : List Str) : SignatureBuilder :=
  { b with records := b.records ++ [⟨label, values⟩] }

/-- Start a signature for a node at a stage-recipe version. -/
def new (node : Str) (stageVersion : UInt32) : SignatureBuilder :=
  let b : SignatureBuilder := ⟨node, stageVersion, [], []⟩
  let b := b.writeField "node".toList (asBytes node)
  b.writeField "stage_version".toList (asBytes (Nat.toDigits 10 stageVersion.toNat))

/-- Fold a single scalar input. -/
def foldScalar (b : SignatureBuilder) (label value : Str) : SignatureBuilder :=
  (b.writeField label (asBytes value)).pushRecord label [value]

/-- Fold an order-sensitive list: the count, then each item in order. -/
def foldOrdered (b : SignatureBuilder) (label : Str) (items : List Str) : SignatureBuilder :=
  let b := b.writeField label (asBytes (Nat.toDigits 10 items.length))
  let b := items.foldl (fun b it => b.writeField label (asBytes it)) b
  b.pushRecord label items

/-- Fold an order-insensitive set: sorted and rid of repeats first. -/
def foldSet (b : SignatureBuilder) (label : Str) (items : List Str) : SignatureBuilder :=
  b.foldOrdered label (dedup (sortUnstable items))

/-- Fold a dependency node's signature. -/
def foldDep (b : SignatureBuilder) (dep : Signature) : SignatureBuilder :=
  (b.writeField "dep".toList (asBytes dep.hex)).pushRecord "dep".toList [dep.hex]

/-- Hash the stream. -/
def finish (sha256Hex : Bytes → Str) (b : SignatureBuilder) : Signature := ⟨sha256Hex b.buf⟩

/-- The signature with the records it was rolled from. -/
def manifest (sha256Hex : Bytes → Str) (b : SignatureBuilder) : SignatureManifest :=
  { node := b.node
    stageVersion := b.stageVersion
    signature := (b.finish sha256Hex).hex
    records := b.records }

end SignatureBuilder

/-! ### Sequences of folds -/

/-- One call of a `fold…` method. -/
inductive Fold where
  | scalar (label value : Text)
  | ordered (label : Text) (items : Slice Text)
  | set (label : Text) (items : Slice Text)
  | dep (signature : Text)
deriving DecidableEq

namespace Fold

def apply (b : SignatureBuilder) : Fold → SignatureBuilder
  | scalar label value => b.foldScalar label value
  | ordered label items => b.foldOrdered label (items.val.map Subtype.val)
  | set label items => b.foldSet label (items.val.map Subtype.val)
  | dep signature => b.foldDep ⟨signature⟩

/-- The builder after a sequence of folds. -/
def run (node : Text) (stageVersion : UInt32) (folds : List Fold) : SignatureBuilder :=
  folds.foldl apply (.new node stageVersion)

/-- The byte stream a sequence of folds hashes. -/
def stream (node : Text) (stageVersion : UInt32) (folds : List Fold) : Bytes :=
  (run node stageVersion folds).buf

/-- The label a fold writes under. -/
def label : Fold → Str
  | scalar label _ | ordered label _ | set label _ => label
  | dep _ => "dep".toList

/-- The values a fold records. -/
def values : Fold → List Str
  | scalar _ value => [value]
  | ordered _ items => items.val.map Subtype.val
  | set _ items => dedup (sortUnstable (items.val.map Subtype.val))
  | dep signature => [signature]

/-- What a fold records. -/
def record (f : Fold) : Record := ⟨f.label, f.values⟩

/-- Whether a fold writes a count in front of its values. -/
def counted : Fold → Bool
  | scalar .. | dep _ => false
  | ordered .. | set .. => true

/-- The values a fold writes, the count among them. -/
def written (f : Fold) : List Str :=
  if f.counted then Nat.toDigits 10 f.values.length :: f.values else f.values

/-- The fields a fold writes. -/
def fields (f : Fold) : List (Str × Str) := f.written.map (f.label, ·)

end Fold

/-- The bytes of one field. -/
def fieldBytes (field : Str × Str) : Bytes :=
  framed u64ToLeBytes (asBytes field.1) ++ framed u64ToLeBytes (asBytes field.2)

/-! ### The stream, read back -/

/-- The fields that fit the eight bytes of their lengths. -/
def fitting : Set (Str × Str) :=
  {l | (asBytes l).length < 256 ^ 8} ×ˢ {v | (asBytes v).length < 256 ^ 8}

theorem selfDelimitingOn_fieldBytes : SelfDelimitingOn fieldBytes fitting := by
  have hpart : SelfDelimitingOn (fun s => framed u64ToLeBytes (asBytes s))
      {s | (asBytes s).length < 256 ^ 8} :=
    selfDelimitingOn_framed (length_leBytes 8) (leBytes_injOn 8) asBytes_injective
  exact hpart.prod hpart

theorem fieldBytes_ne_nil (field : Str × Str) : fieldBytes field ≠ [] := by
  intro h
  exact framed_ne_nil (length_leBytes 8) (by decide) _ (List.append_eq_nil_iff.mp h).1

/-- Distinct lists of fields make distinct streams. -/
theorem fieldBytes_injOn :
    Set.InjOn (List.flatMap fieldBytes) {fs | ∀ field ∈ fs, field ∈ fitting} :=
  selfDelimitingOn_fieldBytes.flatMap_injOn fieldBytes_ne_nil

theorem length_asBytes_lt (t : Text) : (asBytes t).length < 256 ^ 8 := by
  rw [length_asBytes]
  exact lt_of_le_of_lt t.property (by decide)

theorem length_asBytes_toDigits_lt {n : ℕ} (h : n < 2 ^ 64) :
    (asBytes (Nat.toDigits 10 n)).length < 256 ^ 8 := by
  rw [length_asBytes]
  exact lt_of_le_of_lt (byteLen_toDigits h) (by decide)

theorem buf_writeField (b : SignatureBuilder) (label value : Str) :
    (b.writeField label (asBytes value)).buf = b.buf ++ fieldBytes (label, value) := by
  simp [SignatureBuilder.writeField, fieldBytes, framed]

namespace Fold

theorem buf_foldl_writeField (b : SignatureBuilder) (label : Str) (items : List Str) :
    (items.foldl (fun b it => b.writeField label (asBytes it)) b).buf =
      b.buf ++ (items.map (label, ·)).flatMap fieldBytes := by
  induction items generalizing b with
  | nil => simp
  | cons it items ih =>
    rw [List.foldl_cons, ih, buf_writeField, List.map_cons, List.flatMap_cons, List.append_assoc]

theorem records_foldl_writeField (b : SignatureBuilder) (label : Str) (items : List Str) :
    (items.foldl (fun b it => b.writeField label (asBytes it)) b).records = b.records := by
  induction items generalizing b with
  | nil => rfl
  | cons it items ih => exact ih _

theorem buf_foldOrdered (b : SignatureBuilder) (label : Str) (items : List Str) :
    (b.foldOrdered label items).buf = b.buf ++
      ((Nat.toDigits 10 items.length :: items).map (label, ·)).flatMap fieldBytes := by
  unfold SignatureBuilder.foldOrdered
  show SignatureBuilder.buf (items.foldl _ _) = _
  rw [buf_foldl_writeField, buf_writeField, List.map_cons, List.flatMap_cons, List.append_assoc]

theorem records_foldOrdered (b : SignatureBuilder) (label : Str) (items : List Str) :
    (b.foldOrdered label items).records = b.records ++ [⟨label, items⟩] := by
  unfold SignatureBuilder.foldOrdered
  show SignatureBuilder.records (items.foldl _ _) ++ _ = _
  rw [records_foldl_writeField]
  rfl

/-- What one fold adds to the stream. -/
theorem buf_apply (b : SignatureBuilder) (f : Fold) :
    (f.apply b).buf = b.buf ++ f.fields.flatMap fieldBytes := by
  cases f with
  | scalar label value | dep signature =>
    show (b.writeField _ (asBytes _)).buf = _
    rw [buf_writeField]
    simp [fields, written, counted, values, Fold.label]
  | ordered label items | set label items => exact buf_foldOrdered ..

theorem records_apply (b : SignatureBuilder) (f : Fold) :
    (f.apply b).records = b.records ++ [f.record] := by
  cases f with
  | scalar label value | dep signature => rfl
  | ordered label items | set label items => exact records_foldOrdered ..

variable (node : Text) (stageVersion : UInt32)

/-- The fields every stream starts with. -/
def header : List (Str × Str) :=
  [("node".toList, node), ("stage_version".toList, Nat.toDigits 10 stageVersion.toNat)]

/-- What a whole sequence of folds writes. -/
theorem stream_eq (folds : List Fold) : stream node stageVersion folds =
    (header node stageVersion ++ folds.flatMap fields).flatMap fieldBytes := by
  unfold stream run
  suffices h : ∀ b : SignatureBuilder, (folds.foldl apply b).buf =
      b.buf ++ (folds.flatMap fields).flatMap fieldBytes by
    rw [h, SignatureBuilder.new, buf_writeField, buf_writeField]
    simp [header]
  induction folds with
  | nil => simp
  | cons f folds ih =>
    intro b
    rw [List.foldl_cons, ih, buf_apply, List.flatMap_cons, List.flatMap_append, List.append_assoc]

/-- What it records. -/
theorem records_run (folds : List Fold) :
    (run node stageVersion folds).records = folds.map record := by
  unfold run
  suffices h : ∀ b : SignatureBuilder, (folds.foldl apply b).records =
      b.records ++ folds.map record by
    rw [h]
    rfl
  induction folds with
  | nil => simp
  | cons f folds ih =>
    intro b
    rw [List.foldl_cons, ih, records_apply, List.map_cons, List.append_assoc,
      List.singleton_append]

theorem length_values_le (f : Fold) : f.values.length ≤ isizeMax := by
  cases f with
  | scalar label value | dep signature =>
    show 1 ≤ isizeMax
    decide
  | ordered label items =>
    rw [values, List.length_map]
    exact items.property
  | set label items =>
    rw [values]
    refine le_trans (dedup_sublist _).length_le ?_
    rw [sortUnstable, List.length_insertionSort, List.length_map]
    exact items.property

theorem length_values_lt (f : Fold) {v : Str} (hv : v ∈ f.values) :
    (asBytes v).length < 256 ^ 8 := by
  have hmap : ∀ {items : List Text}, v ∈ items.map Subtype.val → (asBytes v).length < 256 ^ 8 := by
    intro items hv
    obtain ⟨t, -, rfl⟩ := List.mem_map.mp hv
    exact length_asBytes_lt t
  cases f with
  | scalar label value | dep signature =>
    obtain rfl := List.mem_singleton.mp hv
    exact length_asBytes_lt _
  | ordered label items => exact hmap hv
  | set label items => exact hmap (mem_sortUnstable.mp (mem_dedup.mp hv))

theorem length_label_lt (f : Fold) : (asBytes f.label).length < 256 ^ 8 := by
  cases f with
  | scalar label value => exact length_asBytes_lt label
  | ordered label items => exact length_asBytes_lt label
  | set label items => exact length_asBytes_lt label
  | dep signature =>
    show (asBytes "dep".toList).length < 256 ^ 8
    decide

theorem fields_fitting (f : Fold) : ∀ field ∈ f.fields, field ∈ fitting := by
  intro field hfield
  obtain ⟨v, hv, rfl⟩ := List.mem_map.mp hfield
  refine ⟨f.length_label_lt, ?_⟩
  show (asBytes v).length < 256 ^ 8
  rw [written] at hv
  split_ifs at hv with hcounted
  · rcases List.mem_cons.mp hv with rfl | hv
    · exact length_asBytes_toDigits_lt (lt_of_le_of_lt f.length_values_le (by decide))
    · exact f.length_values_lt hv
  · exact f.length_values_lt hv

/-- Two streams of a stage are the same only if the folds write the same fields. -/
theorem stream_inj {folds folds' : List Fold} :
    stream node stageVersion folds = stream node stageVersion folds' ↔
      folds.flatMap fields = folds'.flatMap fields := by
  have hfit : ∀ folds : List Fold,
      ∀ field ∈ header node stageVersion ++ folds.flatMap fields, field ∈ fitting := by
    intro folds field hfield
    rcases List.mem_append.mp hfield with hfield | hfield
    · simp only [header, List.mem_cons, List.not_mem_nil, or_false] at hfield
      have hnode : (asBytes "node".toList).length < 256 ^ 8 := by decide
      have hversion : (asBytes "stage_version".toList).length < 256 ^ 8 := by decide
      rcases hfield with rfl | rfl
      · exact ⟨hnode, length_asBytes_lt node⟩
      · exact ⟨hversion,
          length_asBytes_toDigits_lt (lt_trans stageVersion.toNat_lt (by decide))⟩
    · obtain ⟨f, -, hfield⟩ := List.mem_flatMap.mp hfield
      exact f.fields_fitting field hfield
  rw [stream_eq, stream_eq]
  constructor
  · intro h
    exact List.append_cancel_left (fieldBytes_injOn (hfit folds) (hfit folds') h)
  · intro h
    rw [h]

end Fold

/-! ### A digest without collisions -/

/-- The digests of a table, and a text of its own for every other stream. -/
def digestTable (table : List (Bytes × Str)) (bytes : Bytes) : Str :=
  match table.find? (·.1 = bytes) with
  | some entry => entry.2
  | none => 'x' :: bytes.map fun byte => Char.ofNat byte.toNat

theorem map_charOfNat_injective :
    Function.Injective (List.map fun byte : UInt8 => Char.ofNat byte.toNat) := by
  refine List.map_injective_iff.mpr fun a b h => ?_
  have hvalid : ∀ c : UInt8, c.toNat.isValidChar := fun c =>
    Or.inl (lt_trans c.toNat_lt (by decide))
  have htoNat := congrArg Char.toNat h
  rw [Char.toNat_ofNat, Char.toNat_ofNat, if_pos (hvalid a), if_pos (hvalid b)] at htoNat
  exact UInt8.toNat_inj.mp htoNat

theorem digestTable_injective {table : List (Bytes × Str)} (hnodup : (table.map Prod.snd).Nodup)
    (hx : ∀ entry ∈ table, entry.2.head? ≠ some 'x') : Function.Injective (digestTable table) := by
  intro a b h
  unfold digestTable at h
  cases ha : table.find? (·.1 = a) with
  | none =>
    cases hb : table.find? (·.1 = b) with
    | none =>
      rw [ha, hb] at h
      exact map_charOfNat_injective (List.cons.inj h).2
    | some entry =>
      rw [ha, hb] at h
      exact absurd (congrArg List.head? h).symm (hx entry (List.mem_of_find?_eq_some hb))
  | some entry =>
    cases hb : table.find? (·.1 = b) with
    | none =>
      rw [ha, hb] at h
      exact absurd (congrArg List.head? h) (hx entry (List.mem_of_find?_eq_some ha))
    | some entry' =>
      rw [ha, hb] at h
      have hentry : entry = entry' := List.inj_on_of_nodup_map hnodup
        (List.mem_of_find?_eq_some ha) (List.mem_of_find?_eq_some hb) h
      have hkey : entry.1 = a := by simpa using List.find?_some ha
      have hkey' : entry'.1 = b := by simpa using List.find?_some hb
      rw [← hkey, hentry, hkey']

end Boot2Deb.Engine
