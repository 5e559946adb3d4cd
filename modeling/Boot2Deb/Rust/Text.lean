import Boot2Deb.Rust.Str

/-!
# Strings and slices that fit in memory

No allocation holds more than `isize::MAX` bytes, so the length of a string, in bytes, and of a
slice of strings, in elements, always fits a `u64`. `Text` and `Slice` carry that bound.
-/

namespace Boot2Deb.Rust

/-- `isize::MAX`. -/
def isizeMax : ℕ := 2 ^ 63 - 1

/-- A string as a program can hold it. -/
abbrev Text := {s : Str // byteLen s ≤ isizeMax}

/-- A slice as a program can hold it. -/
abbrev Slice (α : Type) := {l : List α // l.length ≤ isizeMax}

/-- A string literal. -/
def lit (s : String) (h : byteLen s.toList ≤ isizeMax := by decide) : Text := ⟨s.toList, h⟩

/-- A slice of the elements of a list. -/
def slice {α : Type} (l : List α) (h : l.length ≤ isizeMax := by decide) : Slice α := ⟨l, h⟩

/-- The low `width` bytes of a number, the lowest first. -/
def leBytes : ℕ → ℕ → Bytes
  | 0, _ => []
  | width + 1, n => UInt8.ofNat n :: leBytes width (n / 256)

/-- `(n as u64).to_le_bytes()`. -/
def u64ToLeBytes (n : ℕ) : Bytes := leBytes 8 n

/-- The order of `str`, byte by byte, which is that of the characters. -/
def StrLe (a b : Str) : Prop := (compare a b).isLE

instance : DecidableRel StrLe := fun a b => inferInstanceAs (Decidable ((compare a b).isLE = true))

/-- `sort` and `sort_unstable` of a slice of strings, which agree: equal strings are the same. -/
def sortUnstable (l : List Str) : List Str := l.insertionSort StrLe

/-- `Vec::dedup`: one of each run of equal elements. -/
def dedup {α : Type} [DecidableEq α] : List α → List α
  | [] => []
  | [a] => [a]
  | a :: b :: l => if a = b then dedup (b :: l) else a :: dedup (b :: l)

/-- `str::from_utf8`. -/
def fromUtf8 (b : Bytes) : Option Str := b.toByteArray.utf8Decode?.map Array.toList

/-- `u8::to_ascii_lowercase`. -/
def lowerByte (b : UInt8) : UInt8 := if 0x41 ≤ b ∧ b ≤ 0x5a then b + 0x20 else b

/-! ### Bytes -/

theorem fromUtf8_asBytes (s : Str) : fromUtf8 (asBytes s) = some s := by
  have hencode : (asBytes s).toByteArray = s.utf8Encode := rfl
  unfold fromUtf8
  rw [hencode, List.utf8Decode?_utf8Encode]
  rfl

theorem eq_asBytes_of_fromUtf8 {b : Bytes} {s : Str} (h : fromUtf8 b = some s) : b = asBytes s := by
  obtain ⟨chars, hdecode, rfl⟩ := Option.map_eq_some_iff.mp h
  have hget := ByteArray.utf8Encode_get_utf8Decode? (b := b.toByteArray) (h := by simp [hdecode])
  simp only [hdecode, Option.get_some] at hget
  have hdata := congrArg ByteArray.data hget
  simpa [List.utf8Encode, asBytes] using hdata.symm

theorem asBytes_append (s t : Str) : asBytes (s ++ t) = asBytes s ++ asBytes t :=
  List.flatMap_append

/-- Text of ASCII characters is its codes. -/
theorem asBytes_of_ascii {s : Str} (h : ∀ c ∈ s, c.toNat < 128) :
    asBytes s = s.map fun c => c.val.toUInt8 := by
  induction s with
  | nil => rfl
  | cons c s ih =>
    have hc : c.val ≤ 127 := UInt32.le_iff_toNat_le.mpr (Nat.le_of_lt_succ (h c List.mem_cons_self))
    have hchar : String.utf8EncodeChar c = [c.val.toUInt8] := by
      rw [String.utf8EncodeChar_eq_singleton (Char.utf8Size_eq_one_iff.mpr hc)]
    rw [asBytes, List.flatMap_cons, hchar, List.map_cons]
    exact congrArg _ (ih fun c hc => h c (List.mem_cons_of_mem _ hc))

/-- A byte below 128 is that of the character with its code. -/
theorem exists_of_mem_asBytes {s : Str} {b : UInt8} (hb : b.toNat < 0x80) (h : b ∈ asBytes s) :
    ∃ c ∈ s, c.toNat = b.toNat := by
  obtain ⟨c, hc, h⟩ := List.mem_flatMap.mp h
  refine ⟨c, hc, ?_⟩
  show c.val.toNat = b.toNat
  unfold String.utf8EncodeChar at h
  extract_lets v at h
  show v = b.toNat
  clear_value v
  split_ifs at h
  all_goals simp only [List.mem_cons, List.not_mem_nil, or_false, ← UInt8.toNat_inj,
    UInt8.toNat_ofNat'] at h
  all_goals omega

/-- Only NUL has a zero byte. -/
theorem zero_notMem_asBytes {s : Str} (h : '\x00' ∉ s) : 0 ∉ asBytes s := by
  intro hzero
  obtain ⟨c, hc, hcode⟩ := exists_of_mem_asBytes (by decide) hzero
  rw [show c = '\x00' from Char.toNat_inj.mp hcode] at hc
  exact h hc

theorem lowerByte_eq_hyphen {b : UInt8} (h : lowerByte b = 0x2d) : b = 0x2d := by
  revert b
  decide +kernel

theorem length_asBytes (s : Str) : (asBytes s).length = byteLen s := by
  simp [asBytes, byteLen, List.length_flatMap]

theorem asBytes_injective : Function.Injective asBytes := by
  intro s t h
  have hb : (String.ofList s).toByteArray = (String.ofList t).toByteArray := by
    rw [String.toByteArray_ofList, String.toByteArray_ofList, List.utf8Encode, List.utf8Encode]
    exact congrArg List.toByteArray h
  exact String.ofList_injective (String.toByteArray_inj.mp hb)

theorem length_leBytes (width n : ℕ) : (leBytes width n).length = width := by
  induction width generalizing n with
  | zero => rfl
  | succ width ih => rw [leBytes, List.length_cons, ih]

theorem leBytes_injOn (width : ℕ) : Set.InjOn (leBytes width) {n | n < 256 ^ width} := by
  intro a ha b hb h
  induction width generalizing a b with
  | zero =>
    simp only [pow_zero, Set.mem_ofPred_eq, Nat.lt_one_iff] at ha hb
    rw [ha, hb]
  | succ width ih =>
    simp only [Set.mem_ofPred_eq, pow_succ] at ha hb
    obtain ⟨hlow, hhigh⟩ := List.cons.inj h
    have hdiv := ih (Nat.div_lt_of_lt_mul (by rwa [Nat.mul_comm] at ha))
      (Nat.div_lt_of_lt_mul (by rwa [Nat.mul_comm] at hb)) hhigh
    have hmod : a % 256 = b % 256 := by simpa [← UInt8.toNat_inj] using hlow
    rw [← Nat.div_add_mod a 256, ← Nat.div_add_mod b 256, hdiv, hmod]

/-- A number that fits a `u64` has at most twenty digits. -/
theorem byteLen_toDigits {n : ℕ} (h : n < 2 ^ 64) : byteLen (Nat.toDigits 10 n) ≤ 20 := by
  have hone : ∀ c ∈ Nat.toDigits 10 n, Char.utf8Size c = 1 := by
    intro c hc
    have hdigit := isDigit_of_mem_toDigits hc
    rw [Char.isDigit_iff_toNat] at hdigit
    exact Char.utf8Size_eq_one_iff.mpr (UInt32.le_iff_toNat_le.mpr (le_trans hdigit.2 (by decide)))
  have hlen : (Nat.toDigits 10 n).length ≤ 20 :=
    (Nat.length_toDigits_le_iff (by decide) (by decide)).mpr (lt_trans h (by decide))
  rwa [byteLen, List.map_congr_left hone, List.map_const', List.sum_replicate, smul_eq_mul, mul_one]

theorem toDigits_injective : Function.Injective (Nat.toDigits 10) := by
  intro a b h
  rw [← decimal_toDigits a, h, decimal_toDigits]

/-! ### Sorting -/

variable {α : Type} [DecidableEq α]

theorem mem_dedup {a : α} : ∀ {l : List α}, a ∈ dedup l ↔ a ∈ l
  | [] => by simp [dedup]
  | [b] => by simp [dedup]
  | b :: c :: l => by
    rw [dedup]
    split_ifs with h
    · rw [mem_dedup, h]
      simp
    · rw [List.mem_cons, mem_dedup, List.mem_cons (b := b)]

/-- In a sorted list `dedup` leaves no element twice. -/
theorem nodup_dedup {r : α → α → Prop} [Std.Antisymm r] :
    ∀ {l : List α}, l.Pairwise r → (dedup l).Nodup
  | [], _ => List.nodup_nil
  | [_], _ => List.nodup_singleton _
  | b :: c :: l, h => by
    obtain ⟨hb, hcl⟩ := List.pairwise_cons.mp h
    rw [dedup]
    split_ifs with hbc
    · exact nodup_dedup hcl
    · refine List.nodup_cons.mpr ⟨fun hmem => ?_, nodup_dedup hcl⟩
      rcases List.mem_cons.mp (mem_dedup.mp hmem) with he | hl
      · exact hbc he
      · exact hbc (Std.Antisymm.antisymm _ _ (hb c (List.mem_cons_self ..))
          ((List.pairwise_cons.mp hcl).1 b hl))

theorem dedup_sublist : ∀ l : List α, List.Sublist (dedup l) l
  | [] => List.Sublist.refl _
  | [_] => List.Sublist.refl _
  | b :: c :: l => by
    rw [dedup]
    split_ifs with h
    · exact (dedup_sublist (c :: l)).cons b
    · exact (dedup_sublist (c :: l)).cons_cons b

instance : Std.Antisymm StrLe :=
  ⟨fun _ _ hab hba => Std.LawfulEqCmp.eq_of_compare (Std.OrientedCmp.isLE_antisymm hab hba)⟩

instance : IsTrans Str StrLe := ⟨fun _ _ _ hab hbc => Std.TransCmp.isLE_trans hab hbc⟩

instance : Std.Total StrLe :=
  ⟨fun a b => by
    show (compare a b).isLE ∨ (compare b a).isLE
    rw [← Std.OrientedCmp.isGE_iff_isLE (a := a)]
    cases compare a b <;> simp⟩

theorem mem_sortUnstable {a : Str} {l : List Str} : a ∈ sortUnstable l ↔ a ∈ l :=
  List.mem_insertionSort _

theorem pairwise_sortUnstable (l : List Str) : (sortUnstable l).Pairwise StrLe :=
  List.pairwise_insertionSort StrLe l

/-- Sorted and rid of repeats, a list is the set of its elements. -/
theorem dedup_sortUnstable_inj {l m : List Str} :
    dedup (sortUnstable l) = dedup (sortUnstable m) ↔ ∀ a, a ∈ l ↔ a ∈ m := by
  constructor
  · intro h a
    rw [← mem_sortUnstable (l := l), ← mem_dedup, h, mem_dedup, mem_sortUnstable]
  · intro h
    have hperm : (dedup (sortUnstable l)).Perm (dedup (sortUnstable m)) :=
      (List.perm_ext_iff_of_nodup (nodup_dedup (pairwise_sortUnstable l))
        (nodup_dedup (pairwise_sortUnstable m))).mpr fun a => by
          rw [mem_dedup, mem_sortUnstable, h, mem_dedup, mem_sortUnstable]
    exact hperm.eq_of_pairwise (fun a b _ _ hab hba => Std.Antisymm.antisymm a b hab hba)
      ((pairwise_sortUnstable l).sublist (dedup_sublist _))
      ((pairwise_sortUnstable m).sublist (dedup_sublist _))

end Boot2Deb.Rust
