import Boot2Deb.Engine.Elf

/-!
# What the run path of an ELF object is (`engine/src/build/elf.rs`)

The headers and the dynamic entries of a file, read at their exact places. `runpath` reads the same
ones, and panics in two cases: a program header that starts in the last four bytes of the address
range, and a segment whose offset and the offset of the string table in it leave the range.
-/

namespace Boot2Deb.Engine
open Rust Lib

namespace Elf

/-- The bytes of an address or an offset. -/
def wordSize (elf : Elf) : ℕ := if elf.wide then 8 else 4

/-- How far a program header is read. -/
def phdrSize (elf : Elf) : ℕ := if elf.wide then 40 else 20

/-- Where a program header starts. -/
def base (elf : Elf) (i : ℕ) : ℕ := elf.phoff + i * elf.phentsize

/-- The number of `width` bytes at a place of the file. -/
def numberAt (elf : Elf) (width at_ : ℕ) : Option ℕ :=
  if at_ + width ≤ elf.bytes.length then some (elf.number width at_) else none

/-- The program header of an index, where it lies in the file. -/
def phdrAt (elf : Elf) (i : ℕ) : Option Phdr :=
  let field (at_ : ℕ) := elf.number elf.wordSize (elf.base i + at_)
  if elf.base i + elf.phdrSize ≤ elf.bytes.length then
    some ⟨elf.number 4 (elf.base i), field elf.fields.1, field elf.fields.2.1, field elf.fields.2.2⟩
  else none

/-- The program headers in the file. -/
def phdrs (elf : Elf) : List Phdr := (List.range elf.phnum).filterMap elf.phdrAt

/-- The entries of a dynamic segment, tag and value. -/
def entries (elf : Elf) (dynamic : ℕ × ℕ) : List (Option ℕ × Option ℕ) :=
  (List.range (dynamic.2 / elf.stride)).map fun k =>
    (elf.numberAt elf.wordSize (dynamic.1 + k * elf.stride),
      elf.numberAt elf.wordSize (dynamic.1 + k * elf.stride + elf.wordSize))

/-- The value of the first entry with a tag, before the one that ends them. -/
def valueOf (elf : Elf) (dynamic : ℕ × ℕ) (want : ℕ) : Option ℕ :=
  (((elf.entries dynamic).takeWhile fun e => e.1 ≠ none ∧ e.1 ≠ some DT_NULL).find? fun e =>
    e.1 = some want).bind Prod.snd

end Elf

/-- A loadable segment that holds an address. -/
def Phdr.Holds (h : Phdr) (vaddr : ℕ) : Prop :=
  h.type = PT_LOAD ∧ h.vaddr ≤ vaddr ∧ vaddr - h.vaddr < h.filesz

instance (h : Phdr) (vaddr : ℕ) : Decidable (h.Holds vaddr) :=
  inferInstanceAs (Decidable (_ ∧ _ ∧ _))

namespace Elf

/-- The first dynamic segment. -/
def dynamic (elf : Elf) : Option (ℕ × ℕ) :=
  (elf.phdrs.find? fun h => h.type = PT_DYNAMIC).map fun h => (h.offset, h.filesz)

/-- The first loadable segment that holds an address. -/
def holder (elf : Elf) (vaddr : ℕ) : Option Phdr := elf.phdrs.find? fun h => h.Holds vaddr

/-- A program header starts where the end of its first field leaves the range. -/
def TooHigh (elf : Elf) : Prop := ∃ i < elf.phnum, 2 ^ 64 - 4 ≤ elf.base i ∧ elf.base i < 2 ^ 64

/-- The offset to which the string table is mapped leaves the range. -/
def Overruns (elf : Elf) : Prop :=
  ∃ dynamic vaddr h, elf.dynamic = some dynamic ∧ dynamic.1 + dynamic.2 < 2 ^ 64 ∧
    elf.valueOf dynamic DT_STRTAB = some vaddr ∧ elf.holder vaddr = some h ∧
    2 ^ 64 ≤ h.offset + (vaddr - h.vaddr)

end Elf

/-- The header of an ELF object lies in the file and says this. -/
structure IsElf (bytes : Bytes) (elf : Elf) : Prop where
  bytes_eq : elf.bytes = bytes
  magic : bytes.take 4 = ELF_MAGIC
  class_eq : (bytes[4]? : Option UInt8) = some (if elf.wide then 2 else 1)
  data_eq : (bytes[5]? : Option UInt8) = some (if elf.little then 1 else 2)
  inside : (if elf.wide then 58 else 46) ≤ bytes.length
  phoff_eq : elf.phoff = elf.number elf.wordSize (if elf.wide then 32 else 28)
  phentsize_eq : elf.phentsize = elf.number 2 (if elf.wide then 54 else 42)
  phnum_eq : elf.phnum = elf.number 2 (if elf.wide then 56 else 44)
  phentsize_pos : 0 < elf.phentsize

/-- The run path is read without a panic. Where the dynamic segment lies in the file, it is the
string at the offset of the string table and the first `DT_RUNPATH`, or else `DT_RPATH`, and there
is none where the file has neither. -/
def ReadsRunpath (bytes : Bytes) : Prop :=
  runpath bytes ≠ .panic ∧ ∀ elf, IsElf bytes elf →
    (elf.dynamic = none → runpath bytes = .ok none) ∧
    ∀ dynamic, elf.dynamic = some dynamic → dynamic.1 + dynamic.2 ≤ bytes.length →
      let path := (elf.valueOf dynamic DT_RUNPATH).or (elf.valueOf dynamic DT_RPATH)
      (path = none → runpath bytes = .ok none) ∧
      ∀ vaddr h offset s rest, elf.valueOf dynamic DT_STRTAB = some vaddr →
        elf.holder vaddr = some h → path = some offset →
        bytes.drop (h.offset + (vaddr - h.vaddr) + offset) = s ++ 0 :: rest → 0 ∉ s →
        runpath bytes = .ok (fromUtf8 s)

namespace Elf

variable {elf : Elf} {width at_ i : ℕ} {bytes : Bytes}

/-! ### Reading numbers -/

theorem read_of_lt (h : at_ + width < 2 ^ 64) : elf.read width at_ = .ok (elf.numberAt width at_) := by
  rw [read, Usize.add_of_lt h]
  rfl

theorem read_of_le (h : 2 ^ 64 ≤ at_ + width) : elf.read width at_ = .panic := by
  rw [read, Usize.add_of_le h]
  rfl

theorem word_of_lt (h : at_ + elf.wordSize < 2 ^ 64) :
    elf.word at_ = .ok (elf.numberAt elf.wordSize at_) := by
  unfold word wordSize at *
  split_ifs at *
  · exact read_of_lt h
  · exact read_of_lt h

theorem number_lt : elf.number width at_ < 256 ^ width := by
  have hlen : ((elf.bytes.drop at_).take width).length ≤ width := List.length_take_le _ _
  unfold number
  extract_lets field
  split_ifs
  · exact (leNumber_lt field).trans_le (Nat.pow_le_pow_right (by omega) hlen)
  · exact (beNumber_lt field).trans_le (Nat.pow_le_pow_right (by omega) hlen)

@[simp] theorem andThen_some {α β : Type} (a : α) (f : α → Outcome Empty (Option β)) :
    andThen (.ok (some a)) f = f a := rfl

@[simp] theorem andThen_none {α β : Type} (f : α → Outcome Empty (Option β)) :
    andThen (.ok none) f = .ok none := rfl

/-! ### Program headers -/

theorem sizes (elf : Elf) : (elf.wide = true ∧ elf.fields = (8, 16, 32) ∧ elf.wordSize = 8 ∧
    elf.phdrSize = 40 ∧ elf.stride = 16) ∨ (elf.wide = false ∧ elf.fields = (4, 8, 16) ∧
    elf.wordSize = 4 ∧ elf.phdrSize = 20 ∧ elf.stride = 8) := by
  unfold fields wordSize phdrSize stride
  cases elf.wide <;> simp

/-- A header is read where it lies in the file; it panics where its first field ends out of range. -/
theorem phdr_cases (hlen : elf.bytes.length ≤ isizeMax) (i : ℕ) :
    (2 ^ 64 - 4 ≤ elf.base i ∧ elf.base i < 2 ^ 64 ∧ elf.phdr i = .panic) ∨
      (¬ (2 ^ 64 - 4 ≤ elf.base i ∧ elf.base i < 2 ^ 64) ∧ elf.phdr i = .ok (elf.phdrAt i)) := by
  unfold isizeMax at hlen
  have hsize : 20 ≤ elf.phdrSize := by rcases elf.sizes with ⟨-, -, -, h, -⟩ | ⟨-, -, -, h, -⟩ <;> omega
  rcases Nat.lt_or_ge (elf.base i) (2 ^ 64) with hbase | hbase
  · have hchecked : (Usize.checkedMul i elf.phentsize).bind (Usize.checkedAdd elf.phoff) =
        some (elf.base i) := by
      unfold base at hbase ⊢
      rw [Usize.checkedMul, if_pos (by omega), Option.bind_some, Usize.checkedAdd, if_pos hbase]
    rcases Nat.lt_or_ge (elf.base i) (2 ^ 64 - 4) with hlow | hhigh
    · refine .inr ⟨by omega, ?_⟩
      unfold phdr
      rw [hchecked]
      simp only [u32]
      rw [read_of_lt (by omega)]
      rcases Nat.lt_or_ge elf.bytes.length (elf.base i + 4) with hshort | hinside
      · have hnone : elf.phdrAt i = none := if_neg (by omega)
        rw [numberAt, if_neg (by omega), hnone, andThen_none]
      · have hadd : ∀ n ≤ 40, Usize.checkedAdd (elf.base i) n = some (elf.base i + n) :=
          fun n hn => if_pos (by omega)
        have hword : ∀ n ≤ 40, elf.word (elf.base i + n) =
            .ok (elf.numberAt elf.wordSize (elf.base i + n)) := fun n hn => by
          refine word_of_lt ?_
          rcases elf.sizes with ⟨-, -, h, -⟩ | ⟨-, -, h, -⟩ <;> omega
        rw [numberAt, if_pos hinside, andThen_some]
        have hfields : elf.fields.1 ≤ 40 ∧ elf.fields.2.1 ≤ 40 ∧ elf.fields.2.2 ≤ 40 := by
          rcases elf.sizes with ⟨-, h, -⟩ | ⟨-, h, -⟩ <;> rw [h] <;> decide
        show andThen (.ok (Usize.checkedAdd (elf.base i) elf.fields.1)) _ = _
        simp only [hadd _ hfields.1, hadd _ hfields.2.1, hadd _ hfields.2.2, andThen_some,
          hword _ hfields.1, hword _ hfields.2.1, hword _ hfields.2.2]
        have hends : elf.fields.1 + elf.wordSize ≤ elf.phdrSize ∧
            elf.fields.2.1 + elf.wordSize ≤ elf.phdrSize ∧
            elf.fields.2.2 + elf.wordSize = elf.phdrSize := by
          rcases elf.sizes with ⟨-, h, hw, hp, -⟩ | ⟨-, h, hw, hp, -⟩ <;> rw [h, hw, hp] <;> decide
        rcases Nat.lt_or_ge elf.bytes.length (elf.base i + elf.phdrSize) with hshort | hfits
        · have hlast : elf.numberAt elf.wordSize (elf.base i + elf.fields.2.2) = none :=
            if_neg (by omega)
          have hnone : elf.phdrAt i = none := if_neg (by omega)
          rw [hlast, hnone]
          cases elf.numberAt elf.wordSize (elf.base i + elf.fields.1) with
          | none => rfl
          | some offset => cases elf.numberAt elf.wordSize (elf.base i + elf.fields.2.1) <;> rfl
        · have hfield : ∀ n, n + elf.wordSize ≤ elf.phdrSize →
              elf.numberAt elf.wordSize (elf.base i + n) =
                some (elf.number elf.wordSize (elf.base i + n)) := fun n hn => if_pos (by omega)
          rw [hfield _ hends.1, hfield _ hends.2.1, hfield _ hends.2.2.le]
          exact congrArg Outcome.ok (if_pos hfits).symm
    · refine .inl ⟨hhigh, hbase, ?_⟩
      unfold phdr
      rw [hchecked]
      simp only [u32]
      rw [read_of_le (by omega)]
      rfl
  · refine .inr ⟨by omega, ?_⟩
    have hnone : elf.phdrAt i = none := if_neg (by omega)
    have hchecked : (Usize.checkedMul i elf.phentsize).bind (Usize.checkedAdd elf.phoff) = none := by
      unfold base at hbase
      unfold Usize.checkedMul
      split_ifs with hmul
      · exact if_neg (by omega)
      · rfl
    unfold phdr
    rw [hchecked, hnone]

/-! ### Walking the headers -/

variable {β : Type} {f : Phdr → Outcome Empty (Option β)}

/-- The first answer of a function on headers that can all be read. -/
def firstOf (f : Phdr → Outcome Empty (Option β)) : List Phdr → Outcome Empty (Option β)
  | [] => .ok none
  | h :: hs => (f h).bind fun o => match o with
    | some b => .ok (some b)
    | none => firstOf f hs

theorem findMap_eq_firstOf {is : List ℕ} (h : ∀ i ∈ is, elf.phdr i = .ok (elf.phdrAt i)) :
    elf.findMap f is = firstOf f (is.filterMap elf.phdrAt) := by
  induction is with
  | nil => rfl
  | cons i is ih =>
    obtain ⟨hi, his⟩ := List.forall_mem_cons.mp h
    rw [findMap, hi, Outcome.ok_bind, List.filterMap_cons]
    cases elf.phdrAt i with
    | none => exact ih his
    | some phdr =>
      simp only
      rw [firstOf, ih his]
      rfl

theorem findMap_eq_panic {is : List ℕ}
    (h : ∀ i ∈ is, elf.phdr i = .ok none ∨ elf.phdr i = .panic)
    (hpanic : ∃ i ∈ is, elf.phdr i = .panic) : elf.findMap f is = .panic := by
  induction is with
  | nil =>
    obtain ⟨i, hi, -⟩ := hpanic
    cases hi
  | cons i is ih =>
    obtain ⟨hi, his⟩ := List.forall_mem_cons.mp h
    rw [findMap]
    rcases hi with hi | hi
    · rw [hi, Outcome.ok_bind]
      obtain ⟨j, hj, hjpanic⟩ := hpanic
      rcases List.mem_cons.mp hj with rfl | hj
      · rw [hi] at hjpanic
        cases hjpanic
      · exact ih his ⟨j, hj, hjpanic⟩
    · rw [hi]
      rfl

/-- The function that answers on the headers of a kind. -/
theorem firstOf_eq {p : Phdr → Prop} [DecidablePred p] {g : Phdr → Outcome Empty β}
    (h : ∀ phdr, f phdr = if p phdr then (g phdr).bind fun b => .ok (some b) else .ok none)
    (hs : List Phdr) : firstOf f hs = match hs.find? fun phdr => p phdr with
      | some phdr => (g phdr).bind fun b => .ok (some b)
      | none => .ok none := by
  induction hs with
  | nil => rfl
  | cons phdr hs ih =>
    rw [firstOf, h]
    by_cases hp : p phdr
    · rw [if_pos hp, List.find?_cons_of_pos (by simpa using hp)]
      show _ = (g phdr).bind fun b => .ok (some b)
      cases g phdr <;> rfl
    · rw [if_neg hp, List.find?_cons_of_neg (by simpa using hp)]
      exact ih

theorem phdr_of_not_tooHigh (hlen : elf.bytes.length ≤ isizeMax) (h : ¬ elf.TooHigh) :
    ∀ i ∈ List.range elf.phnum, elf.phdr i = .ok (elf.phdrAt i) := by
  intro i hi
  rcases elf.phdr_cases hlen i with ⟨hhigh, hlow, -⟩ | ⟨-, hok⟩
  · exact absurd ⟨i, List.mem_range.mp hi, hhigh, hlow⟩ h
  · exact hok

theorem segment_eq (hlen : elf.bytes.length ≤ isizeMax) (h : ¬ elf.TooHigh) :
    elf.segment PT_DYNAMIC = .ok elf.dynamic := by
  unfold segment dynamic
  rw [findMap_eq_firstOf (phdr_of_not_tooHigh hlen h),
    firstOf_eq (p := fun h => h.type = PT_DYNAMIC) (g := fun h => .ok (h.offset, h.filesz))
      fun h => by split_ifs <;> rfl]
  unfold phdrs
  cases List.find? _ _ <;> rfl

/-- A header too high for its first field leaves no header in the file. -/
theorem segment_eq_panic (hlen : elf.bytes.length ≤ isizeMax) (hsize : elf.phentsize < 2 ^ 16)
    (hnum : elf.phnum < 2 ^ 16) (h : elf.TooHigh) (want : ℕ) : elf.segment want = .panic := by
  obtain ⟨j, hj, hhigh, hlow⟩ := h
  have hfar : ∀ i ∈ List.range elf.phnum, elf.phdrAt i = none := by
    intro i hi
    refine if_neg ?_
    have hspan : j * elf.phentsize ≤ 2 ^ 16 * 2 ^ 16 := Nat.mul_le_mul (by omega) (by omega)
    unfold isizeMax at hlen
    unfold base at hhigh ⊢
    omega
  refine findMap_eq_panic (fun i hi => ?_) ⟨j, List.mem_range.mpr hj, ?_⟩
  · rcases elf.phdr_cases hlen i with ⟨-, -, hpanic⟩ | ⟨-, hok⟩
    · exact .inr hpanic
    · exact .inl (hok.trans (congrArg Outcome.ok (hfar i hi)))
  · rcases elf.phdr_cases hlen j with ⟨-, -, hpanic⟩ | ⟨hno, -⟩
    · exact hpanic
    · exact absurd ⟨hhigh, hlow⟩ hno

theorem vaddrToOffset_eq (hlen : elf.bytes.length ≤ isizeMax) (h : ¬ elf.TooHigh) (vaddr : ℕ) :
    elf.vaddrToOffset vaddr = match elf.holder vaddr with
      | some h => (Usize.add true h.offset (vaddr - h.vaddr)).bind fun at_ => .ok (some at_)
      | none => .ok none := by
  unfold vaddrToOffset holder
  rw [findMap_eq_firstOf (phdr_of_not_tooHigh hlen h)]
  refine firstOf_eq (p := fun h => h.Holds vaddr)
    (g := fun h => Usize.add true h.offset (vaddr - h.vaddr)) (fun h => ?_) _
  by_cases hholds : h.Holds vaddr
  · have ⟨htype, hle, hlt⟩ := hholds
    rw [if_pos hholds, if_neg (not_not.mpr htype), Usize.checkedSub, if_pos hle]
    exact if_pos hlt
  · rw [if_neg hholds]
    by_cases htype : h.type = PT_LOAD
    · rw [if_neg (not_not.mpr htype), Usize.checkedSub]
      by_cases hle : h.vaddr ≤ vaddr
      · rw [if_pos hle]
        exact if_neg fun hlt => hholds ⟨htype, hle, hlt⟩
      · rw [if_neg hle]
    · exact if_pos htype

/-! ### Walking the dynamic entries -/

theorem wordSize_add_wordSize (elf : Elf) : elf.wordSize + elf.wordSize = elf.stride ∧
    elf.stride / 2 = elf.wordSize := by
  rcases elf.sizes with ⟨-, -, h, -, h'⟩ | ⟨-, -, h, -, h'⟩ <;> rw [h, h'] <;> decide

/-- The value of the first of some entries with a tag, before the one that ends them. -/
def firstValue (want : ℕ) (entries : List (Option ℕ × Option ℕ)) : Option ℕ :=
  ((entries.takeWhile fun e => e.1 ≠ none ∧ e.1 ≠ some DT_NULL).find? fun e =>
    e.1 = some want).bind Prod.snd

theorem firstValue_cons (want : ℕ) (tag value : Option ℕ)
    (entries : List (Option ℕ × Option ℕ)) :
    firstValue want ((tag, value) :: entries) =
      if tag = none ∨ tag = some DT_NULL then none
      else if tag = some want then value else firstValue want entries := by
  unfold firstValue
  by_cases hend : tag = none ∨ tag = some DT_NULL
  · rw [if_pos hend, List.takeWhile_cons_of_neg (by rcases hend with h | h <;> simp [h])]
    rfl
  · rw [if_neg hend, List.takeWhile_cons_of_pos (by simpa [not_or] using hend)]
    by_cases htag : tag = some want
    · rw [if_pos htag, List.find?_cons_of_pos (by simpa using htag)]
      rfl
    · rw [if_neg htag, List.find?_cons_of_neg (by simpa using htag)]

/-- The entry of an index. -/
def entry (elf : Elf) (start k : ℕ) : Option ℕ × Option ℕ :=
  (elf.numberAt elf.wordSize (start + k * elf.stride),
    elf.numberAt elf.wordSize (start + k * elf.stride + elf.wordSize))

/-- From an entry on, the loop finds the value of the first entry with the tag. -/
theorem dynValueFrom_eq {want start size : ℕ}
    (hstop : start + size < 2 ^ 64) (n : ℕ) :
    ∀ k, k + n = size / elf.stride →
      elf.dynValueFrom want (start + size) (start + k * elf.stride) =
        .ok (firstValue want ((List.range' k n).map (elf.entry start))) := by
  obtain ⟨hword, hhalf⟩ := elf.wordSize_add_wordSize
  have hpos := elf.stride_pos
  have hdiv := Nat.div_mul_le_self size elf.stride
  induction n with
  | zero =>
    intro k hk
    have hpast : size < k * elf.stride + elf.stride := by
      have := Nat.lt_div_mul_add (a := size) hpos
      rw [← hk, Nat.add_zero] at this
      exact this
    rw [dynValueFrom]
    split
    · rfl
    · rename_i next hnext
      obtain ⟨-, rfl⟩ := Usize.checkedAdd_eq_some.mp hnext
      rw [dif_neg (by omega)]
      rfl
  | succ n ih =>
    intro k hk
    have hfits : k * elf.stride + elf.stride ≤ size := by
      have hle : (k + 1) * elf.stride ≤ size / elf.stride * elf.stride :=
        Nat.mul_le_mul_right _ (by omega)
      rw [Nat.add_mul, Nat.one_mul] at hle
      omega
    have hnext : Usize.checkedAdd (start + k * elf.stride) elf.stride =
        some (start + k * elf.stride + elf.stride) := if_pos (by omega)
    rw [dynValueFrom]
    split
    · rename_i hnone
      rw [hnext] at hnone
      cases hnone
    rename_i next hsome
    rw [hnext] at hsome
    cases hsome
    have hrest := ih (k + 1) (by omega)
    rw [Nat.add_mul, Nat.one_mul, ← Nat.add_assoc] at hrest
    rw [dif_pos (by omega), word_of_lt (by omega), List.range'_succ, List.map_cons, entry,
      firstValue_cons]
    cases htag : elf.numberAt elf.wordSize (start + k * elf.stride) with
    | none => rfl
    | some tag =>
      rw [andThen_some]
      by_cases hnull : tag = DT_NULL
      · rw [if_pos hnull, if_pos (.inr (congrArg some hnull))]
      · have hgo : ¬ (some tag = none ∨ some tag = some DT_NULL) := by simpa using hnull
        rw [if_neg hnull, if_neg hgo]
        by_cases hfound : tag = want
        · rw [if_pos hfound, if_pos (congrArg some hfound), hhalf, Usize.add_of_lt (by omega),
            Outcome.ok_bind, word_of_lt (by omega)]
        · rw [if_neg hfound, if_neg fun h => hfound (Option.some.inj h)]
          exact hrest

/-- The loop over the dynamic segment finds the value of the tag. -/
theorem dynValue_eq (dynamic : ℕ × ℕ) (want : ℕ) :
    elf.dynValue dynamic want = .ok (if dynamic.1 + dynamic.2 < 2 ^ 64 then
      elf.valueOf dynamic want else none) := by
  unfold dynValue
  by_cases hstop : dynamic.1 + dynamic.2 < 2 ^ 64
  · have hloop := @dynValueFrom_eq elf want dynamic.1 dynamic.2 hstop
      (dynamic.2 / elf.stride) 0 (Nat.zero_add _)
    rw [Nat.zero_mul, Nat.add_zero, ← List.range_eq_range'] at hloop
    rw [Usize.checkedAdd, if_pos hstop, if_pos hstop]
    exact hloop
  · rw [Usize.checkedAdd, if_neg hstop, if_neg hstop]

/-! ### The header -/

/-- The header the fields at their places make. -/
def header (bytes : Bytes) (wide little : Bool) : Elf :=
  let elf : Elf := ⟨bytes, wide, little, 0, 0, 0⟩
  ⟨bytes, wide, little, elf.number elf.wordSize (if wide then 32 else 28),
    elf.number 2 (if wide then 54 else 42), elf.number 2 (if wide then 56 else 44)⟩

/-- The identification bytes of a class and a byte order. -/
structure Identified (bytes : Bytes) (wide little : Bool) : Prop where
  magic : bytes.take 4 = ELF_MAGIC
  class_eq : (bytes[4]? : Option UInt8) = some (if wide then 2 else 1)
  data_eq : (bytes[5]? : Option UInt8) = some (if little then 1 else 2)

theorem wideOf_eq_some {b : Option UInt8} {wide : Bool} :
    wideOf b = some wide ↔ b = some (if wide then 2 else 1) := by
  unfold wideOf
  split
  · cases wide <;> simp
  · cases wide <;> simp
  · rename_i h1 h2
    cases wide with
    | false => exact iff_of_false nofun h1
    | true => exact iff_of_false nofun h2

theorem littleOf_eq_some {b : Option UInt8} {little : Bool} :
    littleOf b = some little ↔ b = some (if little then 1 else 2) := by
  unfold littleOf
  split
  · cases little <;> simp
  · cases little <;> simp
  · rename_i h1 h2
    cases little with
    | false => exact iff_of_false nofun h2
    | true => exact iff_of_false nofun h1

/-- The three fields are read in order, the last of them the last in the file. -/
theorem read_header {a b c : ℕ} (hab : a + 8 ≤ b) (hbc : b + 2 ≤ c) (hc : c < 100) :
    (andThen (elf.word a) fun phoff => andThen (elf.u16 b) fun phentsize =>
      andThen (elf.u16 c) fun phnum =>
        .ok (if 0 < phentsize then some { elf with phoff, phentsize, phnum } else none)) =
      .ok (if c + 2 ≤ elf.bytes.length ∧ 0 < elf.number 2 b then
        some ⟨elf.bytes, elf.wide, elf.little, elf.number elf.wordSize a, elf.number 2 b,
          elf.number 2 c⟩ else none) := by
  have hsize : elf.wordSize ≤ 8 := by rcases elf.sizes with ⟨-, -, h, -⟩ | ⟨-, -, h, -⟩ <;> omega
  simp only [u16]
  rw [word_of_lt (by omega), read_of_lt (by omega), read_of_lt (by omega)]
  rcases Nat.lt_or_ge elf.bytes.length (c + 2) with hshort | hinside
  · have hlast : elf.numberAt 2 c = none := if_neg (by omega)
    rw [hlast, if_neg (by omega)]
    cases elf.numberAt elf.wordSize a with
    | none => rfl
    | some phoff => cases elf.numberAt 2 b <;> rfl
  · have hfield : ∀ width n, n + width ≤ c + 2 → elf.numberAt width n = some (elf.number width n) :=
      fun width n hn => if_pos (by omega)
    rw [hfield _ a (by omega), hfield 2 b (by omega), hfield 2 c (by omega), andThen_some,
      andThen_some, andThen_some]
    refine congrArg Outcome.ok (if_congr ?_ rfl rfl)
    exact (and_iff_right hinside).symm

theorem Identified.parse_eq {wide little : Bool} (h : Identified bytes wide little) :
    parse bytes = .ok (if (if wide then 58 else 46) ≤ bytes.length ∧
      0 < (header bytes wide little).phentsize then some (header bytes wide little) else none) := by
  have hlen : ¬ (bytes.length < 4 ∨ bytes.take 4 ≠ ELF_MAGIC) := by
    rw [not_or, not_not]
    refine ⟨fun hlt => ?_, h.magic⟩
    have hshort := congrArg List.length h.magic
    rw [List.length_take] at hshort
    have hfour : ELF_MAGIC.length = 4 := rfl
    omega
  unfold parse
  rw [if_neg hlen, wideOf_eq_some.mpr h.class_eq, littleOf_eq_some.mpr h.data_eq]
  cases wide with
  | true => exact read_header (by omega) (by omega) (by omega)
  | false => exact read_header (by omega) (by omega) (by omega)

theorem parse_cases (bytes : Bytes) :
    parse bytes = .ok none ∨ ∃ wide little, Identified bytes wide little := by
  unfold parse
  split_ifs with hmagic
  · exact .inl rfl
  · obtain ⟨-, hmagic⟩ := not_or.mp hmagic
    cases hwide : wideOf bytes[4]? with
    | none => exact .inl rfl
    | some wide =>
      cases hlittle : littleOf bytes[5]? with
      | none => exact .inl rfl
      | some little =>
        exact .inr ⟨wide, little, not_not.mp hmagic, wideOf_eq_some.mp hwide,
          littleOf_eq_some.mp hlittle⟩

theorem parse_ne_panic : parse bytes ≠ .panic := by
  rcases parse_cases bytes with h | ⟨wide, little, h⟩
  · rw [h]
    nofun
  · rw [h.parse_eq]
    nofun

/-- What parses is what the header says. -/
theorem parse_eq_ok_some : parse bytes = .ok (some elf) ↔ IsElf bytes elf := by
  constructor
  · intro hparse
    rcases parse_cases bytes with h | ⟨wide, little, h⟩
    · rw [h] at hparse
      cases hparse
    · rw [h.parse_eq] at hparse
      by_cases hinside : (if wide then 58 else 46) ≤ bytes.length ∧
          0 < (header bytes wide little).phentsize
      · rw [if_pos hinside] at hparse
        cases hparse
        exact ⟨rfl, h.magic, h.class_eq, h.data_eq, hinside.1, rfl, rfl, rfl, hinside.2⟩
      · rw [if_neg hinside] at hparse
        cases hparse
  · intro h
    obtain ⟨file, wide, little, phoff, phentsize, phnum⟩ := elf
    obtain ⟨rfl, hmagic, hclass, hdata, hinside, hphoff, hphentsize, hphnum, hpos⟩ := h
    have hsame : header file wide little = ⟨file, wide, little, phoff, phentsize, phnum⟩ := by
      exact (Elf.mk.injEq ..).mpr
        ⟨rfl, rfl, rfl, hphoff.symm, hphentsize.symm, hphnum.symm⟩
    rw [Identified.parse_eq ⟨hmagic, hclass, hdata⟩, hsame, if_pos ⟨hinside, hpos⟩]

end Elf

/-! ### The run path -/

variable {bytes : Bytes} {elf : Elf}

theorem IsElf.length_le (h : IsElf bytes elf) (hlen : bytes.length ≤ isizeMax) :
    elf.bytes.length ≤ isizeMax := by
  rwa [h.bytes_eq]

theorem IsElf.small (h : IsElf bytes elf) : elf.phentsize < 2 ^ 16 ∧ elf.phnum < 2 ^ 16 := by
  rw [h.phentsize_eq, h.phnum_eq]
  exact ⟨Elf.number_lt, Elf.number_lt⟩

/-- The string behind a place, up to the first zero byte. -/
theorem Elf.stringAt_eq {at_ : ℕ} {s rest : Bytes} (h : elf.bytes.drop at_ = s ++ 0 :: rest)
    (hs : 0 ∉ s) : elf.stringAt at_ = fromUtf8 s := by
  have hat : at_ < elf.bytes.length := by
    by_contra hge
    rw [List.drop_eq_nil_of_le (by omega)] at h
    simp at h
  have hfind : (elf.bytes.drop at_).findIdx? (· = 0) = some s.length := by
    have hnone : s.findIdx? (fun b => decide (b = 0)) = none := by
      rw [List.findIdx?_eq_none_iff]
      intro b hb
      have hne : b ≠ 0 := fun h => hs (h ▸ hb)
      simpa using hne
    rw [h, List.findIdx?_append, hnone, List.findIdx?_cons]
    simp
  unfold stringAt
  rw [if_pos hat.le]
  simp only
  rw [hfind, h, Option.bind_some, List.take_left]

/-- What `runpath` does with an object whose program headers are all in range. -/
theorem runpath_eq (h : IsElf bytes elf) (hlen : bytes.length ≤ isizeMax) (hhigh : ¬ elf.TooHigh) :
    runpath bytes = andThen (.ok elf.dynamic) fun dynamic =>
      andThen (.ok (if dynamic.1 + dynamic.2 < 2 ^ 64 then elf.valueOf dynamic DT_STRTAB else none))
        fun vaddr => andThen (.ok (elf.holder vaddr)) fun phdr =>
          (Usize.add true phdr.offset (vaddr - phdr.vaddr)).bind fun strtab =>
            .ok (((elf.valueOf dynamic DT_RUNPATH).or (elf.valueOf dynamic DT_RPATH)).bind
              fun offset => (Usize.checkedAdd strtab offset).bind elf.stringAt) := by
  have hbytes := h.length_le hlen
  unfold runpath
  rw [Elf.parse_eq_ok_some.mpr h, Elf.andThen_some, Elf.segment_eq hbytes hhigh]
  cases elf.dynamic with
  | none => rfl
  | some dynamic =>
    rw [Elf.andThen_some, Elf.andThen_some, Elf.dynValue_eq]
    by_cases hstop : dynamic.1 + dynamic.2 < 2 ^ 64
    · rw [if_pos hstop]
      cases elf.valueOf dynamic DT_STRTAB with
      | none => rfl
      | some vaddr =>
        rw [Elf.andThen_some, Elf.andThen_some, Elf.vaddrToOffset_eq hbytes hhigh]
        cases elf.holder vaddr with
        | none => rfl
        | some phdr =>
          rw [Elf.dynValue_eq, Elf.dynValue_eq, if_pos hstop, if_pos hstop, Elf.andThen_some]
          simp only
          cases Usize.add true phdr.offset (vaddr - phdr.vaddr) with
          | ok strtab => cases elf.valueOf dynamic DT_RUNPATH <;> rfl
          | err e => rfl
          | panic => rfl
    · rw [if_neg hstop]
      rfl

/-- The run path is read as the file states it, without a panic, exactly if the object has no
program header that starts in the last four bytes of the range and its string table does not lie
past the range in the segment that holds it. -/
theorem runpath_iff (bytes : Slice UInt8) : ReadsRunpath bytes.1 ↔
    ∀ elf, IsElf bytes.1 elf → ¬ elf.TooHigh ∧ ¬ elf.Overruns := by
  obtain ⟨bytes, hlen⟩ := bytes
  simp only
  constructor
  · rintro ⟨hpanic, -⟩ elf h
    have hhigh : ¬ elf.TooHigh := by
      intro hhigh
      obtain ⟨hsize, hnum⟩ := h.small
      refine hpanic ?_
      unfold runpath
      rw [Elf.parse_eq_ok_some.mpr h, Elf.andThen_some,
        Elf.segment_eq_panic (h.length_le hlen) hsize hnum hhigh]
      rfl
    refine ⟨hhigh, ?_⟩
    rintro ⟨dynamic, vaddr, phdr, hdynamic, hstop, hstrtab, hholder, hover⟩
    refine hpanic ?_
    rw [runpath_eq h hlen hhigh, hdynamic, Elf.andThen_some, if_pos hstop, hstrtab,
      Elf.andThen_some, hholder, Elf.andThen_some, Usize.add_of_le hover]
    rfl
  · intro hsafe
    constructor
    · cases hparse : Elf.parse bytes with
      | panic => exact absurd hparse Elf.parse_ne_panic
      | err e => exact e.elim
      | ok o =>
        cases o with
        | none =>
          unfold runpath
          rw [hparse]
          nofun
        | some elf =>
          have h := Elf.parse_eq_ok_some.mp hparse
          obtain ⟨hhigh, hover⟩ := hsafe elf h
          rw [runpath_eq h hlen hhigh]
          cases hdynamic : elf.dynamic with
          | none => nofun
          | some dynamic =>
            rw [Elf.andThen_some]
            by_cases hstop : dynamic.1 + dynamic.2 < 2 ^ 64
            · rw [if_pos hstop]
              cases hstrtab : elf.valueOf dynamic DT_STRTAB with
              | none => nofun
              | some vaddr =>
                rw [Elf.andThen_some]
                cases hholder : elf.holder vaddr with
                | none => nofun
                | some phdr =>
                  have hfits : phdr.offset + (vaddr - phdr.vaddr) < 2 ^ 64 := by
                    by_contra hge
                    exact hover ⟨dynamic, vaddr, phdr, hdynamic, hstop, hstrtab, hholder,
                      not_lt.mp hge⟩
                  rw [Elf.andThen_some, Usize.add_of_lt hfits]
                  nofun
            · rw [if_neg hstop]
              nofun
    · intro elf h
      obtain ⟨hhigh, hover⟩ := hsafe elf h
      rw [runpath_eq h hlen hhigh]
      refine ⟨fun hnone => by rw [hnone]; rfl, fun dynamic hdynamic hinside => ?_⟩
      have hstop : dynamic.1 + dynamic.2 < 2 ^ 64 := by
        unfold isizeMax at hlen
        omega
      rw [hdynamic, Elf.andThen_some, if_pos hstop]
      extract_lets path
      constructor
      · intro hpath
        cases hstrtab : elf.valueOf dynamic DT_STRTAB with
        | none => rfl
        | some vaddr =>
          rw [Elf.andThen_some]
          cases hholder : elf.holder vaddr with
          | none => rfl
          | some phdr =>
            have hfits : phdr.offset + (vaddr - phdr.vaddr) < 2 ^ 64 := by
              by_contra hge
              exact hover ⟨dynamic, vaddr, phdr, hdynamic, hstop, hstrtab, hholder, not_lt.mp hge⟩
            rw [Elf.andThen_some, Usize.add_of_lt hfits]
            show Outcome.ok (path.bind _) = _
            rw [hpath]
            rfl
      · intro vaddr phdr offset s rest hstrtab hholder hpath hdrop hs
        rw [← h.bytes_eq] at hdrop hlen
        have hat : phdr.offset + (vaddr - phdr.vaddr) + offset < elf.bytes.length := by
          by_contra hge
          rw [List.drop_eq_nil_of_le (by omega)] at hdrop
          simp at hdrop
        unfold isizeMax at hlen
        rw [hstrtab, Elf.andThen_some, hholder, Elf.andThen_some, Usize.add_of_lt (by omega)]
        show Outcome.ok (path.bind _) = _
        rw [hpath, Option.bind_some, Usize.checkedAdd, if_pos (by omega), Option.bind_some,
          Elf.stringAt_eq hdrop hs]

/-- An object whose program headers start at the last byte of the range. -/
def highPhoff : Bytes :=
  ELF_MAGIC ++ [2, 1] ++ List.replicate 26 0 ++ List.replicate 8 0xff ++ List.replicate 14 0 ++
    [56, 0, 1, 0] ++ List.replicate 6 0

/-- The end of its first program header's type is past the range. -/
theorem highPhoff_panics : ¬ ∀ bytes : Slice UInt8, ReadsRunpath bytes.1 := by
  intro h
  exact (h (slice highPhoff)).1 rfl

end Boot2Deb.Engine
