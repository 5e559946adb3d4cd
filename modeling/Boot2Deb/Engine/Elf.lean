import Boot2Deb.Lib.Endian
import Boot2Deb.Rust.Usize

/-!
# The run path of an ELF object (`engine/src/build/elf.rs`)

`runpath` walks the program headers to the dynamic segment, finds the string table and the run path
in it and reads the string. Its sums are `usize` and `u64` sums of numbers the file states; most are
checked. Two are not: the end of a header field, and the offset of an address in its segment. Where
these stay in range nothing panics, and what is read is what the file says (`runpath_iff`).
-/

namespace Boot2Deb.Engine
open Rust Lib

/-- `?` on an `Option` in a function that answers one. -/
def andThen {α β : Type} (x : Outcome Empty (Option α)) (f : α → Outcome Empty (Option β)) :
    Outcome Empty (Option β) :=
  x.bind fun o => match o with
    | some a => f a
    | none => .ok none

def PT_LOAD : ℕ := 1
def PT_DYNAMIC : ℕ := 2
def DT_NULL : ℕ := 0
def DT_STRTAB : ℕ := 5
def DT_RPATH : ℕ := 15
def DT_RUNPATH : ℕ := 29

/-- `\x7fELF`. -/
def ELF_MAGIC : Bytes := [0x7f, 0x45, 0x4c, 0x46]

/-- The header fields a walk over the program headers needs. `wide` is 64-bit, `little`
little-endian. -/
structure Elf where
  bytes : Bytes
  wide : Bool
  little : Bool
  phoff : ℕ
  phentsize : ℕ
  phnum : ℕ

/-- A program header, as far as it is read. -/
structure Phdr where
  type : ℕ
  offset : ℕ
  vaddr : ℕ
  filesz : ℕ

namespace Elf

/-- The number `width` bytes denote from `at_` on. -/
def number (elf : Elf) (width at_ : ℕ) : ℕ :=
  let field := (elf.bytes.drop at_).take width
  if elf.little then leNumber field else beNumber field

/-- The readers of a number of `width` bytes, which are the bytes `at..at + width`. -/
def read (elf : Elf) (width at_ : ℕ) : Outcome Empty (Option ℕ) := do
  let stop ← Usize.add true at_ width
  .ok (if stop ≤ elf.bytes.length then some (elf.number width at_) else none)

def u16 (elf : Elf) (at_ : ℕ) : Outcome Empty (Option ℕ) := elf.read 2 at_

def u32 (elf : Elf) (at_ : ℕ) : Outcome Empty (Option ℕ) := elf.read 4 at_

def u64 (elf : Elf) (at_ : ℕ) : Outcome Empty (Option ℕ) := elf.read 8 at_

/-- A class-width address or offset. A `usize` holds every one of them. -/
def word (elf : Elf) (at_ : ℕ) : Outcome Empty (Option ℕ) :=
  if elf.wide then elf.u64 at_ else elf.u32 at_

/-- The class byte: whether an object is 64-bit. -/
def wideOf : Option UInt8 → Option Bool
  | some 1 => some false
  | some 2 => some true
  | _ => none

/-- The byte-order byte: whether an object is little-endian. -/
def littleOf : Option UInt8 → Option Bool
  | some 1 => some true
  | some 2 => some false
  | _ => none

/-- `Elf::parse`. -/
def parse (bytes : Bytes) : Outcome Empty (Option Elf) :=
  if bytes.length < 4 ∨ bytes.take 4 ≠ ELF_MAGIC then .ok none
  else
    match wideOf bytes[4]?, littleOf bytes[5]? with
    | some wide, some little =>
      let (phoffAt, phentsizeAt, phnumAt) := if wide then (32, 54, 56) else (28, 42, 44)
      let elf : Elf := ⟨bytes, wide, little, 0, 0, 0⟩
      andThen (elf.word phoffAt) fun phoff =>
      andThen (elf.u16 phentsizeAt) fun phentsize =>
      andThen (elf.u16 phnumAt) fun phnum =>
      .ok (if 0 < phentsize then some { elf with phoff, phentsize, phnum } else none)
    | _, _ => .ok none

/-- Where a program header holds its offset, its address and its size in the file. -/
def fields (elf : Elf) : ℕ × ℕ × ℕ := if elf.wide then (8, 16, 32) else (4, 8, 16)

/-- The closure of `segments`: the program header of an index, where it can be read. -/
def phdr (elf : Elf) (i : ℕ) : Outcome Empty (Option Phdr) :=
  let (offAt, vaddrAt, fileszAt) := elf.fields
  match (Usize.checkedMul i elf.phentsize).bind (Usize.checkedAdd elf.phoff) with
  | none => .ok none
  | some base =>
    andThen (elf.u32 base) fun type =>
    andThen (.ok (Usize.checkedAdd base offAt)) fun at_ =>
    andThen (elf.word at_) fun offset =>
    andThen (.ok (Usize.checkedAdd base vaddrAt)) fun at_ =>
    andThen (elf.word at_) fun vaddr =>
    andThen (.ok (Usize.checkedAdd base fileszAt)) fun at_ =>
    andThen (elf.word at_) fun filesz =>
    .ok (some ⟨type, offset, vaddr, filesz⟩)

/-- `find_map` over the headers of these indices, which are read one by one. -/
def findMap {β : Type} (elf : Elf) (f : Phdr → Outcome Empty (Option β)) :
    List ℕ → Outcome Empty (Option β)
  | [] => .ok none
  | i :: is => do
    match ← elf.phdr i with
    | none => elf.findMap f is
    | some h =>
      match ← f h with
      | some b => .ok (some b)
      | none => elf.findMap f is

/-- `segment`: the offset and size of the first program header of a type. -/
def segment (elf : Elf) (want : ℕ) : Outcome Empty (Option (ℕ × ℕ)) :=
  elf.findMap (fun h => .ok (if h.type = want then some (h.offset, h.filesz) else none))
    (List.range elf.phnum)

def stride (elf : Elf) : ℕ := if elf.wide then 16 else 8

theorem stride_pos (elf : Elf) : 0 < elf.stride := by
  unfold stride
  split_ifs <;> omega

/-- The loop of `dyn_value`, up to the end of the segment. -/
def dynValueFrom (elf : Elf) (want stop at_ : ℕ) : Outcome Empty (Option ℕ) :=
  match hnext : Usize.checkedAdd at_ elf.stride with
  | none => .ok none
  | some next =>
    if hstop : next ≤ stop then
      andThen (elf.word at_) fun tag =>
        if tag = DT_NULL then .ok none
        else if tag = want then do elf.word (← Usize.add true at_ (elf.stride / 2))
        else
          have : stop - next < stop - at_ := by
            have := elf.stride_pos
            have := (Usize.checkedAdd_eq_some.mp hnext).2
            omega
          -- `at += stride`, which the condition has computed
          elf.dynValueFrom want stop next
    else .ok none
termination_by stop - at_

/-- `dyn_value`: the value of a tag in the dynamic segment. -/
def dynValue (elf : Elf) (dynamic : ℕ × ℕ) (want : ℕ) : Outcome Empty (Option ℕ) :=
  match Usize.checkedAdd dynamic.1 dynamic.2 with
  | none => .ok none
  | some stop => elf.dynValueFrom want stop dynamic.1

/-- `vaddr_to_offset`. -/
def vaddrToOffset (elf : Elf) (vaddr : ℕ) : Outcome Empty (Option ℕ) :=
  elf.findMap (fun h =>
    if h.type ≠ PT_LOAD then .ok none
    else
      match Usize.checkedSub vaddr h.vaddr with
      | none => .ok none
      | some delta =>
        if delta < h.filesz then (Usize.add true h.offset delta).bind fun at_ => .ok (some at_)
        else .ok none) (List.range elf.phnum)

/-- `string_at`. -/
def stringAt (elf : Elf) (at_ : ℕ) : Option Str :=
  if at_ ≤ elf.bytes.length then
    let rest := elf.bytes.drop at_
    (rest.findIdx? (· = 0)).bind fun stop => fromUtf8 (rest.take stop)
  else none

end Elf

/-- `runpath`: none for what is no ELF, has no dynamic segment, or names no search path. -/
def runpath (bytes : Bytes) : Outcome Empty (Option Str) :=
  andThen (Elf.parse bytes) fun elf =>
  andThen (elf.segment PT_DYNAMIC) fun dynamic =>
  andThen (elf.dynValue dynamic DT_STRTAB) fun vaddr =>
  andThen (elf.vaddrToOffset vaddr) fun strtab => do
    let runpath ← elf.dynValue dynamic DT_RUNPATH
    let offset ← if runpath.isSome then .ok runpath else elf.dynValue dynamic DT_RPATH
    .ok (offset.bind fun offset => (Usize.checkedAdd strtab offset).bind elf.stringAt)

end Boot2Deb.Engine
