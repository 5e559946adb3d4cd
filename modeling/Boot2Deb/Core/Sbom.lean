import Boot2Deb.Core.Lock
import Boot2Deb.Lib.Overwrite

/-!
# The identity of a bill of materials (`core/src/sbom/mod.rs`)

A document is named by the image and the digest of its solved manifest, not by what it lists. The
namespace holds both whole; the serial number holds the first 32 hex digits of the digest, but for
the version digit and the upper two bits of the variant digit.
-/

namespace Boot2Deb.Core
open Rust

inductive ComponentKind where
  | image
  | debianPackage
  | source
  | blob
  | extraDeb
  | nugetPackage
deriving DecidableEq

inductive Relation where
  | contains
  | generatedFrom
deriving DecidableEq

structure Component where
  id : Str
  name : Str
  version : Option Str
  kind : ComponentKind
  purl : Option Str
  sha256 : Option Str
  sha512 : Option Str
  download : Option Str
  description : Option Str
  relation : Relation
deriving DecidableEq

structure Tool where
  name : Str
  version : Str
  commit : Option Str
  dirty : Bool
deriving DecidableEq

structure Sbom where
  name : Str
  created : Str
  tool : Tool
  contentId : Str
  image : Component
  components : List Component
deriving DecidableEq

/-- `char::to_digit` to base 16. -/
def toHexDigit (c : Char) : Option ℕ :=
  if c.isDigit then some (c.toNat - '0'.toNat)
  else if 'a' ≤ c ∧ c ≤ 'f' then some (c.toNat - 'a'.toNat + 10)
  else if 'A' ≤ c ∧ c ≤ 'F' then some (c.toNat - 'A'.toNat + 10)
  else none

namespace Sbom

/-- `namespace`. -/
def namespaceUri (s : Sbom) : Str :=
  "https://github.com/gregordinary/boot2deb/spdxdocs/".toList ++ s.name ++ '-' :: s.contentId

/-- The digits of the content identifier a UUID has room for, with zeros behind them. -/
def hex (s : Sbom) : Str :=
  let digits := ((s.contentId.filter isAsciiHexdigit).map Char.toLower).take 32
  digits ++ List.replicate (32 - digits.length) '0'

/-- The digit whose upper two bits are the variant's. -/
def nibble (s : Sbom) : ℕ := ((s.hex[16]?).bind toHexDigit).getD 0

/-- `serial_number`. All digits are ASCII, so bytes are cut as characters. -/
def serialNumber (s : Sbom) : Str :=
  let variant := Nat.digitChar ((s.nibble &&& 0x3) ||| 0x8)
  "urn:uuid:".toList ++ part s.hex 0 8 ++ '-' :: part s.hex 8 12 ++ '-' :: '8' :: part s.hex 13 16 ++
    '-' :: variant :: part s.hex 17 20 ++ '-' :: part s.hex 20 32

end Sbom

/-- A digit of a UUID as it is written. -/
def IsUuidDigit (c : Char) : Prop := c.isDigit ∨ 'a' ≤ c ∧ c ≤ 'f'

instance : DecidablePred IsUuidDigit := fun _ => inferInstanceAs (Decidable (_ ∨ _))

/-- The URN of a UUID of version 8 and the variant of its standard. -/
def IsUuidUrn (s : Str) : Prop :=
  ∃ low mid high variant seq node,
    s = "urn:uuid:".toList ++ low ++ '-' :: mid ++ '-' :: '8' :: high ++ '-' :: variant :: seq ++
      '-' :: node ∧
    low.length = 8 ∧ mid.length = 4 ∧ high.length = 3 ∧ variant ∈ ['8', '9', 'a', 'b'] ∧
    seq.length = 3 ∧ node.length = 12 ∧
    ∀ c ∈ low ++ mid ++ high ++ seq ++ node, IsUuidDigit c

/-- Two lists of digits agree where a serial number keeps them. -/
def SameDigits (a b : Sbom) : Prop :=
  (∀ i < 32, i ≠ 12 → i ≠ 16 → a.hex[i]? = b.hex[i]?) ∧ a.nibble % 4 = b.nibble % 4

variable {a b s : Sbom}

namespace Sbom

theorem length_hex (s : Sbom) : s.hex.length = 32 := by
  have hle : (((s.contentId.filter isAsciiHexdigit).map Char.toLower).take 32).length ≤ 32 := by
    rw [List.length_take]
    exact min_le_left _ _
  rw [hex, List.length_append, List.length_replicate]
  omega

end Sbom

theorem isUuidDigit_toLower {c : Char} (h : isAsciiHexdigit c = true) : IsUuidDigit c.toLower := by
  have hall : ∀ n < 128, isAsciiHexdigit (Char.ofNat n) = true → IsUuidDigit (Char.ofNat n).toLower := by
    decide
  have hlt : c.toNat < 128 := by
    simp only [isAsciiHexdigit, Bool.or_eq_true, Bool.and_eq_true, decide_eq_true_eq,
      Char.isDigit_iff_toNat] at h
    rcases h with (hdigit | hlower) | hupper
    · exact lt_of_le_of_lt hdigit.2 (by decide)
    · exact lt_of_le_of_lt (UInt32.le_iff_toNat_le.mp hlower.2) (by decide)
    · exact lt_of_le_of_lt (UInt32.le_iff_toNat_le.mp hupper.2) (by decide)
  have hc := hall c.toNat hlt
  rw [Char.ofNat_toNat] at hc
  exact hc h

theorem isUuidDigit_of_mem_hex {c : Char} (h : c ∈ s.hex) : IsUuidDigit c := by
  rcases List.mem_append.mp h with h | h
  · obtain ⟨d, hd, rfl⟩ := List.mem_map.mp (List.mem_of_mem_take h)
    exact isUuidDigit_toLower (List.mem_filter.mp hd).2
  · rw [List.eq_of_mem_replicate h]
    exact .inl rfl

/-- Lists agree on a stretch where they agree at all its positions. -/
theorem part_eq_part_iff {α : Type} {l m : List α} {lo hi : ℕ} :
    part l lo hi = part m lo hi ↔ ∀ i, lo ≤ i → i < hi → l[i]? = m[i]? := by
  constructor
  · intro h i hlo hhi
    have hget := congrArg (·[i - lo]?) h
    simpa only [getElem?_part, Nat.add_sub_cancel' hlo, if_pos hhi] using hget
  · intro h
    refine List.ext_getElem? fun i => ?_
    rw [getElem?_part, getElem?_part]
    split_ifs with hi'
    · exact h _ (Nat.le_add_right _ _) hi'
    · rfl

theorem variant_eq_iff (m n : ℕ) : Nat.digitChar ((m &&& 0x3) ||| 0x8) =
    Nat.digitChar ((n &&& 0x3) ||| 0x8) ↔ m % 4 = n % 4 := by
  have hall : ∀ r < 4, ∀ r' < 4, Nat.digitChar (r ||| 0x8) = Nat.digitChar (r' ||| 0x8) ↔ r = r' := by
    decide
  rw [show 0x3 = 2 ^ 2 - 1 from rfl, Nat.and_two_pow_sub_one_eq_mod, Nat.and_two_pow_sub_one_eq_mod]
  exact hall _ (Nat.mod_lt _ (by decide)) _ (Nat.mod_lt _ (by decide))

theorem isUuidUrn_serialNumber (s : Sbom) : IsUuidUrn s.serialNumber := by
  have hlen := s.length_hex
  have hpart : ∀ lo hi, hi ≤ 32 → (part s.hex lo hi).length = hi - lo :=
    fun lo hi hhi => length_part (by rw [hlen]; exact hhi)
  refine ⟨part s.hex 0 8, part s.hex 8 12, part s.hex 13 16, _, part s.hex 17 20, part s.hex 20 32,
    rfl, hpart 0 8 (by omega), hpart 8 12 (by omega), hpart 13 16 (by omega), ?_,
    hpart 17 20 (by omega), hpart 20 32 (by omega), ?_⟩
  · have hall : ∀ r < 4, Nat.digitChar (r ||| 0x8) ∈ ['8', '9', 'a', 'b'] := by decide
    rw [show 0x3 = 2 ^ 2 - 1 from rfl, Nat.and_two_pow_sub_one_eq_mod]
    exact hall _ (Nat.mod_lt _ (by decide))
  · have hmem : ∀ {lo hi : ℕ} {c : Char}, c ∈ part s.hex lo hi → IsUuidDigit c :=
      fun h => isUuidDigit_of_mem_hex (List.mem_of_mem_take (List.mem_of_mem_drop h))
    intro c hc
    simp only [List.mem_append] at hc
    rcases hc with (((hc | hc) | hc) | hc) | hc <;> exact hmem hc

/-- A serial number is its five groups and the variant. -/
theorem serialNumber_eq_iff : a.serialNumber = b.serialNumber ↔
    part a.hex 0 8 = part b.hex 0 8 ∧ part a.hex 8 12 = part b.hex 8 12 ∧
      part a.hex 13 16 = part b.hex 13 16 ∧ a.nibble % 4 = b.nibble % 4 ∧
      part a.hex 17 20 = part b.hex 17 20 ∧ part a.hex 20 32 = part b.hex 20 32 := by
  have hpart : ∀ (s : Sbom) lo hi, hi ≤ 32 → (part s.hex lo hi).length = hi - lo :=
    fun s lo hi hhi => length_part (by rw [s.length_hex]; exact hhi)
  have hlen : ∀ lo hi, hi ≤ 32 → (part a.hex lo hi).length = (part b.hex lo hi).length :=
    fun lo hi hhi => (hpart a lo hi hhi).trans (hpart b lo hi hhi).symm
  constructor
  · intro h
    obtain ⟨h, hnode⟩ := List.append_inj' h (by simp [hlen])
    obtain ⟨h, hseq⟩ := List.append_inj' h (by simp [hlen])
    obtain ⟨h, hhigh⟩ := List.append_inj' h (by simp [hlen])
    obtain ⟨h, hmid⟩ := List.append_inj' h (by simp [hlen])
    have hlow := List.append_cancel_left h
    simp only [List.cons.injEq, true_and] at hnode hseq hhigh hmid
    exact ⟨hlow, hmid, hhigh, (variant_eq_iff _ _).mp hseq.1, hseq.2, hnode⟩
  · rintro ⟨hlow, hmid, hhigh, hvariant, hseq, hnode⟩
    unfold Sbom.serialNumber
    rw [hlow, hmid, hhigh, (variant_eq_iff _ _).mpr hvariant, hseq, hnode]

theorem serialNumber_eq_iff_sameDigits : a.serialNumber = b.serialNumber ↔ SameDigits a b := by
  rw [serialNumber_eq_iff, part_eq_part_iff, part_eq_part_iff, part_eq_part_iff, part_eq_part_iff,
    part_eq_part_iff]
  constructor
  · rintro ⟨h1, h2, h3, h4, h5, h6⟩
    refine ⟨fun i hi h12 h16 => ?_, h4⟩
    rcases Nat.lt_or_ge i 8 with hi1 | hi1
    · exact h1 i (Nat.zero_le _) hi1
    rcases Nat.lt_or_ge i 12 with hi2 | hi2
    · exact h2 i hi1 hi2
    rcases Nat.lt_or_ge i 16 with hi3 | hi3
    · exact h3 i (by omega) hi3
    rcases Nat.lt_or_ge i 20 with hi4 | hi4
    · exact h5 i (by omega) hi4
    · exact h6 i hi4 hi
  · rintro ⟨h, hnibble⟩
    exact ⟨fun i _ _ => h i (by omega) (by omega) (by omega),
      fun i _ _ => h i (by omega) (by omega) (by omega),
      fun i _ _ => h i (by omega) (by omega) (by omega), hnibble,
      fun i _ _ => h i (by omega) (by omega) (by omega),
      fun i _ _ => h i (by omega) (by omega) (by omega)⟩

theorem namespaceUri_eq_iff (h : a.contentId.length = b.contentId.length) :
    a.namespaceUri = b.namespaceUri ↔ a.name = b.name ∧ a.contentId = b.contentId := by
  unfold Sbom.namespaceUri
  constructor
  · intro heq
    obtain ⟨hname, hid⟩ := List.append_inj' heq (by rw [List.length_cons, List.length_cons, h])
    exact ⟨List.append_cancel_left hname, List.tail_eq_of_cons_eq hid⟩
  · rintro ⟨hname, hid⟩
    rw [hname, hid]

/-- Every serial number is valid. Serial numbers are shared exactly where the kept digits of the
content identifiers are, and namespaces of digests exactly where name and digest are; nothing else
of a document enters its identity. -/
theorem identity_shared (a b : Sbom) :
    IsUuidUrn a.serialNumber ∧ (a.serialNumber = b.serialNumber ↔ SameDigits a b) ∧
      (a.contentId.length = b.contentId.length →
        (a.namespaceUri = b.namespaceUri ↔ a.name = b.name ∧ a.contentId = b.contentId)) :=
  ⟨isUuidUrn_serialNumber a, serialNumber_eq_iff_sameDigits, namespaceUri_eq_iff⟩

/-- An image of a solved manifest with one blob. -/
def sbomOf (digest blob : Str) : Sbom where
  name := "turing-rk1-forky".toList
  created := "2026-01-01T00:00:00Z".toList
  tool := ⟨"boot2deb".toList, "0.1.0".toList, none, false⟩
  contentId := digest
  image := ⟨"Image".toList, "turing-rk1-forky".toList, none, .image, none, none, none, none, none,
    .contains⟩
  components := [⟨"Blob-0".toList, "rk3588_bl31.elf".toList, none, .blob, none, some blob, none, none,
    none, .contains⟩]

theorem identity_shared_digests :
    let a := sbomOf (List.replicate 64 'a') (List.replicate 64 '0')
    let b := sbomOf (List.replicate 64 'b') (List.replicate 64 '0')
    a.serialNumber ≠ b.serialNumber ∧ a.namespaceUri ≠ b.namespaceUri := by
  intro a b
  obtain ⟨-, hserial, hnamespace⟩ := identity_shared a b
  refine ⟨fun h => absurd ((hserial.mp h).1 0) (by decide), fun h => ?_⟩
  exact absurd ((hnamespace rfl).mp h).2 (by decide)

/-- Two documents that differ in the digest of a blob share their identity. -/
theorem blob_notIdentified :
    let a := sbomOf (List.replicate 64 'a') (List.replicate 64 '0')
    let b := sbomOf (List.replicate 64 'a') (List.replicate 64 '1')
    a.components ≠ b.components ∧ a.serialNumber = b.serialNumber ∧
      a.namespaceUri = b.namespaceUri := by
  decide

end Boot2Deb.Core
