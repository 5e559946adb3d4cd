import Boot2Deb.Image.Vboot

/-!
# Where a kernel partition's headers put things

The fields of the headers, read as exact numbers from any bytes, and what `parse` checks of them.
`Declared` holds of exactly the bytes whose keyblock and preamble are accepted, and `parse` then
answers what the fields declare, up to the sum that places the command line.
-/

namespace Boot2Deb.Image.Vboot
open Rust

/-- The bytes from `start` on, as many as `len`. -/
def rangeAt (start len : ℕ) : Range := ⟨start, start + len⟩

/-- The number of `width` bytes at a place. -/
def field (width : ℕ) (b : Bytes) (at_ : ℕ) : ℕ := leValue (part b at_ (at_ + width))

def keyblock (b : Bytes) : Range := ⟨0, field 8 b KB_SIZE⟩

def algorithm (b : Bytes) : ℕ := field 8 b (KB_DATA_KEY + KEY_ALGORITHM)

def key (b : Bytes) : Range :=
  rangeAt (KB_DATA_KEY + field 8 b (KB_DATA_KEY + KEY_OFFSET)) (field 8 b (KB_DATA_KEY + KEY_SIZE))

/-- The words of the data key's modulus. -/
def words (b : Bytes) : ℕ := field 4 b (key b).start

def modulus (b : Bytes) : ℕ := leValue (part b ((key b).start + 8) ((key b).start + 8 + words b * 4))

def preamble (b : Bytes) : Range :=
  rangeAt (keyblock b).stop (field 8 b ((keyblock b).stop + PRE_SIZE))

/-- The bytes of the preamble a signature's header is at. -/
def preambleHeader (b : Bytes) : ℕ := (keyblock b).stop + PRE_SIGNATURE

def bodyHeader (b : Bytes) : ℕ := (keyblock b).stop + PRE_BODY_SIGNATURE

/-- The signature whose header is at a place. -/
def signature (b : Bytes) (at_ : ℕ) : Range :=
  rangeAt (at_ + field 8 b at_) (field 8 b (at_ + 8))

/-- The part of the preamble its signature covers. -/
def preambleSigned (b : Bytes) : Range :=
  rangeAt (keyblock b).stop (field 8 b (preambleHeader b + 16))

def body (b : Bytes) : Range := rangeAt (preamble b).stop (field 8 b (bodyHeader b + 16))

def load (b : Bytes) : ℕ := field 8 b ((keyblock b).stop + PRE_BODY_LOAD)

def stub (b : Bytes) : ℕ := field 8 b ((keyblock b).stop + PRE_BOOTLOADER)

/-- The command-line area, by the exact sum of its place. -/
def config (b : Bytes) : Range :=
  rangeAt ((body b).start + (stub b - load b - (PARAMS_BYTES + CONFIG_BYTES))) CONFIG_BYTES

variable {Public Private : Type} {rsa : Rsa Public Private}

/-- What is checked of the keyblock. -/
structure KeyblockDeclared (rsa : Rsa Public Private) (b : Bytes) : Prop where
  magic : part b 0 8 = MAGIC
  version : field 4 b KB_VERSION_MAJOR = STRUCT_VERSION_MAJOR
  keyblock : (keyblock b).stop ≤ b.length
  key : (key b).stop ≤ (Vboot.keyblock b).stop
  keyClear : KB_DATA_KEY + KEY_HEADER ≤ (Vboot.key b).start
  words : sha256ModulusBits (algorithm b) = some (words b * 32)
  modulus : (Vboot.key b).start + 8 + Vboot.words b * 4 ≤ (Vboot.key b).stop
  usable : ∃ key, rsa.newPublic (Vboot.modulus b) = .ok key

/-- What is checked of a signature with its header at a place. -/
structure SignatureDeclared (b : Bytes) (at_ : ℕ) : Prop where
  size : field 8 b (at_ + 8) = words b * 4
  inside : (signature b at_).stop ≤ (preamble b).stop

/-- What is checked of the preamble, and of where it ends the body. -/
structure PreambleDeclared (b : Bytes) : Prop where
  preamble : (preamble b).stop ≤ b.length
  header : (Vboot.preamble b).start + PRE_HEADER ≤ (Vboot.preamble b).stop
  version : field 4 b ((keyblock b).stop + PRE_VERSION_MAJOR) = STRUCT_VERSION_MAJOR
  signature : SignatureDeclared b (preambleHeader b)
  signed : (preambleSigned b).stop ≤ (Vboot.preamble b).stop
  apart : overlaps (Vboot.signature b (preambleHeader b)) (preambleSigned b) = false
  bodySignature : SignatureDeclared b (bodyHeader b)
  body : (body b).stop ≤ b.length

/-- The headers of both are accepted. -/
structure Declared (rsa : Rsa Public Private) (b : Bytes) : Prop where
  keyblock : KeyblockDeclared rsa b
  preamble : PreambleDeclared b

/-! ### Reading fields -/

section Fields
variable {b : Bytes} {width at_ start len v : ℕ} {r r' : Range} {what s : String} {α : Type}

theorem resignErr_ne_ok {a : α} : (resignErr s : Outcome EngineError α) ≠ .ok a := nofun

theorem ite_resignErr_eq_ok {c : Prop} [Decidable c] {x : Outcome EngineError α} {a : α} :
    (if c then resignErr s else x) = .ok a ↔ ¬c ∧ x = .ok a := by
  by_cases h : c
  · rw [if_pos h]
    exact ⟨fun h' => absurd h' resignErr_ne_ok, fun h' => absurd h h'.1⟩
  · rw [if_neg h]
    exact ⟨fun h' => ⟨h, h'⟩, fun h' => h'.2⟩

theorem span_eq_ok : span start len = .ok r ↔ start + len < 2 ^ 64 ∧ r = rangeAt start len := by
  rw [span, Usize.checkedAdd]
  by_cases h : start + len < 2 ^ 64
  · rw [if_pos h]
    exact ⟨fun h' => ⟨h, (Outcome.ok.inj h').symm⟩, fun h' => congrArg _ h'.2.symm⟩
  · rw [if_neg h]
    exact ⟨fun h' => absurd h' resignErr_ne_ok, fun h' => absurd h'.1 h⟩

theorem within_eq_ok {x : Bytes} :
    within b r what = .ok x ↔ r.start ≤ r.stop ∧ r.stop ≤ b.length ∧ x = part b r.start r.stop := by
  rw [within]
  by_cases h : r.start ≤ r.stop ∧ r.stop ≤ b.length
  · rw [if_pos h, Outcome.ok.injEq]
    exact ⟨fun h' => ⟨h.1, h.2, h'.symm⟩, fun h' => h'.2.2.symm⟩
  · rw [if_neg h]
    exact ⟨fun h' => absurd h' resignErr_ne_ok, fun h' => absurd ⟨h'.1, h'.2.1⟩ h⟩

/-- A field is read where it lies inside. -/
theorem leAt_eq_ok (hb : b.length < 2 ^ 64) :
    leAt width b at_ = .ok v ↔ at_ + width ≤ b.length ∧ v = field width b at_ := by
  rw [leAt, Outcome.bind_eq_ok]
  constructor
  · rintro ⟨r, hr, h⟩
    obtain ⟨x, hx, h⟩ := Outcome.bind_eq_ok.mp h
    obtain ⟨-, rfl⟩ := span_eq_ok.mp hr
    obtain ⟨-, hle, rfl⟩ := within_eq_ok.mp hx
    exact ⟨hle, (Outcome.ok.inj h).symm⟩
  · rintro ⟨hle, rfl⟩
    refine ⟨_, span_eq_ok.mpr ⟨by omega, rfl⟩, ?_⟩
    rw [within_eq_ok.mpr ⟨Nat.le_add_right _ _, hle, rfl⟩]
    rfl

theorem span_ne_panic : span start len ≠ .panic := by
  rw [span]
  split
  · nofun
  · nofun

theorem within_ne_panic : within b r what ≠ .panic := by
  rw [within]
  split
  · nofun
  · nofun

theorem leAt_ne_panic : leAt width b at_ ≠ .panic :=
  Outcome.bind_ne_panic span_ne_panic fun _ _ =>
    Outcome.bind_ne_panic within_ne_panic fun _ _ => nofun

theorem leValue_lt : leValue b < 256 ^ b.length := by
  induction b with
  | nil => exact Nat.one_pos
  | cons x b ih =>
    have hx := x.toNat_lt
    rw [List.length_cons, pow_succ]
    change x.toNat + 256 * leValue b < _
    omega

theorem field_lt : field width b at_ < 256 ^ width := by
  refine leValue_lt.trans_le (Nat.pow_le_pow_right (by omega) ?_)
  rw [part, List.length_drop, List.length_take]
  omega

theorem field_take {n : ℕ} (h : at_ + width ≤ n) : field width (part b 0 n) at_ = field width b at_ := by
  rw [field, part_part (by omega), field, Nat.zero_add, Nat.zero_add]

theorem field_part {lo hi : ℕ} (h : lo + (at_ + width) ≤ hi) :
    field width (part b lo hi) at_ = field width b (lo + at_) := by
  rw [field, part_part h, field, Nat.add_assoc]

end Fields

/-! ### The keyblock -/

section
variable {b : Bytes} {checks : Bool}

theorem magic_isPrefix : MAGIC <+: b ↔ part b 0 8 = MAGIC :=
  ⟨fun h => (List.prefix_iff_eq_take.mp h).symm, fun h => h ▸ List.take_prefix 8 b⟩

theorem modulusBits_eq {a bits : ℕ} (h : sha256ModulusBits a = some bits) :
    bits ≤ 8192 ∧ bits % 256 = 0 := by
  unfold sha256ModulusBits at h
  split at h
  all_goals cases h
  all_goals decide

theorem packedPublicKey_eq_ok {bits : ℕ} (hb : b.length < 2 ^ 64) (hbits : bits ≤ 8192)
    {dataKey : Public} :
    packedPublicKey rsa checks b bits = .ok dataKey ↔
      field 4 b 0 * 32 = bits ∧ 8 + field 4 b 0 * 4 ≤ b.length ∧
        rsa.newPublic (leValue (part b 8 (8 + field 4 b 0 * 4))) = .ok dataKey := by
  rw [packedPublicKey, Outcome.bind_eq_ok]
  constructor
  · rintro ⟨w, hw, h⟩
    obtain ⟨-, rfl⟩ := (leAt_eq_ok hb).mp hw
    obtain ⟨hmul, h⟩ := ite_resignErr_eq_ok.mp h
    obtain ⟨hlt, heq⟩ := Usize.checkedMul_eq_some.mp (not_not.mp hmul)
    obtain ⟨len, hlen, h⟩ := Outcome.bind_eq_ok.mp h
    rw [Usize.mul_of_lt (by omega)] at hlen
    obtain rfl := Outcome.ok.inj hlen
    obtain ⟨r, hr, h⟩ := Outcome.bind_eq_ok.mp h
    obtain ⟨-, rfl⟩ := span_eq_ok.mp hr
    obtain ⟨x, hx, h⟩ := Outcome.bind_eq_ok.mp h
    obtain ⟨-, hin, rfl⟩ := within_eq_ok.mp hx
    refine ⟨heq.symm, hin, ?_⟩
    simp only [rangeAt] at h
    split at h
    · rename_i key hkey
      rw [hkey, Outcome.ok.inj h]
    · exact absurd h resignErr_ne_ok
  · rintro ⟨hw, hin, hkey⟩
    refine ⟨_, (leAt_eq_ok hb).mpr ⟨by omega, rfl⟩, ite_resignErr_eq_ok.mpr ⟨?_, ?_⟩⟩
    · exact not_not.mpr (Usize.checkedMul_eq_some.mpr ⟨by omega, hw.symm⟩)
    · rw [Usize.mul_of_lt (by omega), Outcome.ok_bind, span_eq_ok.mpr ⟨by omega, rfl⟩,
        Outcome.ok_bind, within_eq_ok.mpr ⟨Nat.le_add_right _ _, hin, rfl⟩, Outcome.ok_bind]
      simp only [rangeAt]
      rw [hkey]

/-- The keyblock is read as it is declared. -/
theorem parseKeyblock_eq_ok (hb : b.length < 2 ^ 64) {k : Keyblock Public} :
    parseKeyblock rsa checks b = .ok k ↔
      KeyblockDeclared rsa b ∧ rsa.newPublic (modulus b) = .ok k.dataKey ∧
        k = ⟨(keyblock b).stop, algorithm b, key b, k.dataKey, words b * 4⟩ := by
  have hpart (n : ℕ) : (part b 0 n).length < 2 ^ 64 := length_part_le.trans_lt hb
  rw [parseKeyblock, ite_resignErr_eq_ok, not_not, magic_isPrefix]
  constructor
  · rintro ⟨hmagic, h⟩
    obtain ⟨v, hv, h⟩ := Outcome.bind_eq_ok.mp h
    obtain ⟨-, rfl⟩ := (leAt_eq_ok hb).mp hv
    obtain ⟨hversion, h⟩ := ite_resignErr_eq_ok.mp h
    obtain ⟨len, hlen, h⟩ := Outcome.bind_eq_ok.mp h
    obtain ⟨-, rfl⟩ := (leAt_eq_ok hb).mp hlen
    obtain ⟨kb, hkb, h⟩ := Outcome.bind_eq_ok.mp h
    obtain ⟨-, hfits, rfl⟩ := within_eq_ok.mp hkb
    obtain ⟨a, ha, h⟩ := Outcome.bind_eq_ok.mp h
    obtain ⟨halg, rfl⟩ := (leAt_eq_ok (hpart _)).mp ha
    obtain ⟨bits, hbits, h⟩ := Outcome.bind_eq_ok.mp h
    have hbits := Outcome.okOr_eq_ok.mp hbits
    obtain ⟨off, hoff, h⟩ := Outcome.bind_eq_ok.mp h
    obtain ⟨-, rfl⟩ := (leAt_eq_ok (hpart _)).mp hoff
    obtain ⟨start, hstart, h⟩ := Outcome.bind_eq_ok.mp h
    obtain ⟨-, rfl⟩ := Usize.checkedAdd_eq_some.mp (Outcome.okOr_eq_ok.mp hstart)
    obtain ⟨keyLen, hkeyLen, h⟩ := Outcome.bind_eq_ok.mp h
    obtain ⟨-, rfl⟩ := (leAt_eq_ok (hpart _)).mp hkeyLen
    obtain ⟨r, hr, h⟩ := Outcome.bind_eq_ok.mp h
    obtain ⟨-, rfl⟩ := span_eq_ok.mp hr
    obtain ⟨x, hx, h⟩ := Outcome.bind_eq_ok.mp h
    obtain ⟨-, hin, rfl⟩ := within_eq_ok.mp hx
    obtain ⟨hclear, h⟩ := ite_resignErr_eq_ok.mp h
    obtain ⟨dataKey, hkey, h⟩ := Outcome.bind_eq_ok.mp h
    rw [length_part hfits] at hin
    have hn : KB_DATA_KEY + KEY_HEADER ≤ field 8 b KB_SIZE :=
      (not_lt.mp hclear).trans ((Nat.le_add_right _ _).trans hin)
    have hread (at_ : ℕ) (h : at_ + 8 ≤ KB_DATA_KEY + KEY_HEADER) :
        field 8 (part b 0 (field 8 b KB_SIZE)) at_ = field 8 b at_ := field_take (h.trans hn)
    rw [hread _ (by decide)] at hbits hclear h
    rw [hread _ (by decide), hread _ (by decide)] at hin hkey h
    obtain rfl := Outcome.ok.inj h
    obtain ⟨hbits8, hbits256⟩ := modulusBits_eq hbits
    obtain ⟨hw, hm, hkey⟩ := (packedPublicKey_eq_ok (length_part_le.trans_lt (hpart _)) hbits8).mp hkey
    have hdata : part (part b 0 (field 8 b KB_SIZE)) (key b).start (key b).stop =
        part b (key b).start (key b).stop := by
      rw [part_part (by rw [Nat.zero_add]; exact hin), Nat.zero_add, Nat.zero_add]
    change field 4 (part (part b 0 _) (key b).start (key b).stop) 0 * 32 = bits at hw
    change _ ≤ (part (part b 0 _) (key b).start (key b).stop).length at hm
    change 8 + field 4 (part (part b 0 _) (key b).start (key b).stop) 0 * 4 ≤ _ at hm
    change rsa.newPublic (leValue (part (part (part b 0 _) (key b).start (key b).stop) 8
      (8 + field 4 (part (part b 0 _) (key b).start (key b).stop) 0 * 4))) = _ at hkey
    have hfits' : (key b).stop ≤ b.length := le_trans hin hfits
    rw [hdata] at hw hm hkey
    rw [length_part hfits'] at hm
    rw [field_part (by omega)] at hw hm hkey
    change words b * 32 = bits at hw
    change 8 + words b * 4 ≤ _ at hm
    change rsa.newPublic (leValue (part _ 8 (8 + words b * 4))) = _ at hkey
    rw [part_part (by omega), ← Nat.add_assoc] at hkey
    refine ⟨⟨hmagic, not_not.mp hversion, hfits, hin, not_lt.mp hclear, ?_, by omega, ⟨_, hkey⟩⟩,
      hkey, ?_⟩
    · rw [hw]
      exact hbits
    · have hlen : bits / 8 = words b * 4 := by omega
      rw [hlen]
      rfl
  · rintro ⟨h, hkey, hk⟩
    have hfits : field 8 b KB_SIZE ≤ b.length := h.keyblock
    have hstart : 112 ≤ (key b).start := h.keyClear
    have hle : (key b).start ≤ (key b).stop := Nat.le_add_right _ _
    have hin : (key b).stop ≤ field 8 b KB_SIZE := h.key
    have hmodulus := h.modulus
    obtain ⟨hbits8, hbits256⟩ := modulusBits_eq h.words
    have hread (at_ : ℕ) (hat : at_ + 8 ≤ 112) :
        u64At (part b 0 (field 8 b KB_SIZE)) at_ = .ok (field 8 b at_) := by
      refine (leAt_eq_ok (hpart _)).mpr ⟨?_, (field_take (by omega)).symm⟩
      rw [length_part hfits]
      omega
    have hdata : part (part b 0 (field 8 b KB_SIZE)) (key b).start (key b).stop =
        part b (key b).start (key b).stop := by
      rw [part_part (by omega), Nat.zero_add, Nat.zero_add]
    have hdataLen : (part b (key b).start (key b).stop).length = (key b).stop - (key b).start :=
      length_part (hin.trans hfits)
    have hwords : field 4 (part b (key b).start (key b).stop) 0 = words b := field_part (by omega)
    refine ⟨h.magic, Outcome.bind_eq_ok.mpr ⟨_, (leAt_eq_ok hb).mpr ⟨?_, rfl⟩,
      ite_resignErr_eq_ok.mpr ⟨not_not.mpr h.version, Outcome.bind_eq_ok.mpr ⟨_,
        (leAt_eq_ok hb).mpr ⟨?_, rfl⟩, Outcome.bind_eq_ok.mpr ⟨_,
          within_eq_ok.mpr ⟨Nat.zero_le _, hfits, rfl⟩, ?_⟩⟩⟩⟩⟩
    · rw [KB_VERSION_MAJOR]
      omega
    · rw [KB_SIZE]
      omega
    refine Outcome.bind_eq_ok.mpr ⟨_, hread _ (by decide), Outcome.bind_eq_ok.mpr ⟨_,
      Outcome.okOr_eq_ok.mpr h.words, Outcome.bind_eq_ok.mpr ⟨_, hread _ (by decide), ?_⟩⟩⟩
    refine Outcome.bind_eq_ok.mpr ⟨(key b).start, Outcome.okOr_eq_ok.mpr
      (Usize.checkedAdd_eq_some.mpr ⟨?_, rfl⟩), Outcome.bind_eq_ok.mpr ⟨_, hread _ (by decide), ?_⟩⟩
    · change (key b).start < _
      omega
    refine Outcome.bind_eq_ok.mpr ⟨key b, span_eq_ok.mpr ⟨?_, rfl⟩, Outcome.bind_eq_ok.mpr ⟨_,
      within_eq_ok.mpr ⟨hle, ?_, rfl⟩, ite_resignErr_eq_ok.mpr ⟨not_lt.mpr h.keyClear, ?_⟩⟩⟩
    · change (key b).stop < _
      omega
    · rw [length_part hfits]
      exact hin
    refine Outcome.bind_eq_ok.mpr ⟨k.dataKey, ?_, ?_⟩
    · change packedPublicKey rsa checks (part (part b 0 (field 8 b KB_SIZE)) _ _) _ = _
      rw [hdata, packedPublicKey_eq_ok (length_part_le.trans_lt hb) hbits8, hwords, hdataLen,
        part_part (by omega), ← Nat.add_assoc]
      exact ⟨rfl, by omega, hkey⟩
    · rw [show words b * 32 / 8 = words b * 4 by omega]
      exact congrArg _ hk.symm

/-! ### The preamble -/

theorem signatureAt_eq_ok (hb : b.length < 2 ^ 64) {at_ len : ℕ} {container : Range}
    (hat : at_ + SIG_HEADER ≤ b.length) (hc : container.stop < 2 ^ 64) {x : Range × ℕ} :
    signatureAt checks b at_ container len = .ok x ↔
      field 8 b (at_ + 8) = len ∧ container.start ≤ (signature b at_).start ∧
        (signature b at_).stop ≤ container.stop ∧ x = (signature b at_, field 8 b (at_ + 16)) := by
  rw [SIG_HEADER] at hat
  rw [signatureAt, Outcome.bind_eq_ok]
  constructor
  · rintro ⟨off, hoff, h⟩
    obtain ⟨-, rfl⟩ := (leAt_eq_ok hb).mp hoff
    obtain ⟨start, hstart, h⟩ := Outcome.bind_eq_ok.mp h
    obtain ⟨-, rfl⟩ := Usize.checkedAdd_eq_some.mp (Outcome.okOr_eq_ok.mp hstart)
    rw [Usize.add_of_lt (by omega), Outcome.ok_bind] at h
    obtain ⟨size, hsize, h⟩ := Outcome.bind_eq_ok.mp h
    obtain ⟨-, rfl⟩ := (leAt_eq_ok hb).mp hsize
    rw [Usize.add_of_lt (by omega), Outcome.ok_bind] at h
    obtain ⟨signed, hsigned, h⟩ := Outcome.bind_eq_ok.mp h
    obtain ⟨-, rfl⟩ := (leAt_eq_ok hb).mp hsigned
    obtain ⟨hlen, h⟩ := ite_resignErr_eq_ok.mp h
    obtain ⟨r, hr, h⟩ := Outcome.bind_eq_ok.mp h
    obtain ⟨-, rfl⟩ := span_eq_ok.mp hr
    obtain ⟨hin, h⟩ := ite_resignErr_eq_ok.mp h
    rw [not_or, not_lt, not_lt] at hin
    exact ⟨not_not.mp hlen, hin.1, hin.2, (Outcome.ok.inj h).symm⟩
  · rintro ⟨hlen, hstart, hstop, rfl⟩
    have hle : (signature b at_).start ≤ (signature b at_).stop := Nat.le_add_right _ _
    refine ⟨_, (leAt_eq_ok hb).mpr ⟨by omega, rfl⟩, Outcome.bind_eq_ok.mpr ⟨(signature b at_).start,
      Outcome.okOr_eq_ok.mpr (Usize.checkedAdd_eq_some.mpr ⟨?_, rfl⟩), ?_⟩⟩
    · change (signature b at_).start < _
      omega
    refine Outcome.bind_eq_ok.mpr ⟨_, Usize.add_of_lt (by omega), Outcome.bind_eq_ok.mpr ⟨_,
      (leAt_eq_ok hb).mpr ⟨by omega, rfl⟩, Outcome.bind_eq_ok.mpr ⟨_, Usize.add_of_lt (by omega),
        Outcome.bind_eq_ok.mpr ⟨_, (leAt_eq_ok hb).mpr ⟨by omega, rfl⟩, ?_⟩⟩⟩⟩
    refine ite_resignErr_eq_ok.mpr ⟨not_not.mpr hlen, Outcome.bind_eq_ok.mpr ⟨signature b at_,
      span_eq_ok.mpr ⟨?_, rfl⟩, ite_resignErr_eq_ok.mpr ⟨?_, rfl⟩⟩⟩
    · change (signature b at_).stop < _
      omega
    · rw [not_or, not_lt, not_lt]
      exact ⟨hstart, hstop⟩

/-- The preamble is read as it is declared. -/
theorem parsePreamble_eq_ok (hb : b.length < 2 ^ 64) (hkb : (keyblock b).stop ≤ b.length)
    {q : Preamble} :
    parsePreamble checks b (keyblock b).stop (words b * 4) = .ok q ↔
      PreambleDeclared b ∧ q = ⟨preamble b, signature b (preambleHeader b), preambleSigned b,
        signature b (bodyHeader b), body b, field 8 b (bodyHeader b + 16)⟩ := by
  rw [parsePreamble]
  constructor
  · intro h
    rw [Usize.add_of_lt (by rw [PRE_SIZE]; omega), Outcome.ok_bind] at h
    obtain ⟨len, hlen, h⟩ := Outcome.bind_eq_ok.mp h
    obtain ⟨-, rfl⟩ := (leAt_eq_ok hb).mp hlen
    obtain ⟨r, hr, h⟩ := Outcome.bind_eq_ok.mp h
    obtain ⟨-, rfl⟩ := span_eq_ok.mp hr
    obtain ⟨_, hw, h⟩ := Outcome.bind_eq_ok.mp h
    obtain ⟨-, hfits, -⟩ := within_eq_ok.mp hw
    obtain ⟨hheader, h⟩ := ite_resignErr_eq_ok.mp h
    change (preamble b).stop ≤ b.length at hfits
    have hheader : (keyblock b).stop + PRE_HEADER ≤ (preamble b).stop :=
      Nat.add_le_add_left (not_lt.mp hheader) _
    have hroom (n : ℕ) (hn : n ≤ PRE_HEADER) : (keyblock b).stop + n ≤ b.length := by omega
    rw [Usize.add_of_lt ((hroom _ (by decide)).trans_lt hb), Outcome.ok_bind] at h
    obtain ⟨v, hv, h⟩ := Outcome.bind_eq_ok.mp h
    obtain ⟨-, rfl⟩ := (leAt_eq_ok hb).mp hv
    obtain ⟨hversion, h⟩ := ite_resignErr_eq_ok.mp h
    rw [Usize.add_of_lt ((hroom _ (by decide)).trans_lt hb), Outcome.ok_bind] at h
    obtain ⟨x, hx, h⟩ := Outcome.bind_eq_ok.mp h
    obtain ⟨hsize, -, hin, rfl⟩ := (signatureAt_eq_ok hb ((Nat.add_assoc ..).trans_le
      (hroom (PRE_SIGNATURE + SIG_HEADER) (by decide))) (hfits.trans_lt hb)).mp hx
    obtain ⟨signed, hs, h⟩ := Outcome.bind_eq_ok.mp h
    obtain ⟨-, rfl⟩ := span_eq_ok.mp hs
    obtain ⟨hsigned, h⟩ := ite_resignErr_eq_ok.mp h
    obtain ⟨hapart, h⟩ := ite_resignErr_eq_ok.mp h
    rw [Usize.add_of_lt ((hroom _ (by decide)).trans_lt hb), Outcome.ok_bind] at h
    obtain ⟨y, hy, h⟩ := Outcome.bind_eq_ok.mp h
    obtain ⟨hsize', -, hin', rfl⟩ := (signatureAt_eq_ok hb ((Nat.add_assoc ..).trans_le
      (hroom (PRE_BODY_SIGNATURE + SIG_HEADER) (by decide))) (hfits.trans_lt hb)).mp hy
    obtain ⟨bd, hbd, h⟩ := Outcome.bind_eq_ok.mp h
    obtain ⟨-, rfl⟩ := span_eq_ok.mp hbd
    obtain ⟨_, hw', h⟩ := Outcome.bind_eq_ok.mp h
    obtain ⟨-, hbody, -⟩ := within_eq_ok.mp hw'
    exact ⟨⟨hfits, hheader, not_not.mp hversion, ⟨hsize, hin⟩, not_lt.mp hsigned,
      Bool.eq_false_iff.mpr hapart, ⟨hsize', hin'⟩, hbody⟩, (Outcome.ok.inj h).symm⟩
  · rintro ⟨h, rfl⟩
    have hfits := h.preamble
    have hheader : (keyblock b).stop + PRE_HEADER ≤ (preamble b).stop := h.header
    have hbody := h.body
    have hle : (body b).start ≤ (body b).stop := Nat.le_add_right _ _
    have hsigned := h.signed
    have hroom (n : ℕ) (hn : n ≤ PRE_HEADER) : (keyblock b).stop + n ≤ b.length := by omega
    have hadd (n : ℕ) (hn : n ≤ PRE_HEADER) :
        Usize.add (ε := EngineError) checks (keyblock b).stop n = .ok ((keyblock b).stop + n) :=
      Usize.add_of_lt ((hroom n hn).trans_lt hb)
    refine Outcome.bind_eq_ok.mpr ⟨_, hadd _ (by decide), Outcome.bind_eq_ok.mpr ⟨_,
      (leAt_eq_ok hb).mpr ⟨hroom 8 (by decide), rfl⟩, Outcome.bind_eq_ok.mpr ⟨preamble b,
        span_eq_ok.mpr ⟨hfits.trans_lt hb, rfl⟩, Outcome.bind_eq_ok.mpr ⟨_,
          within_eq_ok.mpr ⟨Nat.le_add_right _ _, hfits, rfl⟩, ?_⟩⟩⟩⟩
    refine ite_resignErr_eq_ok.mpr ⟨not_lt.mpr (Nat.le_of_add_le_add_left h.header),
      Outcome.bind_eq_ok.mpr ⟨_, hadd _ (by decide), Outcome.bind_eq_ok.mpr ⟨_,
        (leAt_eq_ok hb).mpr ⟨(Nat.add_assoc ..).trans_le (hroom (PRE_VERSION_MAJOR + 4) (by decide)),
          rfl⟩, ite_resignErr_eq_ok.mpr ⟨not_not.mpr h.version, ?_⟩⟩⟩⟩
    refine Outcome.bind_eq_ok.mpr ⟨_, hadd _ (by decide), Outcome.bind_eq_ok.mpr ⟨_,
      (signatureAt_eq_ok hb ((Nat.add_assoc ..).trans_le (hroom (PRE_SIGNATURE + SIG_HEADER)
        (by decide))) (hfits.trans_lt hb)).mpr ⟨h.signature.size, ?_, h.signature.inside, rfl⟩, ?_⟩⟩
    · exact (Nat.le_add_right _ _).trans (Nat.le_add_right _ _)
    refine Outcome.bind_eq_ok.mpr ⟨preambleSigned b, span_eq_ok.mpr
      ⟨(h.signed.trans hfits).trans_lt hb, rfl⟩, ite_resignErr_eq_ok.mpr ⟨not_lt.mpr h.signed,
        ite_resignErr_eq_ok.mpr ⟨Bool.eq_false_iff.mp h.apart, ?_⟩⟩⟩
    refine Outcome.bind_eq_ok.mpr ⟨_, hadd _ (by decide), Outcome.bind_eq_ok.mpr ⟨_,
      (signatureAt_eq_ok hb ((Nat.add_assoc ..).trans_le (hroom (PRE_BODY_SIGNATURE + SIG_HEADER)
        (by decide))) (hfits.trans_lt hb)).mpr
          ⟨h.bodySignature.size, ?_, h.bodySignature.inside, rfl⟩, ?_⟩⟩
    · exact (Nat.le_add_right _ _).trans (Nat.le_add_right _ _)
    exact Outcome.bind_eq_ok.mpr ⟨body b, span_eq_ok.mpr ⟨hbody.trans_lt hb, rfl⟩,
      Outcome.bind_eq_ok.mpr ⟨_, within_eq_ok.mpr ⟨hle, hbody, rfl⟩, rfl⟩⟩

/-! ### Parsing never panics before the command line is placed -/

theorem ite_resignErr_ne_panic {α : Type} {c : Prop} [Decidable c] {d : String}
    {x : Outcome EngineError α} (hx : ¬c → x ≠ .panic) :
    (if c then resignErr d else x) ≠ .panic := by
  by_cases h : c
  · rw [if_pos h]
    nofun
  · rw [if_neg h]
    exact hx h

theorem packedPublicKey_ne_panic {bits : ℕ} : packedPublicKey rsa checks b bits ≠ .panic := by
  refine Outcome.bind_ne_panic leAt_ne_panic fun w _ => ite_resignErr_ne_panic fun hmul => ?_
  obtain ⟨hlt, -⟩ := Usize.checkedMul_eq_some.mp (not_not.mp hmul)
  refine Outcome.bind_ne_panic (by rw [Usize.mul_of_lt (by omega)]; nofun) fun _ _ =>
    Outcome.bind_ne_panic span_ne_panic fun _ _ => Outcome.bind_ne_panic within_ne_panic fun _ _ => ?_
  split
  · nofun
  · nofun

theorem parseKeyblock_ne_panic : parseKeyblock rsa checks b ≠ .panic := by
  refine ite_resignErr_ne_panic fun _ => Outcome.bind_ne_panic leAt_ne_panic fun _ _ =>
    ite_resignErr_ne_panic fun _ => Outcome.bind_ne_panic leAt_ne_panic fun _ _ =>
    Outcome.bind_ne_panic within_ne_panic fun _ _ => Outcome.bind_ne_panic leAt_ne_panic fun _ _ =>
    Outcome.bind_ne_panic (Outcome.okOr_ne_panic _ _) fun _ _ => ?_
  exact Outcome.bind_ne_panic leAt_ne_panic fun _ _ =>
    Outcome.bind_ne_panic (Outcome.okOr_ne_panic _ _) fun _ _ =>
    Outcome.bind_ne_panic leAt_ne_panic fun _ _ => Outcome.bind_ne_panic span_ne_panic fun _ _ =>
    Outcome.bind_ne_panic within_ne_panic fun _ _ => ite_resignErr_ne_panic fun _ =>
    Outcome.bind_ne_panic packedPublicKey_ne_panic fun _ _ => nofun

theorem signatureAt_ne_panic {at_ len : ℕ} {container : Range} (hat : at_ + SIG_HEADER < 2 ^ 64) :
    signatureAt checks b at_ container len ≠ .panic := by
  rw [SIG_HEADER] at hat
  refine Outcome.bind_ne_panic leAt_ne_panic fun _ _ =>
    Outcome.bind_ne_panic (Outcome.okOr_ne_panic _ _) fun _ _ => ?_
  refine Outcome.bind_ne_panic (by rw [Usize.add_of_lt (by omega)]; nofun) fun _ _ =>
    Outcome.bind_ne_panic leAt_ne_panic fun _ _ =>
    Outcome.bind_ne_panic (by rw [Usize.add_of_lt (by omega)]; nofun) fun _ _ => ?_
  exact Outcome.bind_ne_panic leAt_ne_panic fun _ _ => ite_resignErr_ne_panic fun _ =>
    Outcome.bind_ne_panic span_ne_panic fun _ _ => ite_resignErr_ne_panic fun _ => nofun

/-- Every field of the preamble is read from places inside it. -/
theorem parsePreamble_ne_panic (hb : b.length < 2 ^ 64) {start len : ℕ} (hstart : start ≤ b.length) :
    parsePreamble checks b start len ≠ .panic := by
  refine Outcome.bind_ne_panic ?_ fun sizeField hs => Outcome.bind_ne_panic leAt_ne_panic fun size _ =>
    Outcome.bind_ne_panic span_ne_panic fun r hr => Outcome.bind_ne_panic within_ne_panic fun _ hw =>
    ite_resignErr_ne_panic fun hheader => ?_
  · rw [Usize.add_of_lt (by rw [PRE_SIZE]; omega)]
    nofun
  obtain ⟨-, rfl⟩ := span_eq_ok.mp hr
  obtain ⟨-, hfits, -⟩ := within_eq_ok.mp hw
  have hroom (n : ℕ) (hn : n ≤ PRE_HEADER) : start + n < 2 ^ 64 := by
    change start + size ≤ b.length at hfits
    omega
  have hadd (n : ℕ) (hn : n ≤ PRE_HEADER) :
      Usize.add (ε := EngineError) checks start n = .ok (start + n) := Usize.add_of_lt (hroom n hn)
  rw [hadd _ (by decide), hadd _ (by decide), hadd _ (by decide), Outcome.ok_bind]
  refine Outcome.bind_ne_panic leAt_ne_panic fun _ _ => ite_resignErr_ne_panic fun _ => ?_
  rw [Outcome.ok_bind]
  refine Outcome.bind_ne_panic (signatureAt_ne_panic ((Nat.add_assoc ..).trans_lt
    (hroom (PRE_SIGNATURE + SIG_HEADER) (by decide)))) fun x _ => ?_
  refine Outcome.bind_ne_panic span_ne_panic fun _ _ => ite_resignErr_ne_panic fun _ =>
    ite_resignErr_ne_panic fun _ => ?_
  rw [Outcome.ok_bind]
  refine Outcome.bind_ne_panic (signatureAt_ne_panic ((Nat.add_assoc ..).trans_lt
    (hroom (PRE_BODY_SIGNATURE + SIG_HEADER) (by decide)))) fun y _ => ?_
  exact Outcome.bind_ne_panic span_ne_panic fun _ _ =>
    Outcome.bind_ne_panic within_ne_panic fun _ _ => nofun

end

end Boot2Deb.Image.Vboot
