import Boot2Deb.Image.VbootLayout

/-!
# Every range of a parsed kernel partition lies in what contains it

`parse` reads the headers in exact arithmetic and bounds every range by them, with two gaps. The sum
that places the command line is neither bounded nor checked, and a signature may start inside the
header that declares it, which only the data key may not. Outside of the two, what is parsed is
contained.
-/

namespace Boot2Deb.Image.Vboot
open Rust

/-- A range lies in another. -/
def Range.Inside (a b : Range) : Prop := b.start ≤ a.start ∧ a.start ≤ a.stop ∧ a.stop ≤ b.stop

/-- The bytes of the preamble behind the fields of its header. -/
def behindHeader (b : Bytes) : Range := ⟨(preamble b).start + PRE_HEADER, (preamble b).stop⟩

variable {Public Private : Type}

/-- Every range of a partition lies inside what declares it. -/
structure KernelPartition.Contained (p : KernelPartition Public) : Prop where
  keyblock : (keyblock p.bytes).Inside ⟨0, p.bytes.length⟩
  key : (key p.bytes).Inside ⟨KB_DATA_KEY + KEY_HEADER, (Vboot.keyblock p.bytes).stop⟩
  preamble : (preamble p.bytes).Inside ⟨(Vboot.keyblock p.bytes).stop, p.bytes.length⟩
  preambleSigned : p.preambleSigned.Inside (Vboot.preamble p.bytes)
  preambleSignature : p.preambleSignature.Inside (behindHeader p.bytes)
  bodySignature : p.bodySignature.Inside (behindHeader p.bytes)
  body : p.body.Inside ⟨(Vboot.preamble p.bytes).stop, p.bytes.length⟩
  config : p.config.Inside p.body

/-- The stub leaves room for the command line below it. -/
def StubLeavesRoom (b : Bytes) : Prop := load b + (PARAMS_BYTES + CONFIG_BYTES) ≤ stub b

instance (b : Bytes) : Decidable (StubLeavesRoom b) := Nat.decLe _ _

/-- The sum that places the command line fits a `usize`. -/
def ConfigFits (b : Bytes) : Prop := StubLeavesRoom b → (config b).stop < 2 ^ 64

/-- Neither signature starts inside the preamble's header. -/
def SignaturesClear (b : Bytes) : Prop :=
  (behindHeader b).start ≤ (signature b (preambleHeader b)).start ∧
    (behindHeader b).start ≤ (signature b (bodyHeader b)).start

/-- Both signatures verify against the data key. -/
def Signed (rsa : Rsa Public Private) (b : Bytes) : Prop :=
  ∃ key, rsa.newPublic (modulus b) = .ok key ∧
    rsa.verify key (rsa.sha256 (part b (body b).start (body b).stop))
      (part b (signature b (bodyHeader b)).start (signature b (bodyHeader b)).stop) = true ∧
    rsa.verify key (rsa.sha256 (part b (preambleSigned b).start (preambleSigned b).stop))
      (part b (signature b (preambleHeader b)).start (signature b (preambleHeader b)).stop) = true

/-- The headers are accepted, place the command line in the body, and the signatures verify. -/
structure Accepted (rsa : Rsa Public Private) (b : Bytes) : Prop where
  declared : Declared rsa b
  room : StubLeavesRoom b
  config : (Vboot.config b).stop ≤ (body b).stop
  signed : Signed rsa b

variable {rsa : Rsa Public Private} {b : Bytes} {checks : Bool}

/-! ### Placing the command line -/

section Place
variable (hb : b.length < 2 ^ 64) (h : PreambleDeclared b) {r : Range}

/-- `commandLineArea` where the headers put it. -/
abbrev placed (checks : Bool) (b : Bytes) : Outcome EngineError Range :=
  commandLineArea checks b (keyblock b).stop (body b) (field 8 b (bodyHeader b + 16))

include hb h in
theorem placed_eq : placed checks b =
    if StubLeavesRoom b then do
      let first ← Usize.add checks (body b).start (stub b - load b - (PARAMS_BYTES + CONFIG_BYTES))
      let last ← Usize.add checks (body b).start (stub b - load b - (PARAMS_BYTES + CONFIG_BYTES))
      let last ← Usize.add checks last CONFIG_BYTES
      if last ≤ (body b).stop then .ok ⟨first, last⟩
        else stubErr (stub b) (load b) (field 8 b (bodyHeader b + 16))
    else stubErr (stub b) (load b) (field 8 b (bodyHeader b + 16)) := by
  have hheader : (keyblock b).stop + PRE_HEADER ≤ (preamble b).stop := h.header
  have hfits := h.preamble
  have hroom (n : ℕ) (hn : n ≤ PRE_HEADER) : (keyblock b).stop + n ≤ b.length := by omega
  have hread (n : ℕ) (hn : n + 8 ≤ PRE_HEADER) :
      u64At b ((keyblock b).stop + n) = .ok (field 8 b ((keyblock b).stop + n)) :=
    (leAt_eq_ok hb).mpr ⟨(Nat.add_assoc ..).trans_le (hroom (n + 8) hn), rfl⟩
  rw [placed, commandLineArea, Usize.add_of_lt ((hroom _ (by decide)).trans_lt hb), Outcome.ok_bind,
    hread _ (by decide), Outcome.ok_bind, Usize.add_of_lt ((hroom _ (by decide)).trans_lt hb),
    Outcome.ok_bind, hread _ (by decide), Outcome.ok_bind]
  rw [show field 8 b ((keyblock b).stop + PRE_BODY_LOAD) = load b from rfl,
    show field 8 b ((keyblock b).stop + PRE_BOOTLOADER) = stub b from rfl]
  by_cases hs : StubLeavesRoom b
  · have hs' : load b + (PARAMS_BYTES + CONFIG_BYTES) ≤ stub b := hs
    rw [Usize.checkedSub, if_pos (by omega), Option.bind_some, Usize.checkedSub, if_pos (by omega),
      if_pos hs]
  · have hs' : ¬load b + (PARAMS_BYTES + CONFIG_BYTES) ≤ stub b := hs
    rw [if_neg hs, Usize.checkedSub]
    by_cases hle : load b ≤ stub b
    · rw [if_pos hle, Option.bind_some, Usize.checkedSub, if_neg (by omega)]
    · rw [if_neg hle]
      rfl

include hb h in
theorem placed_of_room (hroom : StubLeavesRoom b) (hfits : (config b).stop < 2 ^ 64) :
    placed checks b = if (config b).stop ≤ (body b).stop then .ok (config b)
      else stubErr (stub b) (load b) (field 8 b (bodyHeader b + 16)) := by
  have hle : (config b).start ≤ (config b).stop := Nat.le_add_right _ _
  rw [placed_eq hb h, if_pos hroom, Usize.add_of_lt (hle.trans_lt hfits), Outcome.ok_bind,
    Outcome.ok_bind, Usize.add_of_lt hfits, Outcome.ok_bind]
  rfl

include hb h in
/-- Where the sum passes a `usize`, a profile that checks it panics. -/
theorem placed_of_not_fits (hfits : ¬ConfigFits b) : placed true b = .panic := by
  obtain ⟨hroom, hstop⟩ := Classical.not_imp.mp hfits
  rw [placed_eq hb h, if_pos hroom]
  by_cases hstart : (config b).start < 2 ^ 64
  · rw [Usize.add_of_lt hstart, Outcome.ok_bind, Outcome.ok_bind, Usize.add_of_le (not_lt.mp hstop)]
    rfl
  · rw [Usize.add_of_le (not_lt.mp hstart)]
    rfl

theorem stubErr_ne_ok {s l n : ℕ} {α : Type} {a : α} : (stubErr s l n : Outcome EngineError α) ≠ .ok a :=
  resignErr_ne_ok

include hb h in
/-- Where the sum fits, the command line is placed by it and in the body, or refused. -/
theorem placed_eq_ok (hfits : ConfigFits b) :
    placed checks b = .ok r ↔
      StubLeavesRoom b ∧ (config b).stop ≤ (body b).stop ∧ r = config b := by
  by_cases hroom : StubLeavesRoom b
  · rw [placed_of_room hb h hroom (hfits hroom)]
    by_cases hin : (config b).stop ≤ (body b).stop
    · rw [if_pos hin, Outcome.ok.injEq]
      exact ⟨fun h => ⟨hroom, hin, h.symm⟩, fun h => h.2.2.symm⟩
    · rw [if_neg hin]
      exact ⟨fun h => absurd h stubErr_ne_ok, fun h => absurd h.2.1 hin⟩
  · rw [placed_eq hb h, if_neg hroom]
    exact ⟨fun h => absurd h stubErr_ne_ok, fun h => absurd h.1 hroom⟩

include hb h in
theorem placed_ne_panic (hfits : ConfigFits b) : placed checks b ≠ .panic := by
  by_cases hroom : StubLeavesRoom b
  · rw [placed_of_room hb h hroom (hfits hroom)]
    split
    · nofun
    · nofun
  · rw [placed_eq hb h, if_neg hroom]
    nofun

end Place

/-! ### Verifying -/

/-- The partition the headers declare. -/
def declaredPartition (b : Bytes) (key : Public) (config : Range) : KernelPartition Public where
  bytes := b
  algorithm := algorithm b
  dataKey := key
  body := body b
  config := config
  bodySignature := signature b (bodyHeader b)
  preambleSigned := preambleSigned b
  preambleSignature := signature b (preambleHeader b)

theorem index_eq {r : Range} (hle : r.start ≤ r.stop) (hr : r.stop ≤ b.length) :
    index b r = .ok (part b r.start r.stop) := if_pos ⟨hle, hr⟩

section Verify
variable {p : KernelPartition Public} {data signature : Range} {what : String}

theorem checkSignature_eq (hd : data.Inside ⟨0, p.bytes.length⟩)
    (hs : signature.Inside ⟨0, p.bytes.length⟩) :
    p.checkSignature rsa data signature what =
      if rsa.verify p.dataKey (rsa.sha256 (part p.bytes data.start data.stop))
          (part p.bytes signature.start signature.stop) then .ok ()
        else resignErr ("its " ++ what ++ " signature does not verify against its own data key") := by
  rw [KernelPartition.checkSignature, index_eq hd.2.1 hd.2.2, Outcome.ok_bind,
    index_eq hs.2.1 hs.2.2, Outcome.ok_bind]

theorem checkSignature_ne_panic (hd : data.Inside ⟨0, p.bytes.length⟩)
    (hs : signature.Inside ⟨0, p.bytes.length⟩) :
    p.checkSignature rsa data signature what ≠ .panic := by
  rw [checkSignature_eq hd hs]
  split
  · nofun
  · nofun

theorem checkSignature_eq_ok (hd : data.Inside ⟨0, p.bytes.length⟩)
    (hs : signature.Inside ⟨0, p.bytes.length⟩) :
    p.checkSignature rsa data signature what = .ok () ↔
      rsa.verify p.dataKey (rsa.sha256 (part p.bytes data.start data.stop))
        (part p.bytes signature.start signature.stop) = true := by
  rw [checkSignature_eq hd hs]
  split
  · rename_i h
    exact iff_of_true rfl h
  · rename_i h
    exact iff_of_false resignErr_ne_ok h

end Verify

section Declared
variable {dataKey : Public} {r : Range}

theorem inside_of_le {start len n : ℕ} (h : start + len ≤ n) : (rangeAt start len).Inside ⟨0, n⟩ :=
  ⟨Nat.zero_le _, Nat.le_add_right _ _, h⟩

/-- What `verify` indexes, whatever bytes of that length the ranges are of. -/
theorem verify_declared_ne_panic (h : PreambleDeclared b) {b' : Bytes} (hlen : b'.length = b.length) :
    KernelPartition.verify { declaredPartition b dataKey r with bytes := b' } rsa ≠ .panic := by
  have hin {start len : ℕ} (h : start + len ≤ b.length) : (rangeAt start len).Inside ⟨0, b'.length⟩ :=
    inside_of_le (hlen.symm ▸ h)
  exact Outcome.bind_ne_panic (checkSignature_ne_panic (hin h.body)
    (hin (h.bodySignature.inside.trans h.preamble))) fun _ _ =>
    checkSignature_ne_panic (hin (h.signed.trans h.preamble))
      (hin (h.signature.inside.trans h.preamble))

theorem verify_declared_eq_ok (h : PreambleDeclared b) (hkey : rsa.newPublic (modulus b) = .ok dataKey) :
    (declaredPartition b dataKey r).verify rsa = .ok () ↔ Signed rsa b := by
  have hbody := @checkSignature_eq_ok _ _ rsa (declaredPartition b dataKey r) _ _ "body"
    (inside_of_le h.body) (inside_of_le (h.bodySignature.inside.trans h.preamble))
  have hpre := @checkSignature_eq_ok _ _ rsa (declaredPartition b dataKey r) _ _
    "preamble" (inside_of_le (h.signed.trans h.preamble))
    (inside_of_le (h.signature.inside.trans h.preamble))
  rw [KernelPartition.verify, Outcome.bind_eq_ok]
  constructor
  · rintro ⟨_, h1, h2⟩
    exact ⟨dataKey, hkey, hbody.mp h1, hpre.mp h2⟩
  · rintro ⟨key', hkey', h1, h2⟩
    obtain rfl := Except.ok.inj (hkey.symm.trans hkey')
    exact ⟨(), hbody.mpr h1, hpre.mpr h2⟩

/-- `parse` behind its headers. -/
theorem parse_of_declared {bytes : Slice UInt8} (h : Declared rsa bytes.1) :
    ∃ dataKey, rsa.newPublic (modulus bytes.1) = .ok dataKey ∧
      KernelPartition.parse rsa checks bytes = (do
        let config ← placed checks bytes.1
        (declaredPartition bytes.1 dataKey config).verify rsa
        Outcome.ok (declaredPartition bytes.1 dataKey config)) := by
  have hb : bytes.1.length < 2 ^ 64 := bytes.2.trans_lt (by decide)
  obtain ⟨dataKey, hkey⟩ := h.keyblock.usable
  refine ⟨dataKey, hkey, ?_⟩
  have hk : parseKeyblock rsa checks bytes.1 = .ok ⟨(keyblock bytes.1).stop, algorithm bytes.1,
      key bytes.1, dataKey, words bytes.1 * 4⟩ := (parseKeyblock_eq_ok hb).mpr ⟨h.keyblock, hkey, rfl⟩
  rw [KernelPartition.parse, hk, Outcome.ok_bind,
    (parsePreamble_eq_ok hb h.keyblock.keyblock).mpr ⟨h.preamble, rfl⟩, Outcome.ok_bind]
  rfl

theorem parse_of_not_declared {bytes : Slice UInt8} (h : ¬Declared rsa bytes.1) :
    ∃ e, KernelPartition.parse rsa checks bytes = .err e := by
  have hb : bytes.1.length < 2 ^ 64 := bytes.2.trans_lt (by decide)
  rw [KernelPartition.parse]
  cases hk : parseKeyblock rsa checks bytes.1 with
  | panic => exact absurd hk parseKeyblock_ne_panic
  | err e => exact ⟨e, rfl⟩
  | ok k =>
    obtain ⟨hk, -, heq⟩ := (parseKeyblock_eq_ok hb).mp hk
    rw [Outcome.ok_bind, heq]
    change ∃ e, (parsePreamble checks bytes.1 (keyblock bytes.1).stop (words bytes.1 * 4) >>= _) = _
    cases hq : parsePreamble checks bytes.1 (keyblock bytes.1).stop (words bytes.1 * 4) with
    | panic => exact absurd hq (parsePreamble_ne_panic hb hk.keyblock)
    | err e => exact ⟨e, rfl⟩
    | ok q => exact absurd ⟨hk, ((parsePreamble_eq_ok hb hk.keyblock).mp hq).1⟩ h

end Declared

/-! ### Contained -/

section Contained
variable {bytes : Slice UInt8} {p : KernelPartition Public}

/-- What is parsed is declared, and verified. -/
theorem parse_eq_ok (hfits : ConfigFits bytes.1)
    (h : KernelPartition.parse rsa checks bytes = .ok p) :
    Accepted rsa bytes.1 ∧ rsa.newPublic (modulus bytes.1) = .ok p.dataKey ∧
      p = declaredPartition bytes.1 p.dataKey (config bytes.1) := by
  have hb : bytes.1.length < 2 ^ 64 := bytes.2.trans_lt (by decide)
  by_cases hd : Declared rsa bytes.1
  · obtain ⟨dataKey, hkey, heq⟩ := @parse_of_declared _ _ _ checks _ hd
    rw [heq] at h
    obtain ⟨r, hr, h⟩ := Outcome.bind_eq_ok.mp h
    obtain ⟨_, hv, h⟩ := Outcome.bind_eq_ok.mp h
    obtain ⟨hroom, hin, rfl⟩ := (placed_eq_ok hb hd.preamble hfits).mp hr
    obtain rfl := Outcome.ok.inj h
    exact ⟨⟨hd, hroom, hin, (verify_declared_eq_ok hd.preamble hkey).mp hv⟩, hkey, rfl⟩
  · obtain ⟨e, he⟩ := @parse_of_not_declared _ _ _ checks _ hd
    rw [he] at h
    exact absurd h nofun

/-- And all that is declared, with a command line in the body, and verified, is parsed. -/
theorem parse_of_accepted (hfits : ConfigFits bytes.1) (h : Accepted rsa bytes.1) :
    ∃ dataKey, rsa.newPublic (modulus bytes.1) = .ok dataKey ∧
      KernelPartition.parse rsa checks bytes =
        .ok (declaredPartition bytes.1 dataKey (config bytes.1)) := by
  have hb : bytes.1.length < 2 ^ 64 := bytes.2.trans_lt (by decide)
  obtain ⟨dataKey, hkey, heq⟩ := @parse_of_declared _ _ _ checks _ h.declared
  refine ⟨dataKey, hkey, ?_⟩
  rw [heq, (placed_eq_ok hb h.declared.preamble hfits).mpr ⟨h.room, h.config, rfl⟩, Outcome.ok_bind,
    (verify_declared_eq_ok h.declared.preamble hkey).mpr h.signed, Outcome.ok_bind]

theorem contained_declared (h : Declared rsa b) (hin : (config b).stop ≤ (body b).stop)
    (dataKey : Public) :
    (declaredPartition b dataKey (config b)).Contained ↔ SignaturesClear b := by
  constructor
  · intro hc
    exact ⟨hc.preambleSignature.1, hc.bodySignature.1⟩
  · rintro ⟨hpre, hbody⟩
    refine ⟨?keyblock, ?key, ?preamble, ?signed, ?preambleSignature, ?bodySignature, ?body, ?config⟩
    case keyblock => exact ⟨Nat.zero_le _, Nat.zero_le _, h.keyblock.keyblock⟩
    case key => exact ⟨h.keyblock.keyClear, Nat.le_add_right _ _, h.keyblock.key⟩
    case preamble => exact ⟨le_rfl, Nat.le_add_right _ _, h.preamble.preamble⟩
    case signed => exact ⟨le_rfl, Nat.le_add_right _ _, h.preamble.signed⟩
    case preambleSignature => exact ⟨hpre, Nat.le_add_right _ _, h.preamble.signature.inside⟩
    case bodySignature => exact ⟨hbody, Nat.le_add_right _ _, h.preamble.bodySignature.inside⟩
    case body => exact ⟨le_rfl, Nat.le_add_right _ _, h.preamble.body⟩
    case config => exact ⟨Nat.le_add_right _ _, Nat.le_add_right _ _, hin⟩

/-- Parsing ends without a panic or a sum past its type, and with every range contained, for
exactly the bytes that place the command line by a sum that fits and whose signatures, where all
else is accepted, start behind the header. -/
theorem parse_contained_iff (rsa : Rsa Public Private) (bytes : Slice UInt8) :
    ((∀ checks, KernelPartition.parse rsa checks bytes ≠ .panic) ∧
        ∀ checks p, KernelPartition.parse rsa checks bytes = .ok p → p.Contained) ↔
      (Declared rsa bytes.1 → ConfigFits bytes.1) ∧
        (Accepted rsa bytes.1 → SignaturesClear bytes.1) := by
  have hb : bytes.1.length < 2 ^ 64 := bytes.2.trans_lt (by decide)
  constructor
  · rintro ⟨hpanic, hcontained⟩
    have hfits (hd : Declared rsa bytes.1) : ConfigFits bytes.1 := by
      by_contra hn
      obtain ⟨dataKey, -, heq⟩ := @parse_of_declared _ _ _ true _ hd
      rw [placed_of_not_fits hb hd.preamble hn] at heq
      exact hpanic true heq
    refine ⟨hfits, fun ha => ?_⟩
    obtain ⟨dataKey, -, hp⟩ := @parse_of_accepted _ _ _ true _ (hfits ha.declared) ha
    exact (contained_declared ha.declared ha.config dataKey).mp (hcontained true _ hp)
  · rintro ⟨hfits, hclear⟩
    by_cases hd : Declared rsa bytes.1
    · constructor
      · intro checks
        obtain ⟨dataKey, -, heq⟩ := @parse_of_declared _ _ _ checks _ hd
        rw [heq]
        exact Outcome.bind_ne_panic (placed_ne_panic hb hd.preamble (hfits hd)) fun _ _ =>
          Outcome.bind_ne_panic (verify_declared_ne_panic hd.preamble rfl) fun _ _ => nofun
      · intro checks p hp
        obtain ⟨ha, -, heq⟩ := parse_eq_ok (hfits hd) hp
        rw [heq]
        exact (contained_declared hd ha.config p.dataKey).mpr (hclear ha)
    · constructor
      · intro checks
        obtain ⟨e, he⟩ := @parse_of_not_declared _ _ _ checks _ hd
        rw [he]
        nofun
      · intro checks p hp
        obtain ⟨e, he⟩ := @parse_of_not_declared _ _ _ checks _ hd
        rw [he] at hp
        exact absurd hp nofun

end Contained

/-! ### A partition whose command line is placed past the last address -/

/-- A keyblock with a 1024-bit data key of all ones, and nothing behind the key. -/
def onesKeyblock : Bytes :=
  MAGIC ++ leBytes 8 2 ++ leBytes 8 248 ++ List.replicate 56 0 ++
    leBytes 8 32 ++ leBytes 8 136 ++ leBytes 8 1 ++ leBytes 8 0 ++
    leBytes 8 32 ++ List.replicate 128 255

/-- A preamble header loaded at zero, with 128-byte signatures at `signature` and `bodySignature`. -/
def preambleBytes (len signature signed stub bodySignature bodyLen : ℕ) : Bytes :=
  leBytes 8 len ++ (leBytes 8 (signature - 8) ++ leBytes 8 128 ++ leBytes 8 signed) ++
    leBytes 8 2 ++ leBytes 8 0 ++ leBytes 8 0 ++ leBytes 8 stub ++ leBytes 8 0 ++
    (leBytes 8 (bodySignature - 72) ++ leBytes 8 128 ++ leBytes 8 bodyLen)

/-- The bytes of a modulus. -/
def modulusBytes (n : ℕ) : ℕ := (n.log2 + 8) / 8

/-- A digest repeated over the bytes of a modulus. -/
def repeated (n : ℕ) (digest : Bytes) : Bytes :=
  (List.range (modulusBytes n)).map fun i => digest.getD (i % 32) 0

/-- A stand-in with fixed sizes: the digest is a sum, and a signature repeats it. -/
def sumRsa : Rsa ℕ ℕ where
  sha256 data := leBytes 32 (data.map UInt8.toNat).sum
  newPublic n := if n % 2 = 1 ∧ 65537 < n then .ok n else .error "invalid modulus"
  modulus n := n
  verify n digest value := value == repeated n digest
  privateModulus n := n
  sign n digest := .ok (repeated n digest)

/-- Its stub is at the last address, so the command line is placed 4096 bytes past it. -/
def farStub : Slice UInt8 :=
  ⟨onesKeyblock ++ preambleBytes 4096 224 224 (2 ^ 64 - 1) 96 0 ++ List.replicate 4000 0, by
    decide +kernel⟩

theorem farStub_panics : ¬∀ {Public Private : Type} (rsa : Rsa Public Private) (bytes : Slice UInt8),
    (∀ checks, KernelPartition.parse rsa checks bytes ≠ .panic) ∧
      ∀ checks p, KernelPartition.parse rsa checks bytes = .ok p → p.Contained := by
  intro h
  have hrun : (KernelPartition.parse sumRsa true farStub).isPanic = true := by decide +kernel
  exact (h sumRsa farStub).1 true (Outcome.isPanic_iff.mp hrun)

end Boot2Deb.Image.Vboot
