import Boot2Deb.Image.VbootContained

/-!
# Signing a kernel partition again

`resign` writes the command line into the body and then two signatures into the preamble. Where none
of the writes reaches a header, what is written is read back under the same layout.
-/

namespace Boot2Deb.Image.Vboot
open Rust

variable {Public Private : Type}

/-- Signatures are as long as the modulus, those that are made and those that verify. -/
structure Rsa.Sized (rsa : Rsa Public Private) : Prop where
  sign : ∀ key digest value, rsa.sign key digest = .ok value →
    value.length = modulusBytes (rsa.privateModulus key)
  verify : ∀ key digest value, rsa.verify key digest value = true →
    value.length = modulusBytes (rsa.modulus key)

variable {rsa : Rsa Public Private} {b b' : Bytes} {checks : Bool}

/-! ### Bytes with the same headers -/

/-- The headers put everything in the same place. -/
structure SameLayout (b b' : Bytes) : Prop where
  length : b'.length = b.length
  magic : part b' 0 8 = part b 0 8
  version : field 4 b' KB_VERSION_MAJOR = field 4 b KB_VERSION_MAJOR
  keyblock : keyblock b' = keyblock b
  algorithm : algorithm b' = algorithm b
  key : key b' = key b
  words : words b' = words b
  modulus : modulus b' = modulus b
  preamble : preamble b' = preamble b
  preambleVersion : field 4 b' ((Vboot.keyblock b).stop + PRE_VERSION_MAJOR) =
    field 4 b ((Vboot.keyblock b).stop + PRE_VERSION_MAJOR)
  signature : signature b' (preambleHeader b) = signature b (preambleHeader b)
  size : field 8 b' (preambleHeader b + 8) = field 8 b (preambleHeader b + 8)
  signed : preambleSigned b' = preambleSigned b
  bodySignature : Vboot.signature b' (bodyHeader b) = Vboot.signature b (bodyHeader b)
  bodySize : field 8 b' (bodyHeader b + 8) = field 8 b (bodyHeader b + 8)
  body : body b' = body b
  load : load b' = load b
  stub : stub b' = stub b

theorem field_congr {width at_ n : ℕ} (h : b'.take n = b.take n) (hle : at_ + width ≤ n) :
    field width b' at_ = field width b at_ := by
  rw [field, part_congr h hle, field]

/-- Bytes that agree up to the end of the preamble's header. -/
theorem sameLayout_of_take (h : KeyblockDeclared rsa b) (hlen : b'.length = b.length)
    (htake : b'.take ((keyblock b).stop + PRE_HEADER) = b.take ((keyblock b).stop + PRE_HEADER)) :
    SameLayout b b' := by
  have hclear : 112 ≤ (key b).start := h.keyClear
  have hle : (key b).start ≤ (key b).stop := Nat.le_add_right _ _
  have hin := h.key
  have hmodulus := h.modulus
  have hread (width at_ : ℕ) (hle : at_ + width ≤ 208) : field width b' at_ = field width b at_ := by
    refine field_congr htake ?_
    rw [PRE_HEADER, PRE_BODY_SIGNATURE, SIG_HEADER]
    omega
  have hpre (width at_ : ℕ) (hle : at_ + width ≤ PRE_HEADER) :
      field width b' ((keyblock b).stop + at_) = field width b ((keyblock b).stop + at_) := by
    refine field_congr htake ?_
    omega
  have hinner (at_ n : ℕ) (hle : at_ + n + 8 ≤ PRE_HEADER) :
      field 8 b' ((keyblock b).stop + at_ + n) = field 8 b ((keyblock b).stop + at_ + n) := by
    rw [Nat.add_assoc]
    exact hpre 8 (at_ + n) hle
  have hpart (lo hi : ℕ) (hhi : hi ≤ (keyblock b).stop) : part b' lo hi = part b lo hi :=
    part_congr htake (hhi.trans (Nat.le_add_right _ _))
  have hkeyblock : keyblock b' = keyblock b := by
    rw [keyblock, keyblock, hread _ _ (by decide)]
  have hkey : key b' = key b := by
    rw [key, key, hread _ _ (by decide), hread _ _ (by decide)]
  have hwords : words b' = words b := by
    rw [words, words, hkey]
    exact congrArg leValue (hpart _ _ (by omega))
  have hpreamble : preamble b' = preamble b := by
    rw [preamble, preamble, hkeyblock, hpre _ _ (by decide)]
  have hsignature : signature b' (preambleHeader b) = signature b (preambleHeader b) := by
    rw [signature, signature, preambleHeader, hpre _ PRE_SIGNATURE (by decide),
      hinner _ 8 (by decide)]
  have hbody : signature b' (bodyHeader b) = signature b (bodyHeader b) := by
    rw [signature, signature, bodyHeader, hpre _ PRE_BODY_SIGNATURE (by decide),
      hinner _ 8 (by decide)]
  refine ⟨hlen, hpart _ _ (by omega), hread _ _ (by decide), hkeyblock, hread _ _ (by decide), hkey,
    hwords, ?modulus, hpreamble, hpre _ _ (by decide), hsignature, ?size, ?signed, hbody, ?bodySize,
    ?body, ?load, ?stub⟩
  case modulus =>
    rw [modulus, modulus, hkey, hwords, hpart _ _ (by omega)]
  case size =>
    rw [preambleHeader, hinner _ 8 (by decide)]
  case signed =>
    rw [preambleSigned, preambleSigned, preambleHeader, preambleHeader, hkeyblock,
      hinner _ 16 (by decide)]
  case bodySize =>
    rw [bodyHeader, hinner _ 8 (by decide)]
  case body =>
    rw [body, body, hpreamble, bodyHeader, bodyHeader, hkeyblock,
      hinner _ 16 (by decide)]
  case load => rw [load, load, hkeyblock, hpre _ _ (by decide)]
  case stub => rw [stub, stub, hkeyblock, hpre _ _ (by decide)]

namespace SameLayout
variable (hs : SameLayout b b')
include hs

theorem preambleHeader_eq : preambleHeader b' = preambleHeader b := by
  rw [preambleHeader, preambleHeader, hs.keyblock]

theorem bodyHeader_eq : bodyHeader b' = bodyHeader b := by
  rw [bodyHeader, bodyHeader, hs.keyblock]

theorem config_eq : config b' = config b := by
  rw [config, config, hs.body, hs.load, hs.stub]

theorem keyblockDeclared (h : KeyblockDeclared rsa b) : KeyblockDeclared rsa b' where
  magic := hs.magic.trans h.magic
  version := hs.version.trans h.version
  keyblock := by rw [hs.keyblock, hs.length]; exact h.keyblock
  key := by rw [hs.keyblock, hs.key]; exact h.key
  keyClear := by rw [hs.key]; exact h.keyClear
  words := by rw [hs.algorithm, hs.words]; exact h.words
  modulus := by rw [hs.key, hs.words]; exact h.modulus
  usable := by rw [hs.modulus]; exact h.usable

theorem preambleDeclared (h : PreambleDeclared b) : PreambleDeclared b' where
  preamble := by rw [hs.preamble, hs.length]; exact h.preamble
  header := by rw [hs.preamble]; exact h.header
  version := by rw [hs.keyblock, hs.preambleVersion]; exact h.version
  signature := by
    rw [hs.preambleHeader_eq]
    exact ⟨by rw [hs.size, hs.words]; exact h.signature.size,
      by rw [hs.signature, hs.preamble]; exact h.signature.inside⟩
  signed := by rw [hs.signed, hs.preamble]; exact h.signed
  apart := by rw [hs.preambleHeader_eq, hs.signature, hs.signed]; exact h.apart
  bodySignature := by
    rw [hs.bodyHeader_eq]
    exact ⟨by rw [hs.bodySize, hs.words]; exact h.bodySignature.size,
      by rw [hs.bodySignature, hs.preamble]; exact h.bodySignature.inside⟩
  body := by rw [hs.body, hs.length]; exact h.body

theorem declaredPartition_eq (dataKey : Public) :
    declaredPartition b' dataKey (config b') =
      { declaredPartition b dataKey (config b) with bytes := b' } := by
  rw [declaredPartition, declaredPartition, hs.algorithm, hs.body, hs.config_eq, hs.bodyHeader_eq,
    hs.bodySignature, hs.signed, hs.preambleHeader_eq, hs.signature]

end SameLayout

/-! ### The three writes -/

section Writes
variable {dataKey : Public} {cmdline : Str} {key : KernelPartition.SigningKey Private}

/-- The bytes with the command line written. -/
def lineWritten (b : Bytes) (cmdline : Str) : Bytes :=
  overwrite b (config b).start
    (asBytes cmdline ++ List.replicate (CONFIG_BYTES - byteLen cmdline) 0)

/-- And then both signatures. -/
def signaturesWritten (b : Bytes) (cmdline : Str) (body preamble : Bytes) : Bytes :=
  overwrite (overwrite (lineWritten b cmdline) (signature b (bodyHeader b)).start body)
    (signature b (preambleHeader b)).start preamble

theorem copyFromSlice_eq {r : Range} {value : Bytes} (hr : r.stop ≤ b.length)
    (hlen : r.stop = r.start + value.length) :
    KernelPartition.copyFromSlice b r value = .ok (overwrite b r.start value) :=
  if_pos ⟨by omega, hr, by omega⟩

theorem length_line (hcmd : byteLen cmdline < CONFIG_BYTES) :
    (asBytes cmdline ++ List.replicate (CONFIG_BYTES - byteLen cmdline) (0 : UInt8)).length =
      CONFIG_BYTES := by
  rw [List.length_append, length_asBytes, List.length_replicate]
  omega

/-- Blanking the area and writing the line is one write. -/
theorem writeLine (hc : (config b).stop ≤ b.length) (hcmd : byteLen cmdline < CONFIG_BYTES) :
    (do
      let bytes ← KernelPartition.copyFromSlice b (config b) (List.replicate CONFIG_BYTES 0)
      KernelPartition.copyFromSlice bytes ⟨(config b).start, (config b).start + byteLen cmdline⟩
        (asBytes cmdline)) = .ok (lineWritten b cmdline) := by
  have hstop : (config b).stop = (config b).start + CONFIG_BYTES := rfl
  have hblank : (config b).start + (List.replicate CONFIG_BYTES (0 : UInt8)).length ≤ b.length := by
    rw [List.length_replicate]
    exact hc
  have hline : (config b).start + byteLen cmdline ≤
      (overwrite b (config b).start (List.replicate CONFIG_BYTES 0)).length := by
    rw [length_overwrite hblank]
    omega
  rw [copyFromSlice_eq hc (by rw [List.length_replicate, hstop]), Outcome.ok_bind,
    copyFromSlice_eq hline (by rw [length_asBytes]),
    overwrite_overwrite (by omega) (by rw [length_asBytes, List.length_replicate]; omega),
    lineWritten, List.drop_replicate, length_asBytes]

theorem length_lineWritten (hc : (config b).stop ≤ b.length) (hcmd : byteLen cmdline < CONFIG_BYTES) :
    (lineWritten b cmdline).length = b.length :=
  length_overwrite (by rw [length_line hcmd]; exact hc)

/-- What `resign` checks before it writes anything. -/
structure MayResign (rsa : Rsa Public Private) (p : KernelPartition Public) (cmdline : Str)
    (key : KernelPartition.SigningKey Private) : Prop where
  algorithm : key.algorithm = p.algorithm
  modulus : rsa.privateModulus key.key = rsa.modulus p.dataKey
  nul : '\x00' ∉ cmdline
  fits : byteLen cmdline < CONFIG_BYTES

/-- The declared partition, signed again. -/
theorem resigned_declared (hd : Declared rsa b) (hin : (config b).stop ≤ (body b).stop)
    (hmay : MayResign rsa (declaredPartition b dataKey (config b)) cmdline key) :
    (declaredPartition b dataKey (config b)).resigned rsa cmdline key = (do
      let bodySignature ← key.sign rsa (part (lineWritten b cmdline) (body b).start (body b).stop)
      let bytes ← KernelPartition.copyFromSlice (lineWritten b cmdline) (signature b (bodyHeader b))
        bodySignature
      let signed ← index bytes (preambleSigned b)
      let preambleSignature ← key.sign rsa signed
      let bytes ← KernelPartition.copyFromSlice bytes (signature b (preambleHeader b))
        preambleSignature
      let resigned := { declaredPartition b dataKey (config b) with bytes }
      resigned.verify rsa
      Outcome.ok resigned) := by
  have hc : (config b).stop ≤ b.length := hin.trans hd.preamble.body
  have harea : (part b (config b).start (config b).stop).length = CONFIG_BYTES := by
    rw [length_part hc]
    exact Nat.add_sub_cancel_left _ _
  have hbody : (body b).stop ≤ (lineWritten b cmdline).length := by
    rw [length_lineWritten hc hmay.fits]
    exact hd.preamble.body
  have hline := writeLine hc hmay.fits
  rw [KernelPartition.resigned, if_neg (not_not.mpr hmay.algorithm), if_neg (not_not.mpr hmay.modulus),
    if_neg hmay.nul, if_neg (not_le.mpr hmay.fits)]
  dsimp only [declaredPartition]
  rw [index_eq (Nat.le_add_right _ _) hc, Outcome.ok_bind, harea]
  obtain ⟨blanked, hblanked, hwritten⟩ := Outcome.bind_eq_ok.mp hline
  rw [hblanked, Outcome.ok_bind, hwritten, Outcome.ok_bind,
    index_eq (Nat.le_add_right _ _) hbody, Outcome.ok_bind]

theorem signature_stop {at_ : ℕ} (h : SignatureDeclared b at_) :
    (signature b at_).stop = (signature b at_).start + words b * 4 := by
  rw [← h.size]
  rfl

section Written
variable {s1 s2 : Bytes}
variable (hd : PreambleDeclared b) (hin : (config b).stop ≤ (body b).stop)
    (hcmd : byteLen cmdline < CONFIG_BYTES) (h1 : s1.length = words b * 4)
    (h2 : s2.length = words b * 4)
include hd hin hcmd h1 h2

omit h2 in
theorem bodySignature_fits :
    (signature b (bodyHeader b)).start + s1.length ≤ (lineWritten b cmdline).length := by
  rw [length_lineWritten (hin.trans hd.body) hcmd, h1, ← signature_stop hd.bodySignature]
  exact hd.bodySignature.inside.trans hd.preamble

theorem signature_fits : (signature b (preambleHeader b)).start + s2.length ≤
    (overwrite (lineWritten b cmdline) (signature b (bodyHeader b)).start s1).length := by
  rw [length_overwrite (bodySignature_fits hd hin hcmd h1),
    length_lineWritten (hin.trans hd.body) hcmd, h2, ← signature_stop hd.signature]
  exact hd.signature.inside.trans hd.preamble

theorem length_signaturesWritten : (signaturesWritten b cmdline s1 s2).length = b.length := by
  rw [signaturesWritten, length_overwrite (signature_fits hd hin hcmd h1 h2),
    length_overwrite (bodySignature_fits hd hin hcmd h1),
    length_lineWritten (hin.trans hd.body) hcmd]

/-- Nothing outside the three ranges changes. -/
theorem getElem?_signaturesWritten {i : ℕ}
    (hc : ¬((config b).start ≤ i ∧ i < (config b).stop))
    (hb : ¬((signature b (bodyHeader b)).start ≤ i ∧ i < (signature b (bodyHeader b)).stop))
    (hp : ¬((signature b (preambleHeader b)).start ≤ i ∧
      i < (signature b (preambleHeader b)).stop)) :
    (signaturesWritten b cmdline s1 s2)[i]? = b[i]? := by
  have hline : (config b).start + (asBytes cmdline ++
      List.replicate (CONFIG_BYTES - byteLen cmdline) (0 : UInt8)).length ≤ b.length := by
    rw [length_line hcmd]
    exact hin.trans hd.body
  rw [signaturesWritten, getElem?_overwrite (signature_fits hd hin hcmd h1 h2), h2,
    ← signature_stop hd.signature, if_neg hp,
    getElem?_overwrite (bodySignature_fits hd hin hcmd h1), h1,
    ← signature_stop hd.bodySignature, if_neg hb, lineWritten, getElem?_overwrite hline,
    length_line hcmd]
  exact if_neg hc

/-- The headers are not written to. -/
theorem take_signaturesWritten (hclear : SignaturesClear b) :
    (signaturesWritten b cmdline s1 s2).take ((keyblock b).stop + PRE_HEADER) =
      b.take ((keyblock b).stop + PRE_HEADER) := by
  have hheader : (keyblock b).stop + PRE_HEADER ≤ (preamble b).stop := hd.header
  have hstart : (preamble b).stop ≤ (config b).start := Nat.le_add_right _ _
  have hstop : (config b).start ≤ (config b).stop := Nat.le_add_right _ _
  have hpre : (keyblock b).stop + PRE_HEADER ≤ (signature b (preambleHeader b)).start := hclear.1
  have hbody : (keyblock b).stop + PRE_HEADER ≤ (signature b (bodyHeader b)).start := hclear.2
  have hfits := hd.body
  have hle := bodySignature_fits hd hin hcmd h1
  have hle' := signature_fits hd hin hcmd h1 h2
  rw [signaturesWritten, take_overwrite hpre (by omega), take_overwrite hbody (by omega),
    lineWritten, take_overwrite (by omega) (by omega)]

/-- The command line stands in its area. -/
theorem part_signaturesWritten :
    part (signaturesWritten b cmdline s1 s2) (config b).start (config b).stop =
      asBytes cmdline ++ List.replicate (CONFIG_BYTES - byteLen cmdline) 0 := by
  have hstart : (preamble b).stop ≤ (config b).start := Nat.le_add_right _ _
  have hbody := hd.bodySignature.inside
  have hpre := hd.signature.inside
  rw [signature_stop hd.bodySignature] at hbody
  rw [signature_stop hd.signature] at hpre
  have hline : (config b).start + (asBytes cmdline ++
      List.replicate (CONFIG_BYTES - byteLen cmdline) (0 : UInt8)).length ≤ b.length := by
    rw [length_line hcmd]
    exact hin.trans hd.body
  rw [signaturesWritten,
    part_overwrite_of_apart (signature_fits hd hin hcmd h1 h2) (.inr (by omega)),
    part_overwrite_of_apart (bodySignature_fits hd hin hcmd h1) (.inr (by omega)), lineWritten,
    part_overwrite_self hline (by rw [length_line hcmd]; rfl)]

end Written

/-- The line is read back up to its NUL. -/
theorem cmdline_eq {p : KernelPartition Public} (hc : p.config.Inside ⟨0, p.bytes.length⟩)
    (hnul : '\x00' ∉ cmdline) {n : ℕ} (hn : 0 < n)
    (hpart : part p.bytes p.config.start p.config.stop = asBytes cmdline ++ List.replicate n 0) :
    p.cmdline = .ok cmdline := by
  have hfind : (asBytes cmdline ++ List.replicate n 0).findIdx? (· == 0) =
      some (asBytes cmdline).length := by
    have hnone : (asBytes cmdline).findIdx? (· == 0) = none := by
      rw [List.findIdx?_eq_none_iff]
      intro x hx
      exact beq_eq_false_iff_ne.mpr fun h => zero_notMem_asBytes hnul (h ▸ hx)
    obtain ⟨n, rfl⟩ := Nat.exists_eq_succ_of_ne_zero hn.ne'
    rw [List.findIdx?_append, hnone, List.replicate_succ, List.findIdx?_cons]
    simp
  rw [KernelPartition.cmdline, index_eq hc.2.1 hc.2.2, Outcome.ok_bind, hpart, hfind]
  change Outcome.okOr (fromUtf8 ((asBytes cmdline ++ List.replicate n 0).take _)) _ = _
  rw [List.take_left, fromUtf8_asBytes]
  rfl

theorem resigned_of_not_mayResign {p : KernelPartition Public} (h : ¬MayResign rsa p cmdline key) :
    ∃ e, p.resigned rsa cmdline key = .err e := by
  rw [KernelPartition.resigned]
  by_cases h1 : key.algorithm = p.algorithm
  · by_cases h2 : rsa.privateModulus key.key = rsa.modulus p.dataKey
    · by_cases h3 : '\x00' ∈ cmdline
      · exact ⟨_, by rw [if_neg (not_not.mpr h1), if_neg (not_not.mpr h2), if_pos h3]; rfl⟩
      · have h4 : CONFIG_BYTES ≤ byteLen cmdline := not_lt.mp fun h4 => h ⟨h1, h2, h3, h4⟩
        exact ⟨_, by
          rw [if_neg (not_not.mpr h1), if_neg (not_not.mpr h2), if_neg h3, if_pos h4]; rfl⟩
    · exact ⟨_, by rw [if_neg (not_not.mpr h1), if_pos h2]; rfl⟩
  · exact ⟨_, by rw [if_pos h1]; rfl⟩

theorem sign_eq_ok {data value : Bytes} (hsized : rsa.Sized)
    (hmodulus : modulusBytes (rsa.privateModulus key.key) = words b * 4)
    (h : key.sign rsa data = .ok value) : value.length = words b * 4 := by
  rw [KernelPartition.SigningKey.sign] at h
  split at h
  · rename_i signature hs
    rw [← Outcome.ok.inj h, ← hmodulus]
    exact hsized.sign _ _ _ hs
  · exact absurd h resignErr_ne_ok

theorem sign_ne_panic {data : Bytes} : key.sign rsa data ≠ .panic := by
  rw [KernelPartition.SigningKey.sign]
  split
  · nofun
  · nofun

/-- A signature of a partition that is accepted is as long as its ranges for it. -/
theorem modulusBytes_eq (hsized : rsa.Sized) (h : Accepted rsa b)
    (hkey : rsa.newPublic (modulus b) = .ok dataKey) :
    modulusBytes (rsa.modulus dataKey) = words b * 4 := by
  obtain ⟨dataKey', hkey', hverify, -⟩ := h.signed
  obtain rfl := Except.ok.inj (hkey.symm.trans hkey')
  have hpre := h.declared.preamble
  rw [← hsized.verify _ _ _ hverify, length_part (hpre.bodySignature.inside.trans hpre.preamble),
    signature_stop hpre.bodySignature, Nat.add_sub_cancel_left]

variable (hsized : rsa.Sized) (h : Accepted rsa b)
    (hkey : rsa.newPublic (modulus b) = .ok dataKey)
include hsized h hkey

/-- Signing again never panics, and where nothing fails it has made the three writes. -/
theorem resigned_written :
    (declaredPartition b dataKey (config b)).resigned rsa cmdline key ≠ .panic ∧
      ∀ q, (declaredPartition b dataKey (config b)).resigned rsa cmdline key = .ok q →
        '\x00' ∉ cmdline ∧ byteLen cmdline < CONFIG_BYTES ∧ ∃ s1 s2 : Bytes,
          s1.length = words b * 4 ∧ s2.length = words b * 4 ∧ q.verify rsa = .ok () ∧
            q = { declaredPartition b dataKey (config b) with
              bytes := signaturesWritten b cmdline s1 s2 } := by
  by_cases hmay : MayResign rsa (declaredPartition b dataKey (config b)) cmdline key
  · have hpre := h.declared.preamble
    have hmodulus : modulusBytes (rsa.privateModulus key.key) = words b * 4 := by
      rw [hmay.modulus]
      exact modulusBytes_eq hsized h hkey
    have hbody {s1 : Bytes} (hs : s1.length = words b * 4) :
        KernelPartition.copyFromSlice (lineWritten b cmdline) (signature b (bodyHeader b)) s1 =
          .ok (overwrite (lineWritten b cmdline) (signature b (bodyHeader b)).start s1) := by
      refine copyFromSlice_eq ?_ (by rw [signature_stop hpre.bodySignature, hs])
      rw [length_lineWritten (h.config.trans hpre.body) hmay.fits]
      exact hpre.bodySignature.inside.trans hpre.preamble
    have hpreamble {s1 s2 : Bytes} (hs1 : s1.length = words b * 4) (hs2 : s2.length = words b * 4) :
        KernelPartition.copyFromSlice
          (overwrite (lineWritten b cmdline) (signature b (bodyHeader b)).start s1)
          (signature b (preambleHeader b)) s2 = .ok (signaturesWritten b cmdline s1 s2) := by
      refine copyFromSlice_eq ?_ (by rw [signature_stop hpre.signature, hs2])
      rw [signature_stop hpre.signature, ← hs2]
      exact signature_fits hpre h.config hmay.fits hs1 hs2
    have hindex {s1 : Bytes} (hs1 : s1.length = words b * 4) :
        ∃ signed, index (overwrite (lineWritten b cmdline) (signature b (bodyHeader b)).start s1)
          (preambleSigned b) = .ok signed := by
      refine ⟨_, index_eq (Nat.le_add_right _ _) ?_⟩
      rw [length_overwrite (bodySignature_fits hpre h.config hmay.fits hs1),
        length_lineWritten (h.config.trans hpre.body) hmay.fits]
      exact hpre.signed.trans hpre.preamble
    rw [resigned_declared h.declared h.config hmay]
    refine ⟨Outcome.bind_ne_panic sign_ne_panic fun s1 hs1 => ?_, fun q hq => ?_⟩
    · have hlen1 := sign_eq_ok hsized hmodulus hs1
      obtain ⟨signed, hsigned⟩ := hindex hlen1
      rw [hbody hlen1, Outcome.ok_bind, hsigned, Outcome.ok_bind]
      refine Outcome.bind_ne_panic sign_ne_panic fun s2 hs2 => ?_
      have hlen2 := sign_eq_ok hsized hmodulus hs2
      rw [hpreamble hlen1 hlen2, Outcome.ok_bind]
      exact Outcome.bind_ne_panic (verify_declared_ne_panic hpre
        (length_signaturesWritten hpre h.config hmay.fits hlen1 hlen2)) fun _ _ => nofun
    · obtain ⟨s1, hs1, hq⟩ := Outcome.bind_eq_ok.mp hq
      have hlen1 := sign_eq_ok hsized hmodulus hs1
      obtain ⟨signed, hsigned⟩ := hindex hlen1
      rw [hbody hlen1, Outcome.ok_bind, hsigned, Outcome.ok_bind] at hq
      obtain ⟨s2, hs2, hq⟩ := Outcome.bind_eq_ok.mp hq
      have hlen2 := sign_eq_ok hsized hmodulus hs2
      rw [hpreamble hlen1 hlen2, Outcome.ok_bind] at hq
      obtain ⟨_, hverify, hq⟩ := Outcome.bind_eq_ok.mp hq
      have hq := (Outcome.ok.inj hq).symm
      exact ⟨hmay.nul, hmay.fits, s1, s2, hlen1, hlen2, hq ▸ hverify, hq⟩
  · obtain ⟨e, he⟩ := resigned_of_not_mayResign hmay
    rw [he]
    exact ⟨nofun, nofun⟩

end Writes

/-! ### What is signed again is a partition again -/

namespace KernelPartition

/-- `q` differs from `p` at most in the command line and the two signatures. -/
structure ChangedOnly (p q : KernelPartition Public) : Prop where
  length : q.bytes.length = p.bytes.length
  outside : ∀ i, ¬(p.config.start ≤ i ∧ i < p.config.stop) →
    ¬(p.bodySignature.start ≤ i ∧ i < p.bodySignature.stop) →
    ¬(p.preambleSignature.start ≤ i ∧ i < p.preambleSignature.stop) → q.bytes[i]? = p.bytes[i]?
  layout : q = { p with bytes := q.bytes }

/-- Whatever line it is signed again with, by whatever key: a partition that changed only where it
must, parses again as it is and has the new line, or the very same one and an error. -/
def ResignsWell (p : KernelPartition Public) (rsa : Rsa Public Private) (checks : Bool) : Prop :=
  ∀ cmdline key,
    match p.resign rsa cmdline key with
    | (.ok (), q) => p.ChangedOnly q ∧ q.cmdline = .ok cmdline ∧
        ∃ h, parse rsa checks ⟨q.bytes, h⟩ = .ok q
    | (.err _, q) => q = p
    | (.panic, _) => False

end KernelPartition

/-- Where the sum for the command line fits and neither signature reaches into the header, signing
again keeps all else. -/
theorem resignsWell_of_clear (hsized : rsa.Sized) {bytes : Slice UInt8} {p : KernelPartition Public}
    (hfits : ConfigFits bytes.1) (hclear : SignaturesClear bytes.1)
    (hp : KernelPartition.parse rsa checks bytes = .ok p) : p.ResignsWell rsa checks := by
  intro cmdline key
  obtain ⟨ha, hkey, heq⟩ := parse_eq_ok hfits hp
  have hpre := ha.declared.preamble
  generalize p.dataKey = dataKey at hkey heq
  subst heq
  obtain ⟨hpanic, hwritten⟩ := @resigned_written _ _ _ _ _ cmdline key hsized ha hkey
  rw [KernelPartition.resign]
  cases hres : (declaredPartition bytes.1 dataKey (config bytes.1)).resigned rsa cmdline key with
  | panic => exact absurd hres hpanic
  | err e => rfl
  | ok q =>
    obtain ⟨hnul, hcmd, s1, s2, h1, h2, hverify, rfl⟩ := hwritten q hres
    have hlen := length_signaturesWritten hpre ha.config hcmd h1 h2
    have hsame := sameLayout_of_take ha.declared.keyblock hlen
      (take_signaturesWritten hpre ha.config hcmd h1 h2 hclear)
    have hkey' : rsa.newPublic (modulus (signaturesWritten bytes.1 cmdline s1 s2)) = .ok dataKey := by
      rw [hsame.modulus]
      exact hkey
    have hpre' := hsame.preambleDeclared hpre
    have ha' : Accepted rsa (signaturesWritten bytes.1 cmdline s1 s2) := by
      refine ⟨⟨hsame.keyblockDeclared ha.declared.keyblock, hpre'⟩, ?room, ?config, ?signed⟩
      case room =>
        rw [StubLeavesRoom, hsame.load, hsame.stub]
        exact ha.room
      case config =>
        rw [hsame.config_eq, hsame.body]
        exact ha.config
      case signed =>
        rw [← verify_declared_eq_ok hpre' hkey', hsame.declaredPartition_eq]
        exact hverify
    have hfits' : ConfigFits (signaturesWritten bytes.1 cmdline s1 s2) := by
      intro _
      rw [hsame.config_eq]
      exact hfits ha.room
    refine ⟨⟨hlen, fun i => getElem?_signaturesWritten hpre ha.config hcmd h1 h2, rfl⟩, ?_,
      hlen.trans_le bytes.2, ?_⟩
    · refine cmdline_eq ⟨Nat.zero_le _, Nat.le_add_right _ _, ?_⟩ hnul (Nat.sub_pos_of_lt hcmd)
        (part_signaturesWritten hpre ha.config hcmd h1 h2)
      exact hlen.symm ▸ ha.config.trans hpre.body
    · obtain ⟨dataKey', hkey'', hparse⟩ := @parse_of_accepted _ _ _ checks
        ⟨signaturesWritten bytes.1 cmdline s1 s2, hlen.trans_le bytes.2⟩ hfits' ha'
      obtain rfl := Except.ok.inj (hkey'.symm.trans hkey'')
      rw [hparse, hsame.declaredPartition_eq]

/-! ### A signature that reaches into the header -/

theorem sumRsa_sized : sumRsa.Sized := by
  constructor
  · intro key digest value h
    rw [← Except.ok.inj h, repeated, List.length_map, List.length_range]
    rfl
  · intro key digest value h
    rw [eq_of_beq h, repeated, List.length_map, List.length_range]
    rfl

def onesModulus : ℕ := 2 ^ 1024 - 1

/-- A partition of an empty command line, with the body's signature at `bodySignature`. -/
def emptyLine (bodySignature : ℕ) : Bytes :=
  let preamble := (preambleBytes (bodySignature + 256) (bodySignature + 128) (bodySignature + 128)
    (PARAMS_BYTES + CONFIG_BYTES) bodySignature CONFIG_BYTES).take bodySignature ++
      List.replicate 128 0
  onesKeyblock ++ preamble ++ repeated onesModulus (sumRsa.sha256 preamble) ++
    List.replicate CONFIG_BYTES 0

def clearPartition : Slice UInt8 := ⟨emptyLine 96, by decide +kernel⟩

/-- The body's signature starts at the last byte of the body's length. -/
def overlapping : Slice UInt8 := ⟨emptyLine 95, by decide +kernel⟩

theorem clearPartition_resigned :
    ∃ p, KernelPartition.parse sumRsa true clearPartition = .ok p ∧ p.ResignsWell sumRsa true ∧
      (p.resign sumRsa "root=PARTUUID=7d2c".toList ⟨1, onesModulus⟩).1 = .ok () := by
  have hrun : ((KernelPartition.parse sumRsa true clearPartition).toOption.any fun p =>
      (p.resign sumRsa "root=PARTUUID=7d2c".toList ⟨1, onesModulus⟩).1 = .ok ()) = true := by
    decide +kernel
  obtain ⟨p, hp, hok⟩ := (Option.any_eq_true _ _).mp hrun
  have hp := Outcome.mem_toOption.mp hp
  have hfits : (config clearPartition.1).stop < 2 ^ 64 := by decide +kernel
  have hclear : (behindHeader clearPartition.1).start ≤
      (signature clearPartition.1 (preambleHeader clearPartition.1)).start ∧
        (behindHeader clearPartition.1).start ≤
          (signature clearPartition.1 (bodyHeader clearPartition.1)).start := by decide +kernel
  exact ⟨p, hp, resignsWell_of_clear sumRsa_sized (fun _ => hfits) hclear hp, of_decide_eq_true hok⟩

theorem overlapping_unreadable : ¬∀ {Public Private : Type} (rsa : Rsa Public Private), rsa.Sized →
    ∀ checks bytes p, KernelPartition.parse rsa checks bytes = .ok p → p.ResignsWell rsa checks := by
  intro h
  have hrun : ((KernelPartition.parse sumRsa true overlapping).toOption.any fun p =>
      (p.resign sumRsa "a".toList ⟨1, onesModulus⟩).1 = .ok () ∧
        ∀ h, (KernelPartition.parse sumRsa true
          ⟨(p.resign sumRsa "a".toList ⟨1, onesModulus⟩).2.bytes, h⟩).toOption.isNone = true) =
      true := by
    decide +kernel
  obtain ⟨p, hp, hbad⟩ := (Option.any_eq_true _ _).mp hrun
  obtain ⟨hok, hnone⟩ := of_decide_eq_true hbad
  have hwell := h sumRsa sumRsa_sized true overlapping p (Outcome.mem_toOption.mp hp) "a".toList
    ⟨1, onesModulus⟩
  revert hwell hok hnone
  generalize p.resign sumRsa "a".toList ⟨1, onesModulus⟩ = r
  obtain ⟨r, q⟩ := r
  rintro hok hnone hwell
  subst hok
  obtain ⟨-, -, hlen, hparse⟩ := hwell
  have hnone := hnone hlen
  rw [hparse] at hnone
  exact Bool.false_ne_true hnone

end Boot2Deb.Image.Vboot
