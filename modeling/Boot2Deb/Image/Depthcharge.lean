import Boot2Deb.Image.VbootResign
import Boot2Deb.Image.Identity
import Boot2Deb.Lib.Windows
import Boot2Deb.Rust.Pattern

/-!
# Checking a signed kernel partition (`engine/src/image/depthcharge.rs`)

`verify_kpart` scans all bytes of the partition for what its command line has to say; `resign_kpart`
reads and writes the command line itself. The scan answers for the command line as long as what
stands elsewhere, in the kernel or behind the line, does not decide it.
-/

namespace Boot2Deb.Image.Vboot
open Rust

/-- Whether a text stands in some bytes. -/
def contains (haystack needle : Bytes) : Bool := (windows needle.length haystack).any (· == needle)

/-- `hyphenated_lower`. -/
def hyphenatedLower (uuid : Uuid) : Str := toAsciiLowercase uuid.hyphenated

/-- The `root=` of a partition. -/
def rootOf (uuid : Uuid) : Str := "root=PARTUUID=".toList ++ hyphenatedLower uuid

def KERN_GUID : Bytes := asBytes "kern_guid=%U".toList

def PARTNROFF : Bytes := asBytes "PARTNROFF".toList

/-- `verify_kpart`, of the bytes of the file. -/
def verifyKpart (bytes : Bytes) (rootfsPartuuid : Uuid) : Outcome EngineError Unit :=
  if ¬MAGIC <+: bytes then
    .err (.kpartInvalid ("it does not start with the vboot keyblock magic (CHROMEOS), so the ".toList ++
      "firmware would not recognize it as a signed kernel".toList))
  else if !contains bytes (asBytes (rootOf rootfsPartuuid)) then
    .err (.kpartInvalid ("its signed command line does not contain `".toList ++ rootOf rootfsPartuuid ++
      "` — depthchargectl derives root from the image's /etc/fstab, so the fstab it read names ".toList ++
      "a different partition than the one this image writes".toList))
  else if !contains bytes KERN_GUID then
    .err (.kpartInvalid ("its signed command line does not contain `kern_guid=%U`, which the ".toList ++
      "firmware substitutes with the booted kernel partition's PARTUUID — without it, an ".toList ++
      "on-device kernel upgrade has no partition to re-sign".toList))
  else if contains bytes PARTNROFF then
    .err (.kpartInvalid ("its signed command line uses `PARTNROFF`, which initramfs-tools cannot ".toList ++
      "resolve — root would never be found. Use a concrete root=PARTUUID (which is ".toList ++
      "what depthchargectl derives from /etc/fstab)".toList))
  else .ok ()

section
variable {Public Private : Type}

/-- `resign_kpart`, with the key the image has, of the bytes of the file. -/
def resignKpart (rsa : Rsa Public Private) (checks : Bool) (key : KernelPartition.SigningKey Private)
    (bytes : Slice UInt8) (old new : Uuid) : Outcome EngineError Bytes := do
  let partition ← KernelPartition.parse rsa checks bytes
  let cmdline ← partition.cmdline
  let count := countMatches cmdline (rootOf old)
  if count ≠ 1 then
    resignErr ("its signed command line names `" ++ String.ofList (rootOf old) ++ "` " ++
      toString count ++ " time(s), where the build writes it exactly once: `" ++
      String.ofList cmdline ++ "`")
  else
    let (answer, partition) := partition.resign rsa (replace cmdline (rootOf old) (rootOf new)) key
    answer
    .ok partition.bytes

/-- The command line names the root and what the firmware substitutes, and no other partition. -/
def Names (cmdline : Str) (uuid : Uuid) : Prop :=
  contains (asBytes cmdline) (asBytes (rootOf uuid)) = true ∧
    contains (asBytes cmdline) KERN_GUID = true ∧ contains (asBytes cmdline) PARTNROFF = false

instance (cmdline : Str) (uuid : Uuid) : Decidable (Names cmdline uuid) :=
  inferInstanceAs (Decidable (_ ∧ _ ∧ _))

/-- A text stands in a partition, not all of it in the command line. -/
def Elsewhere (p : KernelPartition Public) (cmdline : Str) (needle : Bytes) : Prop :=
  ∃ i, part p.bytes i (i + needle.length) = needle ∧
    ¬(p.config.start ≤ i ∧ i + needle.length ≤ p.config.start + byteLen cmdline)

/-- What stands elsewhere does not decide the scan: where the command line names all, no `PARTNROFF`
does, and where it does not, one that does or one of the texts in neither place. -/
def LineDecides (p : KernelPartition Public) (cmdline : Str) (uuid : Uuid) : Prop :=
  let line := contains (asBytes cmdline)
  let root := asBytes (rootOf uuid)
  line PARTNROFF = true ∨
    if line root = true ∧ line KERN_GUID = true then ¬Elsewhere p cmdline PARTNROFF
    else Elsewhere p cmdline PARTNROFF ∨ (line root = false ∧ ¬Elsewhere p cmdline root) ∨
      (line KERN_GUID = false ∧ ¬Elsewhere p cmdline KERN_GUID)

end

variable {Public Private : Type} {rsa : Rsa Public Private} {checks : Bool} {bytes : Slice UInt8}
  {p : KernelPartition Public} {cmdline : Str} {b needle : Bytes} {uuid old new : Uuid}

theorem contains_iff (h : needle ≠ []) : contains b needle = true ↔ needle <:+: b := by
  rw [contains, List.any_eq_true]
  constructor
  · rintro ⟨w, hw, heq⟩
    obtain rfl := eq_of_beq heq
    exact ((mem_windows (List.length_pos_iff.mpr h)).mp hw).2
  · intro hwithin
    exact ⟨needle, (mem_windows (List.length_pos_iff.mpr h)).mpr ⟨rfl, hwithin⟩, beq_self_eq_true _⟩

/-- A part of a list stands in it. -/
theorem infix_iff_exists_part :
    needle <:+: b ↔ ∃ i, part b i (i + needle.length) = needle := by
  constructor
  · rintro ⟨front, back, rfl⟩
    refine ⟨front.length, ?_⟩
    rw [part, ← List.length_append, List.take_left, List.drop_left]
  · rintro ⟨i, hi⟩
    rw [← hi, part]
    exact (List.drop_suffix _ _).isInfix.trans (List.take_prefix _ _).isInfix

/-- A partition that is parsed starts with the magic. -/
theorem parse_bytes (h : KernelPartition.parse rsa checks bytes = .ok p) :
    p.bytes = bytes.1 ∧ MAGIC <+: bytes.1 := by
  have hb : bytes.1.length < 2 ^ 64 := lt_of_le_of_lt bytes.2 (by decide)
  obtain ⟨k, hk, h⟩ := Outcome.bind_eq_ok.mp h
  obtain ⟨q, -, h⟩ := Outcome.bind_eq_ok.mp h
  obtain ⟨r, -, h⟩ := Outcome.bind_eq_ok.mp h
  obtain ⟨u, -, h⟩ := Outcome.bind_eq_ok.mp h
  obtain rfl := Outcome.ok.inj h
  exact ⟨rfl, magic_isPrefix.mpr ((parseKeyblock_eq_ok hb).mp hk).1.magic⟩

/-- The command line that is read stands at the start of its area. -/
theorem part_of_cmdline (h : p.cmdline = .ok cmdline) :
    part p.bytes p.config.start (p.config.start + byteLen cmdline) = asBytes cmdline := by
  obtain ⟨area, harea, h⟩ := Outcome.bind_eq_ok.mp h
  obtain ⟨stop, hstop, h⟩ := Outcome.bind_eq_ok.mp h
  have hline := eq_asBytes_of_fromUtf8 (Outcome.okOr_eq_ok.mp h)
  have hle := (List.findIdx?_eq_some_iff_getElem.mp (Outcome.okOr_eq_ok.mp hstop)).1.le
  have hlen : byteLen cmdline = stop := by
    rw [← length_asBytes, ← hline, List.length_take_of_le hle]
  rw [index] at harea
  split_ifs at harea with hrange
  obtain rfl := Outcome.ok.inj harea
  rw [length_part hrange.2] at hle
  rw [hlen, ← hline]
  have hpart := @part_part _ p.bytes p.config.start p.config.stop 0 stop (by omega)
  rw [Nat.add_zero, part, List.drop_zero] at hpart
  exact hpart.symm

/-- What stands in a partition stands in the command line or elsewhere. -/
theorem contains_iff_elsewhere (hneedle : needle ≠ []) (h : p.cmdline = .ok cmdline) :
    contains p.bytes needle = true ↔
      contains (asBytes cmdline) needle = true ∨ Elsewhere p cmdline needle := by
  have hline := part_of_cmdline h
  rw [contains_iff hneedle, contains_iff hneedle]
  constructor
  · intro hwithin
    obtain ⟨i, hi⟩ := infix_iff_exists_part.mp hwithin
    by_cases hin : p.config.start ≤ i ∧ i + needle.length ≤ p.config.start + byteLen cmdline
    · refine .inl (infix_iff_exists_part.mpr ⟨i - p.config.start, ?_⟩)
      rw [← hline, part_part (by omega), Nat.add_sub_cancel' hin.1, ← Nat.add_assoc,
        Nat.add_sub_cancel' hin.1]
      exact hi
    · exact .inr ⟨i, hi, hin⟩
  · rintro (hwithin | ⟨i, hi, -⟩)
    · rw [← hline, part] at hwithin
      exact hwithin.trans ((List.drop_suffix _ _).isInfix.trans (List.take_prefix _ _).isInfix)
    · exact infix_iff_exists_part.mpr ⟨i, hi⟩

theorem verifyKpart_eq_ok : verifyKpart b uuid = .ok () ↔ MAGIC <+: b ∧
    contains b (asBytes (rootOf uuid)) = true ∧ contains b KERN_GUID = true ∧
      contains b PARTNROFF = false := by
  unfold verifyKpart
  split_ifs with hmagic hroot hguid hoff
  · refine iff_of_false nofun fun h => ?_
    rw [h.2.1] at hroot
    cases hroot
  · refine iff_of_false nofun fun h => ?_
    rw [h.2.2.1] at hguid
    cases hguid
  · refine iff_of_false nofun fun h => ?_
    rw [h.2.2.2] at hoff
    cases hoff
  · rw [Bool.not_eq_true', Bool.not_eq_false] at hroot hguid
    exact iff_of_true rfl ⟨hmagic, hroot, hguid, Bool.eq_false_iff.mpr hoff⟩
  · exact iff_of_false nofun fun h => hmagic h.1

theorem asBytes_rootOf_ne_nil : asBytes (rootOf uuid) ≠ [] := by
  unfold rootOf
  rw [asBytes_append]
  refine List.append_ne_nil_of_left_ne_nil ?_ _
  simp [asBytes]

/-- A conjunction of what is found anywhere, against that of what is found in one place. -/
theorem found_agrees_iff {r k n er ek en : Prop} [Decidable (r ∧ k)] :
    ((r ∨ er) ∧ (k ∨ ek) ∧ ¬(n ∨ en) ↔ r ∧ k ∧ ¬n) ↔
      n ∨ if r ∧ k then ¬en else en ∨ (¬r ∧ ¬er) ∨ (¬k ∧ ¬ek) := by
  split_ifs with h
  · tauto
  · tauto

/-- The scan answers for the command line exactly where what stands elsewhere does not decide. -/
theorem verifyKpart_agrees_iff (hmagic : MAGIC <+: p.bytes) (h : p.cmdline = .ok cmdline) :
    (verifyKpart p.bytes uuid = .ok () ↔ Names cmdline uuid) ↔ LineDecides p cmdline uuid := by
  have hroot := contains_iff_elsewhere (@asBytes_rootOf_ne_nil uuid) h
  have hguid := @contains_iff_elsewhere _ _ _ KERN_GUID (by decide) h
  have hoff := @contains_iff_elsewhere _ _ _ PARTNROFF (by decide) h
  rw [verifyKpart_eq_ok, and_iff_right hmagic, Names, LineDecides, ← Bool.not_eq_true, hroot, hguid,
    hoff, ← Bool.not_eq_true, ← Bool.not_eq_true, ← Bool.not_eq_true]
  exact found_agrees_iff

/-! ### Signed again -/

theorem resignKpart_eq_ok {key : KernelPartition.SigningKey Private} {out : Bytes}
    (hp : KernelPartition.parse rsa checks bytes = .ok p) (hc : p.cmdline = .ok cmdline)
    (h : resignKpart rsa checks key bytes old new = .ok out) :
    countMatches cmdline (rootOf old) = 1 ∧ ∃ q, out = q.bytes ∧
      p.resign rsa (replace cmdline (rootOf old) (rootOf new)) key = (.ok (), q) := by
  unfold resignKpart at h
  simp only [hp, hc, Outcome.ok_bind] at h
  split_ifs at h with hcount
  · exact absurd h resignErr_ne_ok
  · obtain ⟨u, hanswer, h⟩ := Outcome.bind_eq_ok.mp h
    exact ⟨not_not.mp hcount, _, (Outcome.ok.inj h).symm, Prod.ext hanswer rfl⟩

/-- A text put in the place of one match stands in what is left. -/
theorem contains_replace {s pat new : Str} (h : countMatches s pat = 1) (hnew : asBytes new ≠ []) :
    contains (asBytes (replace s pat new)) (asBytes new) = true := by
  rw [countMatches] at h
  obtain ⟨front, back, hpieces⟩ := List.length_eq_two.mp (show (pieces pat s).length = 2 by omega)
  have hreplace : replace s pat new = front ++ new ++ back := by
    rw [replace, hpieces, join_cons _ _ (by simp)]
    simp [join]
  rw [contains_iff hnew, hreplace, asBytes_append, asBytes_append]
  exact ⟨asBytes front, asBytes back, rfl⟩

/-- A partition with a kernel and a command line behind it. -/
def signedBytes (kernel line : Bytes) : Bytes :=
  let body := kernel ++ line ++ List.replicate (CONFIG_BYTES - line.length) 0
  let preamble := (preambleBytes 352 224 224 (PARAMS_BYTES + CONFIG_BYTES + kernel.length) 96
    body.length).take 96 ++ repeated onesModulus (sumRsa.sha256 body)
  onesKeyblock ++ preamble ++ repeated onesModulus (sumRsa.sha256 preamble) ++ body

def builtRoot : Uuid := Vector.replicate 16 0xb2

def pressedRoot : Uuid := Vector.replicate 16 0xc3

def rootedLine : Str := "kern_guid=%U ".toList ++ rootOf builtRoot

def rootedPartition : Slice UInt8 := ⟨signedBytes [0x1f, 0x8b] (asBytes rootedLine), by
  decide +kernel⟩

def markedPartition : Slice UInt8 := ⟨signedBytes PARTNROFF (asBytes rootedLine), by
  decide +kernel⟩

end Boot2Deb.Image.Vboot
