import Mathlib
import Boot2Deb.Core.Base64
import Boot2Deb.Lib.Framing
import Boot2Deb.Rust.Outcome
import Boot2Deb.Rust.Text

/-!
# The shape of an `authorized_keys` entry

A key type, the base64 of the key and a comment. The key is a run of length-prefixed fields of which
the check reads the first: `authorized_key_wire`.
-/

namespace Boot2Deb.Core.Authkeys

open Rust

/-- The key types this builder will write. -/
def KEY_TYPES : List Str :=
  ["ssh-ed25519".toList, "ssh-rsa".toList, "ecdsa-sha2-nistp256".toList,
    "ecdsa-sha2-nistp384".toList, "ecdsa-sha2-nistp521".toList,
    "sk-ssh-ed25519@openssh.com".toList, "sk-ecdsa-sha2-nistp256@openssh.com".toList]

/-- `u32::from_be_bytes` of bytes in order. -/
def fromBeBytes (bytes : Bytes) : ℕ := bytes.foldl (fun n b => 256 * n + b.toNat) 0

/-- The type name a key blob contains as its own first field. -/
def embeddedType (decoded : Bytes) : Option Bytes :=
  if decoded.length < 4 then none
  else
    let len := fromBeBytes (decoded.take 4)
    let rest := decoded.drop 4
    if len = 0 ∨ 64 < len then none
    else if rest.length < len then none
    else some (rest.take len)

/-- What a comment may not hold. -/
def checkComment : Option Str → Outcome Str Unit
  | some c => if c.any isControl then .err "comment contains a control character".toList else .ok ()
  | none => .ok ()

def checkBlob (keyType blob : Str) (comment : Option Str) : Outcome Str Unit :=
  match (Base64.decode blob).filter (!·.isEmpty) with
  | none => .err "key blob is not valid base64".toList
  | some decoded =>
    match embeddedType decoded with
    | none => .err "key blob is truncated or not an SSH key encoding".toList
    | some embedded =>
      if embedded ≠ asBytes keyType then
        .err ("key blob does not match its type name — the value looks truncated or ".toList ++
          "re-wrapped".toList)
      else checkComment comment

/-- Check an entry against the shape of an `authorized_keys` line. -/
def checkAuthorizedKey (entry : Str) : Outcome Str Unit :=
  if "PRIVATE KEY".toList <:+: entry then
    .err ("this is private key material — authorize the public key (the '.pub' file) ".toList ++
      "instead".toList)
  else if '\n' ∈ entry ∨ '\r' ∈ entry then
    .err "contains a newline; one entry is one line".toList
  else if (trim entry).isEmpty then .err "empty".toList
  else if entry ≠ trim entry then .err "has leading or trailing whitespace".toList
  else
    let fields := splitn ' ' 3 entry
    let keyType := fields.getD 0 []
    let blob := fields.getD 1 []
    let comment := fields[2]?
    if blob.isEmpty then
      if '=' ∈ keyType ∨ ',' ∈ keyType then
        .err ("looks like an options prefix; write a bare '<type> <base64> [comment]' ".toList ++
          "entry".toList)
      else .err "expected '<type> <base64-key> [comment]'".toList
    else if keyType ∉ KEY_TYPES then
      .err ("unknown key type — expected one of ssh-ed25519, ssh-rsa, ".toList ++
        "ecdsa-sha2-nistp256/384/521, or their sk- security-key forms ".toList ++
        "(an options prefix is not accepted)".toList)
    else checkBlob keyType blob comment

/-! ### The fields of a key -/

/-- `u32::to_be_bytes`. -/
def beBytes (n : ℕ) : Bytes := (leBytes 4 n).reverse

theorem length_beBytes (n : ℕ) : (beBytes n).length = 4 := by
  rw [beBytes, List.length_reverse, length_leBytes]

theorem beBytes_injOn : Set.InjOn beBytes {n | n < 2 ^ 32} :=
  fun _ hm _ hn h => leBytes_injOn 4 hm hn (List.reverse_injective h)

theorem fromBeBytes_concat (bytes : Bytes) (b : UInt8) :
    fromBeBytes (bytes ++ [b]) = 256 * fromBeBytes bytes + b.toNat := by
  simp [fromBeBytes]

theorem leBytes_fromBeBytes (bytes : Bytes) :
    leBytes bytes.length (fromBeBytes bytes) = bytes.reverse := by
  induction bytes using List.reverseRecOn with
  | nil => rfl
  | append_singleton bytes b ih =>
    have hb := b.toNat_lt
    rw [List.length_append, List.length_singleton, leBytes, fromBeBytes_concat, List.reverse_append,
      List.reverse_singleton, List.singleton_append,
      show (256 * fromBeBytes bytes + b.toNat) / 256 = fromBeBytes bytes by omega, ih]
    congr 1
    rw [← UInt8.toNat_inj, UInt8.toNat_ofNat']
    omega

/-- The field a type name is read from, and the name's bounds. -/
theorem eq_of_embeddedType {decoded name : Bytes} (h : embeddedType decoded = some name) :
    decoded = framed beBytes name ++ decoded.drop (4 + name.length) ∧ 0 < name.length ∧
      name.length ≤ 64 := by
  unfold embeddedType at h
  extract_lets len rest at h
  split_ifs at h with hshort hbound hrest
  rw [not_or] at hbound
  obtain rfl := Option.some.inj h
  have hlen : (rest.take len).length = len := List.length_take_of_le (Nat.le_of_not_lt hrest)
  have hhead : beBytes len = decoded.take 4 := by
    have hfour : (decoded.take 4).length = 4 := List.length_take_of_le (Nat.le_of_not_lt hshort)
    have := leBytes_fromBeBytes (decoded.take 4)
    rw [hfour] at this
    rw [beBytes, show len = _ from rfl, this, List.reverse_reverse]
  refine ⟨?_, by omega, by omega⟩
  rw [framed, hlen, hhead, List.append_assoc, ← List.drop_drop, List.take_append_drop,
    List.take_append_drop]

/-- A cut leaves the type name just where it leaves its whole field. -/
theorem embeddedType_take {decoded name : Bytes} (h : embeddedType decoded = some name) (n : ℕ) :
    embeddedType (decoded.take n) = if 4 + name.length ≤ n then some name else none := by
  have hwhole := (eq_of_embeddedType h).1
  have hlength := congrArg List.length hwhole
  rw [List.length_append, framed, List.length_append, length_beBytes] at hlength
  unfold embeddedType at h ⊢
  extract_lets len rest at h
  split_ifs at h with hshort hbound hrest
  rw [not_or] at hbound
  obtain rfl := Option.some.inj h
  have hlen : (rest.take len).length = len := List.length_take_of_le (Nat.le_of_not_lt hrest)
  rw [hlen] at hlength ⊢
  by_cases hfour : 4 ≤ n
  · have htake : (decoded.take n).take 4 = decoded.take 4 := by rw [List.take_take, Nat.min_eq_left hfour]
    have hdrop : (decoded.take n).drop 4 = rest.take (n - 4) := by rw [List.drop_take]
    rw [if_neg (by rw [List.length_take]; omega)]
    simp only [htake, hdrop]
    rw [if_neg (not_or.mpr hbound), List.take_take]
    by_cases hin : 4 + len ≤ n
    · rw [if_pos hin, if_neg (by rw [List.length_take]; omega), Nat.min_eq_left (by omega)]
    · rw [if_neg hin, if_pos (by rw [List.length_take]; omega)]
  · rw [if_pos (by rw [List.length_take]; omega), if_neg (by omega)]

/-! ### The parts of an entry -/

/-- An entry of its parts. -/
def entryText (keyType blob : Str) (comment : Option Str) : Str :=
  keyType ++ ' ' :: (blob ++ (comment.map (' ' :: ·)).getD [])

theorem splitn_entryText {keyType blob : Str} (htype : ' ' ∉ keyType) (hblob : ' ' ∉ blob)
    (comment : Option Str) :
    splitn ' ' 3 (entryText keyType blob comment) = keyType :: blob :: comment.toList := by
  rw [entryText, splitn, splitOnce_append_cons htype]
  cases comment with
  | none =>
    rw [Option.map_none, Option.getD_none, List.append_nil]
    show keyType :: splitn ' ' 2 blob = _
    rw [splitn, splitOnce_eq_none.mpr hblob]
    rfl
  | some comment =>
    rw [Option.map_some, Option.getD_some]
    show keyType :: splitn ' ' 2 (blob ++ ' ' :: comment) = _
    rw [splitn, splitOnce_append_cons hblob]
    rfl

theorem exists_entryText {entry : Str} (h : ' ' ∈ entry) :
    ∃ keyType blob comment, ' ' ∉ keyType ∧ ' ' ∉ blob ∧ entry = entryText keyType blob comment := by
  obtain ⟨keyType, rest, rfl, htype⟩ := List.eq_append_cons_of_mem h
  by_cases hrest : ' ' ∈ rest
  · obtain ⟨blob, comment, rfl, hblob⟩ := List.eq_append_cons_of_mem hrest
    exact ⟨keyType, blob, some comment, htype, hblob, rfl⟩
  · exact ⟨keyType, rest, none, htype, hrest, by simp [entryText]⟩

theorem checkBlob_eq_ok {keyType blob : Str} {comment : Option Str} :
    checkBlob keyType blob comment = .ok () ↔ ∃ decoded, Base64.decode blob = some decoded ∧
      embeddedType decoded = some (asBytes keyType) ∧ checkComment comment = .ok () := by
  unfold checkBlob
  generalize "key blob is not valid base64".toList = notBase64
  generalize "key blob is truncated or not an SSH key encoding".toList = notKey
  generalize _ ++ "re-wrapped".toList = notType
  cases hdecode : Base64.decode blob with
  | none => simp
  | some decoded =>
    cases decoded with
    | nil =>
      rw [Option.filter_some, if_neg (by simp)]
      simp [embeddedType]
    | cons b decoded =>
      rw [Option.filter_some, if_pos (by simp)]
      cases htype : embeddedType (b :: decoded) with
      | none => simp [htype]
      | some embedded => by_cases heq : embedded = asBytes keyType <;> simp [htype, heq]

/-- What is accepted. -/
theorem checkAuthorizedKey_eq_ok {entry : Str} : checkAuthorizedKey entry = .ok () ↔
    ¬"PRIVATE KEY".toList <:+: entry ∧ '\n' ∉ entry ∧ '\r' ∉ entry ∧ trim entry = entry ∧
      ∃ keyType blob comment, ' ' ∉ keyType ∧ ' ' ∉ blob ∧ entry = entryText keyType blob comment ∧
        keyType ∈ KEY_TYPES ∧ checkBlob keyType blob comment = .ok () := by
  unfold checkAuthorizedKey
  generalize "PRIVATE KEY".toList = secret
  generalize _ ++ "instead".toList = isPrivate
  generalize "contains a newline; one entry is one line".toList = newline
  generalize "empty".toList = isEmpty
  generalize "has leading or trailing whitespace".toList = untrimmed
  generalize _ ++ "entry".toList = options
  generalize "expected '<type> <base64-key> [comment]'".toList = noBlob
  generalize _ ++ "(an options prefix is not accepted)".toList = unknown
  constructor
  · intro h
    split_ifs at h with hsecret hline hempty htrim
    extract_lets fields keyType blob comment at h
    split_ifs at h with hblob hoptions htype
    rw [not_or] at hline
    refine ⟨hsecret, hline.1, hline.2, (not_not.mp htrim).symm, ?_⟩
    by_cases hspace : ' ' ∈ entry
    · obtain ⟨keyType', blob', comment', htype', hblob', rfl⟩ := exists_entryText hspace
      have hfields : fields = _ := splitn_entryText htype' hblob' comment'
      refine ⟨keyType', blob', comment', htype', hblob', rfl, ?_⟩
      have hkeyType : keyType = keyType' := by simp only [keyType, hfields, List.getD_cons_zero]
      have hblobeq : blob = blob' := by
        simp only [blob, hfields, List.getD_cons_succ, List.getD_cons_zero]
      have hcomment : comment = comment' := by
        simp only [comment, hfields]
        cases comment' <;> rfl
      rw [← hkeyType, ← hblobeq, ← hcomment]
      exact ⟨htype, h⟩
    · have hfields : fields = [entry] := by
        simp only [fields, splitn, splitOnce_eq_none.mpr hspace]
      simp only [blob, hfields] at hblob
      exact absurd rfl hblob
  · rintro ⟨hsecret, hn, hr, htrim, keyType, blob, comment, htype, hblob, rfl, hmem, h⟩
    have hne : blob ≠ [] := by
      rintro rfl
      obtain ⟨decoded, hdecode, hembedded, -⟩ := checkBlob_eq_ok.mp h
      rw [show decoded = [] from (Option.some.inj hdecode).symm] at hembedded
      exact nomatch hembedded
    have hempty : (trim (entryText keyType blob comment)).isEmpty = false := by
      rw [htrim, entryText]
      cases keyType <;> rfl
    rw [if_neg hsecret, if_neg (not_or.mpr ⟨hn, hr⟩), if_neg (by rw [hempty]; exact Bool.false_ne_true),
      if_neg (not_not_intro htrim.symm), splitn_entryText htype hblob]
    simp only [List.getD_cons_zero, List.getD_cons_succ]
    rw [if_neg (by simpa using hne), if_neg (not_not_intro hmem)]
    have hcomment : (keyType :: blob :: comment.toList)[2]? = comment := by cases comment <;> rfl
    rw [hcomment]
    exact h

/-! ### Cut keys -/

/-- A key blob whole: fields behind their lengths to its end, the first the type's name. -/
def NamesWhole (keyType : Str) (decoded : Bytes) : Prop :=
  ∃ fields : List Bytes, (∀ f ∈ asBytes keyType :: fields, f.length < 2 ^ 32) ∧
    decoded = (asBytes keyType :: fields).flatMap (framed beBytes)

theorem namesWhole_iff {keyType : Str} {decoded : Bytes}
    (h : embeddedType decoded = some (asBytes keyType)) : NamesWhole keyType decoded ↔
      IsFramed beBytes (2 ^ 32) (decoded.drop (4 + (asBytes keyType).length)) := by
  obtain ⟨hwhole, -, hshort⟩ := eq_of_embeddedType h
  have hbound : (asBytes keyType).length < 2 ^ 32 := by omega
  constructor
  · rintro ⟨fields, hfields, hdecoded⟩
    rw [List.flatMap_cons] at hdecoded
    rw [hdecoded, List.drop_left' (by rw [framed, List.length_append, length_beBytes])]
    exact ⟨fields, fun f hf => hfields f (List.mem_cons_of_mem _ hf), rfl⟩
  · rintro ⟨fields, hfields, hrest⟩
    refine ⟨fields, List.forall_mem_cons.mpr ⟨hbound, hfields⟩, ?_⟩
    rw [List.flatMap_cons, ← hrest]
    exact hwhole

/-- The key types are of one byte a character, and neither start nor end with a blank. -/
theorem keyType_spec : ∀ keyType ∈ KEY_TYPES, (asBytes keyType).length = keyType.length ∧
    ∃ c rest, keyType = c :: rest ∧ isWhitespace c = false := by
  intro keyType h
  simp only [KEY_TYPES, List.mem_cons, List.not_mem_nil, or_false] at h
  rcases h with rfl | rfl | rfl | rfl | rfl | rfl | rfl
  all_goals exact ⟨by decide, _, _, rfl, by decide⟩

theorem isWhitespace_of_sextet : ∀ b : UInt8, (Base64.sextet b).isSome ∨ b = Base64.PAD →
    isWhitespace (Char.ofNat b.toNat) = false := by
  decide +kernel

/-- A text that is read as base64 has no blanks. -/
theorem isWhitespace_of_decode {s : Str} {bytes : Bytes} (h : Base64.decode s = some bytes) {c : Char}
    (hc : c ∈ s) : isWhitespace c = false := by
  have hascii := Base64.ascii_of_decode h
  obtain ⟨body, pad, htext, -, -, hbody⟩ := Base64.decode_eq_some h
  have hmem : c.val.toUInt8 ∈ body ++ List.replicate pad Base64.PAD := by
    rw [← htext, asBytes_of_ascii hascii]
    exact List.mem_map_of_mem hc
  have hbyte : (Base64.sextet c.val.toUInt8).isSome ∨ c.val.toUInt8 = Base64.PAD :=
    (List.mem_append.mp hmem).imp (Base64.isSome_sextet_of_decodeBody hbody _)
      List.eq_of_mem_replicate
  have hcode : c.val.toUInt8.toNat = c.toNat := by
    have := hascii c hc
    show c.val.toNat % 256 = c.val.toNat
    exact Nat.mod_eq_of_lt (by have : c.val.toNat < 128 := this; omega)
  have hspace := isWhitespace_of_sextet _ hbyte
  rwa [hcode, Char.ofNat_toNat] at hspace

theorem entryText_inj {keyType keyType' blob blob' : Str} {comment comment' : Option Str}
    (htype : ' ' ∉ keyType) (htype' : ' ' ∉ keyType') (hblob : ' ' ∉ blob) (hblob' : ' ' ∉ blob')
    (h : entryText keyType blob comment = entryText keyType' blob' comment') :
    keyType = keyType' ∧ blob = blob' := by
  have hparts := congrArg (splitn ' ' 3) h
  rw [splitn_entryText htype hblob, splitn_entryText htype' hblob', List.cons.injEq,
    List.cons.injEq] at hparts
  exact ⟨hparts.1, hparts.2.1⟩

/-- An accepted key is one line of an admitted type. Its blob is a whole key just where what stands
behind the type's name is whole, and cut anywhere before its end it is refused just where the cut
is within a group of four characters or within the name's field. -/
theorem authorized_key_wire (entry : Str) (h : checkAuthorizedKey entry = .ok ()) :
    ∃ keyType blob comment decoded, entry = entryText keyType blob comment ∧
      '\n' ∉ entry ∧ '\r' ∉ entry ∧ ' ' ∉ blob ∧ keyType ∈ KEY_TYPES ∧
      Base64.decode blob = some decoded ∧
      (NamesWhole keyType decoded ↔
        IsFramed beBytes (2 ^ 32) (decoded.drop (4 + keyType.length))) ∧
      ∀ front, front <+: blob → front ≠ blob →
        (checkAuthorizedKey (entryText keyType front none) ≠ .ok () ↔
          front.length % 4 ≠ 0 ∨ 3 * (front.length / 4) < 4 + keyType.length) := by
  obtain ⟨hsecret, hn, hr, htrim, keyType, blob, comment, htype, hblob, rfl, hmem, h⟩ :=
    checkAuthorizedKey_eq_ok.mp h
  obtain ⟨decoded, hdecode, hembedded, -⟩ := checkBlob_eq_ok.mp h
  obtain ⟨hlength, c, rest, rfl, hc⟩ := keyType_spec keyType hmem
  refine ⟨_, blob, comment, decoded, rfl, hn, hr, hblob, hmem, hdecode,
    hlength ▸ namesWhole_iff hembedded, fun front hfront hne => ?_⟩
  have hdecodefront := Base64.decode_of_prefix hdecode hfront hne
  have hspace : ' ' ∉ front := fun hmem => hblob (hfront.subset hmem)
  rw [← not_iff_not, not_not, not_or, not_not, not_lt, checkAuthorizedKey_eq_ok]
  constructor
  · rintro ⟨-, -, -, -, keyType', blob', comment', htype', hblob', hentry, -, hcheck⟩
    obtain ⟨rfl, rfl⟩ := entryText_inj htype htype' hspace hblob' hentry
    obtain ⟨decoded', hdecode', hembedded', -⟩ := checkBlob_eq_ok.mp hcheck
    rw [hdecodefront, Option.ite_none_right_eq_some] at hdecode'
    obtain ⟨hmod, rfl⟩ := And.imp_right Option.some.inj hdecode'
    rw [embeddedType_take hembedded, Option.ite_none_right_eq_some] at hembedded'
    exact ⟨hmod, hlength ▸ hembedded'.1⟩
  · rintro ⟨hmod, hlong⟩
    have hpart : entryText (c :: rest) front none <+: entryText (c :: rest) blob comment := by
      obtain ⟨back, rfl⟩ := hfront
      simp [entryText]
    refine ⟨fun hin => hsecret (hin.trans hpart.isInfix), fun hin => hn (hpart.subset hin),
      fun hin => hr (hpart.subset hin), ?_, _, front, none, htype, hspace, rfl, hmem,
      checkBlob_eq_ok.mpr ⟨_, hdecodefront.trans (if_pos hmod), ?_, rfl⟩⟩
    · rcases List.eq_nil_or_concat' front with rfl | ⟨init, d, rfl⟩
      · simp at hlong
      · have hd := isWhitespace_of_decode hdecode (hfront.subset List.mem_concat_self)
        have htext : entryText (c :: rest) (init ++ [d]) none =
            ((c :: rest) ++ ' ' :: init) ++ [d] := by
          simp [entryText]
        refine trim_eq_self hc hd rfl ?_
        rw [htext, List.getLast?_concat]
    · rw [embeddedType_take hembedded, if_pos (hlength ▸ hlong)]

/-- A whole key. -/
def wholeEntry : Str :=
  "ssh-ed25519 AAAAC3NzaC1lZDI1NTE5AAAAIBl5Nn9dY/aLK4WVQ5c4tYlYCkkC1J3Ry+d0nc3TgtDe".toList

theorem authorized_key_wire_whole : ∃ keyType blob comment decoded,
    wholeEntry = entryText keyType blob comment ∧ '\n' ∉ wholeEntry ∧ '\r' ∉ wholeEntry ∧
      ' ' ∉ blob ∧ keyType ∈ KEY_TYPES ∧ Base64.decode blob = some decoded ∧
      (NamesWhole keyType decoded ↔
        IsFramed beBytes (2 ^ 32) (decoded.drop (4 + keyType.length))) ∧
      ∀ front, front <+: blob → front ≠ blob →
        (checkAuthorizedKey (entryText keyType front none) ≠ .ok () ↔
          front.length % 4 ≠ 0 ∨ 3 * (front.length / 4) < 4 + keyType.length) :=
  authorized_key_wire wholeEntry (by decide +kernel)

/-- The whole key cut within the length of its second field. -/
theorem cut_key_accepted : ¬∀ entry, checkAuthorizedKey entry = .ok () →
    ∃ keyType blob comment decoded, entry = entryText keyType blob comment ∧ ' ' ∉ blob ∧
      keyType ∈ KEY_TYPES ∧ Base64.decode blob = some decoded ∧ NamesWhole keyType decoded := by
  intro h
  let cut := "AAAAC3NzaC1lZDI1NTE5AAAA".toList
  obtain ⟨keyType, blob, comment, decoded, hentry, hblob, htype, hdecode, hwhole⟩ :=
    h (entryText "ssh-ed25519".toList cut none) (by decide +kernel)
  have hspace : ∀ t ∈ KEY_TYPES, ' ' ∉ t := by decide
  obtain ⟨rfl, rfl⟩ := entryText_inj (by decide) (hspace keyType htype) (by decide) hblob hentry
  have hcut : Base64.decode cut = some ([0, 0, 0, 11] ++ asBytes "ssh-ed25519".toList ++ [0, 0, 0]) := by
    decide +kernel
  obtain rfl := Option.some.inj (hcut.symm.trans hdecode)
  obtain ⟨words, -, hwords⟩ := (namesWhole_iff (by decide +kernel)).mp hwhole
  have hlength := congrArg List.length hwords
  rcases words with _ | ⟨word, words⟩
  · revert hlength
    decide
  · rw [List.flatMap_cons, framed, List.length_append, List.length_append, length_beBytes] at hlength
    have hthree : (([0, 0, 0, 11] ++ asBytes "ssh-ed25519".toList ++ [0, 0, 0]).drop
        (4 + (asBytes "ssh-ed25519".toList).length)).length = 3 := by
      decide
    omega

end Boot2Deb.Core.Authkeys
