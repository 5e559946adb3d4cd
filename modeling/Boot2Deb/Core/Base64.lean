import Mathlib
import Boot2Deb.Rust.Text

/-!
# Standard base64

The `+/` alphabet with `=` padding, both ways. What `encode` writes `decode` reads back:
`decode_encode`.
-/

namespace Boot2Deb.Core.Base64

open Rust

/-- The standard alphabet, indexed by sextet value. -/
def ALPHABET : List Char :=
  "ABCDEFGHIJKLMNOPQRSTUVWXYZabcdefghijklmnopqrstuvwxyz0123456789+/".toList

/-- The characters of a group of one to three bytes. A group of `n` bytes yields `n + 1` of them,
and padding fills it to four. -/
def encodeGroup (group : Bytes) : Str :=
  let acc := group.zipIdx.foldl (fun acc (b, i) => acc ||| b.toNat <<< (16 - 8 * i)) 0
  ((List.range (group.length + 1)).map fun i => ALPHABET.getD (acc >>> (18 - 6 * i) &&& 0x3f) 'A') ++
    List.replicate (3 - group.length) '='

/-- Group by group of `chunks(3)`. -/
def encode : Bytes → Str
  | [] => []
  | a :: b :: c :: bytes => encodeGroup [a, b, c] ++ encode bytes
  | group => encodeGroup group

/-- The sextet value of a base64 character. -/
def sextet (c : UInt8) : Option ℕ :=
  let n := c.toNat
  if 'A'.toNat ≤ n ∧ n ≤ 'Z'.toNat then some (n - 'A'.toNat)
  else if 'a'.toNat ≤ n ∧ n ≤ 'z'.toNat then some (n - 'a'.toNat + 26)
  else if '0'.toNat ≤ n ∧ n ≤ '9'.toNat then some (n - '0'.toNat + 52)
  else if n = '+'.toNat then some 62
  else if n = '/'.toNat then some 63
  else none

/-- The bytes of a group of two to four characters. -/
def decodeGroup (group : Bytes) : Option Bytes := do
  if group.length = 1 then none
  let acc ← group.foldlM (fun acc c => (sextet c).map fun v => acc <<< 6 ||| v) 0
  let acc := acc <<< (6 * (4 - group.length))
  let full := [UInt8.ofNat (acc >>> 16), UInt8.ofNat (acc >>> 8), UInt8.ofNat acc]
  some (full.take (group.length - 1))

/-- Group by group of `chunks(4)`. -/
def decodeBody : Bytes → Option Bytes
  | [] => some []
  | a :: b :: c :: d :: body => do
    let group ← decodeGroup [a, b, c, d]
    let rest ← decodeBody body
    some (group ++ rest)
  | group => decodeGroup group

def PAD : UInt8 := 61

def decode (s : Str) : Option Bytes :=
  let bytes := asBytes s
  let pad := (bytes.reverse.takeWhile (· = PAD)).length
  if 2 < pad ∨ bytes.length % 4 ≠ 0 then none
  else decodeBody (bytes.take (bytes.length - pad))

/-! ### Reading an encoding back -/

/-- The byte of a sextet's character. -/
def digit (v : ℕ) : UInt8 := UInt8.ofNat (ALPHABET.getD v 'A').toNat

theorem alphabet_spec : ∀ v < 64, asBytes [ALPHABET.getD v 'A'] = [digit v] ∧
    sextet (digit v) = some v ∧ digit v ≠ PAD := by
  decide +kernel

theorem or_eq_add {a b i : ℕ} (h : b < 2 ^ i) : a <<< i ||| b = a * 2 ^ i + b := by
  rw [← Nat.shiftLeft_add_eq_or_of_lt h, Nat.shiftLeft_eq]

theorem and_sextet (n : ℕ) : n &&& 0x3f = n % 64 := Nat.and_two_pow_sub_one_eq_mod n 6

/-- The bytes of a group, the first the highest of three. -/
theorem foldl_group {a b c : ℕ} (hb : b < 256) (hc : c < 256) :
    a <<< 16 ||| b <<< 8 ||| c = a * 65536 + b * 256 + c := by
  have hab : a <<< 16 ||| b <<< 8 = (a * 256 + b) <<< 8 := by
    rw [or_eq_add (by rw [Nat.shiftLeft_eq]; omega), Nat.shiftLeft_eq, Nat.shiftLeft_eq]
    omega
  rw [hab, or_eq_add hc]
  omega

/-- The characters of a number of 24 bits, of which the first so many are written. -/
def digits (acc n : ℕ) : Bytes := (List.range n).map fun i => digit (acc / 2 ^ (18 - 6 * i) % 64)

theorem length_digits (acc n : ℕ) : (digits acc n).length = n := by simp [digits]

theorem asBytes_digits (acc n : ℕ) :
    asBytes ((List.range n).map fun i => ALPHABET.getD (acc >>> (18 - 6 * i) &&& 0x3f) 'A') =
      digits acc n := by
  unfold asBytes digits
  rw [List.flatMap_map, ← List.flatMap_pure_eq_map]
  refine congrArg (List.flatMap · (List.range n)) (funext fun i => ?_)
  rw [and_sextet, Nat.shiftRight_eq_div_pow]
  have hspec := (alphabet_spec (acc / 2 ^ (18 - 6 * i) % 64) (Nat.mod_lt _ (by decide))).1
  simpa [asBytes] using hspec

theorem asBytes_encodeGroup (group : Bytes) (acc : ℕ)
    (h : group.zipIdx.foldl (fun acc (b, i) => acc ||| b.toNat <<< (16 - 8 * i)) 0 = acc) :
    asBytes (encodeGroup group) =
      digits acc (group.length + 1) ++ List.replicate (3 - group.length) PAD := by
  have hpad : ∀ n, asBytes (List.replicate n '=') = List.replicate n PAD := by
    intro n
    induction n with
    | zero => rfl
    | succ n ih =>
      rw [List.replicate_succ, List.replicate_succ, ← ih]
      rfl
  unfold encodeGroup
  rw [h, asBytes_append, asBytes_digits, hpad]

theorem foldlM_digit {vs : List ℕ} (h : ∀ v ∈ vs, v < 64) (acc : ℕ) :
    (vs.map digit).foldlM (fun acc c => (sextet c).map fun v => acc <<< 6 ||| v) acc =
      some (vs.foldl (fun acc v => acc * 64 + v) acc) := by
  induction vs generalizing acc with
  | nil => rfl
  | cons v vs ih =>
    have hv := h v List.mem_cons_self
    rw [List.map_cons, List.foldlM_cons, (alphabet_spec v hv).2.1, Option.map_some,
      or_eq_add (i := 6) hv, List.foldl_cons]
    exact ih (fun v hv => h v (List.mem_cons_of_mem _ hv)) _

/-- Characters that write a whole number of bytes are read back as these. -/
theorem decodeGroup_digits {acc n : ℕ} (hacc : acc < 2 ^ 24) (hn : n = 1 ∨ n = 2 ∨ n = 3)
    (hlow : acc % 2 ^ (24 - 8 * n) = 0) : decodeGroup (digits acc (n + 1)) =
      some ([UInt8.ofNat (acc >>> 16), UInt8.ofNat (acc >>> 8), UInt8.ofNat acc].take n) := by
  have hfold := @foldlM_digit ((List.range (n + 1)).map fun i => acc / 2 ^ (18 - 6 * i) % 64)
    (by simp only [List.forall_mem_map]; exact fun i _ => Nat.mod_lt _ (by decide)) 0
  rw [List.map_map] at hfold
  have hsum : ((List.range (n + 1)).map fun i => acc / 2 ^ (18 - 6 * i) % 64).foldl
      (fun acc v => acc * 64 + v) 0 * 2 ^ (18 - 6 * n) = acc := by
    rcases hn with rfl | rfl | rfl <;>
      simp only [List.range_succ, List.range_zero, List.nil_append, List.map_append, List.map_cons,
        List.map_nil, List.foldl_append, List.foldl_cons, List.foldl_nil, Nat.reduceMul,
        Nat.reduceSub, Nat.reducePow] at hlow ⊢ <;> omega
  have hfold : (digits acc (n + 1)).foldlM
      (fun acc c => (sextet c).map fun v => acc <<< 6 ||| v) 0 = some _ := hfold
  unfold decodeGroup
  rw [length_digits, if_neg (by omega), hfold]
  have hshift : 6 * (4 - (n + 1)) = 18 - 6 * n := by omega
  simp only [Option.bind_eq_bind, Option.bind_some, hshift, Nat.shiftLeft_eq, hsum,
    Nat.add_sub_cancel]

theorem ne_pad_of_mem_digits {acc n : ℕ} {c : UInt8} (h : c ∈ digits acc n) : c ≠ PAD := by
  obtain ⟨i, -, rfl⟩ := List.mem_map.mp h
  exact (alphabet_spec _ (Nat.mod_lt _ (by decide))).2.2

theorem ofNat_eq {n : ℕ} {a : UInt8} (h : n % 256 = a.toNat) : UInt8.ofNat n = a := by
  apply UInt8.toNat_inj.mp
  rw [UInt8.toNat_ofNat']
  exact h

/-- The characters of an encoding, what pads them, and that they are read as the bytes. -/
structure Body (bytes body : Bytes) (pad : ℕ) : Prop where
  text : asBytes (encode bytes) = body ++ List.replicate pad PAD
  pad_le : pad ≤ 2
  whole : (body.length + pad) % 4 = 0
  solid : ∀ c ∈ body, c ≠ PAD
  decoded : decodeBody body = some bytes

theorem exists_body : ∀ bytes : Bytes, ∃ body pad, Body bytes body pad
  | [] => ⟨[], 0, rfl, by decide, rfl, by simp, rfl⟩
  | [a] => by
    have ha := a.toNat_lt
    have hacc : [a].zipIdx.foldl (fun acc (b, i) => acc ||| b.toNat <<< (16 - 8 * i)) 0 =
        a.toNat * 65536 := by
      simp [Nat.shiftLeft_eq]
    have hdecode := @decodeGroup_digits (a.toNat * 65536) 1 (by omega) (.inl rfl)
      (by omega)
    refine ⟨_, 2, asBytes_encodeGroup [a] _ hacc, le_refl _, by simp [length_digits],
      fun c => ne_pad_of_mem_digits, hdecode.trans ?_⟩
    rw [ofNat_eq (a := a) (by rw [Nat.shiftRight_eq_div_pow]; omega)]
    rfl
  | [a, b] => by
    have ha := a.toNat_lt
    have hb := b.toNat_lt
    have hacc : [a, b].zipIdx.foldl (fun acc (b, i) => acc ||| b.toNat <<< (16 - 8 * i)) 0 =
        a.toNat * 65536 + b.toNat * 256 := by
      have := foldl_group (a := a.toNat) (c := 0) hb (by decide)
      simpa using this
    have hdecode := @decodeGroup_digits (a.toNat * 65536 + b.toNat * 256) 2
      (by omega) (.inr (.inl rfl)) (by omega)
    refine ⟨_, 1, asBytes_encodeGroup [a, b] _ hacc, by decide, by simp [length_digits],
      fun c => ne_pad_of_mem_digits, hdecode.trans ?_⟩
    rw [ofNat_eq (a := a) (by rw [Nat.shiftRight_eq_div_pow]; omega),
      ofNat_eq (a := b) (by rw [Nat.shiftRight_eq_div_pow]; omega)]
    rfl
  | a :: b :: c :: bytes => by
    obtain ⟨body, pad, h⟩ := exists_body bytes
    have ha := a.toNat_lt
    have hb := b.toNat_lt
    have hc := c.toNat_lt
    have hacc : [a, b, c].zipIdx.foldl (fun acc (b, i) => acc ||| b.toNat <<< (16 - 8 * i)) 0 =
        a.toNat * 65536 + b.toNat * 256 + c.toNat := by
      simpa using foldl_group (a := a.toNat) hb hc
    have hdecode := @decodeGroup_digits (a.toNat * 65536 + b.toNat * 256 + c.toNat) 3
      (by omega) (.inr (.inr rfl)) (by omega)
    rw [ofNat_eq (a := a) (by rw [Nat.shiftRight_eq_div_pow]; omega),
      ofNat_eq (a := b) (by rw [Nat.shiftRight_eq_div_pow]; omega),
      ofNat_eq (a := c) (by omega)] at hdecode
    have hgroup := asBytes_encodeGroup [a, b, c] _ hacc
    refine ⟨digits (a.toNat * 65536 + b.toNat * 256 + c.toNat) 4 ++ body, pad, ?_, h.pad_le, ?_, ?_,
      ?_⟩
    · rw [encode, asBytes_append, hgroup, h.text]
      simp
    · have := h.whole
      rw [List.length_append, length_digits]
      omega
    · intro d hd
      rcases List.mem_append.mp hd with hd | hd
      · exact ne_pad_of_mem_digits hd
      · exact h.solid d hd
    · show (do
        let group ← decodeGroup (digits (a.toNat * 65536 + b.toNat * 256 + c.toNat) 4)
        let rest ← decodeBody body
        some (group ++ rest)) = _
      rw [hdecode, h.decoded]
      rfl

theorem decode_encode (bytes : Bytes) : decode (encode bytes) = some bytes := by
  obtain ⟨body, pad, h⟩ := exists_body bytes
  have hpad : ((body ++ List.replicate pad PAD).reverse.takeWhile (· = PAD)).length = pad := by
    rw [List.reverse_append, List.reverse_replicate,
      List.takeWhile_append_of_pos (by simp +contextual)]
    have hbody : body.reverse.takeWhile (· = PAD) = [] := by
      rw [List.takeWhile_eq_nil_iff]
      intro hpos
      simpa using h.solid _ (List.mem_reverse.mp (List.getElem_mem hpos))
    rw [hbody, List.append_nil, List.length_replicate]
  unfold decode
  rw [h.text]
  simp only [hpad]
  rw [if_neg (by have := h.pad_le; have := h.whole; simp; omega)]
  simpa using h.decoded

/-! ### What the front of an encoding is read as -/

theorem isSome_sextet_of_foldlM {group : Bytes} {start acc : ℕ}
    (h : group.foldlM (fun acc c => (sextet c).map fun v => acc <<< 6 ||| v) start = some acc) :
    ∀ c ∈ group, (sextet c).isSome := by
  induction group generalizing start with
  | nil => simp
  | cons d group ih =>
    rw [List.foldlM_cons] at h
    obtain ⟨next, hnext, h⟩ := Option.bind_eq_some_iff.mp h
    obtain ⟨v, hv, -⟩ := Option.map_eq_some_iff.mp hnext
    exact List.forall_mem_cons.mpr ⟨by rw [hv, Option.isSome_some], ih h⟩

/-- A group is of the alphabet, and writes one byte less than it has characters. -/
theorem decodeGroup_eq_some {group bytes : Bytes} (h : decodeGroup group = some bytes)
    (hlen : group.length ≤ 4) :
    bytes.length = group.length - 1 ∧ ∀ c ∈ group, (sextet c).isSome := by
  rw [decodeGroup] at h
  split at h
  · exact nomatch h
  obtain ⟨acc, hacc, h⟩ := Option.bind_eq_some_iff.mp h
  obtain rfl := Option.some.inj h
  exact ⟨by simp; omega, isSome_sextet_of_foldlM hacc⟩

theorem isSome_sextet_of_decodeBody {body bytes : Bytes} (h : decodeBody body = some bytes) :
    ∀ c ∈ body, (sextet c).isSome := by
  induction body using decodeBody.induct generalizing bytes with
  | case1 => simp
  | case2 a b c d body ih =>
    rw [decodeBody] at h
    obtain ⟨group, hgroup, h⟩ := Option.bind_eq_some_iff.mp h
    obtain ⟨rest, hrest, h⟩ := Option.bind_eq_some_iff.mp h
    intro e he
    rcases List.mem_append (s := [a, b, c, d]).mp he with he | he
    · exact (decodeGroup_eq_some hgroup (by simp)).2 e he
    · exact ih hrest e he
  | case3 group hnil hcons =>
    rw [decodeBody.eq_3 group hnil hcons] at h
    have hshort : group.length ≤ 4 := by
      by_contra hlong
      rcases group with _ | ⟨a, _ | ⟨b, _ | ⟨c, _ | ⟨d, group⟩⟩⟩⟩
      all_goals first | exact absurd rfl (hcons _ _ _ _ _) | simp at hlong
    exact (decodeGroup_eq_some h hshort).2

/-- Whole groups from the front are read as three bytes each. -/
theorem decodeBody_take {body bytes : Bytes} {n : ℕ} (h : decodeBody body = some bytes)
    (hn : 4 * n ≤ body.length) : decodeBody (body.take (4 * n)) = some (bytes.take (3 * n)) := by
  induction n generalizing body bytes with
  | zero => rfl
  | succ n ih =>
    rcases body with _ | ⟨a, _ | ⟨b, _ | ⟨c, _ | ⟨d, body⟩⟩⟩⟩
    case cons.cons.cons.cons =>
      rw [decodeBody] at h
      obtain ⟨group, hgroup, h⟩ := Option.bind_eq_some_iff.mp h
      obtain ⟨rest, hrest, h⟩ := Option.bind_eq_some_iff.mp h
      obtain rfl := Option.some.inj h
      have hlen : group.length = 3 := (decodeGroup_eq_some hgroup (by simp)).1
      have hih := ih hrest (by simp at hn; omega)
      rw [show 4 * (n + 1) = 4 * n + 4 from rfl, List.take_succ_cons, List.take_succ_cons,
        List.take_succ_cons, List.take_succ_cons, decodeBody, hgroup, hih,
        show 3 * (n + 1) = group.length + 3 * n by omega, List.take_append]
      simp
    all_goals simp at hn <;> omega

theorem ascii_of_sextet : ∀ c : UInt8, (sextet c).isSome → c.toNat < 128 ∧ c ≠ PAD := by
  decide +kernel

/-- A text that is read is whole groups of the alphabet, and up to two pads at its end. -/
theorem decode_eq_some {s : Str} {bytes : Bytes} (h : decode s = some bytes) :
    ∃ body pad, asBytes s = body ++ List.replicate pad PAD ∧ pad ≤ 2 ∧
      (body.length + pad) % 4 = 0 ∧ decodeBody body = some bytes := by
  unfold decode at h
  extract_lets all pad at h
  split at h
  · exact nomatch h
  rename_i hshape
  rw [not_or, not_lt, not_not] at hshape
  have hpads : all.reverse.takeWhile (fun x => decide (x = PAD)) = List.replicate pad PAD :=
    List.eq_replicate_iff.mpr ⟨rfl, fun b hb => by simpa using List.mem_takeWhile_imp hb⟩
  obtain ⟨body, hbody⟩ : ∃ body, all = body ++ List.replicate pad PAD := by
    refine ⟨(all.reverse.dropWhile fun x => decide (x = PAD)).reverse, List.reverse_injective ?_⟩
    rw [List.reverse_append, List.reverse_reverse, List.reverse_replicate, ← hpads,
      List.takeWhile_append_dropWhile]
  have hlength : all.length = body.length + pad := by
    rw [hbody, List.length_append, List.length_replicate]
  refine ⟨body, pad, hbody, hshape.1, hlength ▸ hshape.2, ?_⟩
  rw [hlength, Nat.add_sub_cancel, hbody, List.take_left'] at h
  exacts [h, rfl]

/-- A text that is read is of one byte a character. -/
theorem ascii_of_decode {s : Str} {bytes : Bytes} (h : decode s = some bytes) :
    ∀ c ∈ s, c.toNat < 128 := by
  obtain ⟨body, pad, htext, -, -, hbody⟩ := decode_eq_some h
  have hall : ∀ b ∈ asBytes s, b.toNat < 128 := by
    intro b hb
    rw [htext] at hb
    rcases List.mem_append.mp hb with hb | hb
    · exact (ascii_of_sextet b (isSome_sextet_of_decodeBody hbody b hb)).1
    · rw [List.eq_of_mem_replicate hb]
      decide
  intro c hc
  have hpos : 0 < (asBytes [c]).length := by
    rw [length_asBytes]
    simpa [byteLen] using c.utf8Size_pos
  obtain ⟨b, hb⟩ := List.exists_mem_of_length_pos hpos
  have hmem : b ∈ asBytes s := List.mem_flatMap.mpr ⟨c, hc, by simpa [asBytes] using hb⟩
  obtain ⟨d, hd, hcode⟩ := exists_of_mem_asBytes (hall b hmem) hb
  rw [List.mem_singleton.mp hd] at hcode
  exact hcode ▸ hall b hmem

/-- The front of a text is read as the front of its bytes, or not at all. -/
theorem decode_of_prefix {s front : Str} {bytes : Bytes} (h : decode s = some bytes)
    (hfront : front <+: s) (hne : front ≠ s) : decode front =
      if front.length % 4 = 0 then some (bytes.take (3 * (front.length / 4))) else none := by
  have hascii := ascii_of_decode h
  obtain ⟨body, pad, htext, hpad, hwhole, hbody⟩ := decode_eq_some h
  have hbytes := asBytes_of_ascii fun c hc => hascii c (hfront.subset hc)
  have hshort : front.length < s.length := by
    refine lt_of_le_of_ne hfront.length_le fun heq => hne (hfront.eq_of_length heq)
  have hall : body.length + pad = s.length := by
    have := congrArg List.length htext
    rw [asBytes_of_ascii hascii, List.length_map, List.length_append, List.length_replicate] at this
    exact this.symm
  unfold decode
  extract_lets bytesOf count
  have hlength : bytesOf.length = front.length := by
    show (asBytes front).length = _
    rw [hbytes, List.length_map]
  have hcountle : count ≤ bytesOf.length := by
    rw [← List.length_reverse]
    exact (List.takeWhile_sublist _).length_le
  by_cases hmod : front.length % 4 = 0
  · have hin : front.length ≤ body.length := by omega
    have hbodyfront : bytesOf = body.take (4 * (front.length / 4)) := by
      obtain ⟨back, rfl⟩ := hfront
      rw [asBytes_append] at htext
      have htake := congrArg (List.take front.length) htext
      rw [List.take_append_of_le_length hlength.ge, List.take_append_of_le_length hin,
        List.take_of_length_le hlength.le] at htake
      rw [show bytesOf = _ from htake]
      congr 1
      omega
    have hcount : count = 0 := by
      show (List.takeWhile _ _).length = 0
      rw [List.length_eq_zero_iff, List.takeWhile_eq_nil_iff]
      intro hpos hlast
      have hmem : bytesOf.reverse[0] ∈ body.take (4 * (front.length / 4)) :=
        hbodyfront ▸ List.mem_reverse.mp (List.getElem_mem hpos)
      exact (ascii_of_sextet _ (isSome_sextet_of_decodeBody hbody _ (List.mem_of_mem_take hmem))).2
        (of_decide_eq_true hlast)
    rw [if_neg (by omega), if_pos hmod, hcount, Nat.sub_zero, List.take_length,
      hbodyfront]
    exact decodeBody_take hbody (by omega)
  · rw [if_neg hmod, if_pos]
    omega

end Boot2Deb.Core.Base64
