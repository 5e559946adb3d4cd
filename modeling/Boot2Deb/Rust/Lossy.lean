import Boot2Deb.Rust.Str

/-!
# Lossy decoding

`String::from_utf8_lossy` reads bytes as UTF-8 and puts one replacement character for each stretch
that starts a character and does not end it, and for each byte that starts none. Cut in two, a text
decodes to the same characters exactly if the cut is not inside one (`fromUtf8Lossy_append`,
`length_fromUtf8Lossy_append`).
-/

namespace Boot2Deb.Rust

/-- `char::REPLACEMENT_CHARACTER`. -/
def REPLACEMENT : Char := Char.ofNat 0xfffd

/-! ### Characters, byte by byte -/

def isCont (b : UInt8) : Bool := 0x80 ≤ b && b ≤ 0xbf

/-- The bytes that start a character of several. -/
def isLead (b : UInt8) : Bool := 0xc2 ≤ b && b ≤ 0xf4

def charWidth (lead : UInt8) : ℕ := if lead ≤ 0xdf then 2 else if lead ≤ 0xef then 3 else 4

/-- The second bytes a lead allows: no overlong form, no surrogate, nothing past the last plane. -/
def isSecond (lead b : UInt8) : Bool :=
  if lead = 0xe0 then 0xa0 ≤ b && b ≤ 0xbf
  else if lead = 0xed then 0x80 ≤ b && b ≤ 0x9f
  else if lead = 0xf0 then 0x90 ≤ b && b ≤ 0xbf
  else if lead = 0xf4 then 0x80 ≤ b && b ≤ 0x8f
  else isCont b

/-- Whether a byte goes on with the character the pending ones start. -/
def continues (pending : Bytes) (b : UInt8) : Bool :=
  match pending with
  | [] => false
  | [lead] => isSecond lead b
  | _ => isCont b

/-- The character of a lead and its continuation bytes. -/
def charOf : Bytes → Char
  | [] => REPLACEMENT
  | lead :: rest =>
    let mark := match charWidth lead with
      | 2 => 0xc0
      | 3 => 0xe0
      | _ => 0xf0
    Char.ofNat (rest.foldl (fun v b => v * 64 + (b.toNat - 0x80)) (lead.toNat - mark))

/-- What a byte is where no character is pending: what it decodes to, and what it leaves pending. -/
def decodeStart (b : UInt8) : Str × Bytes :=
  if b < 0x80 then ([Char.ofNat b.toNat], [])
  else if isLead b then ([], [b])
  else ([REPLACEMENT], [])

def decodeStep (pending : Bytes) (b : UInt8) : Str × Bytes :=
  match pending with
  | [] => decodeStart b
  | lead :: rest =>
    if continues pending b then
      if rest.length + 2 = charWidth lead then ([charOf (pending ++ [b])], [])
      else ([], pending ++ [b])
    else (REPLACEMENT :: (decodeStart b).1, (decodeStart b).2)

/-- The decoding of what follows the pending bytes. -/
def decodeFrom (pending : Bytes) : Bytes → Str
  | [] => if pending.isEmpty then [] else [REPLACEMENT]
  | b :: bytes => (decodeStep pending b).1 ++ decodeFrom (decodeStep pending b).2 bytes

/-- `String::from_utf8_lossy`. -/
def fromUtf8Lossy (bytes : Bytes) : Str := decodeFrom [] bytes

/-- What is pending behind bytes. -/
def pendingAfter (pending bytes : Bytes) : Bytes := bytes.foldl (fun p b => (decodeStep p b).2) pending

/-! ### Cutting a text -/

/-- A cut inside a character: the bytes before it leave some pending, and the next goes on. -/
def CutsChar (a b : Bytes) : Prop := ∃ c rest, b = c :: rest ∧ continues (pendingAfter [] a) c = true

instance (a b : Bytes) : Decidable (CutsChar a b) :=
  match b with
  | [] => isFalse fun ⟨_, _, h, _⟩ => nomatch h
  | c :: rest => decidable_of_iff (continues (pendingAfter [] a) c = true)
      ⟨fun h => ⟨c, rest, rfl, h⟩, fun ⟨_, _, he, h⟩ => (List.cons.inj he).1 ▸ h⟩

variable {pending a b : Bytes} {c : UInt8}

theorem isCont_of_isSecond {lead : UInt8} (h : isSecond lead c = true) : isCont c = true := by
  simp only [isSecond, isCont, Bool.and_eq_true, decide_eq_true_eq, UInt8.le_iff_toNat_le] at h ⊢
  split_ifs at h <;> simp at h ⊢ <;> omega

theorem isCont_of_continues (h : continues pending c = true) : isCont c = true := by
  match pending, h with
  | [lead], h => exact isCont_of_isSecond h
  | _ :: _ :: _, h => exact h

/-- A continuation byte starts nothing. -/
theorem decodeStart_of_isCont (h : isCont c = true) : decodeStart c = ([REPLACEMENT], []) := by
  simp only [isCont, Bool.and_eq_true, decide_eq_true_eq, UInt8.le_iff_toNat_le] at h
  have hplain : ¬c < 0x80 := by
    rw [UInt8.lt_iff_toNat_lt]
    simp at h ⊢
    omega
  have hlead : isLead c = false := by
    simp only [isLead, Bool.and_eq_false_iff, decide_eq_false_iff_not, UInt8.le_iff_toNat_le]
    simp at h ⊢
    omega
  rw [decodeStart, if_neg hplain, hlead, if_neg Bool.false_ne_true]

/-- What is decoded of bytes before it is known what follows. -/
def emitted (pending : Bytes) : Bytes → Str
  | [] => []
  | b :: bytes => (decodeStep pending b).1 ++ emitted (decodeStep pending b).2 bytes

/-- The end of a text: one replacement for what is pending. -/
def flush (pending : Bytes) : Str := if pending.isEmpty then [] else [REPLACEMENT]

theorem decodeFrom_append (pending a b : Bytes) : decodeFrom pending (a ++ b) =
    emitted pending a ++ decodeFrom (pendingAfter pending a) b := by
  induction a generalizing pending with
  | nil => rfl
  | cons c a ih =>
    rw [List.cons_append, decodeFrom, ih, emitted, List.append_assoc]
    rfl

theorem decodeFrom_eq (pending a : Bytes) :
    decodeFrom pending a = emitted pending a ++ flush (pendingAfter pending a) := by
  have h := decodeFrom_append pending a []
  rw [List.append_nil] at h
  exact h

theorem decodeStep_of_not_continues (h : continues pending c = false) (b : Bytes) :
    decodeFrom pending (c :: b) = flush pending ++ decodeFrom [] (c :: b) := by
  cases pending with
  | nil => rfl
  | cons lead rest =>
    have hstep : decodeStep (lead :: rest) c =
        (REPLACEMENT :: (decodeStart c).1, (decodeStart c).2) := by
      rw [decodeStep, if_neg (by simp [h])]
    rw [decodeFrom, decodeFrom, hstep]
    rfl

/-- What is pending is at most one character more. -/
theorem length_decodeFrom_le (pending b : Bytes) :
    (decodeFrom pending b).length ≤ (decodeFrom [] b).length + 1 := by
  induction b generalizing pending with
  | nil =>
    rw [decodeFrom, decodeFrom]
    split_ifs <;> simp
  | cons c b ih =>
    by_cases h : continues pending c = true
    · have hstart : decodeStep [] c = ([REPLACEMENT], []) :=
        decodeStart_of_isCont (isCont_of_continues h)
      cases pending with
      | nil => cases h
      | cons lead rest =>
        rw [decodeFrom, decodeFrom, hstart]
        have hrest := ih (lead :: rest ++ [c])
        have hstep : decodeStep (lead :: rest) c = ([charOf (lead :: rest ++ [c])], []) ∨
            decodeStep (lead :: rest) c = ([], lead :: rest ++ [c]) := by
          rw [decodeStep, if_pos h]
          split_ifs
          exacts [.inl rfl, .inr rfl]
        rcases hstep with hstep | hstep <;> rw [hstep] <;> simp only [List.length_append,
          List.length_cons, List.length_nil, List.nil_append] at hrest ⊢ <;> omega
    · rw [decodeStep_of_not_continues (by simpa using h), List.length_append]
      have : (flush pending).length ≤ 1 := by
        rw [flush]
        split_ifs <;> simp
      omega

/-- Where the next byte goes on with what is pending, reading them apart gives a character more. -/
theorem length_decodeFrom_lt (h : continues pending c = true) (b : Bytes) :
    (decodeFrom pending (c :: b)).length < (flush pending ++ decodeFrom [] (c :: b)).length := by
  have hstart : decodeStep [] c = ([REPLACEMENT], []) :=
    decodeStart_of_isCont (isCont_of_continues h)
  cases pending with
  | nil => cases h
  | cons lead rest =>
    have hstep : decodeStep (lead :: rest) c = ([charOf (lead :: rest ++ [c])], []) ∨
        decodeStep (lead :: rest) c = ([], lead :: rest ++ [c]) := by
      rw [decodeStep, if_pos h]
      split_ifs
      exacts [.inl rfl, .inr rfl]
    have hflush : flush (lead :: rest) = [REPLACEMENT] := rfl
    have hrest := length_decodeFrom_le (lead :: rest ++ [c]) b
    rw [decodeFrom, decodeFrom, hstart, hflush]
    rcases hstep with hstep | hstep <;> rw [hstep] <;> simp only [List.length_append,
      List.length_cons, List.length_nil, List.nil_append] at hrest ⊢ <;> omega

theorem cutsChar_nil (a : Bytes) : ¬CutsChar a [] := fun ⟨_, _, h, _⟩ => nomatch h

theorem cutsChar_cons : CutsChar a (c :: b) ↔ continues (pendingAfter [] a) c = true :=
  ⟨fun ⟨_, _, he, h⟩ => (List.cons.inj he).1 ▸ h, fun h => ⟨c, b, rfl, h⟩⟩

/-- Cut between two characters, a text is decoded in parts. -/
theorem fromUtf8Lossy_append (h : ¬CutsChar a b) :
    fromUtf8Lossy (a ++ b) = fromUtf8Lossy a ++ fromUtf8Lossy b := by
  rw [fromUtf8Lossy, decodeFrom_append, fromUtf8Lossy, decodeFrom_eq [] a, fromUtf8Lossy,
    List.append_assoc]
  cases b with
  | nil => simp [decodeFrom, flush]
  | cons c b =>
    rw [cutsChar_cons] at h
    rw [decodeStep_of_not_continues (by simpa using h)]

/-- Cut inside a character, there is a character more. -/
theorem length_fromUtf8Lossy_append (h : CutsChar a b) :
    (fromUtf8Lossy (a ++ b)).length < (fromUtf8Lossy a ++ fromUtf8Lossy b).length := by
  obtain ⟨c, b, rfl, h⟩ := h
  have := length_decodeFrom_lt h b
  rw [fromUtf8Lossy, decodeFrom_append, fromUtf8Lossy, decodeFrom_eq [] a, fromUtf8Lossy]
  simp only [List.length_append] at this ⊢
  omega

/-- A cut is seen by the first byte behind it. -/
theorem CutsChar.append {d : Bytes} (h : CutsChar a b) : CutsChar a (b ++ d) := by
  obtain ⟨c, rest, rfl, h⟩ := h
  exact ⟨c, rest ++ d, rfl, h⟩

theorem CutsChar.of_append {d : Bytes} (h : CutsChar a (b ++ d)) (hb : b ≠ []) : CutsChar a b := by
  obtain ⟨c, rest, rfl⟩ := List.exists_cons_of_ne_nil hb
  rw [List.cons_append] at h
  exact cutsChar_cons.mpr (cutsChar_cons.mp h)

/-- Cut into parts, a text never gets shorter. -/
theorem length_fromUtf8Lossy_append_le (a b : Bytes) :
    (fromUtf8Lossy (a ++ b)).length ≤ (fromUtf8Lossy a).length + (fromUtf8Lossy b).length := by
  rw [← List.length_append]
  by_cases h : CutsChar a b
  · exact (length_fromUtf8Lossy_append h).le
  · rw [fromUtf8Lossy_append h]

theorem length_flatten_le (a : Bytes) (parts : List Bytes) :
    (fromUtf8Lossy (a ++ parts.flatten)).length ≤
      (fromUtf8Lossy a).length + (parts.flatMap fromUtf8Lossy).length := by
  induction parts generalizing a with
  | nil => simp
  | cons p parts ih =>
    have hrest := ih (a ++ p)
    have hp := length_fromUtf8Lossy_append_le a p
    rw [List.flatten_cons, List.flatMap_cons, List.length_append, ← List.append_assoc]
    omega

/-- Where a part begins inside a character, the parts have more characters than the whole. -/
theorem length_flatten_lt {a : Bytes} {parts before behind : List Bytes}
    (h : CutsChar (a ++ before.flatten) behind.flatten) (heq : parts = before ++ behind) :
    (fromUtf8Lossy (a ++ parts.flatten)).length <
      (fromUtf8Lossy a).length + (parts.flatMap fromUtf8Lossy).length := by
  induction parts generalizing a before behind with
  | nil =>
    rw [(List.append_eq_nil_iff.mp heq.symm).2] at h
    exact absurd h (cutsChar_nil _)
  | cons p parts ih =>
    have hp := length_fromUtf8Lossy_append_le a p
    rw [List.flatten_cons, List.flatMap_cons, List.length_append, ← List.append_assoc]
    rcases before with _ | ⟨q, before⟩
    · rw [List.nil_append] at heq
      subst heq
      rw [List.flatten_nil, List.append_nil, List.flatten_cons] at h
      by_cases hempty : p = []
      · subst hempty
        have hrest := @ih a [] parts (by rwa [List.flatten_nil, List.append_nil]) rfl
        rw [List.append_nil]
        omega
      · have hcut := length_fromUtf8Lossy_append (h.of_append hempty)
        have hrest := length_flatten_le (a ++ p) parts
        rw [List.length_append] at hcut
        omega
    · obtain ⟨rfl, htail⟩ := List.cons.inj heq
      rw [List.flatten_cons, ← List.append_assoc] at h
      have hrest := ih h htail
      omega

/-- Parts behind a text decode on their own exactly if none begins inside a character. -/
theorem fromUtf8Lossy_parts_iff (a : Bytes) (parts : List Bytes) :
    fromUtf8Lossy (a ++ parts.flatten) = fromUtf8Lossy a ++ parts.flatMap fromUtf8Lossy ↔
      ∀ before behind, parts = before ++ behind →
        ¬CutsChar (a ++ before.flatten) behind.flatten := by
  constructor
  · intro h before behind heq hcut
    have hlength := congrArg List.length h
    rw [List.length_append] at hlength
    exact absurd hlength (length_flatten_lt hcut heq).ne
  · intro h
    induction parts generalizing a with
    | nil => simp
    | cons p parts ih =>
      have hrest := ih (a ++ p) fun before behind heq => by
        have := h (p :: before) behind (by rw [heq, List.cons_append])
        rwa [List.flatten_cons, ← List.append_assoc] at this
      have hp : fromUtf8Lossy (a ++ p) = fromUtf8Lossy a ++ fromUtf8Lossy p :=
        fromUtf8Lossy_append fun hc => h [] (p :: parts) rfl <| by
          rw [List.flatten_nil, List.append_nil]
          exact hc.append
      rw [List.flatten_cons, ← List.append_assoc, hrest, hp, List.flatMap_cons, List.append_assoc]

/-! ### Characters of ASCII -/

/-- The bytes that can be pending. -/
inductive Pending : Bytes → Prop where
  | none : Pending []
  | lead {l} : isLead l = true → Pending [l]
  | second {l s} : isLead l = true → charWidth l ≠ 2 → isSecond l s = true → Pending [l, s]
  | third {l s t} : isLead l = true → charWidth l = 4 → isSecond l s = true → isCont t = true →
      Pending [l, s, t]

theorem toNat_ofNat {n : ℕ} (h : n < 0xd800 ∨ 0xdfff < n ∧ n < 0x110000) : (Char.ofNat n).toNat = n := by
  have hvalid : n.isValidChar := h
  rw [Char.ofNat, dif_pos hvalid]
  rfl

theorem isCont_toNat : isCont c = true ↔ 0x80 ≤ c.toNat ∧ c.toNat ≤ 0xbf := by
  simp [isCont, UInt8.le_iff_toNat_le]

theorem isLead_toNat : isLead c = true ↔ 0xc2 ≤ c.toNat ∧ c.toNat ≤ 0xf4 := by
  simp [isLead, UInt8.le_iff_toNat_le]

theorem charWidth_toNat (c : UInt8) :
    charWidth c = if c.toNat ≤ 0xdf then 2 else if c.toNat ≤ 0xef then 3 else 4 := by
  simp [charWidth, UInt8.le_iff_toNat_le]

/-- The ranges of a second byte, as numbers. -/
theorem isSecond_toNat {l s : UInt8} (h : isSecond l s = true) :
    0x80 ≤ s.toNat ∧ s.toNat ≤ 0xbf ∧ (l.toNat = 0xe0 → 0xa0 ≤ s.toNat) ∧
      (l.toNat = 0xed → s.toNat ≤ 0x9f) ∧ (l.toNat = 0xf0 → 0x90 ≤ s.toNat) ∧
      (l.toNat = 0xf4 → s.toNat ≤ 0x8f) := by
  have hcont := isCont_toNat.mp (isCont_of_isSecond h)
  simp only [isSecond, isCont, ← UInt8.toNat_inj, UInt8.le_iff_toNat_le] at h
  simp at h
  split_ifs at h <;> omega

/-- A character of several bytes is none of ASCII. -/
theorem charOf_toNat (hp : Pending pending) (hc : continues pending c = true)
    (hlen : pending.length + 1 = charWidth (pending.headD 0)) :
    0x80 ≤ (charOf (pending ++ [c])).toNat := by
  have hcont := isCont_toNat.mp (isCont_of_continues hc)
  cases hp with
  | none => cases hc
  | @lead l hl =>
    have hw : charWidth l = 2 := hlen.symm
    have hl := isLead_toNat.mp hl
    have hvalue : charOf ([l] ++ [c]) = Char.ofNat ((l.toNat - 0xc0) * 64 + (c.toNat - 0x80)) := by
      simp only [charOf, hw, List.cons_append, List.nil_append, List.foldl_cons, List.foldl_nil]
    rw [charWidth_toNat] at hw
    rw [hvalue, toNat_ofNat] <;> split_ifs at hw <;> omega
  | @second l s hl _ hs =>
    have hw : charWidth l = 3 := hlen.symm
    have hl := isLead_toNat.mp hl
    have hs := isSecond_toNat hs
    have hvalue : charOf ([l, s] ++ [c]) =
        Char.ofNat (((l.toNat - 0xe0) * 64 + (s.toNat - 0x80)) * 64 + (c.toNat - 0x80)) := by
      simp only [charOf, hw, List.cons_append, List.nil_append, List.foldl_cons, List.foldl_nil]
    rw [charWidth_toNat] at hw
    rw [hvalue, toNat_ofNat] <;> split_ifs at hw <;> omega
  | @third l s t hl hw hs ht =>
    have hl := isLead_toNat.mp hl
    have hs := isSecond_toNat hs
    have ht := isCont_toNat.mp ht
    have hvalue : charOf ([l, s, t] ++ [c]) = Char.ofNat ((((l.toNat - 0xf0) * 64 +
        (s.toNat - 0x80)) * 64 + (t.toNat - 0x80)) * 64 + (c.toNat - 0x80)) := by
      simp only [charOf, hw, List.cons_append, List.nil_append, List.foldl_cons, List.foldl_nil]
    rw [charWidth_toNat] at hw
    rw [hvalue, toNat_ofNat] <;> split_ifs at hw <;> omega

/-- What starts a character: itself, a character that is pending, or none. -/
theorem decodeStart_cases (c : UInt8) :
    c.toNat < 0x80 ∧ decodeStart c = ([Char.ofNat c.toNat], []) ∨
      0x80 ≤ c.toNat ∧ ((decodeStart c).1 = [] ∨ (decodeStart c).1 = [REPLACEMENT]) ∧
        Pending (decodeStart c).2 := by
  rw [decodeStart]
  have hlt : c < 0x80 ↔ c.toNat < 0x80 := by simp [UInt8.lt_iff_toNat_lt]
  split_ifs with hplain hlead
  · exact .inl ⟨hlt.mp hplain, rfl⟩
  · exact .inr ⟨by rw [hlt] at hplain; omega, .inl rfl, .lead hlead⟩
  · exact .inr ⟨by rw [hlt] at hplain; omega, .inr rfl, .none⟩

/-- One byte keeps what is pending well formed, and gives the character of ASCII it is, or none. -/
theorem decodeStep_spec (hp : Pending pending) (c : UInt8) : Pending (decodeStep pending c).2 ∧
    ∀ x : Char, x.toNat < 0x80 → (x ∈ (decodeStep pending c).1 ↔ c.toNat = x.toNat) := by
  have hrepl : ∀ x : Char, x.toNat < 0x80 → x ≠ REPLACEMENT := by
    rintro x hx rfl
    exact absurd hx (by decide)
  have hstart : Pending (decodeStart c).2 ∧
      ∀ x : Char, x.toNat < 0x80 → (x ∈ (decodeStart c).1 ↔ c.toNat = x.toNat) := by
    rcases decodeStart_cases c with ⟨hc, h⟩ | ⟨hc, h, hpend⟩
    · rw [h]
      refine ⟨.none, fun x _ => ?_⟩
      rw [List.mem_singleton]
      constructor
      · rintro rfl
        rw [toNat_ofNat (.inl (by omega))]
      · intro he
        rw [he, Char.ofNat_toNat]
    · refine ⟨hpend, fun x hx => ?_⟩
      rcases h with h | h <;> rw [h]
      · exact iff_of_false List.not_mem_nil (by omega)
      · exact iff_of_false (by simpa using hrepl x hx) (by omega)
  cases pending with
  | nil => exact hstart
  | cons lead rest =>
    rw [decodeStep]
    by_cases hc : continues (lead :: rest) c = true
    · have hcont := isCont_toNat.mp (isCont_of_continues hc)
      rw [if_pos hc]
      by_cases hlen : rest.length + 2 = charWidth lead
      · rw [if_pos hlen]
        refine ⟨.none, fun x hx => iff_of_false ?_ (by omega)⟩
        rw [List.mem_singleton]
        rintro rfl
        have := charOf_toNat hp hc hlen
        omega
      · rw [if_neg hlen]
        refine ⟨?_, fun x hx => iff_of_false List.not_mem_nil (by omega)⟩
        cases hp with
        | lead hl => exact .second hl (fun h => hlen h.symm) hc
        | @second _ s hl hw hs =>
          have hfour : charWidth lead = 4 := by
            have : charWidth lead = 2 ∨ charWidth lead = 3 ∨ charWidth lead = 4 := by
              rw [charWidth]
              split_ifs <;> simp
            simp only [List.length_singleton] at hlen
            omega
          exact .third hl hfour hs hc
        | third hl hw hs ht => exact absurd hw.symm hlen
    · rw [if_neg hc]
      refine ⟨hstart.1, fun x hx => ?_⟩
      rw [List.mem_cons, hstart.2 x hx]
      exact ⟨fun h => h.resolve_left (hrepl x hx), .inr⟩

theorem mem_decodeFrom {x : Char} (hx : x.toNat < 0x80) (hp : Pending pending) :
    x ∈ decodeFrom pending a ↔ ∃ c ∈ a, c.toNat = x.toNat := by
  induction a generalizing pending with
  | nil =>
    rw [decodeFrom]
    refine iff_of_false ?_ (by simp)
    split_ifs
    · exact List.not_mem_nil
    · rw [List.mem_singleton]
      rintro rfl
      exact absurd hx (by decide)
  | cons c a ih =>
    obtain ⟨hnext, hmem⟩ := decodeStep_spec hp c
    rw [decodeFrom, List.mem_append, hmem x hx, ih hnext]
    simp

/-- A character of ASCII is in the text exactly if its byte is in the bytes. -/
theorem mem_fromUtf8Lossy {x : Char} (hx : x.toNat < 0x80) :
    x ∈ fromUtf8Lossy a ↔ ∃ c ∈ a, c.toNat = x.toNat := mem_decodeFrom hx .none

end Boot2Deb.Rust
