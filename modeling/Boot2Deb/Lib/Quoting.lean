import Boot2Deb.Lib.Shell

/-!
# Quoting

What the programs of a board make of text that was written into their files: a shell of the text
between two double quotes and of the assignments of a file it sources, dash's `echo` of its
argument, and a splitter by shell word rules of a line. Each has characters of its own that it does
not pass on as they are (`readDouble_inert`, `echoed_of_noEscape`, `words_plain`).
-/

namespace Boot2Deb.Shell
open Rust

/-! ### Double quotes -/

/-- The characters a backslash takes their meaning from, within double quotes. -/
def isQuotable (c : Char) : Bool := c = '$' || c = '`' || c = '"' || c = '\\'

/-- The text behind an opening double quote and what follows the closing one, of a text that stands
for itself: none where the shell expands it, and where it is never closed. -/
def readDouble : Str → Option (Str × Str)
  | [] => none
  | c :: rest =>
    if c = '"' then some ([], rest)
    else if c = '$' ∨ c = '`' ∨ c = '\x00' then none
    else if c = '\\' then
      match rest with
      | [] => none
      | d :: rest' =>
        -- a newline behind a backslash continues the line
        if d = '\n' then readDouble rest'
        else if isQuotable d then (readDouble rest').map fun (value, rest) => (d :: value, rest)
        else (readDouble (d :: rest')).map fun (value, rest) => (c :: value, rest)
    else (readDouble rest).map fun (value, rest) => (c :: value, rest)

/-- Text that stands for itself between double quotes. -/
def Inert : Str → Prop
  | [] => True
  | c :: rest =>
    c ≠ '"' ∧ c ≠ '$' ∧ c ≠ '`' ∧ c ≠ '\x00' ∧
      (c = '\\' → rest ≠ [] ∧ rest.head? ≠ some '\\' ∧ rest.head? ≠ some '\n') ∧ Inert rest

def Inert.decide : (s : Str) → Decidable (Inert s)
  | [] => inferInstanceAs (Decidable True)
  | _ :: rest =>
    have := Inert.decide rest
    inferInstanceAs (Decidable (_ ∧ _ ∧ _ ∧ _ ∧ _ ∧ _))

instance : DecidablePred Inert := Inert.decide

variable {s t v rest : Str} {c d : Char}

theorem Inert.of_append (h : Inert (s ++ t)) : Inert t := by
  induction s with
  | nil => exact h
  | cons c s ih => exact ih h.2.2.2.2.2

/-- No character of the four, and no backslash: such text is inert. -/
theorem inert_of_forall (h : ∀ c ∈ s, c ≠ '"' ∧ c ≠ '$' ∧ c ≠ '`' ∧ c ≠ '\x00' ∧ c ≠ '\\') :
    Inert s := by
  induction s with
  | nil => exact trivial
  | cons c s ih =>
    rw [List.forall_mem_cons] at h
    obtain ⟨⟨hquote, hdollar, htick, hnul, hslash⟩, hrest⟩ := h
    exact ⟨hquote, hdollar, htick, hnul, fun heq => absurd heq hslash, ih hrest⟩

theorem readDouble_char (hquote : c ≠ '"') (hspecial : ¬(c = '$' ∨ c = '`' ∨ c = '\x00'))
    (hslash : c ≠ '\\') (s : Str) :
    readDouble (c :: s) = (readDouble s).map fun (value, rest) => (c :: value, rest) := by
  rw [readDouble.eq_def]
  simp only [if_neg hquote, if_neg hspecial, if_neg hslash]

/-- A backslash that nothing takes its meaning from is a character like any other. -/
theorem readDouble_slash (hd : d ≠ '\n') (hquotable : isQuotable d = false) (s : Str) :
    readDouble ('\\' :: d :: s) =
      (readDouble (d :: s)).map fun (value, rest) => ('\\' :: value, rest) := by
  rw [readDouble.eq_def]
  simp [hd, hquotable]

theorem readDouble_inert (h : Inert s) (rest : Str) :
    readDouble (s ++ '"' :: rest) = some (s, rest) := by
  induction s with
  | nil => rw [List.nil_append, readDouble.eq_def]; simp
  | cons c s ih =>
    obtain ⟨hquote, hdollar, htick, hnul, hpair, hrest⟩ := h
    have hread := ih hrest
    rw [List.cons_append]
    by_cases hslash : c = '\\'
    · subst hslash
      obtain ⟨hne, hdouble, hnewline⟩ := hpair rfl
      obtain ⟨d, s, rfl⟩ := List.exists_cons_of_ne_nil hne
      have hquotable : isQuotable d = false := by
        obtain ⟨hq, hdol, ht, -⟩ := hrest
        simp only [isQuotable, Bool.or_eq_false_iff, decide_eq_false_iff_not]
        exact ⟨⟨⟨hdol, ht⟩, hq⟩, fun heq => hdouble (heq ▸ rfl)⟩
      rw [List.cons_append] at hread ⊢
      rw [readDouble_slash (fun heq => hnewline (heq ▸ rfl)) hquotable, hread]
      rfl
    · rw [readDouble_char hquote (by tauto) hslash, hread]
      rfl

/-- Text read between double quotes: it got shorter, or it was inert, or its last backslash took
the quote behind it and the reading went on to the next one, here behind a sign. -/
theorem readDouble_cases {plain rest' : Str} {last : Char} (hlast : plain.getLast? = some last)
    (hplain : Inert plain) (h : readDouble (s ++ '"' :: (plain ++ '"' :: rest')) = some (v, rest)) :
    v.length < s.length ∨ (v = s ∧ Inert s ∧ rest = plain ++ '"' :: rest') ∨
      (v.getLast? = some last ∧ s.getLast? = some '\\') := by
  have hcons : ∀ {x y : Str} {a z : Char}, x.getLast? = some z → (a :: x).getLast? = some z :=
    fun {x y a z} hx => by
      rw [List.getLast?_cons, hx]
      rfl
  induction hn : s.length using Nat.strong_induction_on generalizing s v with
  | _ n ih =>
    cases s with
    | nil =>
      rw [List.nil_append, readDouble.eq_def] at h
      simp only [if_true, Option.some.injEq, Prod.mk.injEq] at h
      exact .inr (.inl ⟨h.1.symm, trivial, h.2.symm⟩)
    | cons c s =>
      rw [List.length_cons] at hn
      by_cases hquote : c = '"'
      · rw [hquote, List.cons_append, readDouble.eq_def] at h
        simp only [if_true, Option.some.injEq, Prod.mk.injEq] at h
        exact .inl (by rw [← h.1]; exact hn ▸ Nat.succ_pos _)
      by_cases hspecial : c = '$' ∨ c = '`' ∨ c = '\x00'
      · rw [List.cons_append, readDouble.eq_def] at h
        simp only [if_neg hquote, if_pos hspecial] at h
        exact nomatch h
      by_cases hslash : c = '\\'
      · subst hslash
        cases s with
        | nil =>
          have hread : readDouble ('\\' :: '"' :: (plain ++ '"' :: rest')) =
              some ('"' :: plain, rest') := by
            rw [readDouble.eq_def]
            simp [isQuotable, readDouble_inert hplain]
          rw [List.singleton_append, hread] at h
          obtain ⟨rfl, -⟩ := Prod.mk.inj (Option.some.inj h)
          exact .inr (.inr ⟨@hcons plain [] _ _ hlast, rfl⟩)
        | cons d s =>
          rw [List.length_cons] at hn
          by_cases hnewline : d = '\n'
          · subst hnewline
            have hskip : readDouble ('\\' :: '\n' :: (s ++ '"' :: (plain ++ '"' :: rest'))) =
                readDouble (s ++ '"' :: (plain ++ '"' :: rest')) := by
              rw [readDouble.eq_def]
              simp
            rw [List.cons_append, List.cons_append, hskip] at h
            rcases ih s.length (by omega) h rfl with hlt | ⟨rfl, -⟩ | ⟨hv, hs⟩
            · exact .inl (by omega)
            · exact .inl (by omega)
            · exact .inr (.inr ⟨hv, @hcons _ [] _ _ (@hcons _ [] _ _ hs)⟩)
          by_cases hquotable : isQuotable d = true
          · have htake : readDouble ('\\' :: d :: (s ++ '"' :: (plain ++ '"' :: rest'))) =
                (readDouble (s ++ '"' :: (plain ++ '"' :: rest'))).map
                  fun (value, rest) => (d :: value, rest) := by
              rw [readDouble.eq_def]
              simp [hnewline, hquotable]
            rw [List.cons_append, List.cons_append, htake] at h
            obtain ⟨⟨v', r⟩, hread, heq⟩ := Option.map_eq_some_iff.mp h
            obtain ⟨rfl, rfl⟩ := Prod.mk.inj heq
            rw [List.length_cons]
            rcases ih s.length (by omega) hread rfl with hlt | ⟨rfl, -⟩ | ⟨hv, hs⟩
            · exact .inl (by omega)
            · exact .inl (by omega)
            · exact .inr (.inr ⟨@hcons _ [] _ _ hv, @hcons _ [] _ _ (@hcons _ [] _ _ hs)⟩)
          · rw [List.cons_append, List.cons_append,
              readDouble_slash hnewline (by simpa using hquotable)] at h
            obtain ⟨⟨v', r⟩, hread, heq⟩ := Option.map_eq_some_iff.mp h
            obtain ⟨rfl, rfl⟩ := Prod.mk.inj heq
            have hread : readDouble (d :: s ++ '"' :: (plain ++ '"' :: rest')) = some (v', r) := hread
            rw [List.length_cons]
            rcases ih (d :: s).length (by simp; omega) hread rfl with hlt | ⟨rfl, hinert, hr⟩ | ⟨hv, hs⟩
            · exact .inl (by rw [List.length_cons] at hlt; omega)
            · refine .inr (.inl ⟨rfl, ⟨by decide, by decide, by decide, by decide, fun _ => ?_,
                hinert⟩, hr⟩)
              refine ⟨List.cons_ne_nil _ _, fun heq => hquotable ?_, fun heq => hnewline ?_⟩
              · rw [Option.some.inj heq]
                rfl
              · exact Option.some.inj heq
            · exact .inr (.inr ⟨@hcons _ [] _ _ hv, @hcons _ [] _ _ hs⟩)
      · rw [List.cons_append, readDouble_char hquote hspecial hslash] at h
        obtain ⟨⟨v', r⟩, hread, heq⟩ := Option.map_eq_some_iff.mp h
        obtain ⟨rfl, rfl⟩ := Prod.mk.inj heq
        rw [List.length_cons]
        rcases ih s.length (by omega) hread rfl with hlt | ⟨rfl, hinert, hr⟩ | ⟨hv, hs⟩
        · exact .inl (by omega)
        · exact .inr (.inl ⟨rfl, ⟨hquote, by tauto, by tauto, by tauto,
            fun heq => absurd heq hslash, hinert⟩, hr⟩)
        · exact .inr (.inr ⟨@hcons _ [] _ _ hv, @hcons _ [] _ _ hs⟩)

/-! ### A sourced file -/

def isNameChar (c : Char) : Bool := c.isAlphanum || c == '_'

/-- A name a variable may have. -/
def isName (s : Str) : Bool := s.all isNameChar && s.head?.any fun c => !c.isDigit

/-- The assignments a file makes that is made of comments and of assignments of one double-quoted
text each: none where anything else stands in it. -/
def sourceFrom : ℕ → Str → Option (List (Str × Str))
  | 0, _ => none
  | _ + 1, [] => some []
  | fuel + 1, c :: s =>
    if c = '#' then sourceFrom fuel (s.dropWhile (· ≠ '\n')).tail
    else
      let name := (c :: s).takeWhile isNameChar
      match (c :: s).dropWhile isNameChar with
      | '=' :: '"' :: text =>
        match readDouble text with
        | some (value, '\n' :: rest) =>
          if isName name then (sourceFrom fuel rest).map ((name, value) :: ·) else none
        | _ => none
      | _ => none

/-- `. file`. -/
def source (text : Str) : Option (List (Str × Str)) := sourceFrom (text.length + 1) text

variable {fuel : ℕ} {name : Str} {assigned : List (Str × Str)}

theorem sourceFrom_comment {comment : Str} (h : '\n' ∉ comment) :
    sourceFrom (fuel + 1) ('#' :: (comment ++ '\n' :: rest)) = sourceFrom fuel rest := by
  have hcut : (comment ++ '\n' :: rest).dropWhile (· ≠ '\n') = '\n' :: rest := by
    rw [List.dropWhile_append_of_pos fun c hc => decide_eq_true (ne_of_mem_of_not_mem hc h)]
    rfl
  rw [sourceFrom.eq_def]
  simp only [if_true]
  rw [hcut]
  rfl

theorem not_isNameChar_eq : isNameChar '=' = false := by decide

/-- The line of an assignment, by what its text reads as. -/
theorem sourceFrom_assign (hname : isName name = true) (text : Str) :
    sourceFrom (fuel + 1) (name ++ '=' :: '"' :: text) =
      match readDouble text with
      | some (value, '\n' :: rest) => (sourceFrom fuel rest).map ((name, value) :: ·)
      | _ => none := by
  cases name with
  | nil => exact absurd hname Bool.false_ne_true
  | cons c cs =>
    have hall := (Bool.and_eq_true_iff.mp hname).1
    have hc : c ≠ '#' := by
      rintro rfl
      have hfirst := List.all_eq_true.mp hall _ (List.mem_cons_self)
      exact absurd hfirst (by decide)
    have htake : (c :: (cs ++ '=' :: '"' :: text)).takeWhile isNameChar = c :: cs := by
      have h := @List.takeWhile_append_of_pos _ _ _ ('=' :: '"' :: text) (List.all_eq_true.mp hall)
      simpa [not_isNameChar_eq] using h
    have hdrop : (c :: (cs ++ '=' :: '"' :: text)).dropWhile isNameChar = '=' :: '"' :: text := by
      have h := @List.dropWhile_append_of_pos _ _ _ ('=' :: '"' :: text) (List.all_eq_true.mp hall)
      simpa [not_isNameChar_eq] using h
    rw [List.cons_append, sourceFrom.eq_def]
    simp only [if_neg hc, htake, hdrop, hname, if_true]

/-! ### `echo` -/

/-- The characters that make an escape of the backslash before them, for dash's `echo`. -/
def ECHO_ESCAPES : Str := "\\abcfnrtv01234567".toList

def isOctal (c : Char) : Bool := 0x30 ≤ c.toNat && c.toNat ≤ 0x37

/-- The escapes of one letter. -/
def letterEscape (c : Char) : Option Char :=
  [('\\', '\\'), ('a', '\x07'), ('b', '\x08'), ('f', '\x0c'), ('n', '\n'), ('r', '\r'),
    ('t', '\t'), ('v', '\x0b')].lookup c

/-- The octal digits of an escape: three, behind a zero that does not count. -/
def octalDigits (s : Str) : Str :=
  (s.takeWhile isOctal).take (if s.head? = some '0' then 4 else 3)

/-- What a character is written as, with the number of the characters behind it that belong to it:
none for the escape that ends the output. -/
def escape (c : Char) (rest : Str) : Option (Char × ℕ) :=
  if c ≠ '\\' then some (c, 0)
  else
    match rest with
    | [] => some (c, 0)
    | d :: _ =>
      if d = 'c' then none
      else if isOctal d then
        let digits := octalDigits rest
        some (.ofNat (digits.foldl (fun n d => 8 * n + (d.toNat - 0x30)) 0 % 256), digits.length)
      else
        match letterEscape d with
        | some e => some (e, 1)
        | none => some (c, 0)

/-- The output of a text from behind so many characters on, and whether it was cut off. -/
def echoed : ℕ → Str → Str × Bool
  | _, [] => ([], false)
  | skip + 1, _ :: rest => echoed skip rest
  | 0, c :: rest =>
    match escape c rest with
    | none => ([], true)
    | some (e, skip) => (e :: (echoed skip rest).1, (echoed skip rest).2)

/-- `echo "text"`: a text that was cut off is not ended by a newline. -/
def echo (text : Str) : Str :=
  let (out, cut) := echoed 0 text
  if cut then out else out ++ ['\n']

/-- No backslash before a character that makes an escape of it. -/
def NoEscape (s : Str) : Prop := ∀ d ∈ ECHO_ESCAPES, ¬['\\', d] <:+: s

instance : DecidablePred NoEscape := fun s =>
  List.decidableBAll (fun d => ¬['\\', d] <:+: s) ECHO_ESCAPES

theorem noEscape_nil : NoEscape [] := fun _ _ h => by
  have hlen := h.length_le
  simp at hlen

theorem noEscape_cons : NoEscape (c :: s) ↔
    (c = '\\' → ∀ d, s.head? = some d → d ∉ ECHO_ESCAPES) ∧ NoEscape s := by
  constructor
  · intro h
    refine ⟨?_, fun d hd hwithin => h d hd (List.infix_cons hwithin)⟩
    rintro rfl d hhead hd
    obtain ⟨rest, rfl⟩ : ∃ rest, s = d :: rest := by
      cases s with
      | nil => exact nomatch hhead
      | cons e rest => exact ⟨rest, by rw [Option.some.inj hhead]⟩
    exact h d hd ⟨[], rest, rfl⟩
  · rintro ⟨hhead, htail⟩ d hd hwithin
    rcases List.infix_cons_iff.mp hwithin with hprefix | hwithin
    · obtain ⟨rest, hrest⟩ := hprefix
      obtain ⟨rfl, hs⟩ := List.cons.inj hrest
      exact hhead rfl d (by rw [← hs]; rfl) hd
    · exact htail d hd hwithin

theorem noEscape_of_not_mem (h : '\\' ∉ s) : NoEscape s := fun _ _ hwithin =>
  h (hwithin.subset List.mem_cons_self)

/-- Behind a text with no backslash. -/
theorem noEscape_append_left (h : '\\' ∉ s) : NoEscape (s ++ t) ↔ NoEscape t := by
  induction s with
  | nil => rfl
  | cons c s ih =>
    rw [List.mem_cons, not_or] at h
    rw [List.cons_append, noEscape_cons, ih h.2]
    exact and_iff_right fun heq => absurd heq.symm h.1

/-- Ahead of a character that makes no escape and a text with no backslash. -/
theorem noEscape_append_right (hc : c ∉ ECHO_ESCAPES) (hslash : c ≠ '\\') (ht : '\\' ∉ t) :
    NoEscape (s ++ c :: t) ↔ NoEscape s := by
  induction s with
  | nil =>
    refine iff_of_true (noEscape_of_not_mem ?_) noEscape_nil
    rw [List.nil_append, List.mem_cons, not_or]
    exact ⟨hslash.symm, ht⟩
  | cons d s ih =>
    rw [List.cons_append, noEscape_cons, noEscape_cons, ih]
    refine and_congr_left fun _ => ?_
    cases s with
    | nil =>
      refine iff_of_true (fun _ e he => ?_) fun _ e he => nomatch he
      rw [← Option.some.inj he]
      exact hc
    | cons e s => rfl

theorem mem_ECHO_ESCAPES_of_isOctal (h : isOctal c = true) : c ∈ ECHO_ESCAPES := by
  have hdigits : ∀ n, 0x30 ≤ n → n ≤ 0x37 → Char.ofNat n ∈ ECHO_ESCAPES := by
    intro n hlow hhigh
    interval_cases n <;> decide
  rw [isOctal, Bool.and_eq_true, decide_eq_true_eq, decide_eq_true_eq] at h
  have hc := hdigits c.toNat h.1 h.2
  rwa [Char.ofNat_toNat] at hc

theorem letterEscape_of_not_mem (h : c ∉ ECHO_ESCAPES) : letterEscape c = none := by
  cases hc : letterEscape c with
  | none => rfl
  | some e =>
    have hkeys : ∀ row ∈ [('\\', '\\'), ('a', '\x07'), ('b', '\x08'), ('f', '\x0c'),
        ('n', '\n'), ('r', '\r'), ('t', '\t'), ('v', '\x0b')], row.1 ∈ ECHO_ESCAPES := by
      decide
    obtain ⟨l₁, l₂, hl, -⟩ := List.lookup_eq_some_iff.mp hc
    exact absurd (hkeys (c, e) (hl ▸ by simp)) h

theorem escape_of_not_mem (h : c = '\\' → ∀ d, s.head? = some d → d ∉ ECHO_ESCAPES) :
    escape c s = some (c, 0) := by
  by_cases hc : c = '\\'
  · cases s with
    | nil => rw [escape.eq_def, if_neg (not_not.mpr hc)]
    | cons d s =>
      have hd := h hc d rfl
      have hcut : d ≠ 'c' := by
        rintro rfl
        exact hd (by decide)
      have hoctal : ¬isOctal d = true := fun h => hd (mem_ECHO_ESCAPES_of_isOctal h)
      rw [escape.eq_def, if_neg (not_not.mpr hc)]
      simp only [if_neg hcut, if_neg hoctal, letterEscape_of_not_mem hd]
  · rw [escape.eq_def, if_pos hc]

/-- A text without escapes is written as it is, ahead of what follows. -/
theorem echoed_append (hs : NoEscape s) (hlast : s.getLast? ≠ some '\\') (t : Str) :
    echoed 0 (s ++ t) = (s ++ (echoed 0 t).1, (echoed 0 t).2) := by
  induction s with
  | nil => rfl
  | cons c s ih =>
    obtain ⟨hpair, hrest⟩ := noEscape_cons.mp hs
    have hhead : c = '\\' → ∀ d, (s ++ t).head? = some d → d ∉ ECHO_ESCAPES := by
      rintro rfl d hd
      cases s with
      | nil => exact absurd rfl hlast
      | cons e s => exact hpair rfl d hd
    have htail : s.getLast? ≠ some '\\' := fun h => hlast (by
      rw [List.getLast?_cons, h]
      rfl)
    rw [List.cons_append, echoed, escape_of_not_mem hhead]
    simp only [ih hrest htail, List.cons_append]

/-- A text without escapes is written as it is. -/
theorem echoed_of_noEscape (h : NoEscape s) : echoed 0 s = (s, false) := by
  induction s with
  | nil => rfl
  | cons c s ih =>
    obtain ⟨hpair, hrest⟩ := noEscape_cons.mp h
    rw [echoed, escape_of_not_mem hpair]
    simp only [ih hrest]

theorem echo_of_noEscape (h : NoEscape s) : echo s = s ++ ['\n'] := by
  rw [echo, echoed_of_noEscape h]
  rfl

theorem echoed_tab (s : Str) :
    echoed 0 ('\\' :: 't' :: s) = ('\t' :: (echoed 0 s).1, (echoed 0 s).2) := rfl

theorem echoed_newline (s : Str) :
    echoed 0 ('\\' :: 'n' :: s) = ('\n' :: (echoed 0 s).1, (echoed 0 s).2) := rfl

theorem echo_tab (h : NoEscape s) : echo ('\\' :: 't' :: s) = '\t' :: s ++ ['\n'] := by
  rw [echo, echoed_tab, echoed_of_noEscape h]
  rfl

theorem length_octalDigits_le (s : Str) : (octalDigits s).length ≤ s.length := by
  rw [octalDigits]
  exact (List.length_take_le' _ _).trans (List.takeWhile_sublist _).length_le

/-- What belongs to an escape is there. -/
theorem escape_le {e : Char} {n : ℕ} (h : escape c s = some (e, n)) : n ≤ s.length := by
  rw [escape.eq_def] at h
  split_ifs at h
  · rw [← (Prod.mk.inj (Option.some.inj h)).2]
    exact Nat.zero_le _
  · cases s with
    | nil =>
      rw [← (Prod.mk.inj (Option.some.inj h)).2]
      exact Nat.zero_le _
    | cons d s =>
      simp only at h
      split_ifs at h
      · rw [← (Prod.mk.inj (Option.some.inj h)).2]
        exact length_octalDigits_le _
      · cases hd : letterEscape d with
        | none =>
          rw [hd] at h
          rw [← (Prod.mk.inj (Option.some.inj h)).2]
          exact Nat.zero_le _
        | some x =>
          rw [hd] at h
          rw [← (Prod.mk.inj (Option.some.inj h)).2, List.length_cons]
          exact Nat.succ_pos _

theorem length_echoed_le (skip : ℕ) (s : Str) : (echoed skip s).1.length ≤ s.length - skip := by
  induction s generalizing skip with
  | nil =>
    rw [echoed]
    exact Nat.zero_le _
  | cons c s ih =>
    cases skip with
    | succ skip =>
      have h := ih skip
      rw [echoed, List.length_cons]
      omega
    | zero =>
      rw [echoed]
      cases hc : escape c s with
      | none => exact Nat.zero_le _
      | some en =>
        obtain ⟨e, n⟩ := en
        have h := ih n
        simp only [List.length_cons]
        omega

/-- Where nothing behind a character belongs to it, it makes no escape. -/
theorem not_mem_of_escape {e : Char} (h : escape c s = some (e, 0)) :
    c = '\\' → ∀ d, s.head? = some d → d ∉ ECHO_ESCAPES := by
  rintro rfl d hhead hd
  obtain ⟨rest, rfl⟩ : ∃ rest, s = d :: rest := by
    cases s with
    | nil => exact nomatch hhead
    | cons e rest => exact ⟨rest, by rw [Option.some.inj hhead]⟩
  have hkinds : ECHO_ESCAPES.all (fun d => d = 'c' || isOctal d || (letterEscape d).isSome) :=
    by decide +kernel
  have hkind := List.all_eq_true.mp hkinds d hd
  rw [Bool.or_eq_true, Bool.or_eq_true, decide_eq_true_eq] at hkind
  rw [escape.eq_def, if_neg (not_not.mpr rfl)] at h
  simp only at h
  rcases hkind with (rfl | hoctal) | hletter
  · rw [if_pos rfl] at h
    exact nomatch h
  · have hcut : d ≠ 'c' := by
      rintro rfl
      exact absurd hoctal (by decide)
    have hone : 0 < (octalDigits (d :: rest)).length := by
      rw [octalDigits, List.takeWhile_cons_of_pos hoctal]
      split_ifs <;> simp
    rw [if_neg hcut, if_pos hoctal] at h
    have hlen := (Prod.mk.inj (Option.some.inj h)).2
    omega
  · obtain ⟨x, hx⟩ := Option.isSome_iff_exists.mp hletter
    rw [hx] at h
    split_ifs at h with hcut hoctal
    · have hone : 0 < (octalDigits (d :: rest)).length := by
        rw [octalDigits, List.takeWhile_cons_of_pos hoctal]
        split_ifs <;> simp
      have hlen := (Prod.mk.inj (Option.some.inj h)).2
      omega
    · exact absurd (Prod.mk.inj (Option.some.inj h)).2 (by decide)

/-- An escape makes the text shorter. -/
theorem length_echoed_lt (h : ¬NoEscape s) : (echoed 0 s).1.length < s.length := by
  induction s with
  | nil => exact absurd noEscape_nil h
  | cons c s ih =>
    rw [echoed]
    cases hc : escape c s with
    | none => exact Nat.succ_pos _
    | some en =>
      obtain ⟨e, n⟩ := en
      have hle := length_echoed_le n s
      have hn := escape_le hc
      simp only [List.length_cons]
      cases n with
      | succ n => omega
      | zero =>
        have hrest : ¬NoEscape s := fun hs => h (noEscape_cons.mpr ⟨not_mem_of_escape hc, hs⟩)
        have hlt := ih hrest
        omega

theorem length_echo_tab_lt (h : ¬NoEscape s) :
    (echo ('\\' :: 't' :: s)).length < s.length + 2 := by
  have hlt := length_echoed_lt h
  rw [echo, echoed_tab]
  simp only
  split_ifs
  · rw [List.length_cons]
    omega
  · rw [List.length_append, List.length_cons, List.length_singleton]
    omega

/-! ### Shell words -/

/-- How the text of a word is quoted. -/
inductive Quote where
  | none | single | double
deriving DecidableEq

/-- What separates words: a blank, or the end of a line. -/
def isSeparator (c : Char) : Bool := c = ' ' || c = '\t' || c = '\r' || c = '\n'

/-- The words of a text, as `shlex.split` reads it, with the word that was begun: none where a quote
is not closed or a backslash stands last. -/
def wordsFrom : Quote → Option Str → Str → Option (List Str)
  | .none, word, [] => some word.toList
  | _, _, [] => Option.none
  | .none, word, c :: rest =>
    if isSeparator c then (wordsFrom .none Option.none rest).map (word.toList ++ ·)
    else if c = '\'' then wordsFrom .single (some (word.getD [])) rest
    else if c = '"' then wordsFrom .double (some (word.getD [])) rest
    else if c = '\\' then
      match rest with
      | [] => Option.none
      | d :: rest => wordsFrom .none (some (word.getD [] ++ [d])) rest
    else wordsFrom .none (some (word.getD [] ++ [c])) rest
  | .single, word, c :: rest =>
    if c = '\'' then wordsFrom .none word rest
    else wordsFrom .single (some (word.getD [] ++ [c])) rest
  | .double, word, c :: rest =>
    if c = '"' then wordsFrom .none word rest
    else if c = '\\' then
      match rest with
      | [] => Option.none
      | d :: rest =>
        wordsFrom .double
          (some (word.getD [] ++ if d = '"' ∨ d = '\\' then [d] else ['\\', d])) rest
    else wordsFrom .double (some (word.getD [] ++ [c])) rest

/-- The words of a line by shell word rules. -/
def words (s : Str) : Option (List Str) := wordsFrom .none none s

/-- A quote of either kind, or a backslash. -/
def isQuoting (c : Char) : Bool := c = '\'' || c = '"' || c = '\\'

/-- How many of the characters quote. -/
def quoting (s : Str) : ℕ := s.countP isQuoting

/-- Without quotes the words are what stands between separators. -/
theorem wordsFrom_plain {word : Option Str} (hs : ∀ c ∈ s, isQuoting c = false)
    (hword : ∀ w ∈ word, w ≠ [] ∧ ∀ c ∈ w, isSeparator c = false) :
    wordsFrom .none word s =
      some (((word.getD [] ++ s).splitOnP isSeparator).filter (!·.isEmpty)) := by
  induction s generalizing word with
  | nil =>
    cases word with
    | none => rfl
    | some w =>
      obtain ⟨hne, hw⟩ := hword w rfl
      rw [wordsFrom, Option.getD_some, List.append_nil, List.splitOnP_eq_singleton hw,
        List.filter_cons_of_pos (by simpa using hne)]
      rfl
  | cons c s ih =>
    rw [List.forall_mem_cons] at hs
    obtain ⟨hc, hs⟩ := hs
    rw [isQuoting, Bool.or_eq_false_iff, Bool.or_eq_false_iff, decide_eq_false_iff_not,
      decide_eq_false_iff_not, decide_eq_false_iff_not] at hc
    rw [wordsFrom.eq_def]
    simp only [if_neg hc.1.1, if_neg hc.1.2, if_neg hc.2]
    by_cases hsep : isSeparator c = true
    · have hrest := ih hs fun w (hw : w ∈ none) => nomatch hw
      rw [if_pos hsep, hrest]
      cases word with
      | none =>
        rw [Option.getD_none, List.nil_append, List.nil_append, List.splitOnP_cons_eq_if_modifyHead,
          if_pos hsep]
        rfl
      | some w =>
        obtain ⟨hne, hw⟩ := hword w rfl
        rw [Option.getD_some, List.splitOnP_append_cons_of_forall_mem hw c hsep,
          List.filter_cons_of_pos (by simpa using hne)]
        rfl
    · rw [if_neg hsep, ih hs fun w hw => ?_]
      · rw [Option.getD_some, List.append_assoc]
        rfl
      · rw [← Option.some.inj hw]
        refine ⟨by simp, fun d hd => ?_⟩
        rcases List.mem_append.mp hd with hd | hd
        · cases word with
          | none => exact nomatch hd
          | some w => exact (hword w rfl).2 d hd
        · rw [List.mem_singleton.mp hd]
          simpa using hsep

theorem words_plain (h : ∀ c ∈ s, isQuoting c = false) :
    words s = some ((s.splitOnP isSeparator).filter (!·.isEmpty)) := by
  have hword : ∀ w ∈ (none : Option Str), w ≠ [] ∧ ∀ c ∈ w, isSeparator c = false :=
    fun w hw => nomatch hw
  rw [words, wordsFrom_plain h hword, Option.getD_none, List.nil_append]

theorem quoting_append (s t : Str) : quoting (s ++ t) = quoting s + quoting t := List.countP_append

theorem quoting_cons (c : Char) (s : Str) :
    quoting (c :: s) = quoting s + if isQuoting c then 1 else 0 := List.countP_cons

theorem quoting_nil : quoting [] = 0 := rfl

theorem quoting_flatten_toList (word : Option Str) :
    quoting word.toList.flatten = quoting (word.getD []) := by
  cases word <;> simp

/-- No more quotes come out than are in the text, and fewer where one is closed or met. -/
theorem quoting_wordsFrom {q : Quote} {word : Option Str} {ws : List Str}
    (h : wordsFrom q word s = some ws) :
    quoting ws.flatten ≤ quoting (word.getD []) + quoting s ∧
      (q ≠ .none ∨ 0 < quoting s → quoting ws.flatten < quoting (word.getD []) + quoting s) := by
  have hsingle : isQuoting '\'' = true := by decide
  have hdouble : isQuoting '"' = true := by decide
  have hslash : isQuoting '\\' = true := by decide
  fun_induction wordsFrom q word s generalizing ws with
  | case1 word =>
    obtain rfl := Option.some.inj h
    rw [quoting_flatten_toList, quoting_nil]
    exact ⟨le_rfl, fun hq => absurd hq (by simp)⟩
  | case2 => exact nomatch h
  | case3 word c rest hsep ih =>
    have hc : isQuoting c = false := by
      simp only [isSeparator, Bool.or_eq_true, decide_eq_true_eq] at hsep
      rcases hsep with ((rfl | rfl) | rfl) | rfl <;> decide
    obtain ⟨ws, hws, rfl⟩ := Option.map_eq_some_iff.mp h
    have hrest := ih hws
    rw [List.flatten_append, quoting_append, quoting_flatten_toList, quoting_cons, hc]
    simp only [Option.getD_none, quoting_nil, ne_eq, not_true_eq_false, false_or] at hrest ⊢
    simp only [Bool.false_eq_true, if_false]
    omega
  | case4 word rest hsep ih =>
    have hrest := (ih h).2 (.inl (by decide))
    rw [quoting_cons, if_pos hsingle]
    rw [Option.getD_some] at hrest
    omega
  | case5 word rest hsep hne ih =>
    have hrest := (ih h).2 (.inl (by decide))
    rw [quoting_cons, if_pos hdouble]
    rw [Option.getD_some] at hrest
    omega
  | case6 => exact nomatch h
  | case7 word d rest hsep hne hne' ih =>
    have hrest := (ih h).1
    rw [quoting_cons, if_pos hslash, quoting_cons]
    rw [Option.getD_some, quoting_append, quoting_cons, quoting_nil] at hrest
    omega
  | case8 word c rest hsep hne hne' hslash' ih =>
    have hc : isQuoting c = false := by simp [isQuoting, hne, hne', hslash']
    have hrest := ih h
    rw [Option.getD_some, quoting_append, quoting_cons, quoting_nil, hc] at hrest
    rw [quoting_cons, hc]
    simp only [ne_eq, not_true_eq_false, false_or, Bool.false_eq_true, if_false] at hrest ⊢
    omega
  | case9 word rest ih =>
    have hrest := (ih h).1
    rw [quoting_cons, if_pos hsingle]
    omega
  | case10 word c rest hne ih =>
    have hrest := (ih h).2 (.inl (by decide))
    rw [Option.getD_some, quoting_append, quoting_cons, quoting_nil] at hrest
    rw [quoting_cons]
    omega
  | case11 word rest ih =>
    have hrest := (ih h).1
    rw [quoting_cons, if_pos hdouble]
    omega
  | case12 => exact nomatch h
  | case13 word d rest hne ih =>
    have hrest := (ih h).2 (.inl (by decide))
    have hd : quoting (if d = '"' ∨ d = '\\' then [d] else ['\\', d]) ≤
        quoting [d] + 1 := by
      split_ifs
      · exact Nat.le_succ _
      · rw [quoting_cons, if_pos hslash]
    rw [Option.getD_some, quoting_append] at hrest
    rw [quoting_cons, if_pos hslash, quoting_cons]
    rw [quoting_cons, quoting_nil] at hd
    omega
  | case14 word c rest hne hslash' ih =>
    have hrest := (ih h).2 (.inl (by decide))
    rw [Option.getD_some, quoting_append, quoting_cons, quoting_nil] at hrest
    rw [quoting_cons]
    omega

/-! ### Words and white space -/

/-- The pieces between separators hold all that does not separate. -/
theorem flatten_pieces (sep : Char → Bool) (s : Str) :
    ((s.splitOnP sep).filter (!·.isEmpty)).flatten = s.filter (!sep ·) := by
  rw [List.flatten_filter_not_isEmpty]
  induction s with
  | nil => rfl
  | cons c s ih =>
    obtain ⟨first, rest, hs⟩ := List.exists_cons_of_ne_nil (List.splitOnP_ne_nil sep s)
    rw [hs, List.flatten_cons] at ih
    rw [List.splitOnP_cons_eq_if_modifyHead, hs, List.modifyHead_cons]
    cases hc : sep c with
    | true =>
      rw [if_pos rfl, List.filter_cons_of_neg (by simp [hc]), ← ih]
      rfl
    | false =>
      rw [if_neg Bool.false_ne_true, List.filter_cons_of_pos (by simp [hc]), ← ih]
      rfl

theorem splitOnP_congr {p q : Char → Bool} (h : ∀ c ∈ s, p c = q c) :
    s.splitOnP p = s.splitOnP q := by
  induction s with
  | nil => rfl
  | cons c s ih =>
    rw [List.forall_mem_cons] at h
    rw [List.splitOnP_cons_eq_if_modifyHead, List.splitOnP_cons_eq_if_modifyHead, h.1, ih h.2]

theorem isWhitespace_of_isSeparator (h : isSeparator c = true) : isWhitespace c = true := by
  simp only [isSeparator, Bool.or_eq_true, decide_eq_true_eq] at h
  rcases h with ((rfl | rfl) | rfl) | rfl <;> decide

theorem not_isQuoting_of_isWhitespace (h : isWhitespace c = true) : isQuoting c = false := by
  cases hc : isQuoting c with
  | false => rfl
  | true =>
    simp only [isQuoting, Bool.or_eq_true, decide_eq_true_eq] at hc
    rcases hc with (rfl | rfl) | rfl <;> exact absurd h (by decide)

theorem quoting_splitWhitespace (s : Str) : quoting (splitWhitespace s).flatten = quoting s := by
  rw [splitWhitespace, flatten_pieces, quoting, List.countP_filter, quoting]
  refine List.countP_congr fun c _ => ?_
  rw [Bool.and_eq_true, and_iff_left_iff_imp]
  intro hc
  cases hw : isWhitespace c with
  | false => rfl
  | true => exact absurd hc (by simp [not_isQuoting_of_isWhitespace hw])

/-- A text whose words are what stands between white space: no quote or backslash in it, and no
white space but separators. -/
theorem words_eq_splitWhitespace_iff : words s = some (splitWhitespace s) ↔
    ∀ c ∈ s, isQuoting c = false ∧ (isWhitespace c = true → isSeparator c = true) := by
  constructor
  · intro h
    have hquoting : quoting s = 0 := by
      have hlt := (quoting_wordsFrom h).2
      rw [quoting_splitWhitespace, Option.getD_none, quoting_nil] at hlt
      by_contra hne
      have hless := hlt (.inr (Nat.pos_of_ne_zero hne))
      omega
    have hplain : ∀ c ∈ s, isQuoting c = false := fun c hc => by
      simpa using List.countP_eq_zero.mp hquoting c hc
    rw [words_plain hplain] at h
    have hflat := congrArg List.flatten (Option.some.inj h)
    rw [splitWhitespace, flatten_pieces, flatten_pieces] at hflat
    refine fun c hc => ⟨hplain c hc, fun hwhite => ?_⟩
    cases hsep : isSeparator c with
    | true => rfl
    | false =>
      have hmem : c ∈ s.filter (!isSeparator ·) := List.mem_filter.mpr ⟨hc, by simp [hsep]⟩
      rw [hflat] at hmem
      simpa [hwhite] using (List.mem_filter.mp hmem).2
  · intro h
    rw [words_plain fun c hc => (h c hc).1, splitWhitespace,
      splitOnP_congr fun c hc => Bool.eq_iff_iff.mpr ⟨isWhitespace_of_isSeparator, (h c hc).2⟩]

end Boot2Deb.Shell
