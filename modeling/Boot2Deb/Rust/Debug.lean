import Boot2Deb.Rust.Str

/-!
# The debug format of strings

`{:?}` of a string puts it in quotes and escapes what could not be read back by Rust: quotes,
backslashes, a few controls by name, and by its number every character that is not printable or
that extends the one before it. Which these are is read off the tables of Unicode.
-/

namespace Boot2Deb.Rust

/-- The tables `char::escape_debug` looks into. On ASCII they are known. -/
structure CharTables where
  printable : Char → Bool
  graphemeExtended : Char → Bool
  graphic : ∀ c : Char, 0x20 ≤ c.toNat → c.toNat < 0x7f →
    printable c = true ∧ graphemeExtended c = false
  control : ∀ c : Char, c.toNat < 0x20 ∨ c.toNat = 0x7f → printable c = false

/-- `char::escape_unicode`. -/
def escapeUnicode (c : Char) : Str := '\\' :: 'u' :: '\x7b' :: (Nat.toDigits 16 c.toNat ++ ['\x7d'])

/-- `char::escape_debug`, as `{:?}` of a string uses it. -/
def escapeDebug (tables : CharTables) (c : Char) : Str :=
  if c = '\x00' then ['\\', '0']
  else if c = '\t' then ['\\', 't']
  else if c = '\r' then ['\\', 'r']
  else if c = '\n' then ['\\', 'n']
  else if c = '\\' then ['\\', '\\']
  else if c = '"' then ['\\', '"']
  else if tables.graphemeExtended c then escapeUnicode c
  else if tables.printable c then [c]
  else escapeUnicode c

/-- What stands between the quotes. -/
def escaped (tables : CharTables) (s : Str) : Str := s.flatMap (escapeDebug tables)

/-- `{:?}` of a string. -/
def debugStr (tables : CharTables) (s : Str) : Str := '"' :: (escaped tables s ++ ['"'])

/-- The characters that are written as they are, or by an escape of one letter other than that of
the null character. -/
def Plain (tables : CharTables) (c : Char) : Prop :=
  c = '\t' ∨ c = '\r' ∨ c = '\n' ∨ (tables.printable c = true ∧ tables.graphemeExtended c = false)

instance (tables : CharTables) : DecidablePred (Plain tables) := fun _ =>
  inferInstanceAs (Decidable (_ ∨ _))

def PlainStr (tables : CharTables) (s : Str) : Prop := ∀ c ∈ s, Plain tables c

instance (tables : CharTables) : DecidablePred (PlainStr tables) := fun s =>
  List.decidableBAll (Plain tables) s

section
variable {tables : CharTables} {c : Char} {s t : Str}

theorem PlainStr.append : PlainStr tables (s ++ t) ↔ PlainStr tables s ∧ PlainStr tables t :=
  List.forall_mem_append

/-- How a plain character is written: by one of five escapes, or as it is. -/
theorem escapeDebug_of_plain (h : Plain tables c) :
    (∃ letter, (c, letter) ∈ [('\t', 't'), ('\r', 'r'), ('\n', 'n'), ('\\', '\\'), ('"', '"')] ∧
      escapeDebug tables c = ['\\', letter]) ∨
    (c ≠ '\\' ∧ c ≠ '"' ∧ 0x20 ≤ c.toNat ∧ c.toNat ≠ 0x7f ∧ escapeDebug tables c = [c]) := by
  by_cases htab : c = '\t'
  · exact .inl ⟨'t', by simp [htab], by simp [escapeDebug, htab]⟩
  by_cases hcr : c = '\r'
  · exact .inl ⟨'r', by simp [hcr], by simp [escapeDebug, hcr]⟩
  by_cases hlf : c = '\n'
  · exact .inl ⟨'n', by simp [hlf], by simp [escapeDebug, hlf]⟩
  by_cases hslash : c = '\\'
  · exact .inl ⟨'\\', by simp [hslash], by simp [escapeDebug, hslash]⟩
  by_cases hquote : c = '"'
  · exact .inl ⟨'"', by simp [hquote], by simp [escapeDebug, hquote]⟩
  rcases h with h | h | h | ⟨hprint, hext⟩
  · exact absurd h htab
  · exact absurd h hcr
  · exact absurd h hlf
  have hcontrol : ¬(c.toNat < 0x20 ∨ c.toNat = 0x7f) := fun hc => by
    rw [tables.control c hc] at hprint
    exact absurd hprint Bool.false_ne_true
  have hnull : c ≠ '\x00' := fun heq => hcontrol (.inl (heq ▸ by decide))
  refine .inr ⟨hslash, hquote, by omega, by omega, ?_⟩
  rw [escapeDebug, if_neg hnull, if_neg htab, if_neg hcr, if_neg hlf, if_neg hslash,
    if_neg hquote, hext, if_neg Bool.false_ne_true, if_pos hprint]

/-- The others are written by `\0`, or by their number. -/
theorem escapeDebug_of_not_plain (h : ¬Plain tables c) :
    escapeDebug tables c = ['\\', '0'] ∨ escapeDebug tables c = escapeUnicode c := by
  rw [Plain, not_or, not_or, not_or] at h
  obtain ⟨htab, hcr, hlf, hchar⟩ := h
  rw [escapeDebug]
  by_cases hnull : c = '\x00'
  · exact .inl (if_pos hnull)
  have hslash : c ≠ '\\' := by
    rintro rfl
    exact hchar (tables.graphic _ (by decide) (by decide))
  have hquote : c ≠ '"' := by
    rintro rfl
    exact hchar (tables.graphic _ (by decide) (by decide))
  rw [if_neg hnull, if_neg htab, if_neg hcr, if_neg hlf, if_neg hslash, if_neg hquote]
  refine .inr ?_
  by_cases hext : tables.graphemeExtended c = true
  · rw [if_pos hext]
  · rw [if_neg hext, if_neg fun hprint => hchar ⟨hprint, by simpa using hext⟩]

theorem plain_of_graphic (hlow : 0x20 ≤ c.toNat) (hhigh : c.toNat < 0x7f) : Plain tables c :=
  .inr (.inr (.inr (tables.graphic c hlow hhigh)))

end

end Boot2Deb.Rust
