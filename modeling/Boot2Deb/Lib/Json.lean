import Boot2Deb.Rust.Str
import Boot2Deb.Lib.SortedMap

/-!
# JSON

Values, the compact text of a value, and a parser of JSON texts with a limit on the depth. The keys
of an object ascend; of a key that is repeated in a text the last value stays. Of the numbers only
those an unsigned 64-bit integer holds are told apart. The parser reads the compact text of a value
back: `parseText_render`.
-/

namespace Boot2Deb.Json

open Rust

/-- A number: an integer from 0 to `2 ^ 64 - 1`, or the text of any other. -/
inductive Number where
  | unsigned (n : UInt64)
  | other (text : Str)
deriving DecidableEq

inductive Value where
  | null
  | bool (b : Bool)
  | number (n : Number)
  | string (s : Str)
  | array (items : List Value)
  | object (fields : List (Str × Value))

/-! ### The compact text -/

def hexDigit (n : ℕ) : Char := Nat.digitChar n

/-- A character of a string literal: quotes, backslashes and control characters are escaped. -/
def quoteChar (c : Char) : Str :=
  if c = '"' then ['\\', '"']
  else if c = '\\' then ['\\', '\\']
  else if c.toNat < 0x20 then ['\\', 'u', '0', '0', hexDigit (c.toNat / 16), hexDigit (c.toNat % 16)]
  else [c]

def quote (s : Str) : Str := '"' :: (s.flatMap quoteChar ++ ['"'])

/-- The text of a value without any spaces. -/
def render : Value → Str
  | .null => ['n', 'u', 'l', 'l']
  | .bool true => ['t', 'r', 'u', 'e']
  | .bool false => ['f', 'a', 'l', 's', 'e']
  | .number (.unsigned n) => Nat.toDigits 10 n.toNat
  | .number (.other text) => text
  | .string s => quote s
  | .array items => '[' :: (join [','] (items.map render) ++ [']'])
  | .object fields =>
    '{' :: (join [','] (fields.map fun field => quote field.1 ++ ':' :: render field.2) ++ ['}'])
termination_by v => sizeOf v
decreasing_by
  all_goals simp_wf
  · have := List.sizeOf_lt_of_mem ‹_ ∈ items›
    omega
  · have := List.sizeOf_lt_of_mem ‹field ∈ fields›
    cases field
    simp at *
    omega

/-- Nested at most so deep, every number unsigned, the keys of every object ascending. -/
inductive Plain : ℕ → Value → Prop
  | null {d} : Plain d .null
  | bool {d} (b) : Plain d (.bool b)
  | number {d} (n) : Plain d (.number (.unsigned n))
  | string {d} (s) : Plain d (.string s)
  | array {d items} (h : ∀ v ∈ items, Plain d v) : Plain (d + 1) (.array items)
  | object {d fields} (h : ∀ field ∈ fields, Plain d field.2) (ascending : Ascending fields) :
    Plain (d + 1) (.object fields)

/-! ### Parsing -/

def isSpace (c : Char) : Bool := c = ' ' || c = '\t' || c = '\n' || c = '\r'

def skipSpace (s : Str) : Str := s.dropWhile isSpace

def hexValue (c : Char) : Option ℕ :=
  if c.isDigit then some (c.toNat - '0'.toNat)
  else if 'a' ≤ c ∧ c ≤ 'f' then some (c.toNat - 'a'.toNat + 10)
  else if 'A' ≤ c ∧ c ≤ 'F' then some (c.toNat - 'A'.toNat + 10)
  else none

/-- The number of four hexadecimal digits, and what follows them. -/
def hex4 : Str → Option (ℕ × Str)
  | a :: b :: c :: d :: s => do
    let a ← hexValue a
    let b ← hexValue b
    let c ← hexValue c
    let d ← hexValue d
    some (((a * 16 + b) * 16 + c) * 16 + d, s)
  | _ => none

/-- The character behind a backslash, other than `u`. -/
def unescape : Char → Option Char
  | '"' => some '"'
  | '\\' => some '\\'
  | '/' => some '/'
  | 'b' => some '\x08'
  | 'f' => some '\x0c'
  | 'n' => some '\n'
  | 'r' => some '\r'
  | 't' => some '\t'
  | _ => none

/-- The character of an escape `\u`, of which two stand for one beyond `U+FFFF`. -/
def escapedChar (s : Str) : Option (Char × Str) := do
  let (high, s) ← hex4 s
  if high < 0xd800 ∨ 0xdfff < high then some (Char.ofNat high, s)
  else if 0xdbff < high then none
  else match s with
    | '\\' :: 'u' :: s => do
      let (low, s) ← hex4 s
      if 0xdc00 ≤ low ∧ low ≤ 0xdfff then
        some (Char.ofNat (0x10000 + (high - 0xd800) * 0x400 + (low - 0xdc00)), s)
      else none
    | _ => none

/-- A string behind its opening quote, and what follows its closing one. -/
def parseString : ℕ → Str → Option (Str × Str)
  | 0, _ => none
  | fuel + 1, s =>
    match s with
    | [] => none
    | '"' :: s => some ([], s)
    | '\\' :: 'u' :: s => do
      let (c, s) ← escapedChar s
      let (cs, s) ← parseString fuel s
      some (c :: cs, s)
    | '\\' :: c :: s => do
      let c ← unescape c
      let (cs, s) ← parseString fuel s
      some (c :: cs, s)
    | c :: s => do
      if c.toNat < 0x20 then none
      let (cs, s) ← parseString fuel s
      some (c :: cs, s)

def isNumberChar (c : Char) : Bool :=
  c.isDigit || c = '+' || c = '-' || c = '.' || c = 'e' || c = 'E'

def isDigits (s : Str) : Bool := !s.isEmpty && s.all Char.isDigit

def isInteger (s : Str) : Bool := isDigits s && (s.length == 1 || s.head? != some '0')

def isExponent (s : Str) : Bool :=
  match s with
  | '+' :: s => isDigits s
  | '-' :: s => isDigits s
  | s => isDigits s

/-- A number that is no plain integer: with a sign, a fraction or an exponent, or too great. -/
def isNumber (s : Str) : Bool :=
  let s := match s with
    | '-' :: s => s
    | s => s
  let (mantissa, exponent) := (s.takeWhile fun c => c != 'e' && c != 'E',
    s.dropWhile fun c => c != 'e' && c != 'E')
  let (integer, fraction) := (mantissa.takeWhile (· != '.'), mantissa.dropWhile (· != '.'))
  isInteger integer && (fraction.isEmpty || isDigits fraction.tail) &&
    (exponent.isEmpty || isExponent exponent.tail)

/-- The number the longest run of the characters of numbers writes, and what follows. -/
def parseNumber (s : Str) : Option (Number × Str) :=
  let token := s.takeWhile isNumberChar
  let rest := s.dropWhile isNumberChar
  if isInteger token ∧ decimal token < 2 ^ 64 then
    some (.unsigned (UInt64.ofNat (decimal token)), rest)
  else if isNumber token then some (.other token, rest)
  else none

mutual

/-- A value and what follows it, with a limit on the depth. -/
def parseValue : ℕ → ℕ → Str → Option (Value × Str)
  | 0, _, _ => none
  | fuel + 1, depth, s =>
    match skipSpace s with
    | 'n' :: 'u' :: 'l' :: 'l' :: s => some (.null, s)
    | 't' :: 'r' :: 'u' :: 'e' :: s => some (.bool true, s)
    | 'f' :: 'a' :: 'l' :: 's' :: 'e' :: s => some (.bool false, s)
    | '"' :: s => (parseString (s.length + 1) s).map fun (t, s) => (.string t, s)
    | '[' :: s =>
      match depth with
      | 0 => none
      | depth + 1 =>
        match skipSpace s with
        | ']' :: s => some (.array [], s)
        | s => (parseItems fuel depth s).map fun (items, s) => (.array items, s)
    | '{' :: s =>
      match depth with
      | 0 => none
      | depth + 1 =>
        match skipSpace s with
        | '}' :: s => some (.object [], s)
        | s => (parseFields fuel depth s).map fun (fields, s) =>
          (.object (fields.foldl (fun rows row => insertRow row.1 row.2 rows) []), s)
    | s => (parseNumber s).map fun (n, s) => (.number n, s)

/-- One item or more, through the closing bracket. -/
def parseItems : ℕ → ℕ → Str → Option (List Value × Str)
  | 0, _, _ => none
  | fuel + 1, depth, s => do
    let (v, s) ← parseValue fuel depth s
    match skipSpace s with
    | ']' :: s => some ([v], s)
    | ',' :: s => do
      let (items, s) ← parseItems fuel depth s
      some (v :: items, s)
    | _ => none

/-- One field or more, through the closing brace. -/
def parseFields : ℕ → ℕ → Str → Option (List (Str × Value) × Str)
  | 0, _, _ => none
  | fuel + 1, depth, s =>
    match skipSpace s with
    | '"' :: s => do
      let (key, s) ← parseString (s.length + 1) s
      match skipSpace s with
      | ':' :: s => do
        let (v, s) ← parseValue fuel depth s
        match skipSpace s with
        | '}' :: s => some ([(key, v)], s)
        | ',' :: s => do
          let (fields, s) ← parseFields fuel depth s
          some ((key, v) :: fields, s)
        | _ => none
      | _ => none
    | _ => none

end

/-- The value of a whole text. -/
def parseText (depth : ℕ) (s : Str) : Option Value := do
  let (v, rest) ← parseValue (2 * s.length + 1) depth s
  if skipSpace rest = [] then some v else none

variable {c : Char} {s rest : Str} {fuel depth : ℕ} {v : Value}

/-! ### Reading the compact text back -/

theorem hexValue_hexDigit : ∀ n < 16, hexValue (hexDigit n) = some n := by decide

theorem escapedChar_control (h : c.toNat < 0x20) :
    escapedChar ('0' :: '0' :: hexDigit (c.toNat / 16) :: hexDigit (c.toNat % 16) :: rest) =
      some (c, rest) := by
  have hzero : hexValue '0' = some 0 := rfl
  have hhex : hex4 ('0' :: '0' :: hexDigit (c.toNat / 16) :: hexDigit (c.toNat % 16) :: rest) =
      some (c.toNat, rest) := by
    simp only [hex4, hzero, hexValue_hexDigit (c.toNat / 16) (by omega),
      hexValue_hexDigit (c.toNat % 16) (by omega), Option.bind_eq_bind, Option.bind_some]
    congr 2
    omega
  unfold escapedChar
  rw [hhex]
  show (if c.toNat < 0xd800 ∨ 0xdfff < c.toNat then some (Char.ofNat c.toNat, rest) else _) = _
  rw [if_pos (.inl (by omega)), Char.ofNat_toNat]

theorem parseString_quoteChar : parseString (fuel + 1) (quoteChar c ++ s) =
    (parseString fuel s).map fun (cs, rest) => (c :: cs, rest) := by
  unfold quoteChar
  split_ifs with hquote hslash hcontrol
  · subst hquote
    show (do let c ← unescape '"'; let (cs, s) ← parseString fuel s; some (c :: cs, s)) = _
    cases parseString fuel s <;> rfl
  · subst hslash
    show (do let c ← unescape '\\'; let (cs, s) ← parseString fuel s; some (c :: cs, s)) = _
    cases parseString fuel s <;> rfl
  · show (do
      let (c, s) ← escapedChar ('0' :: '0' :: hexDigit (c.toNat / 16) ::
        hexDigit (c.toNat % 16) :: s)
      let (cs, s) ← parseString fuel s
      some (c :: cs, s)) = _
    rw [escapedChar_control hcontrol]
    cases hs : parseString fuel s <;> simp [hs]
  · rw [List.singleton_append, parseString.eq_def]
    simp only
    split
    · cases ‹c :: s = []›
    · exact absurd (List.cons.inj ‹_›).1 hquote
    · exact absurd (List.cons.inj ‹_›).1 hslash
    · exact absurd (List.cons.inj ‹_›).1 hslash
    · obtain ⟨rfl, rfl⟩ := List.cons.inj ‹c :: s = _›
      rw [if_neg hcontrol]
      cases parseString fuel s <;> simp

theorem parseString_quoted : ∀ {s : Str} {fuel : ℕ}, s.length < fuel →
    parseString fuel (s.flatMap quoteChar ++ '"' :: rest) = some (s, rest)
  | [], fuel + 1, _ => rfl
  | c :: s, fuel + 1, h => by
    rw [List.flatMap_cons, List.append_assoc, parseString_quoteChar,
      parseString_quoted (Nat.lt_of_succ_lt_succ h)]
    rfl

theorem length_le_flatMap_quoteChar : s.length ≤ (s.flatMap quoteChar).length := by
  induction s with
  | nil => exact le_refl _
  | cons c s ih =>
    have hc : 1 ≤ (quoteChar c).length := by
      unfold quoteChar
      split_ifs <;> simp
    rw [List.flatMap_cons, List.length_append, List.length_cons]
    omega

/-- Behind its opening quote a string literal is read whole. -/
theorem parseString_literal : parseString ((s.flatMap quoteChar ++ '"' :: rest).length + 1)
    (s.flatMap quoteChar ++ '"' :: rest) = some (s, rest) := by
  refine parseString_quoted ?_
  have := length_le_flatMap_quoteChar (s := s)
  rw [List.length_append]
  omega

/-- What may follow a value: nothing, or the punctuation behind an item or a field. -/
def Follows (rest : Str) : Prop := ∀ c ∈ rest.head?, c = ',' ∨ c = ']' ∨ c = '}'

theorem isNumberChar_of_mem_toDigits {n : ℕ} (hc : c ∈ Nat.toDigits 10 n) :
    isNumberChar c = true := by
  unfold isNumberChar
  rw [isDigit_of_mem_toDigits hc]
  rfl

theorem isInteger_toDigits (n : ℕ) : isInteger (Nat.toDigits 10 n) = true := by
  have hall : (Nat.toDigits 10 n).all Char.isDigit = true :=
    List.all_eq_true.mpr fun c hc => isDigit_of_mem_toDigits hc
  have hne : (Nat.toDigits 10 n).isEmpty = false :=
    List.isEmpty_eq_false_iff.mpr Nat.toDigits_ne_nil
  unfold isInteger isDigits
  rw [hall, hne]
  by_cases hzero : (Nat.toDigits 10 n).head? = some '0'
  · rw [toDigits_eq_of_head_zero hzero]
    rfl
  · simp [hzero]

theorem takeWhile_append_of_head {p : Char → Bool} (hs : ∀ c ∈ s, p c = true)
    (hrest : ∀ c ∈ rest.head?, p c = false) :
    (s ++ rest).takeWhile p = s ∧ (s ++ rest).dropWhile p = rest := by
  rw [List.takeWhile_append_of_pos hs, List.dropWhile_append_of_pos hs]
  cases rest with
  | nil => simp
  | cons c rest => simp [hrest c rfl]

theorem parseNumber_unsigned (n : UInt64) (h : Follows rest) :
    parseNumber (Nat.toDigits 10 n.toNat ++ rest) = some (.unsigned n, rest) := by
  have hrest : ∀ c ∈ rest.head?, isNumberChar c = false := by
    intro c hc
    rcases h c hc with rfl | rfl | rfl <;> rfl
  obtain ⟨htake, hdrop⟩ := takeWhile_append_of_head
    (fun c hc => isNumberChar_of_mem_toDigits (n := n.toNat) hc) hrest
  unfold parseNumber
  simp only [htake, hdrop, isInteger_toDigits, decimal_toDigits, n.toNat_lt, UInt64.ofNat_toNat,
    true_and, if_true]

/-- What a text starts with that no space stands before. -/
theorem skipSpace_cons (h : isSpace c = false) : skipSpace (c :: s) = c :: s :=
  List.dropWhile_cons_of_neg (by simp [h])

theorem follows_nil : Follows [] := by
  intro c hc
  cases hc

theorem follows_comma : Follows (',' :: s) := by
  rintro c ⟨⟩
  exact .inl rfl

theorem follows_bracket : Follows (']' :: s) := by
  rintro c ⟨⟩
  exact .inr (.inl rfl)

theorem follows_brace : Follows ('}' :: s) := by
  rintro c ⟨⟩
  exact .inr (.inr rfl)

theorem join_cons (piece : Str) (pieces : List Str) : join [','] (piece :: pieces) =
    piece ++ if pieces = [] then [] else ',' :: join [','] pieces := by
  unfold join
  cases pieces <;> simp [List.intercalate, List.intersperse]

/-- A parser reads a value's text, whatever follows it, given enough fuel. -/
def Reads (depth : ℕ) (v : Value) : Prop := ∀ fuel rest, 2 * (render v).length < fuel →
  Follows rest → parseValue fuel depth (render v ++ rest) = some (v, rest)

theorem isSpace_of_isDigit (h : c.isDigit = true) : isSpace c = false := by
  by_contra hspace
  simp only [isSpace, Bool.not_eq_false, Bool.or_eq_true, decide_eq_true_eq] at hspace
  rcases hspace with ((rfl | rfl) | rfl) | rfl <;> cases h

/-- A value's text starts with no space and no closing punctuation. -/
theorem exists_head_render (h : Plain depth v) : ∃ c s, render v = c :: s ∧ isSpace c = false ∧
    c ≠ ']' := by
  cases h with
  | null => exact ⟨_, _, by rw [render], rfl, by decide⟩
  | bool b => cases b <;> exact ⟨_, _, by rw [render], rfl, by decide⟩
  | number n =>
    obtain ⟨c, s, hcs⟩ := List.exists_cons_of_ne_nil (Nat.toDigits_ne_nil (n := n.toNat) (b := 10))
    have hdigit := isDigit_of_mem_toDigits (n := n.toNat) (hcs ▸ List.mem_cons_self)
    refine ⟨c, s, by rw [render, hcs], isSpace_of_isDigit hdigit, ?_⟩
    rintro rfl
    cases hdigit
  | string s => exact ⟨_, _, by rw [render, quote], rfl, by decide⟩
  | array => exact ⟨_, _, by rw [render], rfl, by decide⟩
  | object => exact ⟨_, _, by rw [render], rfl, by decide⟩

theorem parseItems_render {items : List Value} (hne : items ≠ []) (hreads : ∀ v ∈ items, Reads depth v)
    (hfuel : 2 * (join [','] (items.map render)).length + 1 < fuel) :
    parseItems fuel depth (join [','] (items.map render) ++ ']' :: rest) = some (items, rest) := by
  induction items generalizing fuel with
  | nil => exact absurd rfl hne
  | cons v items ih =>
    obtain ⟨fuel, rfl⟩ : ∃ n, fuel = n + 1 := ⟨fuel - 1, by omega⟩
    have hv := hreads v List.mem_cons_self
    rw [List.map_cons, join_cons] at hfuel ⊢
    cases items with
    | nil =>
      simp only [List.map_nil, if_true, List.append_nil] at hfuel ⊢
      rw [parseItems, hv fuel _ (by omega) follows_bracket]
      simp [skipSpace_cons (c := ']') rfl]
    | cons w items =>
      have hne : (w :: items).map render ≠ [] := by simp
      rw [if_neg hne, List.length_append, List.length_cons] at hfuel
      rw [if_neg hne, List.append_assoc, List.cons_append, parseItems,
        hv fuel _ (by omega) follows_comma]
      have hrest := @ih fuel (List.cons_ne_nil w items)
        (fun v hv => hreads v (List.mem_cons_of_mem _ hv)) (by omega)
      simp only [skipSpace_cons (c := ',') rfl, Option.bind_eq_bind, Option.bind_some, hrest]

/-- The text of a field. -/
def renderField (field : Str × Value) : Str := quote field.1 ++ ':' :: render field.2

theorem parseFields_render {fields : List (Str × Value)} (hne : fields ≠ [])
    (hreads : ∀ field ∈ fields, Reads depth field.2)
    (hfuel : 2 * (join [','] (fields.map renderField)).length + 1 < fuel) :
    parseFields fuel depth (join [','] (fields.map renderField) ++ '}' :: rest) =
      some (fields, rest) := by
  induction fields generalizing fuel with
  | nil => exact absurd rfl hne
  | cons field fields ih =>
    obtain ⟨fuel, rfl⟩ : ∃ n, fuel = n + 1 := ⟨fuel - 1, by omega⟩
    obtain ⟨key, v⟩ := field
    have hv : Reads depth v := hreads (key, v) List.mem_cons_self
    have hkey : ∀ s, renderField (key, v) ++ s =
        '"' :: (key.flatMap quoteChar ++ '"' :: ':' :: (render v ++ s)) := by
      intro s
      simp [renderField, quote]
    have hlen : (render v).length + 3 ≤ (renderField (key, v)).length := by
      simp [renderField, quote]
    rw [List.map_cons, join_cons, List.length_append] at hfuel
    rw [List.map_cons, join_cons, List.append_assoc, hkey, parseFields,
      skipSpace_cons (c := '"') rfl]
    simp only [parseString_literal, Option.bind_eq_bind, Option.bind_some,
      skipSpace_cons (c := ':') rfl]
    cases fields with
    | nil =>
      simp only [List.map_nil, if_true, List.nil_append]
      rw [hv fuel _ (by omega) follows_brace]
      simp [skipSpace_cons (c := '}') rfl]
    | cons w fields =>
      have hne : (w :: fields).map renderField ≠ [] := by simp
      rw [if_neg hne, List.length_cons] at hfuel
      rw [if_neg hne, List.cons_append, hv fuel _ (by omega) follows_comma]
      have hrest := @ih fuel (List.cons_ne_nil w fields)
        (fun v hv => hreads v (List.mem_cons_of_mem _ hv)) (by omega)
      simp only [skipSpace_cons (c := ',') rfl, Option.bind_some, hrest]

theorem render_object {fields : List (Str × Value)} :
    render (.object fields) = '{' :: (join [','] (fields.map renderField) ++ ['}']) := by
  rw [render]
  rfl

/-- The induction is on how a value is nested. -/
theorem reads_of_plain (h : Plain depth v) : Reads depth v := by
  induction h with
  | null =>
    intro fuel rest hfuel _
    obtain ⟨fuel, rfl⟩ : ∃ n, fuel = n + 1 := ⟨fuel - 1, by omega⟩
    rw [render]
    rfl
  | bool b =>
    intro fuel rest hfuel _
    obtain ⟨fuel, rfl⟩ : ∃ n, fuel = n + 1 := ⟨fuel - 1, by omega⟩
    cases b <;> rw [render] <;> rfl
  | number n =>
    intro fuel rest hfuel hrest
    obtain ⟨fuel, rfl⟩ : ∃ n, fuel = n + 1 := ⟨fuel - 1, by omega⟩
    obtain ⟨c, s, hcs⟩ := List.exists_cons_of_ne_nil (Nat.toDigits_ne_nil (n := n.toNat) (b := 10))
    have hdigit := isDigit_of_mem_toDigits (n := n.toNat) (hcs ▸ List.mem_cons_self)
    have hnumber := parseNumber_unsigned n hrest
    rw [hcs, List.cons_append] at hnumber
    rw [render, hcs, List.cons_append, parseValue, skipSpace_cons (isSpace_of_isDigit hdigit)]
    split
    · cases (List.cons.inj ‹_›).1 ▸ hdigit
    · cases (List.cons.inj ‹_›).1 ▸ hdigit
    · cases (List.cons.inj ‹_›).1 ▸ hdigit
    · cases (List.cons.inj ‹_›).1 ▸ hdigit
    · cases (List.cons.inj ‹_›).1 ▸ hdigit
    · cases (List.cons.inj ‹_›).1 ▸ hdigit
    · rw [hnumber]
      rfl
  | string s =>
    intro fuel rest hfuel _
    obtain ⟨fuel, rfl⟩ : ∃ n, fuel = n + 1 := ⟨fuel - 1, by omega⟩
    have htext : render (.string s) ++ rest = '"' :: (s.flatMap quoteChar ++ '"' :: rest) := by
      simp [render, quote]
    rw [htext, parseValue, skipSpace_cons rfl]
    simp only [parseString_literal, Option.map_some]
  | @array depth items hplain ih =>
    intro fuel rest hfuel _
    obtain ⟨fuel, rfl⟩ : ∃ n, fuel = n + 1 := ⟨fuel - 1, by omega⟩
    have htext : render (.array items) ++ rest =
        '[' :: (join [','] (items.map render) ++ ']' :: rest) := by
      simp [render]
    have hlen : (render (.array items)).length = (join [','] (items.map render)).length + 2 := by
      simp [render]
    rw [htext, parseValue, skipSpace_cons rfl]
    cases items with
    | nil => rfl
    | cons v items =>
      obtain ⟨c, s, hcs, hspace, hbracket⟩ := exists_head_render (hplain v List.mem_cons_self)
      have hread := @parseItems_render rest fuel _ _ (List.cons_ne_nil v items) ih
        (by omega)
      have hjoin : join [','] ((v :: items).map render) ++ ']' :: rest =
          c :: (s ++ (if items.map render = [] then [] else ',' :: join [','] (items.map render)) ++
            ']' :: rest) := by
        rw [List.map_cons, join_cons, hcs]
        rfl
      rw [hjoin] at hread ⊢
      simp only [skipSpace_cons hspace]
      split
      · exact absurd (List.cons.inj ‹_›).1 hbracket
      · rw [hread]
        rfl
  | @object depth fields hplain hascending ih =>
    intro fuel rest hfuel _
    obtain ⟨fuel, rfl⟩ : ∃ n, fuel = n + 1 := ⟨fuel - 1, by omega⟩
    have htext : render (.object fields) ++ rest =
        '{' :: (join [','] (fields.map renderField) ++ '}' :: rest) := by
      simp [render_object]
    have hlen : (render (.object fields)).length =
        (join [','] (fields.map renderField)).length + 2 := by
      simp [render_object]
    rw [htext, parseValue, skipSpace_cons rfl]
    cases fields with
    | nil => rfl
    | cons field fields =>
      have hread := @parseFields_render rest fuel _ _ (List.cons_ne_nil field fields)
        ih (by omega)
      have hjoin : join [','] ((field :: fields).map renderField) ++ '}' :: rest =
          '"' :: (field.1.flatMap quoteChar ++ '"' :: ':' :: render field.2 ++
            (if fields.map renderField = [] then []
              else ',' :: join [','] (fields.map renderField)) ++ '}' :: rest) := by
        rw [List.map_cons, join_cons]
        simp [renderField, quote]
      rw [hjoin] at hread ⊢
      simp only [skipSpace_cons (c := '"') rfl]
      refine (congrArg (Option.map _) hread).trans ?_
      rw [Option.map_some, foldl_insertRow_nil hascending]

theorem parseText_render (h : Plain depth v) : parseText depth (render v) = some v := by
  unfold parseText
  have hread := reads_of_plain h (2 * (render v).length + 1) [] (by omega) follows_nil
  rw [List.append_nil] at hread
  rw [hread]
  rfl

/-- Values with one text are the same. -/
theorem render_injOn : Set.InjOn render {v | Plain depth v} := by
  intro v hv w hw heq
  have h := parseText_render hv
  rw [heq, parseText_render hw] at h
  exact (Option.some.inj h).symm

/-! ### Control characters -/

theorem toNat_hexDigit : ∀ n < 16, 0x20 ≤ (hexDigit n).toNat := by decide

theorem toNat_of_mem_quote {s : Str} (hc : c ∈ quote s) : 0x20 ≤ c.toNat := by
  unfold quote at hc
  simp only [List.mem_cons, List.mem_append, List.mem_flatMap, List.not_mem_nil, or_false] at hc
  rcases hc with rfl | ⟨d, -, hd⟩ | rfl
  · decide
  · unfold quoteChar at hd
    split_ifs at hd with hquote hslash hcontrol
    · simp only [List.mem_cons, List.not_mem_nil, or_false] at hd
      rcases hd with rfl | rfl <;> decide
    · simp only [List.mem_cons, List.not_mem_nil, or_false] at hd
      rcases hd with rfl | rfl <;> decide
    · simp only [List.mem_cons, List.not_mem_nil, or_false] at hd
      rcases hd with rfl | rfl | rfl | rfl | rfl | rfl
      · decide
      · decide
      · decide
      · decide
      · exact toNat_hexDigit _ (by omega)
      · exact toNat_hexDigit _ (by omega)
    · rw [List.mem_singleton.mp hd]
      omega
  · decide

theorem mem_join {pieces : List Str} (hc : c ∈ join [','] pieces) :
    c = ',' ∨ ∃ piece ∈ pieces, c ∈ piece := by
  induction pieces with
  | nil => cases hc
  | cons piece pieces ih =>
    rw [join_cons, List.mem_append] at hc
    rcases hc with hc | hc
    · exact .inr ⟨piece, List.mem_cons_self, hc⟩
    · split_ifs at hc
      · cases hc
      · rcases List.mem_cons.mp hc with rfl | hc
        · exact .inl rfl
        · exact (ih hc).imp_right fun ⟨p, hp, hc⟩ => ⟨p, List.mem_cons_of_mem _ hp, hc⟩

/-- The text of a plain value holds no control character. -/
theorem toNat_of_mem_render (h : Plain depth v) : ∀ c ∈ render v, 0x20 ≤ c.toNat := by
  induction h with
  | null =>
    rw [render]
    simp
  | bool b => cases b <;> rw [render] <;> simp
  | number n =>
    intro c hc
    rw [render] at hc
    have hdigit := isDigit_of_mem_toDigits hc
    rw [Char.isDigit_iff_toNat] at hdigit
    exact le_trans (by decide) hdigit.1
  | string s =>
    intro c hc
    rw [render] at hc
    exact toNat_of_mem_quote hc
  | array hplain ih =>
    intro c hc
    rw [render, List.mem_cons, List.mem_append, List.mem_singleton] at hc
    rcases hc with rfl | hc | rfl
    · decide
    · rcases mem_join hc with rfl | ⟨piece, hpiece, hc⟩
      · decide
      · obtain ⟨v, hv, rfl⟩ := List.mem_map.mp hpiece
        exact ih v hv c hc
    · decide
  | object hplain hascending ih =>
    intro c hc
    rw [render_object, List.mem_cons, List.mem_append, List.mem_singleton] at hc
    rcases hc with rfl | hc | rfl
    · decide
    · rcases mem_join hc with rfl | ⟨piece, hpiece, hc⟩
      · decide
      · obtain ⟨field, hfield, rfl⟩ := List.mem_map.mp hpiece
        unfold renderField at hc
        rw [List.mem_append, List.mem_cons] at hc
        rcases hc with hc | rfl | hc
        · exact toNat_of_mem_quote hc
        · decide
        · exact ih field hfield c hc
    · decide
end Boot2Deb.Json
