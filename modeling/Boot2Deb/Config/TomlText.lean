import Mathlib
import Boot2Deb.Config.Toml
import Boot2Deb.Rust.Debug
import Boot2Deb.Rust.Lines
import Boot2Deb.Rust.Pattern

/-!
# Documents of basic strings

The part of TOML's grammar that a document of comments, table headers, and keys with basic strings
or arrays of them needs. `scan` cuts a document into its lines and leaves the strings as they are
written; `meaning` reads their escapes and gathers the tables. A string in the debug format of Rust
is read back where all its characters are plain, and is no string of TOML where one is not
(`decodeBasic_escaped`, `decodeBasic_escaped_none`).
-/

namespace Boot2Deb.Config.TomlText

open Rust

def isBare (c : Char) : Bool := c.isAlphanum || c == '-' || c == '_'

def isWs (c : Char) : Bool := c == ' ' || c == '\t'

def skipWs (s : Str) : Str := s.dropWhile isWs

/-- What may stand in a comment, and unescaped in a string: no control but the tab. -/
def isText (c : Char) : Bool := c == '\t' || (0x20 ≤ c.toNat && c.toNat ≠ 0x7f)

/-! ### Lines -/

/-- A basic string behind its quote, as it is written, and what follows it. The escapes by `e` and
`x`, which not every version of the grammar has, are left out. -/
def scanBasic : Str → Option (Str × Str)
  | [] => none
  | c :: rest =>
    if c = '"' then some ([], rest)
    else if c = '\\' then
      match rest with
      | [] => none
      | d :: rest =>
        if d = 'e' ∨ d = 'x' ∨ !isText d then none
        else (scanBasic rest).map fun (raw, rest) => (c :: d :: raw, rest)
    else if isText c then (scanBasic rest).map fun (raw, rest) => (c :: raw, rest)
    else none

/-- A string of one line; three quotes open one of several. -/
def scanString (s : Str) : Option (Str × Str) :=
  if ['"', '"', '"'].isPrefixOf s then none
  else if s.head? = some '"' then scanBasic s.tail
  else none

/-- The strings of an array behind its bracket. -/
def scanItems : ℕ → Str → Option (List Str × Str)
  | 0, _ => none
  | fuel + 1, s =>
    match scanString s with
    | none => none
    | some (raw, rest) =>
      match skipWs rest with
      | c :: rest =>
        if c = ']' then some ([raw], rest)
        else if c = ',' then
          (scanItems fuel (skipWs rest)).map fun (raws, rest) => (raw :: raws, rest)
        else none
      | [] => none

/-- A value as it is written. -/
inductive RawValue where
  | string (raw : Str)
  | strings (raws : List Str)
deriving DecidableEq

def scanValue (s : Str) : Option (RawValue × Str) :=
  if s.head? = some '[' then
    if (skipWs s.tail).head? = some ']' then some (.strings [], (skipWs s.tail).tail)
    else (scanItems s.length (skipWs s.tail)).map fun (raws, rest) => (.strings raws, rest)
  else (scanString s).map fun (raw, rest) => (.string raw, rest)

/-- Nothing more but a comment. -/
def endsLine (s : Str) : Bool :=
  match skipWs s with
  | [] => true
  | c :: comment => c == '#' && comment.all isText

inductive Line where
  | blank
  | header (key : Str)
  | entry (key : Str) (value : RawValue)
deriving DecidableEq

/-- Behind a bracket: the name of a table. -/
def scanHeader (s : Str) : Option Line :=
  if s.takeWhile isBare ≠ [] ∧ (s.dropWhile isBare).head? = some ']' ∧
      endsLine (s.dropWhile isBare).tail then
    some (.header (s.takeWhile isBare))
  else none

/-- A key and its value. -/
def scanEntry (s : Str) : Option Line :=
  let rest := skipWs (s.dropWhile isBare)
  if s.takeWhile isBare ≠ [] ∧ rest.head? = some '=' then
    match scanValue (skipWs rest.tail) with
    | some (value, rest) => if endsLine rest then some (.entry (s.takeWhile isBare) value) else none
    | none => none
  else none

def scanLine (s : Str) : Option Line :=
  if endsLine s then some .blank
  else if (skipWs s).head? = some '[' then scanHeader (skipWs s).tail
  else scanEntry (skipWs s)

/-- The lines of a document that is made of these. -/
def scan (text : Str) : Option (List Line) := (text.splitOn '\n').mapM scanLine

/-! ### Their meaning -/

def hexDigit (c : Char) : Option ℕ :=
  if c.isDigit then some (c.toNat - '0'.toNat)
  else if 0x61 ≤ c.toNat ∧ c.toNat ≤ 0x66 then some (c.toNat - 0x61 + 10)
  else if 0x41 ≤ c.toNat ∧ c.toNat ≤ 0x46 then some (c.toNat - 0x41 + 10)
  else none

/-- The character of a number in hexadecimal digits. -/
def scalar (digits : Str) : Option Char := do
  let values ← digits.mapM hexDigit
  let n := values.foldl (fun n d => 16 * n + d) 0
  if n.isValidChar then some (Char.ofNat n) else none

/-- The escapes of one letter. -/
def escapes : List (Char × Char) :=
  [('b', '\x08'), ('t', '\t'), ('n', '\n'), ('f', '\x0c'), ('r', '\r'), ('"', '"'), ('\\', '\\')]

/-- The text of a basic string. -/
def decodeBasic : Str → Option Str
  | [] => some []
  | '\\' :: 'u' :: a :: b :: c :: d :: rest => do
    let char ← scalar [a, b, c, d]
    (decodeBasic rest).map (char :: ·)
  | '\\' :: 'U' :: a :: b :: c :: d :: e :: f :: g :: h :: rest => do
    let char ← scalar [a, b, c, d, e, f, g, h]
    (decodeBasic rest).map (char :: ·)
  | '\\' :: letter :: rest => do
    let char ← escapes.lookup letter
    (decodeBasic rest).map (char :: ·)
  | c :: rest => if c = '\\' then none else (decodeBasic rest).map (c :: ·)

def RawValue.decode : RawValue → Option Toml
  | .string raw => (decodeBasic raw).map .string
  | .strings raws => (raws.mapM decodeBasic).map fun texts => .array (texts.map .string)

abbrev Entries := List (Str × RawValue)

/-- The entries before the first header, and those of each table. -/
def sections : List Line → Entries × List (Str × Entries)
  | [] => ([], [])
  | .blank :: lines => sections lines
  | .entry key value :: lines => ((key, value) :: (sections lines).1, (sections lines).2)
  | .header key :: lines => ([], (key, (sections lines).1) :: (sections lines).2)

/-- The rows of one table: no key twice. -/
def rowsOf (entries : Entries) : Option (List (Str × Toml)) :=
  if (entries.map Prod.fst).Nodup then
    entries.mapM fun (key, value) => value.decode.map fun v => (key, v)
  else none

/-- The document the lines write. -/
def meaning (lines : List Line) : Option (List (Str × Toml)) := do
  let top ← rowsOf (sections lines).1
  let tables ← (sections lines).2.mapM fun (key, entries) =>
    (rowsOf entries).map fun rows => (key, Toml.table rows)
  if ((top ++ tables).map Prod.fst).Nodup then some (top ++ tables) else none

/-- A reader that implements this part of the grammar. -/
structure Reader where
  fromStr : Str → Option (List (Str × Toml))
  reads : ∀ text lines, scan text = some lines → fromStr text = meaning lines

/-! ### What a writer puts down -/

/-- A value a program writes. -/
inductive Authored where
  | string (s : Str)
  | strings (ss : List Str)

/-- A line a program writes: a comment or nothing, a key padded to a column with its value and a
note behind it, or a header. -/
inductive Written where
  | comment (text : Str)
  | assign (width : ℕ) (key : Str) (value : Authored) (note : Str)
  | header (key : Str)

section Writer
variable (tables : CharTables)

def Authored.text : Authored → Str
  | .string s => debugStr tables s
  | .strings ss => '[' :: (join ", ".toList (ss.map (debugStr tables)) ++ [']'])

def Written.text : Written → Str
  | .comment text => text
  | .assign width key value note =>
    key ++ (List.replicate (width - key.length) ' ' ++ ('=' :: ' ' :: (value.text tables ++ note)))
  | .header key => '[' :: (key ++ [']'])

/-- The lines, each with its newline. -/
def document (lines : List Written) : Str := unlines (lines.map (Written.text tables))

def Authored.raw : Authored → RawValue
  | .string s => .string (escaped tables s)
  | .strings ss => .strings (ss.map (escaped tables))

def Written.line : Written → Line
  | .comment _ => .blank
  | .assign _ key value _ => .entry key (value.raw tables)
  | .header key => .header key

/-- All characters of a value are plain. -/
def Authored.Plain : Authored → Prop
  | .string s => PlainStr tables s
  | .strings ss => ∀ s ∈ ss, PlainStr tables s

end Writer

def Authored.toml : Authored → Toml
  | .string s => .string s
  | .strings ss => .array (ss.map .string)

/-- What is no value stays on its line, and keys are bare. -/
def Written.Fits : Written → Prop
  | .comment text => endsLine text = true ∧ text.all isText = true
  | .assign _ key _ note => key ≠ [] ∧ key.all isBare = true ∧ endsLine note = true ∧
      note.all isText = true ∧ note.head? ≠ some '"'
  | .header key => key ≠ [] ∧ key.all isBare = true

instance : DecidablePred Written.Fits := fun w =>
  match w with
  | .comment _ => inferInstanceAs (Decidable (_ ∧ _))
  | .assign .. => inferInstanceAs (Decidable (_ ∧ _ ∧ _ ∧ _ ∧ _))
  | .header _ => inferInstanceAs (Decidable (_ ∧ _))

/-! ### Strings -/

variable {tables : CharTables} {s tail : Str} {c d : Char}

/-- The scan takes these characters as they are written. -/
def Scans (u : Str) : Prop :=
  ∀ rest, scanBasic (u ++ rest) = (scanBasic rest).map fun (raw, rest) => (u ++ raw, rest)

theorem Scans.nil : Scans [] := fun rest => by
  cases h : scanBasic rest <;> simp [h]

theorem Scans.append {u v : Str} (hu : Scans u) (hv : Scans v) : Scans (u ++ v) := fun rest => by
  rw [List.append_assoc, hu, hv, Option.map_map]
  refine Option.map_congr fun r _ => ?_
  simp

theorem Scans.char (htext : isText c = true) (hquote : c ≠ '"') (hslash : c ≠ '\\') : Scans [c] :=
  fun rest => by
    rw [List.singleton_append, scanBasic.eq_def]
    simp only [if_neg hquote, if_neg hslash, if_pos htext]
    rfl

theorem Scans.pair (hd : d ≠ 'e' ∧ d ≠ 'x') (htext : isText d = true) : Scans ['\\', d] :=
  fun rest => by
    have hkept : ¬(d = 'e' ∨ d = 'x' ∨ (!isText d) = true) := by simp [hd, htext]
    rw [List.cons_append, List.singleton_append, scanBasic.eq_def]
    simp only [if_neg hkept]
    rfl

theorem Scans.text {u : Str} (h : ∀ c ∈ u, isText c = true ∧ c ≠ '"' ∧ c ≠ '\\') : Scans u := by
  induction u with
  | nil => exact .nil
  | cons c u ih =>
    rw [List.forall_mem_cons] at h
    exact (Scans.char h.1.1 h.1.2.1 h.1.2.2).append (ih h.2)

theorem exists_digitChar {n : ℕ} (h : c ∈ Nat.toDigits 16 n) : ∃ d < 16, c = Nat.digitChar d := by
  induction n using Nat.strong_induction_on with
  | _ n ih =>
    rw [Nat.toDigits_eq_if (by decide)] at h
    split_ifs at h with hlt
    · exact ⟨n, hlt, List.mem_singleton.mp h⟩
    · rcases List.mem_append.mp h with h | h
      · exact ih (n / 16) (by omega) h
      · exact ⟨n % 16, Nat.mod_lt _ (by decide), List.mem_singleton.mp h⟩

theorem text_of_hex {n : ℕ} (h : c ∈ Nat.toDigits 16 n) :
    isText c = true ∧ c ≠ '"' ∧ c ≠ '\\' := by
  obtain ⟨d, hd, rfl⟩ := exists_digitChar h
  have hall : ∀ d < 16, isText (Nat.digitChar d) = true ∧ Nat.digitChar d ≠ '"' ∧
      Nat.digitChar d ≠ '\\' := by decide
  exact hall d hd

theorem scans_escapeDebug (c : Char) : Scans (escapeDebug tables c) := by
  by_cases hplain : Plain tables c
  · rcases escapeDebug_of_plain hplain with ⟨letter, hmem, h⟩ | ⟨hslash, hquote, hlow, hdel, h⟩
    · rw [h]
      simp only [List.mem_cons, List.not_mem_nil, or_false, Prod.mk.injEq] at hmem
      rcases hmem with ⟨-, rfl⟩ | ⟨-, rfl⟩ | ⟨-, rfl⟩ | ⟨-, rfl⟩ | ⟨-, rfl⟩ <;>
        exact .pair (by decide) (by decide)
    · rw [h]
      exact .char (by simp [isText, hlow, hdel]) hquote hslash
  · rcases escapeDebug_of_not_plain hplain with h | h
    · rw [h]
      exact .pair (by decide) (by decide)
    · rw [h]
      have hopen : Scans ['\\', 'u'] := .pair (by decide) (by decide)
      refine hopen.append (Scans.text fun d hd => ?_)
      rcases List.mem_cons.mp hd with rfl | hd
      · decide
      rcases List.mem_append.mp hd with hd | hd
      · exact text_of_hex hd
      · rw [List.mem_singleton.mp hd]
        decide

theorem scans_escaped (s : Str) : Scans (escaped tables s) := by
  induction s with
  | nil => exact .nil
  | cons c s ih => exact (scans_escapeDebug c).append ih

theorem scanBasic_escaped (s rest : Str) :
    scanBasic (escaped tables s ++ '"' :: rest) = some (escaped tables s, rest) := by
  rw [scans_escaped s, scanBasic.eq_def]
  simp

/-- No character that is written breaks a line. -/
theorem isText_escapeDebug (h : d ∈ escapeDebug tables c) : isText d = true := by
  by_cases hplain : Plain tables c
  · rcases escapeDebug_of_plain hplain with ⟨letter, hmem, hc⟩ | ⟨-, -, hlow, hdel, hc⟩
    · rw [hc] at h
      simp only [List.mem_cons, List.not_mem_nil, or_false, Prod.mk.injEq] at hmem h
      rcases hmem with ⟨-, rfl⟩ | ⟨-, rfl⟩ | ⟨-, rfl⟩ | ⟨-, rfl⟩ | ⟨-, rfl⟩ <;>
        rcases h with rfl | rfl <;> decide
    · rw [hc, List.mem_singleton] at h
      simp [h, isText, hlow, hdel]
  · rcases escapeDebug_of_not_plain hplain with hc | hc
    · rw [hc] at h
      simp only [List.mem_cons, List.not_mem_nil, or_false] at h
      rcases h with rfl | rfl <;> decide
    · rw [hc, escapeUnicode, List.mem_cons, List.mem_cons, List.mem_cons, List.mem_append,
        List.mem_singleton] at h
      rcases h with rfl | rfl | rfl | h | rfl
      · decide
      · decide
      · decide
      · exact (text_of_hex h).1
      · decide

theorem isText_debugStr (h : d ∈ debugStr tables s) : isText d = true := by
  rw [debugStr, List.mem_cons, List.mem_append, List.mem_singleton] at h
  rcases h with rfl | h | rfl
  · decide
  · obtain ⟨c, -, hd⟩ := List.mem_flatMap.mp h
    exact isText_escapeDebug hd
  · decide

theorem head_escapeDebug (c : Char) : ∃ d rest, escapeDebug tables c = d :: rest ∧ d ≠ '"' := by
  by_cases hplain : Plain tables c
  · rcases escapeDebug_of_plain hplain with ⟨letter, -, hc⟩ | ⟨-, hquote, -, -, hc⟩
    · exact ⟨_, _, hc, by decide⟩
    · exact ⟨_, _, hc, hquote⟩
  · rcases escapeDebug_of_not_plain hplain with hc | hc
    · exact ⟨_, _, hc, by decide⟩
    · exact ⟨_, _, hc, by decide⟩

theorem scanString_debugStr (htail : tail.head? ≠ some '"') :
    scanString (debugStr tables s ++ tail) = some (escaped tables s, tail) := by
  have hshape : debugStr tables s ++ tail = '"' :: (escaped tables s ++ '"' :: tail) := by
    simp [debugStr]
  have hsingle : ['"', '"', '"'].isPrefixOf ('"' :: (escaped tables s ++ '"' :: tail)) = false := by
    cases s with
    | nil =>
      cases tail with
      | nil => rfl
      | cons c tail =>
        have hc : c ≠ '"' := fun heq => htail (heq ▸ rfl)
        simp [escaped, List.isPrefixOf, hc.symm]
    | cons c s =>
      obtain ⟨d, rest, hd, hquote⟩ := @head_escapeDebug tables c
      simp [escaped, hd, List.isPrefixOf, hquote.symm]
  rw [hshape, scanString, hsingle, if_neg Bool.false_ne_true, List.head?_cons, if_pos rfl,
    List.tail_cons, scanBasic_escaped]

/-! ### Escapes read back -/

theorem decodeBasic_char (h : c ≠ '\\') (s : Str) :
    decodeBasic (c :: s) = (decodeBasic s).map (c :: ·) := by
  rw [decodeBasic.eq_def]
  simp [h]

theorem decodeBasic_escaped (h : PlainStr tables s) :
    decodeBasic (escaped tables s) = some s := by
  rw [PlainStr] at h
  induction s with
  | nil => rfl
  | cons c s ih =>
    rw [List.forall_mem_cons] at h
    have hrest := ih h.2
    rw [escaped, List.flatMap_cons]
    rcases escapeDebug_of_plain h.1 with ⟨letter, hmem, hc⟩ | ⟨hslash, -, -, -, hc⟩
    · rw [hc]
      simp only [List.mem_cons, List.not_mem_nil, or_false, Prod.mk.injEq] at hmem
      rcases hmem with ⟨rfl, rfl⟩ | ⟨rfl, rfl⟩ | ⟨rfl, rfl⟩ | ⟨rfl, rfl⟩ | ⟨rfl, rfl⟩ <;>
        exact congrArg (Option.map _) hrest
    · rw [hc, List.singleton_append, decodeBasic_char hslash]
      exact congrArg (Option.map _) hrest

theorem decodeBasic_brace (s : Str) : decodeBasic ('\\' :: 'u' :: '\x7b' :: s) = none := by
  rcases s with _ | ⟨a, _ | ⟨b, _ | ⟨c, s⟩⟩⟩ <;> rfl

/-- A string with a character that is not plain is no string of the grammar. -/
theorem decodeBasic_escaped_none (h : ¬PlainStr tables s) :
    decodeBasic (escaped tables s) = none := by
  rw [PlainStr] at h
  induction s with
  | nil => exact absurd (fun _ hc => absurd hc List.not_mem_nil) h
  | cons c s ih =>
    rw [escaped, List.flatMap_cons]
    by_cases hplain : Plain tables c
    · have hrest := ih fun hs => h (List.forall_mem_cons.mpr ⟨hplain, hs⟩)
      rcases escapeDebug_of_plain hplain with ⟨letter, hmem, hc⟩ | ⟨hslash, -, -, -, hc⟩
      · rw [hc]
        simp only [List.mem_cons, List.not_mem_nil, or_false, Prod.mk.injEq] at hmem
        rcases hmem with ⟨-, rfl⟩ | ⟨-, rfl⟩ | ⟨-, rfl⟩ | ⟨-, rfl⟩ | ⟨-, rfl⟩ <;>
          exact congrArg (Option.map _) hrest
      · rw [hc, List.singleton_append, decodeBasic_char hslash]
        exact congrArg (Option.map _) hrest
    · rcases escapeDebug_of_not_plain hplain with hc | hc
      · rw [hc]
        rfl
      · rw [hc]
        exact decodeBasic_brace _

/-! ### Lines read back -/

theorem skipWs_of_head (h : ∀ c, s.head? = some c → isWs c = false) : skipWs s = s := by
  cases s with
  | nil => rfl
  | cons c s => rw [skipWs, List.dropWhile_cons_of_neg (by simp [h c rfl])]

theorem skipWs_append {pad : Str} (hpad : ∀ c ∈ pad, isWs c = true)
    (h : ∀ c, s.head? = some c → isWs c = false) : skipWs (pad ++ s) = s := by
  rw [skipWs, List.dropWhile_append_of_pos hpad]
  exact skipWs_of_head h

/-- The strings of an array, one behind the other. -/
theorem join_debugStr_cons (t : Str) (s : Str) (ss : List Str) :
    join ", ".toList ((t :: s :: ss).map (debugStr tables)) =
      debugStr tables t ++ (',' :: ' ' :: join ", ".toList ((s :: ss).map (debugStr tables))) := by
  rw [List.map_cons, List.map_cons, join_cons _ _ (List.cons_ne_nil _ _), List.append_assoc]
  rfl

theorem head_join_debugStr (s : Str) (ss : List Str) (tail : Str) :
    (join ", ".toList ((s :: ss).map (debugStr tables)) ++ tail).head? = some '"' := by
  cases ss with
  | nil => rfl
  | cons t ss => rw [join_debugStr_cons]; rfl

theorem scanItems_join {s : Str} {ss : List Str} {tail : Str} {fuel : ℕ} (hfuel : ss.length < fuel) :
    scanItems fuel (join ", ".toList ((s :: ss).map (debugStr tables)) ++ ']' :: tail) =
      some ((s :: ss).map (escaped tables), tail) := by
  induction ss generalizing s fuel with
  | nil =>
    obtain ⟨fuel, rfl⟩ : ∃ n, fuel = n + 1 := ⟨fuel - 1, by simp at hfuel; omega⟩
    have hjoin : join ", ".toList ([s].map (debugStr tables)) = debugStr tables s := by
      simp [join, List.intercalate]
    have hhead : (']' :: tail).head? ≠ some '"' := by simp
    rw [hjoin, scanItems, scanString_debugStr hhead]
    rfl
  | cons t ss ih =>
    obtain ⟨fuel, rfl⟩ : ∃ n, fuel = n + 1 := ⟨fuel - 1, by omega⟩
    rw [List.length_cons] at hfuel
    have hrest := @ih t fuel (by omega)
    have hquote := @head_join_debugStr tables t ss (']' :: tail)
    rw [join_debugStr_cons, List.append_assoc, List.cons_append, List.cons_append]
    generalize join ", ".toList ((t :: ss).map (debugStr tables)) ++ ']' :: tail = rest at *
    have hhead : (',' :: ' ' :: rest).head? ≠ some '"' := by simp
    have hcomma : skipWs (',' :: ' ' :: rest) = ',' :: ' ' :: rest := rfl
    have hws : skipWs (' ' :: rest) = rest := by
      refine @skipWs_append rest [' '] (by simp [isWs]) fun c hc => ?_
      obtain rfl := Option.some.inj (hquote.symm.trans hc)
      rfl
    rw [scanItems, scanString_debugStr hhead]
    simp only [hcomma, hws, hrest]
    rfl

theorem length_join_debugStr (ss : List Str) :
    ss.length ≤ (join ", ".toList (ss.map (debugStr tables))).length := by
  induction ss with
  | nil => exact Nat.zero_le _
  | cons s ss ih =>
    cases ss with
    | nil => simp [join, List.intercalate, debugStr]
    | cons t ss =>
      rw [join_debugStr_cons, List.length_append]
      simp only [List.length_cons] at ih ⊢
      omega

theorem scanValue_text (v : Authored) (htail : tail.head? ≠ some '"') :
    scanValue (v.text tables ++ tail) = some (v.raw tables, tail) := by
  cases v with
  | string s =>
    have hhead : (debugStr tables s ++ tail).head? ≠ some '[' := by simp [debugStr]
    rw [Authored.text, scanValue, if_neg hhead, scanString_debugStr htail]
    rfl
  | strings ss =>
    have hshape : (Authored.strings ss).text tables ++ tail =
        '[' :: (join ", ".toList (ss.map (debugStr tables)) ++ ']' :: tail) := by
      simp [Authored.text]
    rw [hshape, scanValue, List.head?_cons, if_pos rfl, List.tail_cons]
    cases ss with
    | nil => rfl
    | cons s ss =>
      have hquote := @head_join_debugStr tables s ss (']' :: tail)
      have hlength := @length_join_debugStr tables (s :: ss)
      have hskip : skipWs (join ", ".toList ((s :: ss).map (debugStr tables)) ++ ']' :: tail) =
          join ", ".toList ((s :: ss).map (debugStr tables)) ++ ']' :: tail :=
        skipWs_of_head fun c hc => by
          obtain rfl := Option.some.inj (hquote.symm.trans hc)
          rfl
      rw [hskip, hquote, if_neg (by decide), scanItems_join]
      · rfl
      · rw [List.length_cons] at hlength
        rw [List.length_cons, List.length_append]
        omega

theorem endsLine_of_head {rest : Str} (hws : isWs c = false) (hc : c ≠ '#') :
    endsLine (c :: rest) = false := by
  have hskip : skipWs (c :: rest) = c :: rest := skipWs_of_head fun d hd => by
    obtain rfl := Option.some.inj hd
    exact hws
  rw [endsLine, hskip]
  simp [hc]

theorem takeWhile_bare {key rest : Str} (hkey : key.all isBare = true)
    (hrest : ∀ c, rest.head? = some c → isBare c = false) :
    (key ++ rest).takeWhile isBare = key ∧ (key ++ rest).dropWhile isBare = rest := by
  rw [List.all_eq_true] at hkey
  rw [List.takeWhile_append_of_pos hkey, List.dropWhile_append_of_pos hkey]
  cases rest with
  | nil => simp
  | cons c rest =>
    rw [List.takeWhile_cons_of_neg (by simp [hrest c rfl]),
      List.dropWhile_cons_of_neg (by simp [hrest c rfl]), List.append_nil]
    exact ⟨rfl, rfl⟩

theorem bare_head (h : isBare c = true) : isWs c = false ∧ c ≠ '#' ∧ c ≠ '[' := by
  refine ⟨?_, ?_, ?_⟩
  · by_contra hws
    rw [Bool.not_eq_false, isWs, Bool.or_eq_true, beq_iff_eq, beq_iff_eq] at hws
    rcases hws with rfl | rfl <;> exact absurd h (by decide)
  · rintro rfl
    exact absurd h (by decide)
  · rintro rfl
    exact absurd h (by decide)

/-- A line that is written is read as what it was written for. -/
theorem scanLine_text {w : Written} (h : w.Fits) :
    scanLine (w.text tables) = some (w.line tables) := by
  cases w with
  | comment text => rw [Written.text, scanLine, if_pos h.1]; rfl
  | header key =>
    obtain ⟨hne, hkey⟩ := h
    obtain ⟨htake, hdrop⟩ := @takeWhile_bare key [']'] hkey fun c hc => by
      obtain rfl := Option.some.inj hc
      rfl
    have hskip : skipWs ('[' :: (key ++ [']'])) = '[' :: (key ++ [']']) :=
      skipWs_of_head fun c hc => by
        obtain rfl := Option.some.inj hc
        rfl
    rw [Written.text, scanLine, endsLine_of_head (by decide) (by decide), if_neg Bool.false_ne_true,
      hskip, List.head?_cons, if_pos rfl, List.tail_cons, scanHeader, htake, hdrop,
      if_pos ⟨hne, rfl, rfl⟩]
    rfl
  | assign width key value note =>
    obtain ⟨hne, hkey, hnote, -, hquote⟩ := h
    have hpad : ∀ d ∈ List.replicate (width - key.length) ' ', isWs d = true := fun d hd =>
      (List.mem_replicate.mp hd).2 ▸ by decide
    have hrest : ∀ d, (List.replicate (width - key.length) ' ' ++
        '=' :: ' ' :: (value.text tables ++ note)).head? = some d → isBare d = false := fun d hd => by
      rw [List.head?_append] at hd
      rcases Option.or_eq_some_iff.mp hd with hd | ⟨-, hd⟩
      · rw [(List.mem_replicate.mp (List.mem_of_mem_head? hd)).2]
        rfl
      · obtain rfl := Option.some.inj hd
        rfl
    obtain ⟨htake, hdrop⟩ := takeWhile_bare hkey hrest
    have hequal : skipWs (List.replicate (width - key.length) ' ' ++
        '=' :: ' ' :: (value.text tables ++ note)) = '=' :: ' ' :: (value.text tables ++ note) :=
      skipWs_append hpad fun d hd => by
        obtain rfl := Option.some.inj hd
        rfl
    have hvalue : skipWs (' ' :: (value.text tables ++ note)) = value.text tables ++ note := by
      refine @skipWs_append _ [' '] (by simp [isWs]) fun d hd => ?_
      cases value <;> obtain rfl := Option.some.inj hd <;> rfl
    obtain ⟨c, key, rfl⟩ := List.exists_cons_of_ne_nil hne
    obtain ⟨hws, hhash, hbracket⟩ := bare_head (List.all_eq_true.mp hkey c List.mem_cons_self)
    have hskip : ∀ rest, skipWs (c :: rest) = c :: rest := fun rest =>
      skipWs_of_head fun d hd => by
        obtain rfl := Option.some.inj hd
        exact hws
    rw [Written.text, List.cons_append, scanLine, endsLine_of_head hws hhash,
      if_neg Bool.false_ne_true, hskip, List.head?_cons,
      if_neg (fun heq => hbracket (Option.some.inj heq)), scanEntry, ← List.cons_append, htake, hdrop,
      hequal, List.head?_cons, if_pos ⟨hne, rfl⟩, List.tail_cons, hvalue, scanValue_text value hquote]
    simp only [hnote, if_true]
    rfl

/-! ### Documents read back -/

theorem isText_of_isBare (h : isBare c = true) : isText c = true := by
  rw [isBare, Bool.or_eq_true, Bool.or_eq_true, beq_iff_eq, beq_iff_eq] at h
  rcases h with (h | rfl) | rfl
  · rw [isText, Bool.or_eq_true]
    simp only [Char.isAlphanum, Char.isAlpha, Char.isUpper, Char.isLower, Char.isDigit,
      Bool.or_eq_true, Bool.and_eq_true, decide_eq_true_eq, Char.toNat, ge_iff_le,
      UInt32.le_iff_toNat_le] at h ⊢
    refine .inr ?_
    have hbounds : ∀ n, (65 ≤ n ∧ n ≤ 90 ∨ 97 ≤ n ∧ n ≤ 122) ∨ 48 ≤ n ∧ n ≤ 57 →
        32 ≤ n ∧ n ≠ 127 := fun n h => by omega
    exact hbounds _ h
  · rfl
  · rfl

theorem isText_value (v : Authored) (hd : d ∈ v.text tables) : isText d = true := by
  cases v with
  | string s => exact isText_debugStr hd
  | strings ss =>
    rw [Authored.text, List.mem_cons, List.mem_append, List.mem_singleton] at hd
    rcases hd with rfl | hd | rfl
    · rfl
    · induction ss with
      | nil => exact absurd hd List.not_mem_nil
      | cons s ss ih =>
        cases ss with
        | nil =>
          refine @isText_debugStr tables s d ?_
          simpa [join, List.intercalate] using hd
        | cons t ss =>
          rw [join_debugStr_cons, List.mem_append, List.mem_cons, List.mem_cons] at hd
          rcases hd with hd | rfl | rfl | hd
          · exact isText_debugStr hd
          · rfl
          · rfl
          · exact ih hd
    · rfl

theorem isText_text {w : Written} (h : w.Fits) (hd : d ∈ w.text tables) : isText d = true := by
  cases w with
  | comment text => exact List.all_eq_true.mp h.2 d hd
  | header key =>
    rw [Written.text, List.mem_cons, List.mem_append, List.mem_singleton] at hd
    rcases hd with rfl | hd | rfl
    · rfl
    · exact isText_of_isBare (List.all_eq_true.mp h.2 d hd)
    · rfl
  | assign width key value note =>
    rw [Written.text, List.mem_append, List.mem_append, List.mem_replicate, List.mem_cons,
      List.mem_cons, List.mem_append] at hd
    rcases hd with hd | ⟨-, rfl⟩ | rfl | rfl | hd | hd
    · exact isText_of_isBare (List.all_eq_true.mp h.2.1 d hd)
    · rfl
    · rfl
    · rfl
    · exact isText_value value hd
    · exact List.all_eq_true.mp h.2.2.2.1 d hd

theorem splitOn_unlines {ls : List Str} (h : ∀ l ∈ ls, '\n' ∉ l) :
    (unlines ls).splitOn '\n' = ls ++ [[]] := by
  induction ls with
  | nil => rfl
  | cons l ls ih =>
    rw [List.forall_mem_cons] at h
    rw [unlines_cons, List.splitOn_append_cons_self_of_not_mem h.1, ih h.2, List.cons_append]

theorem mapM_eq_some_map {α β : Type} {f : α → Option β} {g : α → β} {l : List α}
    (h : ∀ a ∈ l, f a = some (g a)) : l.mapM f = some (l.map g) := by
  induction l with
  | nil => rfl
  | cons a l ih =>
    rw [List.forall_mem_cons] at h
    rw [List.mapM_cons, h.1, ih h.2]
    rfl

theorem mapM_eq_none {α β : Type} {f : α → Option β} {l : List α} {a : α} (ha : a ∈ l)
    (h : f a = none) : l.mapM f = none := by
  induction l with
  | nil => exact absurd ha List.not_mem_nil
  | cons b l ih =>
    rw [List.mapM_cons]
    rcases List.mem_cons.mp ha with rfl | ha
    · rw [h]
      rfl
    · rw [ih ha]
      cases f b <;> rfl

/-- A document is read line by line. -/
theorem scan_document {lines : List Written} (h : ∀ w ∈ lines, w.Fits) :
    scan (document tables lines) = some (lines.map (Written.line tables) ++ [.blank]) := by
  rw [scan, document, splitOn_unlines]
  · have hlines : lines.mapM (scanLine ∘ Written.text tables) =
        some (lines.map (Written.line tables)) := mapM_eq_some_map fun w hw => scanLine_text (h w hw)
    rw [List.mapM_append, List.mapM_map, hlines]
    rfl
  · intro l hl
    obtain ⟨w, hw, rfl⟩ := List.mem_map.mp hl
    exact fun hd => absurd (isText_text (h w hw) hd) (by decide)

/-- The entries of a document, and those of its tables. -/
def authored : List Written → List (Str × Authored) × List (Str × List (Str × Authored))
  | [] => ([], [])
  | .comment _ :: lines => authored lines
  | .assign _ key value _ :: lines => ((key, value) :: (authored lines).1, (authored lines).2)
  | .header key :: lines => ([], (key, (authored lines).1) :: (authored lines).2)

def rawEntries (tables : CharTables) (entries : List (Str × Authored)) : Entries :=
  entries.map fun (key, value) => (key, value.raw tables)

theorem sections_lines (lines : List Written) :
    sections (lines.map (Written.line tables) ++ [.blank]) =
      (rawEntries tables (authored lines).1,
        (authored lines).2.map fun (key, entries) => (key, rawEntries tables entries)) := by
  induction lines with
  | nil => rfl
  | cons w lines ih =>
    cases w <;> simp [Written.line, sections, authored, ih, rawEntries]

def tomlEntries (entries : List (Str × Authored)) : List (Str × Toml) :=
  entries.map fun (key, value) => (key, value.toml)

/-- The rows a document was written for. -/
def rows (lines : List Written) : List (Str × Toml) :=
  tomlEntries (authored lines).1 ++
    (authored lines).2.map fun (key, entries) => (key, Toml.table (tomlEntries entries))

/-- No table has a key twice. -/
def KeysApart (lines : List Written) : Prop :=
  ((authored lines).1.map Prod.fst).Nodup ∧
    (∀ t ∈ (authored lines).2, (t.2.map Prod.fst).Nodup) ∧ ((rows lines).map Prod.fst).Nodup

/-- All values of a document are plain. -/
def AllPlain (tables : CharTables) (lines : List Written) : Prop :=
  (∀ e ∈ (authored lines).1, e.2.Plain tables) ∧
    ∀ t ∈ (authored lines).2, ∀ e ∈ t.2, e.2.Plain tables

theorem decode_raw {v : Authored} (h : v.Plain tables) : (v.raw tables).decode = some v.toml := by
  cases v with
  | string s => rw [Authored.raw, RawValue.decode, decodeBasic_escaped h]; rfl
  | strings ss =>
    have htexts : ss.mapM (decodeBasic ∘ escaped tables) = some (ss.map id) :=
      mapM_eq_some_map fun s hs => decodeBasic_escaped (h s hs)
    rw [Authored.raw, RawValue.decode, List.mapM_map, htexts, List.map_id]
    rfl

theorem decode_raw_none {v : Authored} (h : ¬v.Plain tables) : (v.raw tables).decode = none := by
  cases v with
  | string s => rw [Authored.raw, RawValue.decode, decodeBasic_escaped_none h]; rfl
  | strings ss =>
    have hsome : ∃ s ∈ ss, ¬PlainStr tables s := by
      by_contra hall
      exact h fun s hs => by
        by_contra hs'
        exact hall ⟨s, hs, hs'⟩
    obtain ⟨s, hs, hnot⟩ := hsome
    rw [Authored.raw, RawValue.decode, List.mapM_map,
      mapM_eq_none hs (decodeBasic_escaped_none hnot)]
    rfl

theorem rowsOf_raw {entries : List (Str × Authored)} (hkeys : (entries.map Prod.fst).Nodup)
    (h : ∀ e ∈ entries, e.2.Plain tables) :
    rowsOf (rawEntries tables entries) = some (tomlEntries entries) := by
  have hfst : (rawEntries tables entries).map Prod.fst = entries.map Prod.fst := by
    simp [rawEntries, Function.comp_def]
  rw [rowsOf, hfst, if_pos hkeys, rawEntries, List.mapM_map]
  refine mapM_eq_some_map fun e he => ?_
  have hvalue := decode_raw (h e he)
  exact congrArg (Option.map fun v => (e.1, v)) hvalue

theorem rowsOf_raw_none {entries : List (Str × Authored)} {e : Str × Authored} (he : e ∈ entries)
    (h : ¬e.2.Plain tables) : rowsOf (rawEntries tables entries) = none := by
  rw [rowsOf]
  split_ifs
  · rw [rawEntries, List.mapM_map]
    have hvalue := decode_raw_none h
    exact mapM_eq_none he (congrArg (Option.map fun v => (e.1, v)) hvalue)
  · rfl

variable {lines : List Written}

/-- A document of plain values is read as the rows it was written for. -/
theorem fromStr_document (reader : Reader) (hfits : ∀ w ∈ lines, w.Fits) (hkeys : KeysApart lines)
    (hplain : AllPlain tables lines) :
    reader.fromStr (document tables lines) = some (rows lines) := by
  obtain ⟨htop, htables, hall⟩ := hkeys
  have hread : ((authored lines).2.map fun (key, entries) => (key, rawEntries tables entries)).mapM
      (fun (key, entries) => (rowsOf entries).map fun rows => (key, Toml.table rows)) =
      some ((authored lines).2.map fun (key, entries) => (key, Toml.table (tomlEntries entries))) := by
    rw [List.mapM_map]
    refine mapM_eq_some_map fun t ht => ?_
    have hrows := rowsOf_raw (htables t ht) (hplain.2 t ht)
    exact congrArg (Option.map fun rows => (t.1, Toml.table rows)) hrows
  rw [reader.reads _ _ (scan_document hfits), meaning, sections_lines, rowsOf_raw htop hplain.1,
    hread]
  exact if_pos hall

/-- A document with a value that is not plain is not read at all. -/
theorem fromStr_document_none (reader : Reader) (hfits : ∀ w ∈ lines, w.Fits)
    (hplain : ¬AllPlain tables lines) : reader.fromStr (document tables lines) = none := by
  rw [reader.reads _ _ (scan_document hfits), meaning, sections_lines]
  by_cases htop : ∀ e ∈ (authored lines).1, e.2.Plain tables
  · obtain ⟨t, ht, e, he, hnot⟩ : ∃ t ∈ (authored lines).2, ∃ e ∈ t.2, ¬e.2.Plain tables := by
      by_contra hall
      exact hplain ⟨htop, fun t ht e he => by
        by_contra hnot
        exact hall ⟨t, ht, e, he, hnot⟩⟩
    have hread : ((authored lines).2.map fun (key, entries) =>
        (key, rawEntries tables entries)).mapM
        (fun (key, entries) => (rowsOf entries).map fun rows => (key, Toml.table rows)) = none := by
      rw [List.mapM_map]
      have hrows := rowsOf_raw_none he hnot
      exact mapM_eq_none ht (congrArg (Option.map fun rows => (t.1, Toml.table rows)) hrows)
    rw [hread]
    cases rowsOf (rawEntries tables (authored lines).1) <;> rfl
  · obtain ⟨e, he, hnot⟩ : ∃ e ∈ (authored lines).1, ¬e.2.Plain tables := by
      by_contra hall
      exact htop fun e he => by
        by_contra hnot
        exact hall ⟨e, he, hnot⟩
    rw [rowsOf_raw_none he hnot]
    rfl

end Boot2Deb.Config.TomlText
