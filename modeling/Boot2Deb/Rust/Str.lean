import Mathlib

/-!
# Rust strings

A `&str` is the list of its characters (`Str`), a `&[u8]` the list of its bytes. The functions here
are those of `str` and `char` in the standard library, on whole strings; offsets into a string
become the two parts it is cut into.
-/

namespace Boot2Deb.Rust

abbrev Str := List Char

abbrev Bytes := List UInt8

instance lawfulBEq_str : LawfulBEq Str := inferInstance

/-- `char::is_whitespace`: the Unicode `White_Space` property. -/
def isWhitespace (c : Char) : Bool :=
  let n := c.toNat
  (9 ≤ n && n ≤ 13) || n == 0x20 || n == 0x85 || n == 0xa0 || n == 0x1680 ||
    (0x2000 ≤ n && n ≤ 0x200a) || n == 0x2028 || n == 0x2029 || n == 0x202f || n == 0x205f ||
    n == 0x3000

/-- `char::is_control`: the Unicode category `Cc`. -/
def isControl (c : Char) : Bool := c.toNat < 0x20 || (0x7f ≤ c.toNat && c.toNat < 0xa0)

/-- `str::trim_start`. -/
def trimStart (s : Str) : Str := s.dropWhile isWhitespace

/-- `str::trim_end`. -/
def trimEnd (s : Str) : Str := s.rdropWhile isWhitespace

/-- `str::trim`. -/
def trim (s : Str) : Str := trimEnd (trimStart s)

/-- `str::to_ascii_lowercase`. -/
def toAsciiLowercase (s : Str) : Str := s.map Char.toLower

/-- `str::to_ascii_uppercase`. -/
def toAsciiUppercase (s : Str) : Str := s.map Char.toUpper

/-- `str::find` of a character: where it first stands. -/
def find (s : Str) (c : Char) : Option Nat := s.findIdx? (· == c)

/-- `str::rfind` of a character: where it last stands. -/
def rfind (s : Str) (c : Char) : Option Nat :=
  (find s.reverse c).map (s.length - 1 - ·)

/-- `str::split_once` of a character: what is before its first occurrence and behind it. -/
def splitOnce (s : Str) (c : Char) : Option (Str × Str) :=
  (find s c).map fun i => (s.take i, s.drop (i + 1))

/-- `str::splitn` at a character: at most so many pieces, the last with what is left. -/
def splitn (c : Char) : Nat → Str → List Str
  | 0, _ => []
  | 1, s => [s]
  | n + 2, s =>
    match splitOnce s c with
    | some (piece, rest) => piece :: splitn c (n + 1) rest
    | none => [s]

/-- `str::find` of a string, as the two parts it cuts the text into before its first occurrence. -/
def cutBefore (pat : Str) : Str → Option (Str × Str)
  | [] => if pat <+: [] then some ([], []) else none
  | c :: s =>
    if pat <+: c :: s then some ([], c :: s)
    else (cutBefore pat s).map fun (head, tail) => (c :: head, tail)

/-- `str::rsplit_once` of a string: what is before its last occurrence and behind it. -/
def rsplitOnce (s pat : Str) : Option (Str × Str) :=
  (cutBefore pat.reverse s.reverse).map fun (tail, head) =>
    ((head.drop pat.length).reverse, tail.reverse)

/-- `str::strip_prefix`. -/
def stripPrefix (s pre : Str) : Option Str :=
  if pre <+: s then some (s.drop pre.length) else none

/-- `str::strip_suffix`. -/
def stripSuffix (s suffix : Str) : Option Str :=
  if suffix <:+ s then some (s.take (s.length - suffix.length)) else none

/-- `join` of a slice of strings. -/
def join (sep : Str) (pieces : List Str) : Str := sep.intercalate pieces

/-- `str::as_bytes`: the UTF-8 encoding. -/
def asBytes (s : Str) : Bytes := s.flatMap String.utf8EncodeChar

/-- `str::len`: the number of bytes. -/
def byteLen (s : Str) : Nat := (s.map Char.utf8Size).sum

/-- `s[..n]`: none where `n` is past the end or within a character, where Rust panics. -/
def sliceTo : Str → Nat → Option Str
  | _, 0 => some []
  | [], _ + 1 => none
  | c :: s, n + 1 => if c.utf8Size ≤ n + 1 then (sliceTo s (n + 1 - c.utf8Size)).map (c :: ·) else none

/-- The first word of `str::split_whitespace`. -/
def firstWord (s : Str) : Option Str :=
  let word := (trimStart s).takeWhile (!isWhitespace ·)
  if word.isEmpty then none else some word

/-- `str::split_whitespace`. -/
def splitWhitespace (s : Str) : List Str := (s.splitOnP isWhitespace).filter (!·.isEmpty)

/-- `str::replace` of a character by another. -/
def replaceChar (s : Str) (c d : Char) : Str := s.map fun x => if x = c then d else x

/-- The number a run of decimal digits denotes. -/
def decimal (ds : Str) : Nat := ds.foldl (fun n c => 10 * n + (c.toNat - '0'.toNat)) 0

/-- A numeral behind the `+` it may start with. -/
def unsigned : Str → Str
  | '+' :: ds => ds
  | ds => ds

/-- `str::parse::<u64>`: an optional `+`, then one or more decimal digits, of a value below
`2 ^ 64`. -/
def parseU64 (s : Str) : Option UInt64 :=
  let ds := unsigned s
  if !ds.isEmpty && ds.all Char.isDigit && decimal ds < 2 ^ 64 then
    some (UInt64.ofNat (decimal ds))
  else none

variable {s pre post : Str} {c : Char}

theorem find_eq_none : find s c = none ↔ c ∉ s := by
  rw [find, List.findIdx?_eq_none_iff]
  refine ⟨fun h hc => by simpa using h c hc, fun h d hd => ?_⟩
  have hne : d ≠ c := fun he => h (he ▸ hd)
  simpa using hne

theorem find_append_cons (h : c ∉ pre) : find (pre ++ c :: post) c = some pre.length := by
  have hpre : pre.findIdx? (· == c) = none := find_eq_none.mpr h
  rw [find, List.findIdx?_append, hpre, List.findIdx?_cons]
  simp

theorem takeWhile_ne_append_cons (h : c ∉ pre) :
    (pre ++ c :: post).takeWhile (· ≠ c) = pre := by
  have hall : ∀ d ∈ pre, decide (d ≠ c) = true := fun d hd =>
    decide_eq_true fun he => h (he ▸ hd)
  rw [List.takeWhile_append_of_pos hall, List.takeWhile_cons_of_neg (by simp), List.append_nil]

theorem dropWhile_ne_append_cons (h : c ∉ pre) :
    (pre ++ c :: post).dropWhile (· ≠ c) = c :: post := by
  have hall : ∀ d ∈ pre, decide (d ≠ c) = true := fun d hd =>
    decide_eq_true fun he => h (he ▸ hd)
  rw [List.dropWhile_append_of_pos hall, List.dropWhile_cons_of_neg (by simp)]

theorem rfind_eq_none : rfind s c = none ↔ c ∉ s := by
  rw [rfind, Option.map_eq_none_iff, find_eq_none, List.mem_reverse]

theorem rfind_append_cons (h : c ∉ post) : rfind (pre ++ c :: post) c = some pre.length := by
  have hrev : (pre ++ c :: post).reverse = post.reverse ++ c :: pre.reverse := by simp
  rw [rfind, hrev, find_append_cons (by simpa using h)]
  simp

/-- A string cut at the last occurrence of a character. -/
theorem append_cons_inj {x y a b : Str} (ha : c ∉ a) (hb : c ∉ b) :
    x ++ c :: a = y ++ c :: b ↔ x = y ∧ a = b := by
  refine ⟨fun h => ?_, fun ⟨hx, ha⟩ => by rw [hx, ha]⟩
  have hx : rfind (x ++ c :: a) c = some x.length := rfind_append_cons ha
  rw [h, rfind_append_cons hb] at hx
  obtain ⟨rfl, htail⟩ := List.append_inj h (Option.some.inj hx).symm
  exact ⟨rfl, (List.cons.inj htail).2⟩

/-! ### Cutting -/

theorem splitOnce_append_cons (h : c ∉ pre) : splitOnce (pre ++ c :: post) c = some (pre, post) := by
  rw [splitOnce, find_append_cons h]
  simp

theorem splitOnce_eq_none : splitOnce s c = none ↔ c ∉ s := by
  rw [splitOnce, Option.map_eq_none_iff, find_eq_none]

theorem eq_of_splitOnce (h : splitOnce s c = some (pre, post)) : s = pre ++ c :: post ∧ c ∉ pre := by
  by_cases hc : c ∈ s
  · obtain ⟨a, b, rfl, ha⟩ := List.eq_append_cons_of_mem hc
    rw [splitOnce_append_cons ha] at h
    obtain ⟨rfl, rfl⟩ := Prod.mk.inj (Option.some.inj h)
    exact ⟨rfl, ha⟩
  · rw [splitOnce_eq_none.mpr hc] at h
    cases h

theorem eq_of_cutBefore {pat head tail : Str} (h : cutBefore pat s = some (head, tail)) :
    s = head ++ tail ∧ pat <+: tail := by
  induction s generalizing head with
  | nil =>
    rw [cutBefore] at h
    split_ifs at h with hpat
    cases h
    exact ⟨rfl, hpat⟩
  | cons c s ih =>
    rw [cutBefore] at h
    split_ifs at h with hpat
    · cases h
      exact ⟨rfl, hpat⟩
    · obtain ⟨⟨head', tail'⟩, hcut, he⟩ := Option.map_eq_some_iff.mp h
      cases he
      obtain ⟨rfl, htail⟩ := ih hcut
      exact ⟨rfl, htail⟩

/-- A pattern is not found before its first character is. -/
theorem cutBefore_append {pat : Str} (h : c ∉ pre) : cutBefore (c :: pat) (pre ++ s) =
    (cutBefore (c :: pat) s).map fun (head, tail) => (pre ++ head, tail) := by
  induction pre with
  | nil => cases hcut : cutBefore (c :: pat) s <;> simp [hcut]
  | cons d pre ih =>
    simp only [List.mem_cons, not_or] at h
    have hnot : ¬c :: pat <+: d :: (pre ++ s) := fun hp => h.1 (List.cons_prefix_cons.mp hp).1
    rw [List.cons_append, cutBefore, if_neg hnot, ih h.2, Option.map_map]
    rfl

theorem rsplitOnce_cases (s pat : Str) : rsplitOnce s pat = none ∨
    ∃ head tail, rsplitOnce s pat = some (head, tail) ∧ s = head ++ pat ++ tail := by
  unfold rsplitOnce
  cases h : cutBefore pat.reverse s.reverse with
  | none => exact Or.inl rfl
  | some cut =>
    obtain ⟨tail, rest⟩ := cut
    obtain ⟨hs, head, rfl⟩ := eq_of_cutBefore h
    refine Or.inr ⟨head.reverse, tail.reverse, by simp, ?_⟩
    simpa using congrArg List.reverse hs

/-- The last occurrence of a pattern is behind what the rest does not hold the end of. -/
theorem rsplitOnce_append {pat head tail : Str} (h : c ∉ tail) :
    rsplitOnce (head ++ (pat ++ [c]) ++ tail) (pat ++ [c]) = some (head, tail) := by
  have hpat : (pat ++ [c]).reverse = c :: pat.reverse := by simp
  have hrev : (head ++ (pat ++ [c]) ++ tail).reverse =
      tail.reverse ++ (c :: (pat.reverse ++ head.reverse)) := by simp
  have hcut : cutBefore (c :: pat.reverse) (c :: (pat.reverse ++ head.reverse)) =
      some ([], c :: (pat.reverse ++ head.reverse)) := by
    rw [cutBefore, if_pos]
    exact ⟨head.reverse, rfl⟩
  unfold rsplitOnce
  rw [hpat, hrev, cutBefore_append (by simpa using h), hcut]
  simp

theorem stripPrefix_eq_some : stripPrefix s pre = some post ↔ s = pre ++ post := by
  rw [stripPrefix]
  constructor
  · intro h
    split_ifs at h with hpre
    obtain ⟨t, rfl⟩ := hpre
    simpa using h
  · rintro rfl
    simp

/-- The first word has no white space. -/
theorem isWhitespace_of_mem_firstWord {word : Str} (h : firstWord s = some word) (hc : c ∈ word) :
    isWhitespace c = false := by
  rw [firstWord] at h
  split_ifs at h
  cases h
  simpa using List.mem_takeWhile_imp hc

theorem mem_of_mem_firstWord {word : Str} (h : firstWord s = some word) (hc : c ∈ word) : c ∈ s := by
  rw [firstWord] at h
  split_ifs at h
  cases h
  exact (List.dropWhile_sublist _).mem ((List.takeWhile_prefix _).subset hc)

/-! ### Splitting -/

/-- The pieces of a split are free of what it splits at. -/
theorem eq_false_of_mem_splitOnP {p : Char → Bool} {piece : Str} (h : piece ∈ s.splitOnP p) :
    ∀ c ∈ piece, p c = false := by
  induction s generalizing piece with
  | nil =>
    obtain rfl : piece = [] := by simpa using h
    simp
  | cons d s ih =>
    rw [List.splitOnP_cons_eq_if_modifyHead] at h
    cases hd : p d with
    | true =>
      rw [if_pos hd] at h
      rcases List.mem_cons.mp h with rfl | h
      · simp
      · exact ih h
    | false =>
      obtain ⟨first, rest, hs⟩ := List.exists_cons_of_ne_nil (List.splitOnP_ne_nil p s)
      rw [hd, if_neg Bool.false_ne_true, hs, List.modifyHead_cons] at h
      rw [hs] at ih
      rcases List.mem_cons.mp h with rfl | h
      · exact List.forall_mem_cons.mpr ⟨hd, ih (List.mem_cons_self ..)⟩
      · exact ih (List.mem_cons_of_mem _ h)

theorem mem_of_mem_splitOnP {p : Char → Bool} {piece : Str} (h : piece ∈ s.splitOnP p)
    (hc : c ∈ piece) : c ∈ s := by
  induction s generalizing piece with
  | nil =>
    obtain rfl : piece = [] := by simpa using h
    exact hc
  | cons d s ih =>
    obtain ⟨first, rest, hs⟩ := List.exists_cons_of_ne_nil (List.splitOnP_ne_nil p s)
    rw [hs] at ih
    rw [List.splitOnP_cons_eq_if_modifyHead, hs, List.modifyHead_cons] at h
    split_ifs at h
    · rcases List.mem_cons.mp h with rfl | h
      · exact absurd hc List.not_mem_nil
      · exact List.mem_cons_of_mem _ (ih h hc)
    · rcases List.mem_cons.mp h with rfl | h
      · rcases List.mem_cons.mp hc with rfl | hc
        · exact List.mem_cons_self ..
        · exact List.mem_cons_of_mem _ (ih (List.mem_cons_self ..) hc)
      · exact List.mem_cons_of_mem _ (ih (List.mem_cons_of_mem _ h) hc)

theorem not_mem_of_mem_splitOn {piece : Str} (h : piece ∈ s.splitOn c) : c ∉ piece := by
  intro hc
  rw [List.splitOn_eq_splitOnP] at h
  simpa using eq_false_of_mem_splitOnP h c hc

/-- Every character but the separator stands in a piece. -/
theorem exists_mem_splitOn {sep : Char} (hc : c ∈ s) (hne : c ≠ sep) :
    ∃ piece ∈ s.splitOn sep, c ∈ piece := by
  induction s with
  | nil => cases hc
  | cons d s ih =>
    obtain ⟨first, rest, hs⟩ := List.exists_cons_of_ne_nil (List.splitOn_ne_nil sep s)
    rw [hs] at ih
    rw [List.splitOn_cons_eq_if_modifyHead, hs, List.modifyHead_cons]
    by_cases hd : d = sep
    · rw [if_pos (by simpa using hd)]
      rcases List.mem_cons.mp hc with rfl | hc
      · exact absurd hd hne
      · obtain ⟨piece, hmem, hpiece⟩ := ih hc
        exact ⟨piece, List.mem_cons_of_mem _ hmem, hpiece⟩
    · rw [if_neg (by simpa using hd)]
      rcases List.mem_cons.mp hc with rfl | hc
      · exact ⟨_, List.mem_cons_self .., List.mem_cons_self ..⟩
      · obtain ⟨piece, hmem, hpiece⟩ := ih hc
        rcases List.mem_cons.mp hmem with rfl | hmem
        · exact ⟨_, List.mem_cons_self .., List.mem_cons_of_mem _ hpiece⟩
        · exact ⟨piece, List.mem_cons_of_mem _ hmem, hpiece⟩

/-- A word behind which white space stands. -/
theorem splitWhitespace_append_cons (hne : pre ≠ []) (h : ∀ d ∈ pre, isWhitespace d = false)
    (hc : isWhitespace c) : splitWhitespace (pre ++ c :: post) = pre :: splitWhitespace post := by
  unfold splitWhitespace
  rw [List.splitOnP_append_cons_of_forall_mem h c hc, List.filter_cons_of_pos (by simpa using hne)]

theorem splitWhitespace_word (hne : s ≠ []) (h : ∀ d ∈ s, isWhitespace d = false) :
    splitWhitespace s = [s] := by
  unfold splitWhitespace
  rw [List.splitOnP_eq_singleton h, List.filter_cons_of_pos (by simpa using hne), List.filter_nil]

theorem isWhitespace_of_mem_splitWhitespace {word : Str} (h : word ∈ splitWhitespace s)
    (hc : c ∈ word) : isWhitespace c = false :=
  eq_false_of_mem_splitOnP (List.mem_filter.mp h).1 c hc

/-! ### Numerals -/

theorem decimal_append_singleton (ds : Str) :
    decimal (ds ++ [c]) = 10 * decimal ds + (c.toNat - '0'.toNat) := by
  simp [decimal]

/-- The text of a number, `Display` of an unsigned integer, denotes it. -/
theorem decimal_toDigits (n : Nat) : decimal (Nat.toDigits 10 n) = n := by
  induction n using Nat.strongRecOn with
  | ind n ih =>
    rw [Nat.toDigits_eq_if (by decide)]
    have hdigit : ∀ {d : Nat}, d < 10 → d.digitChar.toNat - '0'.toNat = d :=
      Nat.toNat_digitChar_sub_48_of_lt_ten
    split_ifs with h
    · simpa [decimal] using hdigit h
    · rw [decimal_append_singleton, ih (n / 10) (by omega), hdigit (Nat.mod_lt n (by decide)),
        Nat.div_add_mod]

theorem isDigit_of_mem_toDigits {n : Nat} (h : c ∈ Nat.toDigits 10 n) : c.isDigit = true :=
  Nat.isDigit_of_mem_toDigits (by decide) (by decide) h

/-- Only zero's text starts with a zero. -/
theorem toDigits_eq_of_head_zero {n : Nat} (h : (Nat.toDigits 10 n).head? = some '0') :
    Nat.toDigits 10 n = ['0'] := by
  induction n using Nat.strongRecOn with
  | ind n ih =>
    rw [Nat.toDigits_eq_if (by decide)] at h ⊢
    split_ifs at h ⊢ with hlt
    · rw [List.head?_cons, Option.some.injEq] at h
      rw [h]
    · have hne : Nat.toDigits 10 (n / 10) ≠ [] := Nat.toDigits_ne_nil
      rw [List.head?_append_of_ne_nil _ hne] at h
      have := decimal_toDigits (n / 10)
      rw [ih (n / 10) (by omega) h] at this
      exact absurd this (by simp [decimal]; omega)

theorem unsigned_of_head (h : s.head? ≠ some '+') : unsigned s = s := by
  cases s with
  | nil => rfl
  | cons c s =>
    rw [unsigned]
    rintro ds he
    obtain ⟨rfl, -⟩ := List.cons.inj he
    exact h rfl

theorem parseU64_toDigits (n : UInt64) : parseU64 (Nat.toDigits 10 n.toNat) = some n := by
  have hdigits : (Nat.toDigits 10 n.toNat).all Char.isDigit = true :=
    List.all_eq_true.mpr fun c hc => isDigit_of_mem_toDigits hc
  have hhead : (Nat.toDigits 10 n.toNat).head? ≠ some '+' := by
    intro h
    exact absurd (isDigit_of_mem_toDigits (List.mem_of_head? h)) (by decide)
  have hne : (Nat.toDigits 10 n.toNat).isEmpty = false :=
    List.isEmpty_eq_false_iff.mpr Nat.toDigits_ne_nil
  rw [parseU64, unsigned_of_head hhead]
  simp only [hdigits, hne, decimal_toDigits, n.toNat_lt, UInt64.ofNat_toNat, decide_true,
    Bool.not_false, Bool.and_self, if_true]

/-! ### Trimming -/

theorem trimEnd_trimEnd : trimEnd (trimEnd s) = trimEnd s :=
  List.rdropWhile_idempotent ..

theorem trimStart_trimStart : trimStart (trimStart s) = trimStart s :=
  List.dropWhile_idempotent ..

theorem trimStart_trimEnd (h : trimStart s = s) : trimStart (trimEnd s) = trimEnd s := by
  obtain ⟨r, hr⟩ := List.rdropWhile_prefix isWhitespace s
  rw [← trimEnd] at hr
  cases htrim : trimEnd s with
  | nil => rfl
  | cons c t =>
    have hc : isWhitespace c = false := by
      have := List.head?_dropWhile_not isWhitespace s
      rw [← trimStart, h, ← hr, htrim] at this
      simpa using this
    exact List.dropWhile_cons_of_neg (by simp [hc])

theorem mem_of_mem_trimEnd (h : c ∈ trimEnd s) : c ∈ s :=
  (List.rdropWhile_prefix isWhitespace s).subset h

theorem mem_of_mem_trim (h : c ∈ trim s) : c ∈ s :=
  (List.dropWhile_sublist _).mem (mem_of_mem_trimEnd h)

theorem trim_trim (s : Str) : trim (trim s) = trim s := by
  rw [trim, trim, trimStart_trimEnd trimStart_trimStart, trimEnd_trimEnd]

theorem trimStart_append_left (h : ∀ c ∈ pre, isWhitespace c) : trimStart (pre ++ s) = trimStart s :=
  List.dropWhile_append_of_pos h

theorem trimEnd_append_right (h : ∀ c ∈ post, isWhitespace c) : trimEnd (s ++ post) = trimEnd s := by
  rw [trimEnd, List.rdropWhile, List.reverse_append,
    List.dropWhile_append_of_pos fun c hc => h c (List.mem_reverse.mp hc)]
  rfl

theorem trim_append_left (h : ∀ c ∈ pre, isWhitespace c) : trim (pre ++ s) = trim s := by
  rw [trim, trimStart_append_left h, trim]

theorem trim_append_right (h : ∀ c ∈ post, isWhitespace c) : trim (s ++ post) = trim s := by
  rw [trim, trimStart, List.dropWhile_append]
  split_ifs with hs
  · rw [trim, trimStart, List.isEmpty_iff.mp hs, List.dropWhile_eq_nil_iff.mpr h]
  · rw [trimEnd_append_right h, trim, trimStart]

theorem trimEnd_append_cons (hc : isWhitespace c = false) :
    trimEnd (pre ++ c :: post) = pre ++ c :: trimEnd post := by
  rw [trimEnd, List.rdropWhile, List.reverse_append, List.reverse_cons, List.append_assoc,
    List.dropWhile_append]
  split_ifs with hnil
  · rw [List.singleton_append, List.dropWhile_cons_of_neg (by simp [hc])]
    rw [trimEnd, List.rdropWhile, List.isEmpty_iff.mp hnil]
    simp
  · rw [trimEnd, List.rdropWhile]
    simp

theorem trim_of_inked (h : ∀ d ∈ s, isWhitespace d = false) : trim s = s := by
  have hstart : trimStart s = s := by
    rcases s with - | ⟨d, s⟩
    · rfl
    · exact List.dropWhile_cons_of_neg (by simp [h d])
  rw [trim, hstart, trimEnd, List.rdropWhile_eq_self_iff]
  intro hne
  simp [h _ (List.getLast_mem hne)]

/-- No printing ASCII character is white space. -/
theorem isWhitespace_of_graphic (hlow : 0x20 < c.toNat) (hhigh : c.toNat < 0x7f) :
    isWhitespace c = false := by
  simp only [isWhitespace, Bool.or_eq_false_iff, Bool.and_eq_false_iff, decide_eq_false_iff_not,
    beq_eq_false_iff_ne]
  omega

/-- A string without blanks at its ends stays. -/
theorem trim_eq_self {d : Char} (hc : isWhitespace c = false) (hd : isWhitespace d = false)
    (hhead : s.head? = some c) (hlast : s.getLast? = some d) : trim s = s := by
  have hstart : trimStart s = s := by
    obtain ⟨t, rfl⟩ := List.head?_eq_some_iff.mp hhead
    exact List.dropWhile_cons_of_neg (by simp [hc])
  rw [trim, hstart, trimEnd, List.rdropWhile_eq_self_iff]
  intro hne
  rw [List.getLast?_eq_some_getLast hne] at hlast
  rw [Option.some.inj hlast]
  simp [hd]

end Boot2Deb.Rust
