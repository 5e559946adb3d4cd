import Boot2Deb.Rust.Lines

/-!
# Text in a POSIX shell

What `read`, the trimming parameter expansions and `tr -d` make of a string. A NUL is lost where a
line is read.
-/

namespace Boot2Deb.Shell
open Rust

/-- A space or a tab. -/
def isBlank (c : Char) : Bool := c = ' ' || c = '\t'

/-- The field `read` assigns under an `IFS` of a space and a tab. -/
def trimBlanks (s : Str) : Str := (s.dropWhile isBlank).rdropWhile isBlank

/-- `${s%suffix}` of a literal suffix. -/
def dropSuffix (s suffix : Str) : Str := (stripSuffix s suffix).getD s

/-- `tr -d ' <tab>'`. -/
def deleteBlanks (s : Str) : Str := s.filter (!isBlank ·)

/-- A line of a file, as `read -r` takes it up. -/
def lineText (raw : Str) : Str := (dropSuffix raw ['\n']).filter (· ≠ '\x00')

/-- The lines of `while read -r line || [ -n "$line" ]`, where `field` is what `IFS` leaves of a
line. -/
def readLines (field : Str → Str) (text : Str) : List Str :=
  ((rawLines text).filter fun raw => raw.getLast? = some '\n' || field (lineText raw) ≠ []).map
    fun raw => field (lineText raw)

/-- `[ -n "$s" ]`, as an option. -/
def nonempty (s : Str) : Option Str := if s.isEmpty then none else some s

/-- The fields an unquoted `$s` is split into, under the default `IFS`. -/
def fields (s : Str) : List Str :=
  (s.splitOnP fun c => isBlank c || c = '\n').filter (!·.isEmpty)

/-- What `$(…)` makes of an output. -/
def substituted (output : Str) : Str := (output.filter (· ≠ '\x00')).rdropWhile (· = '\n')

/-- The field `read` assigns to a name that is not the last one, under an `IFS` of white space, and
what the names behind it get. -/
def nextField (sep : Char → Bool) (s : Str) : Str × Str :=
  (s.takeWhile (!sep ·), (s.dropWhile (!sep ·)).dropWhile sep)

variable {s : Str} {c : Char}

theorem nextField_append_cons {sep : Char → Bool} {rest : Str} (h : ∀ d ∈ s, sep d = false)
    (hc : sep c = true) (hrest : ∀ d, rest.head? = some d → sep d = false) :
    nextField sep (s ++ c :: rest) = (s, rest) := by
  have hs : ∀ d ∈ s, (!sep d) = true := fun d hd => by rw [h d hd, Bool.not_false]
  unfold nextField
  rw [List.takeWhile_append_of_pos hs, List.dropWhile_append_of_pos hs,
    List.takeWhile_cons_of_neg (by simp [hc]), List.dropWhile_cons_of_neg (by simp [hc]),
    List.dropWhile_cons_of_pos hc, List.append_nil]
  cases rest with
  | nil => rfl
  | cons d rest => rw [List.dropWhile_cons_of_neg (by simp [hrest d rfl])]

theorem mem_of_mem_dropSuffix {suffix : Str} (h : c ∈ dropSuffix s suffix) : c ∈ s := by
  unfold dropSuffix at h
  cases hs : stripSuffix s suffix with
  | none =>
    rw [hs] at h
    exact h
  | some rest =>
    rw [hs] at h
    unfold stripSuffix at hs
    split_ifs at hs
    obtain rfl := Option.some.inj hs
    exact List.mem_of_mem_take h

theorem mem_of_mem_trimBlanks (h : c ∈ trimBlanks s) : c ∈ s :=
  (List.dropWhile_suffix _).mem ((List.rdropWhile_prefix _ _).mem h)

/-- A line taken up by `read` has no newline and no NUL. -/
theorem not_mem_lineText (h : IsRaw s) (hc : c = '\n' ∨ c = '\x00') : c ∉ lineText s := by
  intro hmem
  obtain ⟨hmem, hnul⟩ := List.mem_filter.mp hmem
  rcases hc with rfl | rfl
  · obtain ⟨body, hbody, rfl | ⟨rfl, -⟩⟩ := h
    · unfold dropSuffix at hmem
      rw [stripSuffix_concat] at hmem
      exact hbody hmem
    · exact hbody (mem_of_mem_dropSuffix hmem)
  · simp at hnul

/-- Lines written out are read back without their NULs. -/
theorem readLines_unlines_filter {ls : List Str} (h : ∀ l ∈ ls, '\n' ∉ l) :
    readLines id (unlines ls) = ls.map (·.filter (· ≠ '\x00')) := by
  induction ls with
  | nil => rfl
  | cons l ls ih =>
    have hnl := h l List.mem_cons_self
    have hraw : rawLines (unlines (l :: ls)) = (l ++ ['\n']) :: rawLines (unlines ls) := by
      have hcons : unlines (l :: ls) = (l ++ ['\n']) ++ unlines ls := by
        rw [unlines_cons, List.append_assoc]
        rfl
      rw [hcons]
      exact rawLines_ended ⟨l, hnl, rfl⟩ _
    have htext : lineText (l ++ ['\n']) = l.filter (· ≠ '\x00') := by
      unfold lineText dropSuffix
      rw [stripSuffix_concat]
      rfl
    have hrest := ih fun l hl => h l (List.mem_cons_of_mem _ hl)
    unfold readLines at hrest ⊢
    rw [hraw, List.filter_cons_of_pos (by simp), List.map_cons, hrest, htext]
    rfl

theorem filter_nul (h : '\x00' ∉ s) : s.filter (· ≠ '\x00') = s :=
  List.filter_eq_self.mpr fun _ hc => decide_eq_true fun hz => h (hz ▸ hc)

/-- Lines written out are read back. -/
theorem readLines_unlines {ls : List Str} (h : ∀ l ∈ ls, '\n' ∉ l ∧ '\x00' ∉ l) :
    readLines id (unlines ls) = ls := by
  rw [readLines_unlines_filter fun l hl => (h l hl).1]
  exact (List.map_congr_left fun l hl => filter_nul (h l hl).2).trans (List.map_id ls)

theorem fields_word (hne : s ≠ []) (h : ∀ c ∈ s, (isBlank c || c = '\n') = false) :
    fields s = [s] := by
  unfold fields
  rw [List.splitOnP_eq_singleton h, List.filter_cons_of_pos (by simpa using hne), List.filter_nil]

/-- A word behind which a separator stands. -/
theorem fields_append_cons {post : Str} (hne : s ≠ [])
    (h : ∀ d ∈ s, (isBlank d || d = '\n') = false) (hc : (isBlank c || c = '\n') = true) :
    fields (s ++ c :: post) = s :: fields post := by
  unfold fields
  rw [List.splitOnP_append_cons_of_forall_mem h c hc, List.filter_cons_of_pos (by simpa using hne)]

theorem nonempty_of_ne (h : s ≠ []) : nonempty s = some s := by
  unfold nonempty
  rw [if_neg (by simpa using h)]

theorem isWhitespace_of_isBlank (h : isBlank c = true) : isWhitespace c = true := by
  unfold isBlank at h
  rcases (Bool.or_eq_true _ _).mp h with h | h
  · rw [of_decide_eq_true h]
    rfl
  · rw [of_decide_eq_true h]
    rfl

end Boot2Deb.Shell
