import Boot2Deb.Mbox.Normalize

/-!
# The diff a normalized patch carries

`diffOf s` is the text from its first diff line to its end. What `normalize` writes is a head of
whole lines and behind it the diff, taken over as it is (a mailbox with a cut) or line by line. The
diff comes through when the head holds no diff line of its own and, where it is written line by
line, no line of it ends in a carriage return and a newline.
-/

namespace Boot2Deb.Mbox
open Rust

/-- The text from its first diff line on. -/
def diffOf (s : Str) : Str := ((rawLines s).dropWhile fun l => !isDiffStart (stripEnding l)).flatten

/-- No line of the text begins a diff. -/
def NoDiff (s : Str) : Prop := ∀ l ∈ lines s, isDiffStart l = false

instance (s : Str) : Decidable (NoDiff s) :=
  inferInstanceAs (Decidable (∀ l ∈ lines s, isDiffStart l = false))

/-- The same bytes up to one final newline. -/
def SameUpToNewline (x y : Str) : Prop := x = y ∨ x = y ++ ['\n'] ∨ x ++ ['\n'] = y

instance (x y : Str) : Decidable (SameUpToNewline x y) :=
  inferInstanceAs (Decidable (_ ∨ _ ∨ _))

/-! ### Diff lines -/

section
variable {s t x y l head : Str}

/-- A prefix without `c` is read before the first `c`. -/
theorem isPrefix_append_cons {p : Str} {c : Char} (hp : c ∉ p) :
    p <+: l ++ c :: s ↔ p <+: l := by
  constructor
  · intro h
    have hl : l ++ [c] <+: l ++ c :: s := ⟨s, by simp⟩
    rcases List.prefix_or_prefix_of_prefix h hl with h | h
    · rcases List.prefix_concat_iff.mp h with rfl | h
      · exact absurd (by simp) hp
      · exact h
    · exact absurd (h.subset (by simp)) hp
  · exact fun h => h.trans (List.prefix_append _ _)

theorem isDiffStart_append (h : isDiffStart l = true) (s : Str) : isDiffStart (l ++ s) = true := by
  simp only [isDiffStart, Bool.or_eq_true, decide_eq_true_eq] at h ⊢
  exact h.imp (Or.imp (Or.imp (·.trans (List.prefix_append ..)) (·.trans (List.prefix_append ..)))
    (·.trans (List.prefix_append ..))) (·.trans (List.prefix_append ..))

/-- No marker holds a line ending. -/
theorem isDiffStart_append_cons {c : Char} (hc : c = '\n' ∨ c = '\r') (l s : Str) :
    isDiffStart (l ++ c :: s) = isDiffStart l := by
  have h1 : c ∉ "diff --git ".toList := by rcases hc with rfl | rfl <;> decide
  have h2 : c ∉ "diff -".toList := by rcases hc with rfl | rfl <;> decide
  have h3 : c ∉ "--- ".toList := by rcases hc with rfl | rfl <;> decide
  have h4 : c ∉ "Index: ".toList := by rcases hc with rfl | rfl <;> decide
  simp only [isDiffStart, isPrefix_append_cons h1, isPrefix_append_cons h2,
    isPrefix_append_cons h3, isPrefix_append_cons h4]

/-- The first character of a diff line. -/
theorem isDiffStart_head {c : Char} (h : isDiffStart (c :: s) = true) : c ∈ ['d', '-', 'I'] := by
  simp only [isDiffStart, Bool.or_eq_true, decide_eq_true_eq] at h
  rcases h with ((h | h) | h) | h <;> obtain ⟨rfl, -⟩ := List.cons_prefix_cons.mp h <;> decide

theorem isDiffStart_nil : isDiffStart [] = false := by decide

theorem isDiffStart_stripEnding (h : IsRaw l) : isDiffStart (stripEnding l) = isDiffStart l := by
  obtain ⟨body, hbody, rfl | ⟨rfl, -⟩⟩ := h
  · rw [isDiffStart_append_cons (Or.inl rfl)]
    rcases stripEnding_ended_cases body with ⟨he, -⟩ | ⟨body', rfl, he⟩
    · rw [he]
    · rw [he, isDiffStart_append_cons (Or.inr rfl)]
  · rw [stripEnding_of_not_mem hbody]

/-- Whether a text begins with a diff line is seen in its first line. -/
theorem isDiffStart_ended_append (hl : Ended l) (s : Str) :
    isDiffStart (l ++ s) = isDiffStart l := by
  obtain ⟨body, -, rfl⟩ := hl
  rw [List.append_assoc, List.singleton_append, isDiffStart_append_cons (Or.inl rfl),
    isDiffStart_append_cons (Or.inl rfl)]

theorem noDiff_append (hs : Closed s) : NoDiff (s ++ t) ↔ NoDiff s ∧ NoDiff t := by
  rw [NoDiff, lines_append hs]
  exact List.forall_mem_append

/-- A text that begins with a diff line is its own diff. -/
theorem diffOf_of_isDiffStart (h : isDiffStart x = true) : diffOf x = x := by
  have hdrop : (rawLines x).dropWhile (fun l => !isDiffStart (stripEnding l)) = rawLines x := by
    rcases exists_ended_append x with ⟨l, r, hl, rfl⟩ | hnot
    · rw [rawLines_ended hl]
      refine List.dropWhile_cons_of_neg ?_
      rw [isDiffStart_stripEnding hl.isRaw, ← isDiffStart_ended_append hl r, h]
      simp
    · rcases eq_or_ne x [] with rfl | hne
      · rfl
      · rw [rawLines_of_not_mem hne hnot]
        refine List.dropWhile_cons_of_neg ?_
        rw [stripEnding_of_not_mem hnot, h]
        simp
  rw [diffOf, hdrop, flatten_rawLines]

theorem diffOf_eq_nil (h : NoDiff s) : diffOf s = [] := by
  have hdrop : (rawLines s).dropWhile (fun l => !isDiffStart (stripEnding l)) = [] :=
    List.dropWhile_eq_nil_iff.mpr fun l hl => by simp [h _ (List.mem_map_of_mem hl)]
  rw [diffOf, hdrop, List.flatten_nil]

theorem not_noDiff_of_isDiffStart (h : isDiffStart x = true) : ¬NoDiff x := by
  intro hno
  have hnil := diffOf_eq_nil hno
  rw [diffOf_of_isDiffStart h] at hnil
  rw [hnil] at h
  exact absurd h (by decide)

/-- Whole lines without a diff line are not part of the diff. -/
theorem diffOf_append (hhead : Closed head) (hno : NoDiff head) :
    diffOf (head ++ x) = diffOf x := by
  rw [diffOf, rawLines_append hhead, List.dropWhile_append_of_pos, diffOf]
  intro l hl
  rw [hno _ (List.mem_map_of_mem hl)]
  rfl

/-- A text with a diff line is lines without one, and then its diff. -/
theorem exists_diffOf (h : ¬NoDiff s) : ∃ pre, Closed pre ∧ NoDiff pre ∧ s = pre ++ diffOf s ∧
    isDiffStart (diffOf s) = true := by
  let p : Str → Bool := fun l => !isDiffStart (stripEnding l)
  have hsplit : rawLines s = (rawLines s).takeWhile p ++ (rawLines s).dropWhile p :=
    List.takeWhile_append_dropWhile.symm
  have hne : (rawLines s).dropWhile p ≠ [] := by
    intro hnil
    refine h fun l hl => ?_
    obtain ⟨raw, hraw, rfl⟩ := List.mem_map.mp hl
    simpa [p] using List.dropWhile_eq_nil_iff.mp hnil raw hraw
  have hclosed := flatten_closed hsplit hne
  have hdiff : diffOf s = ((rawLines s).dropWhile p).flatten := rfl
  have hwhole : s = ((rawLines s).takeWhile p).flatten ++ diffOf s := by
    rw [hdiff, ← List.flatten_append, ← hsplit, flatten_rawLines]
  refine ⟨_, hclosed, ?_, hwhole, ?_⟩
  · have hlines : rawLines ((rawLines s).takeWhile p).flatten = (rawLines s).takeWhile p := by
      rw [← List.append_left_inj ((rawLines s).dropWhile p), ← hsplit]
      conv_rhs => rw [hwhole, rawLines_append hclosed, hdiff, rawLines_flatten_of_append hsplit]
    intro l hl
    rw [lines, hlines] at hl
    obtain ⟨raw, hraw, rfl⟩ := List.mem_map.mp hl
    simpa [p] using List.mem_takeWhile_imp hraw
  · obtain ⟨l, ls, hls⟩ := List.exists_cons_of_ne_nil hne
    have hl : isDiffStart (stripEnding l) = true := by
      have := List.head?_dropWhile_not p (rawLines s)
      rw [hls] at this
      simpa [p] using this
    have hraw : IsRaw l := by
      refine isRaw_of_mem (s := s) ?_
      rw [hsplit, hls]
      simp
    rw [hdiff, hls, List.flatten_cons]
    rw [isDiffStart_stripEnding hraw] at hl
    exact isDiffStart_append hl _

/-! ### Counting diff lines -/

/-- The number of lines that begin a diff. -/
def diffLines (s : Str) : Nat := (lines s).countP isDiffStart

theorem diffLines_append (hs : Closed s) : diffLines (s ++ t) = diffLines s + diffLines t := by
  rw [diffLines, lines_append hs, List.countP_append, diffLines, diffLines]

theorem diffLines_eq_zero : diffLines s = 0 ↔ NoDiff s := by
  rw [diffLines, List.countP_eq_zero, NoDiff]
  exact forall₂_congr fun l _ => by simp

/-- A newline behind a text ends its last line or adds an empty one. -/
theorem diffLines_append_newline (s : Str) : diffLines (s ++ ['\n']) = diffLines s := by
  induction s using lines_induction with
  | nil => decide
  | last s hne hnot =>
    have hlines : lines (s ++ ['\n']) = [stripEnding (s ++ ['\n'])] := by
      have := rawLines_ended (l := s ++ ['\n']) ⟨s, hnot, rfl⟩ []
      rw [List.append_nil] at this
      rw [lines, this]
      rfl
    have hlines' : lines s = [s] := by
      rw [lines, rawLines_of_not_mem hne hnot, List.map_singleton, stripEnding_of_not_mem hnot]
    have hraw : IsRaw (s ++ ['\n']) := ⟨s, hnot, Or.inl rfl⟩
    rw [diffLines, diffLines, hlines, hlines', List.countP_singleton, List.countP_singleton,
      isDiffStart_stripEnding hraw, isDiffStart_append_cons (Or.inl rfl)]
  | ended l s hl ih =>
    rw [List.append_assoc, diffLines_append hl.closed, ih, diffLines_append hl.closed]

theorem diffLines_eq_of_same (h : SameUpToNewline x y) : diffLines x = diffLines y := by
  rcases h with rfl | rfl | rfl
  · rfl
  · rw [diffLines_append_newline]
  · rw [diffLines_append_newline]

/-- Lines written out begin as many diffs. -/
theorem diffLines_unlines {ls : List Str} (h : ∀ l ∈ ls, '\n' ∉ l) :
    diffLines (unlines ls) = ls.countP isDiffStart := by
  induction ls with
  | nil => rfl
  | cons l ls ih =>
    obtain ⟨hl, hls⟩ := List.forall_mem_cons.mp h
    have hended : Ended (l ++ ['\n']) := ⟨l, hl, rfl⟩
    have hone : diffLines (l ++ ['\n']) = if isDiffStart l = true then 1 else 0 := by
      rw [diffLines_append_newline, diffLines]
      rcases eq_or_ne l [] with rfl | hne
      · decide
      · rw [lines, rawLines_of_not_mem hne hl, List.map_singleton, stripEnding_of_not_mem hl,
          List.countP_singleton]
    rw [unlines_cons, List.append_cons, diffLines_append hended.closed, ih hls, hone,
      List.countP_cons, Nat.add_comm]

theorem noDiff_unlines {ls : List Str} (h : ∀ l ∈ ls, '\n' ∉ l) :
    NoDiff (unlines ls) ↔ ∀ l ∈ ls, isDiffStart l = false := by
  rw [← diffLines_eq_zero, diffLines_unlines h, List.countP_eq_zero]
  exact forall₂_congr fun l _ => by simp

/-- Behind whole lines the diff comes through exactly when these begin no diff of their own. -/
theorem same_diffOf_append_iff (hhead : Closed head) (hx : isDiffStart x = true)
    (hcount : diffLines x = diffLines y) :
    SameUpToNewline (diffOf (head ++ x)) y ↔ NoDiff head ∧ SameUpToNewline x y := by
  by_cases hno : NoDiff head
  · rw [diffOf_append hhead hno, diffOf_of_isDiffStart hx, and_iff_right hno]
  · refine iff_of_false (fun hsame => hno ?_) fun h => hno h.1
    have hdiff : ¬NoDiff (head ++ x) := fun h => hno ((noDiff_append hhead).mp h).1
    obtain ⟨pre, hpre, hpreno, hwhole, -⟩ := exists_diffOf hdiff
    have htotal : diffLines (head ++ x) = diffLines (diffOf (head ++ x)) := by
      conv_lhs => rw [hwhole, diffLines_append hpre, diffLines_eq_zero.mpr hpreno, Nat.zero_add]
    have hsum := diffLines_append hhead (t := x)
    have heq := diffLines_eq_of_same hsame
    exact diffLines_eq_zero.mp (by omega)

/-! ### A diff written line by line -/

/-- `x` is the text `d` written out line by line, but perhaps for a newline it ends in. -/
def Rewritten (x d : Str) : Prop :=
  x = unlines (lines d) ∨ (x ++ ['\n'] = unlines (lines d) ∧ Closed d)

theorem same_of_rewritten (h : Rewritten x y) : SameUpToNewline x y ↔ ¬HasCrlf y := by
  constructor
  · intro hsame hcrlf
    have hlt := (count_unlines_lines y).2 hcrlf
    have hcount : x.count '\r' = (unlines (lines y)).count '\r' := by
      rcases h with rfl | ⟨he, -⟩
      · rfl
      · rw [← he]; simp
    have hcount' : x.count '\r' = y.count '\r' := by
      rcases hsame with rfl | rfl | rfl <;> simp
    omega
  · intro hcrlf
    rcases unlines_lines hcrlf with ⟨hclosed, he⟩ | ⟨hopen, he⟩
    · rcases h with rfl | ⟨hx, -⟩
      · exact Or.inl he
      · exact Or.inr (Or.inr (hx.trans he))
    · rcases h with rfl | ⟨-, hclosed⟩
      · exact Or.inr (Or.inl he)
      · exact absurd hclosed hopen

theorem diffLines_of_rewritten (h : Rewritten x y) : diffLines x = diffLines y := by
  have hlines : diffLines (unlines (lines y)) = diffLines y :=
    diffLines_unlines fun l hl => not_mem_of_mem_lines hl
  rcases h with rfl | ⟨he, -⟩
  · exact hlines
  · rw [← hlines, ← he, diffLines_append_newline]

theorem isDiffStart_of_rewritten (h : Rewritten x y) (hy : isDiffStart y = true) :
    isDiffStart x = true := by
  have hlines : isDiffStart (unlines (lines y)) = true := by
    rcases exists_ended_append y with ⟨l, r, hl, rfl⟩ | hnot
    · rw [lines, rawLines_ended hl, List.map_cons, unlines_cons,
        isDiffStart_append_cons (Or.inl rfl), isDiffStart_stripEnding hl.isRaw,
        ← isDiffStart_ended_append hl r, hy]
    · have hne : y ≠ [] := by rintro rfl; exact absurd hy (by decide)
      rw [lines, rawLines_of_not_mem hne hnot, List.map_singleton, stripEnding_of_not_mem hnot,
        unlines_cons, isDiffStart_append_cons (Or.inl rfl), hy]
  rcases h with rfl | ⟨he, -⟩
  · exact hlines
  · rwa [← he, isDiffStart_append_cons (Or.inl rfl)] at hlines

/-! ### Writing the lines out -/

/-- An unfinished last line is the end of what is joined. -/
theorem join_lines_last (h : ¬Closed y) :
    ∃ c, (join ['\n'] (lines y)).getLast? = some c ∧ c ≠ '\n' := by
  induction y using lines_induction with
  | nil => exact absurd (Or.inl rfl) h
  | last s hne hnot =>
    have hlines : lines s = [s] := by
      rw [lines, rawLines_of_not_mem hne hnot, List.map_singleton, stripEnding_of_not_mem hnot]
    refine ⟨s.getLast hne, ?_, fun he => hnot (he ▸ List.getLast_mem hne)⟩
    rw [hlines, join, List.intercalate_singleton, List.getLast?_eq_some_getLast hne]
  | ended l s hl ih =>
    obtain ⟨c, hc, hne⟩ := ih fun hs => h (hl.closed.append hs)
    have hs : lines s ≠ [] := by
      rintro he
      rw [he] at hc
      simp [join] at hc
    refine ⟨c, ?_, hne⟩
    rw [lines, rawLines_ended hl, List.map_cons, ← lines, join,
      List.intercalate_cons_of_ne_nil hs, ← join, List.getLast?_append, hc]
    rfl

theorem lines_ne_nil (h : y ≠ []) : lines y ≠ [] := by
  intro hnil
  have : rawLines y = [] := List.map_eq_nil_iff.mp hnil
  rw [← flatten_rawLines y, this] at h
  exact h rfl

/-- The lines joined, with a newline ensured. -/
theorem rewritten_join (h : y ≠ []) :
    Rewritten (ensureTrailingNewline (join ['\n'] (lines y))) y := by
  have hunlines := unlines_eq_join (lines_ne_nil h)
  rw [ensureTrailingNewline]
  split_ifs with hlast
  · refine Or.inr ⟨hunlines.symm, ?_⟩
    by_contra hopen
    obtain ⟨c, hc, hne⟩ := join_lines_last hopen
    exact hne (Option.some.inj (hc.symm.trans hlast))
  · exact Or.inl hunlines.symm

/-- The first line, and the others joined unless that is the empty text. -/
theorem rewritten_cons {l : Str} {ls : List Str} (h : lines y = l :: ls) :
    Rewritten (l ++ ['\n'] ++ if (join ['\n'] ls).isEmpty then [] else join ['\n'] ls ++ ['\n']) y := by
  rw [Rewritten, h, unlines_cons]
  rcases eq_or_ne ls [] with rfl | hls
  · exact Or.inl (by simp [join])
  · rw [unlines_eq_join hls]
    split_ifs with hempty
    · refine Or.inr ⟨by rw [List.isEmpty_iff.mp hempty]; simp, ?_⟩
      by_contra hopen
      obtain ⟨c, hc, hne⟩ := join_lines_last hopen
      rw [h, join, List.intercalate_cons_of_ne_nil hls, ← join, List.isEmpty_iff.mp hempty,
        List.append_nil, List.getLast?_concat] at hc
      exact hne (Option.some.inj hc).symm
    · exact Or.inl (by simp)

theorem ensureTrailingNewline_eq (hs : Closed s) (hne : s ≠ []) : ensureTrailingNewline s = s :=
  if_pos (hs.resolve_left hne)

theorem ensureTrailingNewline_cases (s : Str) :
    ensureTrailingNewline s = s ∨ ensureTrailingNewline s = s ++ ['\n'] := by
  rw [ensureTrailingNewline]
  split_ifs
  · exact Or.inl rfl
  · exact Or.inr rfl

theorem ensureTrailingNewline_last (s : Str) : (ensureTrailingNewline s).getLast? = some '\n' := by
  rw [ensureTrailingNewline]
  split_ifs with h
  · exact h
  · exact List.getLast?_concat

/-! ### Texts without a diff line -/

theorem noDiff_concat : NoDiff (s ++ ['\n']) ↔ NoDiff s := by
  rw [← diffLines_eq_zero, diffLines_append_newline, diffLines_eq_zero]

theorem noDiff_newline_cons : NoDiff ('\n' :: s) ↔ NoDiff s :=
  (noDiff_append (s := ['\n']) (Or.inr rfl)).trans (and_iff_right (by decide))

theorem noDiff_of_not_mem (h : '\n' ∉ l) : NoDiff l ↔ isDiffStart l = false := by
  rcases eq_or_ne l [] with rfl | hne
  · exact iff_of_true (by simp [NoDiff, lines, rawLines]) (by decide)
  · rw [NoDiff, lines, rawLines_of_not_mem hne h, List.map_singleton, stripEnding_of_not_mem h]
    simp

/-- The name of a line that begins no diff: it starts with none of the markers' first letters. -/
def IsLineName (name : Str) : Prop := '\n' ∉ name ∧ name.head?.any (· ∉ ['d', '-', 'I']) = true

instance (name : Str) : Decidable (IsLineName name) :=
  inferInstanceAs (Decidable (_ ∧ _ = true))

theorem noDiff_named {name : Str} (hname : IsLineName name) (h : '\n' ∉ l) :
    NoDiff (name ++ l) := by
  obtain ⟨hname, hhead⟩ := hname
  obtain ⟨c, hc, hnot⟩ := (Option.any_eq_true ..).mp hhead
  obtain ⟨name, rfl⟩ := List.head?_eq_some_iff.mp hc
  rw [noDiff_of_not_mem (List.not_mem_append hname h)]
  exact Bool.eq_false_iff.mpr fun hd => of_decide_eq_true hnot (isDiffStart_head hd)

/-- No line of the text but its first begins a diff. -/
def PlainTail (s : Str) : Prop := ∀ l ∈ (lines s).tail, isDiffStart l = false

instance (s : Str) : Decidable (PlainTail s) :=
  inferInstanceAs (Decidable (∀ l ∈ (lines s).tail, isDiffStart l = false))

theorem trailer_closed (origin : Str) : Closed (trailer origin) := by
  unfold trailer
  exact closed_concat _

theorem noDiff_trailer {origin : Str} : NoDiff (trailer origin) ↔ PlainTail origin := by
  have hname : IsLineName "Origin: ".toList := by decide
  unfold trailer
  rw [noDiff_concat]
  rcases exists_ended_append origin with ⟨l, r, hl, rfl⟩ | hnot
  · have hlines : lines l = [stripEnding l] := by
      have := rawLines_ended hl []
      rw [List.append_nil] at this
      rw [lines, this]
      rfl
    obtain ⟨body, hbody, rfl⟩ := hl
    have hended : Ended ("Origin: ".toList ++ (body ++ ['\n'])) :=
      ⟨"Origin: ".toList ++ body, List.not_mem_append hname.1 hbody, (List.append_assoc ..).symm⟩
    have hbegin : NoDiff ("Origin: ".toList ++ (body ++ ['\n'])) := by
      rw [← List.append_assoc, noDiff_concat]
      exact noDiff_named hname hbody
    rw [← List.append_assoc, noDiff_append hended.closed, and_iff_right hbegin, PlainTail,
      lines_append (Ended.closed ⟨body, hbody, rfl⟩), hlines]
    rfl
  · refine iff_of_true (noDiff_named hname hnot) ?_
    rcases eq_or_ne origin [] with rfl | hne
    · simp [PlainTail, lines, rawLines]
    · rw [PlainTail, lines, rawLines_of_not_mem hne hnot]
      simp

end

end Boot2Deb.Mbox
