import Boot2Deb.Rust.Str

/-!
# Lines of a string

`rawLines` cuts a string behind each newline, so that its lines put together are the string;
`lines`, the `str::lines` of Rust, takes the line ending off each of them. Writing the lines out
again with a newline each gives the string back up to its carriage returns and a final newline.
-/

namespace Boot2Deb.Rust

/-- `str::split_inclusive('\n')`. -/
def rawLines : Str → List Str
  | [] => []
  | c :: s =>
    if c = '\n' then ['\n'] :: rawLines s
    else match rawLines s with
      | [] => [[c]]
      | l :: ls => (c :: l) :: ls

/-- A line without its ending, a newline or a carriage return and a newline. -/
def stripEnding (l : Str) : Str :=
  match stripSuffix l ['\n'] with
  | none => l
  | some l => (stripSuffix l ['\r']).getD l

/-- `str::lines`. -/
def lines (s : Str) : List Str := (rawLines s).map stripEnding

/-- The lines, each with a newline behind it. -/
def unlines (ls : List Str) : Str := ls.flatMap (· ++ ['\n'])

section
variable {s t l : Str} {c : Char}

theorem flatten_rawLines (s : Str) : (rawLines s).flatten = s := by
  induction s with
  | nil => rfl
  | cons c s ih =>
    rw [rawLines]
    split_ifs with hc
    · rw [List.flatten_cons, ih, hc]; rfl
    · cases h : rawLines s with
      | nil => rw [h] at ih; simpa using ih
      | cons l ls => rw [h] at ih; simpa using ih

/-- The shape of a raw line: a text without newlines, and a newline unless it is the last. -/
def IsRaw (l : Str) : Prop := ∃ body, '\n' ∉ body ∧ (l = body ++ ['\n'] ∨ (l = body ∧ body ≠ []))

/-- A line that ends in a newline. -/
def Ended (l : Str) : Prop := ∃ body, '\n' ∉ body ∧ l = body ++ ['\n']

theorem rawLines_ended (h : Ended l) (s : Str) : rawLines (l ++ s) = l :: rawLines s := by
  obtain ⟨body, hbody, rfl⟩ := h
  induction body with
  | nil => simp [rawLines]
  | cons c body ih =>
    simp only [List.mem_cons, not_or] at hbody
    have hstep : rawLines (c :: (body ++ ['\n'] ++ s)) = (c :: (body ++ ['\n'])) :: rawLines s := by
      rw [rawLines, if_neg (Ne.symm hbody.1), ih hbody.2]
    simpa using hstep

theorem rawLines_of_not_mem (hne : s ≠ []) (h : '\n' ∉ s) : rawLines s = [s] := by
  induction s with
  | nil => exact absurd rfl hne
  | cons c s ih =>
    simp only [List.mem_cons, not_or] at h
    rw [rawLines, if_neg (Ne.symm h.1)]
    cases s with
    | nil => rfl
    | cons d s => rw [ih (by simp) h.2]

/-- Text up to a newline and what follows, or text without a newline. -/
theorem exists_ended_append (s : Str) :
    (∃ l r, Ended l ∧ s = l ++ r) ∨ '\n' ∉ s := by
  by_cases h : '\n' ∈ s
  · obtain ⟨body, r, rfl, hbody⟩ := List.eq_append_cons_of_mem h
    exact Or.inl ⟨body ++ ['\n'], r, ⟨body, hbody, rfl⟩, by simp⟩
  · exact Or.inr h

/-- Induction on the lines of a string: one ended line at a time, then what is left. -/
theorem lines_induction {P : Str → Prop} (nil : P []) (last : ∀ s, s ≠ [] → '\n' ∉ s → P s)
    (ended : ∀ l s, Ended l → P s → P (l ++ s)) (s : Str) : P s := by
  obtain ⟨n, hn⟩ : ∃ n, s.length ≤ n := ⟨_, le_refl _⟩
  induction n generalizing s with
  | zero => rw [List.length_eq_zero_iff.mp (Nat.le_zero.mp hn)]; exact nil
  | succ n ih =>
    rcases exists_ended_append s with ⟨l, r, hl, rfl⟩ | hnot
    · refine ended l r hl (ih r ?_)
      obtain ⟨body, -, rfl⟩ := hl
      simp only [List.length_append, List.length_singleton] at hn
      omega
    · rcases eq_or_ne s [] with rfl | hne
      · exact nil
      · exact last s hne hnot

/-- A text all of whose lines are ended. -/
def Closed (s : Str) : Prop := s = [] ∨ s.getLast? = some '\n'

theorem Ended.isRaw (h : Ended l) : IsRaw l := by
  obtain ⟨body, hbody, rfl⟩ := h
  exact ⟨body, hbody, Or.inl rfl⟩

theorem Ended.closed (h : Ended l) : Closed l := by
  obtain ⟨body, -, rfl⟩ := h
  exact Or.inr List.getLast?_concat

theorem Closed.append (hs : Closed s) (ht : Closed t) : Closed (s ++ t) := by
  rcases ht with rfl | ht
  · rwa [List.append_nil]
  · exact Or.inr (by simp [ht])

theorem closed_concat (s : Str) : Closed (s ++ ['\n']) := Or.inr List.getLast?_concat

theorem closed_of_append (h : Closed (s ++ t)) : Closed t := by
  rcases eq_or_ne t [] with rfl | hne
  · exact Or.inl rfl
  · rcases h with h | h
    · exact absurd (List.append_eq_nil_iff.mp h).2 hne
    · rw [List.getLast?_append_of_ne_nil _ hne] at h
      exact Or.inr h

theorem not_closed (hne : s ≠ []) (h : '\n' ∉ s) : ¬Closed s := by
  rintro (rfl | hlast)
  · exact hne rfl
  · exact h (List.mem_of_getLast? hlast)

/-- Closed text ends before what is put behind it. -/
theorem rawLines_append (hs : Closed s) (t : Str) : rawLines (s ++ t) = rawLines s ++ rawLines t := by
  induction s using lines_induction with
  | nil => rfl
  | last s hne hnot => exact absurd hs (not_closed hne hnot)
  | ended l s hl ih =>
    rw [List.append_assoc, rawLines_ended hl, rawLines_ended hl, ih (closed_of_append hs)]
    rfl

theorem lines_append (hs : Closed s) (t : Str) : lines (s ++ t) = lines s ++ lines t := by
  rw [lines, rawLines_append hs, List.map_append, lines, lines]

theorem isRaw_of_mem (h : l ∈ rawLines s) : IsRaw l := by
  induction s using lines_induction with
  | nil => simp [rawLines] at h
  | last s hne hnot =>
    rw [rawLines_of_not_mem hne hnot, List.mem_singleton] at h
    exact ⟨s, hnot, Or.inr ⟨h, hne⟩⟩
  | ended k s hk ih =>
    rw [rawLines_ended hk] at h
    rcases List.mem_cons.mp h with rfl | h
    · obtain ⟨body, hbody, rfl⟩ := hk
      exact ⟨body, hbody, Or.inl rfl⟩
    · exact ih h

/-- The tail of a text from one of its lines on has the lines that are left. -/
theorem rawLines_flatten_of_append {as bs : List Str} (h : rawLines s = as ++ bs) :
    rawLines bs.flatten = bs := by
  induction s using lines_induction generalizing as with
  | nil => rw [(List.append_eq_nil_iff.mp h.symm).2]; rfl
  | last s hne hnot =>
    rw [rawLines_of_not_mem hne hnot] at h
    rcases List.append_eq_singleton_iff.mp h.symm with ⟨-, rfl⟩ | ⟨-, rfl⟩
    · simpa using rawLines_of_not_mem hne hnot
    · rfl
  | ended l s hl ih =>
    rw [rawLines_ended hl] at h
    cases as with
    | nil =>
      rw [List.nil_append] at h
      rw [← h, List.flatten_cons, flatten_rawLines, rawLines_ended hl]
    | cons a as => exact ih (List.cons.inj h).2

theorem flatten_closed {as bs : List Str} (h : rawLines s = as ++ bs) (hne : bs ≠ []) :
    Closed as.flatten := by
  induction s using lines_induction generalizing as with
  | nil => exact absurd (List.append_eq_nil_iff.mp h.symm).2 hne
  | last s hs hnot =>
    rw [rawLines_of_not_mem hs hnot] at h
    rcases List.append_eq_singleton_iff.mp h.symm with ⟨rfl, -⟩ | ⟨-, rfl⟩
    · exact Or.inl rfl
    · exact absurd rfl hne
  | ended l s hl ih =>
    rw [rawLines_ended hl] at h
    cases as with
    | nil => exact Or.inl rfl
    | cons a as =>
      obtain ⟨rfl, hrest⟩ := List.cons.inj h
      exact hl.closed.append (ih hrest)

theorem stripEnding_ended (body : Str) :
    stripEnding (body ++ ['\n']) = (stripSuffix body ['\r']).getD body := by
  have hsuffix : stripSuffix (body ++ ['\n']) ['\n'] = some body := by
    rw [stripSuffix, if_pos (List.suffix_append _ _)]
    simp
  rw [stripEnding, hsuffix]

theorem stripEnding_of_not_mem (hnot : '\n' ∉ s) : stripEnding s = s := by
  rw [stripEnding, stripSuffix, if_neg]
  intro hsuffix
  exact hnot (hsuffix.subset (List.mem_singleton_self _))

theorem stripSuffix_eq_some {suffix front : Str} :
    stripSuffix s suffix = some front ↔ s = front ++ suffix := by
  unfold stripSuffix
  rw [Option.ite_none_right_eq_some, Option.some.injEq]
  constructor
  · rintro ⟨⟨pre, rfl⟩, rfl⟩
    rw [List.length_append, Nat.add_sub_cancel, List.take_left']
    rfl
  · rintro rfl
    refine ⟨List.suffix_append .., ?_⟩
    rw [List.length_append, Nat.add_sub_cancel, List.take_left']
    rfl

theorem stripSuffix_concat (s : Str) (c : Char) : stripSuffix (s ++ [c]) [c] = some s :=
  stripSuffix_eq_some.mpr rfl

theorem stripSuffix_eq_none {suffix : Str} (h : ¬suffix <:+ s) : stripSuffix s suffix = none :=
  if_neg h

/-- A line ending takes no more than one carriage return. -/
theorem stripEnding_ended_cases (body : Str) :
    (stripEnding (body ++ ['\n']) = body ∧ ¬['\r'] <:+ body) ∨
      ∃ body', body = body' ++ ['\r'] ∧ stripEnding (body ++ ['\n']) = body' := by
  rw [stripEnding_ended]
  by_cases hcr : ['\r'] <:+ body
  · obtain ⟨body', rfl⟩ := hcr
    exact Or.inr ⟨body', rfl, by rw [stripSuffix_concat]; rfl⟩
  · exact Or.inl ⟨by rw [stripSuffix_eq_none hcr]; rfl, hcr⟩

theorem not_mem_stripEnding (h : IsRaw l) : '\n' ∉ stripEnding l := by
  obtain ⟨body, hbody, rfl | ⟨rfl, -⟩⟩ := h
  · rcases stripEnding_ended_cases body with ⟨he, -⟩ | ⟨body', rfl, he⟩
    · rwa [he]
    · rw [he]
      exact fun hm => hbody (List.mem_append_left _ hm)
  · rwa [stripEnding_of_not_mem hbody]

theorem not_mem_of_mem_lines (h : l ∈ lines s) : '\n' ∉ l := by
  obtain ⟨raw, hraw, rfl⟩ := List.mem_map.mp h
  exact not_mem_stripEnding (isRaw_of_mem hraw)

@[simp] theorem unlines_nil : unlines [] = [] := rfl

theorem unlines_cons (l : Str) (ls : List Str) : unlines (l :: ls) = l ++ '\n' :: unlines ls := by
  simp [unlines]

theorem unlines_append (ls ls' : List Str) : unlines (ls ++ ls') = unlines ls ++ unlines ls' := by
  simp [unlines]

theorem unlines_closed (ls : List Str) : Closed (unlines ls) := by
  induction ls with
  | nil => exact Or.inl rfl
  | cons l ls ih =>
    rw [unlines_cons, List.append_cons]
    exact (closed_concat l).append ih

theorem unlines_eq_join {ls : List Str} (h : ls ≠ []) : unlines ls = join ['\n'] ls ++ ['\n'] := by
  induction ls with
  | nil => exact absurd rfl h
  | cons l ls ih =>
    cases ls with
    | nil => simp [unlines, join, List.intercalate]
    | cons l' ls =>
      rw [unlines_cons, ih (by simp), join, join,
        List.intercalate_cons_of_ne_nil (List.cons_ne_nil l' ls)]
      simp

/-- Some line of the text ends in a carriage return and a newline. -/
def HasCrlf (s : Str) : Prop := ∃ l ∈ rawLines s, "\r\n".toList <:+ l

instance (s : Str) : Decidable (HasCrlf s) :=
  inferInstanceAs (Decidable (∃ l ∈ rawLines s, "\r\n".toList <:+ l))

theorem hasCrlf_ended {body : Str} (h : '\n' ∉ body) (s : Str) :
    HasCrlf (body ++ ['\n'] ++ s) ↔ ['\r'] <:+ body ∨ HasCrlf s := by
  have hsuffix : "\r\n".toList <:+ body ++ ['\n'] ↔ ['\r'] <:+ body := by
    rw [show "\r\n".toList = ['\r'] ++ ['\n'] from rfl]
    constructor
    · rintro ⟨t, ht⟩
      rw [← List.append_assoc] at ht
      exact ⟨t, (List.append_inj' ht rfl).1⟩
    · rintro ⟨t, rfl⟩
      exact ⟨t, by simp⟩
  rw [HasCrlf, rawLines_ended ⟨body, h, rfl⟩]
  simp only [List.mem_cons, exists_eq_or_imp, hsuffix, HasCrlf]

theorem not_hasCrlf_last (hne : s ≠ []) (h : '\n' ∉ s) : ¬HasCrlf s := by
  rintro ⟨l, hl, hsuffix⟩
  rw [rawLines_of_not_mem hne h, List.mem_singleton] at hl
  subst hl
  exact h (hsuffix.subset (by decide))

/-- Without carriage returns before newlines the lines written out are the text. -/
theorem unlines_lines (h : ¬HasCrlf s) :
    (Closed s ∧ unlines (lines s) = s) ∨ (¬Closed s ∧ unlines (lines s) = s ++ ['\n']) := by
  induction s using lines_induction with
  | nil => exact Or.inl ⟨Or.inl rfl, rfl⟩
  | last s hne hnot =>
    refine Or.inr ⟨not_closed hne hnot, ?_⟩
    rw [lines, rawLines_of_not_mem hne hnot]
    simp [unlines, stripEnding_of_not_mem hnot]
  | ended l s hl ih =>
    obtain ⟨body, hbody, rfl⟩ := hl
    rw [hasCrlf_ended hbody, not_or] at h
    have hstrip : stripEnding (body ++ ['\n']) = body := by
      rw [stripEnding_ended body, stripSuffix_eq_none h.1]
      rfl
    have hlines : unlines (lines (body ++ ['\n'] ++ s)) = body ++ ['\n'] ++ unlines (lines s) := by
      rw [lines, rawLines_ended ⟨body, hbody, rfl⟩, List.map_cons, unlines_cons, hstrip, ← lines]
      simp
    rw [hlines]
    rcases ih h.2 with ⟨hclosed, he⟩ | ⟨hopen, he⟩
    · exact Or.inl ⟨(closed_concat body).append hclosed, by rw [he]⟩
    · exact Or.inr ⟨fun hc => hopen (closed_of_append hc), by simp [he]⟩

/-- A carriage return before a newline is lost. -/
theorem count_unlines_lines (s : Str) :
    (unlines (lines s)).count '\r' ≤ s.count '\r' ∧
      (HasCrlf s → (unlines (lines s)).count '\r' < s.count '\r') := by
  induction s using lines_induction with
  | nil => exact ⟨le_refl _, fun ⟨l, hl, _⟩ => absurd hl List.not_mem_nil⟩
  | last s hne hnot =>
    refine ⟨?_, fun h => absurd h (not_hasCrlf_last hne hnot)⟩
    rw [lines, rawLines_of_not_mem hne hnot]
    simp [unlines, stripEnding_of_not_mem hnot]
  | ended l s hl ih =>
    obtain ⟨body, hbody, rfl⟩ := hl
    have hlines : (unlines (lines (body ++ ['\n'] ++ s))).count '\r' =
        (stripEnding (body ++ ['\n'])).count '\r' + (unlines (lines s)).count '\r' := by
      rw [lines, rawLines_ended ⟨body, hbody, rfl⟩, List.map_cons, unlines_cons, ← lines]
      simp
    have hcount : (body ++ ['\n'] ++ s).count '\r' = body.count '\r' + s.count '\r' := by simp
    rw [hlines, hcount, hasCrlf_ended hbody]
    rcases stripEnding_ended_cases body with ⟨he, hcr⟩ | ⟨body', rfl, he⟩
    · rw [he]
      exact ⟨by omega, fun h => by have := ih.2 (h.resolve_left hcr); omega⟩
    · rw [he]
      simp only [List.count_append, List.count_singleton_self]
      exact ⟨by omega, fun _ => by omega⟩

end

end Boot2Deb.Rust
