import Boot2Deb.Mbox.Rendering

/-!
# The payload of a normalized patch

Which patches keep their diff. A rendered patch keeps it when no line of it ends in a carriage
return and a newline and the message begins no diff; a mailbox is taken over as it is, but the
`Origin:` trailer must not land within the diff, and where it is put before the first diff line
the text is written anew.
-/

namespace Boot2Deb.Mbox
open Rust

section
variable {s t sep rest head tail y sha author date subject body diff : Str}
  {origin : Option Str} {n : Normalized}

/-! ### The diff of a text -/

theorem rawLines_diffOf (s : Str) :
    rawLines (diffOf s) = (rawLines s).dropWhile fun l => !isDiffStart (stripEnding l) :=
  rawLines_flatten_of_append List.takeWhile_append_dropWhile.symm

theorem lines_diffOf (s : Str) : lines (diffOf s) = (lines s).dropWhile (!isDiffStart ·) := by
  rw [lines, rawLines_diffOf, lines, List.dropWhile_map]
  rfl

theorem noDiff_iff_any : NoDiff s ↔ (lines s).any isDiffStart = false := by
  rw [NoDiff, List.any_eq_false]
  exact forall₂_congr fun l _ => by simp

theorem not_noDiff_of_any (h : (lines s).any isDiffStart = true) : ¬NoDiff s := by
  rw [noDiff_iff_any, h]
  decide

theorem isDiffStart_diffOf (h : ¬NoDiff s) : isDiffStart (diffOf s) = true :=
  (exists_diffOf h).choose_spec.2.2.2

theorem ne_nil_of_isDiffStart (h : isDiffStart s = true) : s ≠ [] := by
  rintro rfl
  exact absurd h (by decide)

theorem same_ensureTrailingNewline (s : Str) : SameUpToNewline (ensureTrailingNewline s) s := by
  rcases ensureTrailingNewline_cases s with he | he
  · exact Or.inl he
  · exact Or.inr (Or.inl he)

/-! ### Rendered patches -/

theorem noDiff_headerBlock (hauthor : '\n' ∉ author) (hdate : '\n' ∉ date)
    (hsubject : '\n' ∉ subject) : NoDiff (headerBlock author date subject) := by
  have hfrom : IsLineName "From: ".toList := by decide
  have hdated : IsLineName "Date: ".toList := by decide
  have htitle : IsLineName "Subject: [PATCH] ".toList := by decide
  have h2 := (closed_concat ("From: ".toList ++ author)).append
    (closed_concat ("Date: ".toList ++ date))
  have h3 := h2.append (closed_concat ("Subject: [PATCH] ".toList ++ subject))
  unfold headerBlock
  rw [noDiff_append h3, noDiff_append h2, noDiff_append (closed_concat _),
    noDiff_concat, noDiff_concat, noDiff_concat]
  exact ⟨⟨⟨noDiff_named hfrom hauthor, noDiff_named hdated hdate⟩, noDiff_named htitle hsubject⟩,
    by decide⟩

theorem noDiff_prose :
    NoDiff (prose body origin) ↔ NoDiff (trimEnd body) ∧ ∀ o ∈ origin, PlainTail o := by
  have hnil : NoDiff [] := by decide
  unfold prose
  dsimp only
  rcases eq_or_ne (trimEnd body) [] with he | hne
  · rw [he]
    cases origin with
    | none => simp [hnil]
    | some o => simp [hnil, noDiff_trailer]
  · have hempty : (trimEnd body).isEmpty = false := List.isEmpty_eq_false_iff.mpr hne
    rw [hempty, if_neg (by decide), noDiff_append (closed_concat _), noDiff_concat]
    cases origin with
    | none => simp [hnil]
    | some o => simp [noDiff_newline_cons, noDiff_trailer]

theorem prose_closed (body : Str) (origin : Option Str) : Closed (prose body origin) := by
  have hbody : Closed (if (trimEnd body).isEmpty then [] else trimEnd body ++ ['\n']) := by
    split_ifs
    · exact Or.inl rfl
    · exact closed_concat _
  unfold prose
  dsimp only
  cases origin with
  | none => rwa [List.append_nil]
  | some o =>
    refine hbody.append (Closed.append ?_ (trailer_closed o))
    split_ifs
    · exact Or.inl rfl
    · exact Or.inr rfl

/-- The diff of a rendered patch is the one it was rendered from, unless the prose begins one or
the lines lost carriage returns. -/
theorem same_rendered_iff (h : Rendered n body origin diff) (hclosed : Closed diff)
    (hrw : Rewritten diff y) (hy : isDiffStart y = true) :
    SameUpToNewline (diffOf n.mbox) y ↔
      (NoDiff (trimEnd body) ∧ ∀ o ∈ origin, PlainTail o) ∧ ¬HasCrlf y := by
  obtain ⟨hsubject, sha, author, date, hsha, hauthor, hdate, hmbox⟩ := h
  have hdiff := isDiffStart_of_rewritten hrw hy
  have hsep : NoDiff (synthSeparator sha ++ ['\n']) := by
    unfold synthSeparator
    rw [noDiff_concat, List.append_assoc]
    exact noDiff_named (by decide) (List.not_mem_append hsha (by decide))
  have hheader : NoDiff (headerBlock author (date.getD epochDate) n.subject) :=
    noDiff_headerBlock hauthor (not_mem_getD hdate (by decide)) hsubject
  have hcut : Closed "---\n".toList := Or.inr rfl
  have hblock : Closed (headerBlock author (date.getD epochDate) n.subject) := closed_concat _
  have hpre := (closed_concat (synthSeparator sha)).append hblock
  have hhead := hpre.append (prose_closed body origin)
  have hwhole := hhead.append hcut
  have hout : n.mbox = synthSeparator sha ++ ['\n'] ++
      headerBlock author (date.getD epochDate) n.subject ++ prose body origin ++ "---\n".toList ++
        diff := by
    rw [hmbox, renderMbox, List.append_cons,
      ensureTrailingNewline_eq (hwhole.append hclosed) (by simp)]
  rw [hout, same_diffOf_append_iff hwhole hdiff (diffLines_of_rewritten hrw), same_of_rewritten hrw,
    noDiff_append hhead, noDiff_append hpre, noDiff_append (closed_concat _), noDiff_prose]
  have hdash : NoDiff "---\n".toList := by decide
  tauto

/-! ### Mailboxes -/

/-- The text as a mailbox: its separator line, or one put in front. -/
def mailbox (t : Str) : Str :=
  let (separator, rest) := splitSeparator (t.dropWhile (· = '\n'))
  separator ++ '\n' :: rest

/-- The text before its first line that is just `---`, where it has one. -/
def beforeCut (t : Str) : Option Str :=
  (cutBefore "\n---\n".toList ('\n' :: t.dropWhile (· = '\n'))).map (·.1)

theorem not_mem_synthSeparator (h : '\n' ∉ sha) : '\n' ∉ synthSeparator sha := by
  unfold synthSeparator
  exact List.not_mem_append (List.not_mem_append (by decide) h) (by decide)

theorem splitSeparator_eq (h : splitSeparator t = (sep, rest)) :
    '\n' ∉ sep ∧ "From ".toList <+: sep ∧ (t = sep ++ '\n' :: rest ∨ t = rest) := by
  have hsynth : '\n' ∉ synthSeparator zeroSha ∧ "From ".toList <+: synthSeparator zeroSha :=
    ⟨not_mem_synthSeparator not_mem_zeroSha, by decide⟩
  rw [splitSeparator] at h
  split at h
  · rename_i first rest' hsplit
    obtain ⟨ht, hfirst⟩ := eq_of_splitOnce hsplit
    split_ifs at h with hfrom
    · cases h
      exact ⟨hfirst, hfrom, Or.inl ht⟩
    · cases h
      exact ⟨hsynth.1, hsynth.2, Or.inr rfl⟩
  · cases h
    exact ⟨hsynth.1, hsynth.2, Or.inr rfl⟩

theorem noDiff_separator (hsep : '\n' ∉ sep) (hfrom : "From ".toList <+: sep) : NoDiff sep := by
  obtain ⟨s, rfl⟩ := hfrom
  exact noDiff_named (by decide) fun hs => hsep (List.mem_append_right _ hs)

theorem diffOf_dropWhile_newline (t : Str) : diffOf (t.dropWhile (· = '\n')) = diffOf t := by
  induction t with
  | nil => rfl
  | cons c t ih =>
    by_cases hc : c = '\n'
    · subst hc
      rw [List.dropWhile_cons_of_pos (by simp), ih]
      have hline : Closed ['\n'] := Or.inr rfl
      exact (diffOf_append hline (by decide)).symm
    · rw [List.dropWhile_cons_of_neg (by simpa using hc)]

/-- The separator of a mailbox, and its text behind that. -/
theorem exists_mailbox (t : Str) : ∃ sep rest,
    splitSeparator (t.dropWhile (· = '\n')) = (sep, rest) ∧ mailbox t = sep ++ '\n' :: rest ∧
      '\n' ∉ sep ∧ "From ".toList <+: sep ∧
        (t.dropWhile (· = '\n') = sep ++ '\n' :: rest ∨ t.dropWhile (· = '\n') = rest) := by
  obtain ⟨⟨sep, rest⟩, hsplit⟩ : ∃ r, splitSeparator (t.dropWhile (· = '\n')) = r := ⟨_, rfl⟩
  exact ⟨sep, rest, hsplit, by rw [mailbox, hsplit], splitSeparator_eq hsplit⟩

theorem diffOf_mailbox (t : Str) : diffOf (mailbox t) = diffOf t := by
  obtain ⟨sep, rest, -, hmailbox, hsep, hfrom, ht⟩ := exists_mailbox t
  rw [← diffOf_dropWhile_newline t, hmailbox]
  rcases ht with ht | ht
  · rw [ht]
  · rw [ht, List.append_cons, diffOf_append (closed_concat _)
      (noDiff_concat.mpr (noDiff_separator hsep hfrom))]

/-- The separator put aside, a mailbox is cut where its text is. -/
theorem beforeCut_eq (t : Str) :
    (cutBefore "\n---\n".toList (mailbox t) = none ∧ beforeCut t = none) ∨
      ∃ head tail head', cutBefore "\n---\n".toList (mailbox t) = some (head, tail) ∧
        beforeCut t = some head' ∧ (NoDiff head' ↔ NoDiff head) := by
  obtain ⟨sep, rest, -, hmailbox, hsep, hfrom, ht⟩ := exists_mailbox t
  have hcut : cutBefore "\n---\n".toList (mailbox t) =
      (cutBefore "\n---\n".toList ('\n' :: rest)).map fun (head, tail) => (sep ++ head, tail) := by
    rw [hmailbox]
    exact cutBefore_append hsep
  rcases ht with ht | ht
  · have hnot : ¬"\n---\n".toList <+: '\n' :: mailbox t := by
      obtain ⟨s, rfl⟩ := hfrom
      rw [hmailbox]
      intro hp
      exact absurd (List.cons_prefix_cons.mp (List.cons_prefix_cons.mp hp).2).1 (by decide)
    have hbefore : beforeCut t =
        ((cutBefore "\n---\n".toList (mailbox t)).map (·.1)).map ('\n' :: ·) := by
      rw [beforeCut, ht, ← hmailbox, cutBefore, if_neg hnot, Option.map_map, Option.map_map]
      rfl
    rw [hbefore]
    cases cutBefore "\n---\n".toList (mailbox t) with
    | none => exact Or.inl ⟨rfl, rfl⟩
    | some cut => exact Or.inr ⟨cut.1, cut.2, _, rfl, rfl, noDiff_newline_cons⟩
  · rw [beforeCut, ht, hcut]
    rcases hrest : cutBefore "\n---\n".toList ('\n' :: rest) with _ | ⟨head, tail⟩
    · exact Or.inl ⟨rfl, rfl⟩
    · refine Or.inr ⟨sep ++ head, tail, head, rfl, rfl, ?_⟩
      obtain ⟨hwhole, -⟩ := eq_of_cutBefore hrest
      have hno := noDiff_separator hsep hfrom
      cases head with
      | nil => simpa using iff_of_true (by decide) hno
      | cons c head =>
        obtain ⟨rfl, -⟩ := List.cons.inj hwhole
        rw [List.append_cons, noDiff_append (closed_concat _), noDiff_concat, and_iff_right hno,
          noDiff_newline_cons]

/-! ### The spliced trailer -/

theorem diffOf_append_newline (h : ¬NoDiff s) : diffOf (s ++ ['\n']) = diffOf s ++ ['\n'] := by
  obtain ⟨pre, hpre, hno, hwhole, hdiff⟩ := exists_diffOf h
  conv_lhs => rw [hwhole, List.append_assoc, diffOf_append hpre hno,
    diffOf_of_isDiffStart (isDiffStart_append hdiff _)]

theorem same_diffOf_ensureTrailingNewline (h : ¬NoDiff s) :
    SameUpToNewline (diffOf (ensureTrailingNewline s)) (diffOf s) := by
  rcases ensureTrailingNewline_cases s with he | he
  · rw [he]; exact Or.inl rfl
  · rw [he, diffOf_append_newline h]; exact Or.inr (Or.inl rfl)

/-- Within the diff the trailer shows. -/
theorem not_same_spliced {o : Str} (h : ¬NoDiff head) (tail : Str) :
    ¬SameUpToNewline (diffOf (ensureTrailingNewline (head ++ ['\n'] ++ trailer o ++ tail)))
      (diffOf (head ++ ['\n'] ++ tail)) := by
  obtain ⟨pre, hpre, hno, hhead, hdiff⟩ := exists_diffOf h
  have hdiffOf (x : Str) : diffOf (head ++ x) = diffOf head ++ x := by
    conv_lhs => rw [hhead, List.append_assoc, diffOf_append hpre hno,
      diffOf_of_isDiffStart (isDiffStart_append hdiff _)]
  have hlong : 9 ≤ (trailer o).length := by
    unfold trailer
    simp
  have hout : (diffOf head).length + (trailer o).length + tail.length + 1 ≤
      (diffOf (ensureTrailingNewline (head ++ ['\n'] ++ trailer o ++ tail))).length := by
    rcases ensureTrailingNewline_cases (head ++ ['\n'] ++ trailer o ++ tail) with he | he <;>
      rw [he] <;>
      simp only [List.append_assoc, hdiffOf, List.length_append, List.length_singleton] <;>
      omega
  have hin : (diffOf (head ++ ['\n'] ++ tail)).length = (diffOf head).length + 1 + tail.length := by
    simp only [List.append_assoc, hdiffOf, List.length_append, List.length_singleton]
    omega
  intro hsame
  have : (diffOf (ensureTrailingNewline (head ++ ['\n'] ++ trailer o ++ tail))).length ≤
      (diffOf (head ++ ['\n'] ++ tail)).length + 1 := by
    rcases hsame with he | he | he
    · rw [he]; omega
    · rw [he]; simp
    · rw [← he]; simp; omega
  omega

/-- Where the text is cut, the trailer stands before the diff when the head has none. -/
theorem same_spliced_iff {o : Str} (h : ¬NoDiff (head ++ ['\n'] ++ tail)) :
    SameUpToNewline (diffOf (ensureTrailingNewline (head ++ ['\n'] ++ trailer o ++ tail)))
      (diffOf (head ++ ['\n'] ++ tail)) ↔ PlainTail o ∧ NoDiff head := by
  by_cases hhead : NoDiff head
  · have hno : NoDiff (head ++ ['\n']) := noDiff_concat.mpr hhead
    have htail : ¬NoDiff tail := fun ht => h ((noDiff_append (closed_concat _)).mpr ⟨hno, ht⟩)
    obtain ⟨pre, hpre, hpreno, hwhole, hdiff⟩ := exists_diffOf htail
    have hclosed := ((closed_concat head).append (trailer_closed o)).append hpre
    obtain ⟨x, hx, hxdiff, hsame⟩ : ∃ x,
        ensureTrailingNewline (head ++ ['\n'] ++ trailer o ++ tail) =
          head ++ ['\n'] ++ trailer o ++ pre ++ x ∧ isDiffStart x = true ∧
            SameUpToNewline x (diffOf tail) := by
      rcases ensureTrailingNewline_cases (head ++ ['\n'] ++ trailer o ++ tail) with he | he
      · refine ⟨diffOf tail, ?_, hdiff, Or.inl rfl⟩
        rw [he]
        conv_lhs => rw [hwhole]
        simp
      · refine ⟨diffOf tail ++ ['\n'], ?_, isDiffStart_append hdiff _, Or.inr (Or.inl rfl)⟩
        rw [he]
        conv_lhs => rw [hwhole]
        simp
    rw [hx, diffOf_append (closed_concat _) hno,
      same_diffOf_append_iff hclosed hxdiff (diffLines_eq_of_same hsame),
      noDiff_append ((closed_concat _).append (trailer_closed o)), noDiff_append (closed_concat _),
      noDiff_trailer]
    tauto
  · exact iff_of_false (not_same_spliced hhead tail) fun h => hhead h.2

theorem noDiff_takeWhile (s : Str) :
    NoDiff (unlines ((lines s).takeWhile (!isDiffStart ·))) := by
  rw [noDiff_unlines fun l hl => not_mem_of_mem_lines ((List.takeWhile_prefix _).subset hl)]
  intro l hl
  simpa using List.mem_takeWhile_imp hl

/-- Without a cut the trailer stands before the diff, which is written anew. -/
theorem same_respliced_iff {o : Str} (h : ¬NoDiff s) :
    SameUpToNewline (diffOf (unlines ((lines s).takeWhile (!isDiffStart ·)) ++ trailer o ++
      unlines ((lines s).dropWhile (!isDiffStart ·)))) (diffOf s) ↔
        PlainTail o ∧ ¬HasCrlf (diffOf s) := by
  have hrw : Rewritten (unlines ((lines s).dropWhile (!isDiffStart ·))) (diffOf s) :=
    Or.inl (by rw [lines_diffOf])
  have hclosed := (unlines_closed ((lines s).takeWhile (!isDiffStart ·))).append (trailer_closed o)
  rw [same_diffOf_append_iff hclosed (isDiffStart_of_rewritten hrw (isDiffStart_diffOf h))
    (diffLines_of_rewritten hrw), same_of_rewritten hrw, noDiff_append (unlines_closed _),
    noDiff_trailer, and_iff_right (noDiff_takeWhile s)]

theorem same_spliceOriginTrailer_iff {o : Str} (h : ¬NoDiff s) :
    SameUpToNewline (diffOf (ensureTrailingNewline (spliceOriginTrailer s o))) (diffOf s) ↔
      PlainTail o ∧ match cutBefore "\n---\n".toList s with
        | some (head, _) => NoDiff head
        | none => ¬HasCrlf (diffOf s) := by
  rw [spliceOriginTrailer]
  rcases hcut : cutBefore "\n---\n".toList s with _ | ⟨head, tail⟩
  · have hany : (lines s).any isDiffStart = true := by
      rwa [noDiff_iff_any, Bool.not_eq_false] at h
    have hclosed := ((unlines_closed ((lines s).takeWhile (!isDiffStart ·))).append
      (trailer_closed o)).append (unlines_closed ((lines s).dropWhile (!isDiffStart ·)))
    dsimp only
    rw [if_pos hany, ensureTrailingNewline_eq hclosed]
    · exact same_respliced_iff h
    · unfold trailer
      simp
  · obtain ⟨rfl, hpat⟩ := eq_of_cutBefore hcut
    obtain ⟨tail, rfl⟩ := hpat
    have hs : head ++ ("\n---\n".toList ++ tail) =
        head ++ ['\n'] ++ ("---\n".toList ++ tail) := by
      rw [List.append_assoc]
      rfl
    rw [hs] at h ⊢
    exact same_spliced_iff h

/-! ### The shapes -/

/-- The text of a `git show` behind its header block. -/
def gitShowText (t : Str) : Str :=
  ((rawLines t).tail.dropWhile fun l => !isBlank (stripEnding l)).tail.flatten

/-- The diff of a patch; a `git show` has it behind its header block. -/
def payload (t : Str) : PatchKind → Str
  | .gitShow => diffOf (gitShowText t)
  | .mbox | .bareDiff => diffOf t

/-- What a patch must be like for its diff to come through. -/
def PayloadSafe (t : Str) (origin : Option Str) : PatchKind → Prop
  | .mbox => ∀ o ∈ origin, PlainTail o ∧ match beforeCut t with
    | some head => NoDiff head
    | none => ¬HasCrlf (diffOf t)
  | .gitShow => (NoDiff (splitSubjectBody (gitShowMessage t)).2 ∧ ∀ o ∈ origin, PlainTail o) ∧
      ¬HasCrlf (payload t .gitShow)
  | .bareDiff => (∀ o ∈ origin, PlainTail o) ∧ ¬HasCrlf (payload t .bareDiff)

theorem lines_gitShowText (t : Str) : lines (gitShowText t) = gitShowBody t := by
  let p : Str → Bool := fun l => !isBlank (stripEnding l)
  have hsuffix : ((rawLines t).tail.dropWhile p).tail <:+ rawLines t :=
    (List.tail_suffix _).trans ((List.dropWhile_suffix _).trans (List.tail_suffix _))
  obtain ⟨pre, hpre⟩ := hsuffix
  rw [lines, gitShowText, rawLines_flatten_of_append hpre.symm, gitShowBody, lines,
    ← List.map_tail, List.dropWhile_map, ← List.map_tail]
  rfl

/-- The diff of a `git show` is its payload line by line. -/
theorem rewritten_gitShowDiff (h : gitShowDiff t ≠ []) :
    Rewritten (gitShowDiff t) (payload t .gitShow) ∧
      isDiffStart (payload t .gitShow) = true ∧ Closed (gitShowDiff t) := by
  have hlines : lines (payload t .gitShow) = (gitShowBody t).dropWhile (!isDiffStart ·) := by
    rw [payload, lines_diffOf, lines_gitShowText]
  rw [gitShowDiff] at h ⊢
  rw [← hlines] at h ⊢
  split at h
  · exact absurd rfl h
  · rename_i l ls hl
    refine ⟨rewritten_cons hl, isDiffStart_diffOf fun hno => ?_, ?_⟩
    · have hnil : (lines (gitShowText t)).dropWhile (!isDiffStart ·) = [] :=
        List.dropWhile_eq_nil_iff.mpr fun line hline => by simp [hno line hline]
      rw [hlines, ← lines_gitShowText, hnil] at hl
      cases hl
    · refine (closed_concat l).append ?_
      split_ifs
      · exact Or.inl rfl
      · exact closed_concat _

theorem rewritten_bareDiff (h : ¬NoDiff t) :
    Rewritten (bareDiff t) (payload t .bareDiff) ∧ Closed (bareDiff t) := by
  rw [bareDiff, ← lines_diffOf]
  exact ⟨rewritten_join (ne_nil_of_isDiffStart (isDiffStart_diffOf h)),
    Or.inr (ensureTrailingNewline_last _)⟩

theorem normalizeMbox_ok {imp : ImportMeta} (h : normalizeMbox t imp = .ok n)
    (hsplit : splitSeparator (t.dropWhile (· = '\n')) = (sep, rest)) : ¬NoDiff rest ∧
      ((parseEmailHeaders rest)[("subject".toList : Str)]?).map cleanSubject = some n.subject ∧
      n.mbox = ensureTrailingNewline (match imp.origin with
        | some o => spliceOriginTrailer (sep ++ '\n' :: rest) o
        | none => sep ++ '\n' :: rest) := by
  rw [normalizeMbox, hsplit] at h
  dsimp only at h
  obtain ⟨subject, hsubject, h⟩ := Outcome.bind_eq_ok.mp h
  obtain ⟨⟨⟩, hdiff, h⟩ := Outcome.bind_eq_ok.mp h
  rw [ensureHasDiff] at hdiff
  split_ifs at hdiff with hany
  have hn := (Outcome.ok.inj h).symm
  rw [List.append_cons, hn]
  exact ⟨not_noDiff_of_any hany, Outcome.okOr_eq_ok.mp hsubject, by cases imp.origin <;> rfl⟩

theorem same_mbox_iff (h : normalizeMbox t { origin } = .ok n) :
    SameUpToNewline (diffOf n.mbox) (payload t .mbox) ↔ PayloadSafe t origin .mbox := by
  obtain ⟨sep, rest, hsplit, hmailbox, -⟩ := exists_mailbox t
  obtain ⟨hrest, -, hmbox⟩ := normalizeMbox_ok h hsplit
  have hdiff : ¬NoDiff (mailbox t) := by
    rw [hmailbox, List.append_cons]
    exact fun hno => hrest ((noDiff_append (closed_concat sep)).mp hno).2
  rw [hmbox, ← hmailbox, PayloadSafe, payload, ← diffOf_mailbox t]
  cases origin with
  | none => exact iff_of_true (same_diffOf_ensureTrailingNewline hdiff) (by simp)
  | some o =>
    dsimp only
    rw [same_spliceOriginTrailer_iff hdiff]
    rcases beforeCut_eq t with ⟨hcut, hbefore⟩ | ⟨head, tail, head', hcut, hbefore, hiff⟩
    · rw [hcut, hbefore]; simp
    · rw [hcut, hbefore]; simp [hiff]

theorem same_gitShow_iff (h : normalizeGitShow t { origin } = .ok n) :
    SameUpToNewline (diffOf n.mbox) (payload t .gitShow) ↔ PayloadSafe t origin .gitShow := by
  obtain ⟨hr, hne, -⟩ := normalizeGitShow_ok h (by simp) (by simp)
  obtain ⟨hrw, hdiff, hclosed⟩ := rewritten_gitShowDiff hne
  rw [same_rendered_iff hr hclosed hrw hdiff, trim_splitSubjectBody, PayloadSafe]

theorem same_bareDiff_iff (h : normalizeBareDiff t { origin } = .ok n) :
    SameUpToNewline (diffOf n.mbox) (payload t .bareDiff) ↔ PayloadSafe t origin .bareDiff := by
  obtain ⟨hr, hany, -⟩ := normalizeBareDiff_ok h (by simp) (by simp)
  have hno := not_noDiff_of_any hany
  obtain ⟨hrw, hclosed⟩ := rewritten_bareDiff hno
  rw [same_rendered_iff hr hclosed hrw (isDiffStart_diffOf hno), PayloadSafe]
  exact and_congr_left fun _ => and_iff_right (by decide)

/-- A normalized patch carries the diff of the text exactly when the text is safe. -/
theorem same_payload_iff {kind : PatchKind} (hkind : classify t = .ok kind)
    (h : normalize t { origin } = .ok n) :
    SameUpToNewline (diffOf n.mbox) (payload t kind) ↔ PayloadSafe t origin kind := by
  rw [normalize] at h
  split_ifs at h
  rw [hkind] at h
  cases kind with
  | mbox => exact same_mbox_iff h
  | gitShow => exact same_gitShow_iff h
  | bareDiff => exact same_bareDiff_iff h

end

def demoShow : Str :=
  "commit 1234567\nAuthor: A <a@b>\n\n    Title\n\n    Why.\n\n--- a/f\n+++ b/f\n-a\n+b".toList

/-- A `git show` comes through with its trailer. -/
theorem same_payload_demo : ∃ n, normalize demoShow { origin := some "upstream".toList } = .ok n ∧
    SameUpToNewline (diffOf n.mbox) (payload demoShow .gitShow) := by
  have hkind : classify demoShow = .ok .gitShow := by decide +kernel
  have hok : (normalize demoShow { origin := some "upstream".toList }).toOption.isSome := by
    decide +kernel
  have hsafe : PayloadSafe demoShow (some "upstream".toList) .gitShow := by
    rw [PayloadSafe]
    decide +kernel
  obtain ⟨n, hn⟩ := Option.isSome_iff_exists.mp hok
  have hn := Outcome.mem_toOption.mp hn
  exact ⟨n, hn, (same_payload_iff hkind hn).mpr hsafe⟩

/-- A diff with carriage returns before its newlines. -/
def crlfPatch : Str := "--- a/f\n+++ b/f\n@@ -1 +1 @@\n-a\r\n+b\r\n".toList

/-- The carriage returns of a freeform diff are lost. -/
theorem crlf_lost : classify crlfPatch = .ok .bareDiff ∧ ∃ n ∈ (normalize crlfPatch {}).toOption,
    ¬SameUpToNewline (diffOf n.mbox) (payload crlfPatch .bareDiff) :=
  ⟨by decide +kernel, by decide +kernel⟩

end Boot2Deb.Mbox
