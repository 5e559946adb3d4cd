import Boot2Deb.Mbox.Preservation
import Boot2Deb.Mbox.Subject

/-!
# Normalizing again

A normalized patch starts with a separator line, so it is read as a mailbox and passed through as it
is. Only its subject is read anew: of a rendered patch it comes out trimmed, and of a mailbox it
comes out the same unless the spliced trailer parted the `Subject:` header from its continuation.
-/

namespace Boot2Deb.Mbox
open Rust

/-- Normalizing again changes neither the text nor the subject. -/
def Idempotent (n : Normalized) : Prop :=
  ∃ n', normalize n.mbox {} = .ok n' ∧ n'.mbox = n.mbox ∧ n'.subject = n.subject ∧ n'.kind = .mbox

/-- The metadata are single lines. -/
def ImportMeta.SingleLine (imp : ImportMeta) : Prop :=
  (∀ a ∈ imp.author, '\n' ∉ a) ∧ (∀ s ∈ imp.subject, '\n' ∉ s) ∧ ∀ o ∈ imp.origin, '\n' ∉ o

/-- The header block reads the same with another header between these lines: it ends before, or
the subject is not the header last read, or it is given again behind, or the continuation lines
behind do not show in it. -/
def SubjectKept (before after : List Str) : Prop :=
  before.any isBlank = true ∨ (readLines "subject".toList (none, false) before).2 = false ∨
    (block after).any (isHeader "subject".toList) = true ∨
      ∀ v ∈ (readLines "subject".toList (none, false) before).1,
        cleanSubject v = cleanSubject (v ++ continuation (block after))

section
variable {t sep rest o : Str} {before after : List Str} {imp : ImportMeta} {n : Normalized}

theorem block_append (h : before.any isBlank = false) : block (before ++ after) = before ++ block after := by
  refine List.takeWhile_append_of_pos fun l hl => ?_
  rw [List.any_eq_false] at h
  simp [h l hl]

theorem block_append_of_any (h : before.any isBlank = true) (ls : List Str) :
    block (before ++ ls) = block before := by
  obtain ⟨l, hl, hblank⟩ := List.any_eq_true.mp h
  induction before with
  | nil => cases hl
  | cons k before ih =>
    rw [List.cons_append, block, block, List.takeWhile_cons, List.takeWhile_cons]
    split_ifs with hk
    · rcases List.mem_cons.mp hl with rfl | hl
      · simp [hblank] at hk
      · rw [← block, ← block, ih (List.any_eq_true.mpr ⟨l, hl, hblank⟩) hl]
    · rfl

/-- A trailer among the lines keeps the subject exactly when it reads the same. -/
theorem subjectOf_trailer : subjectOf (before ++ ("Origin: ".toList ++ o) :: after) =
    subjectOf (before ++ after) ↔ SubjectKept before after := by
  rw [SubjectKept]
  by_cases hblank : before.any isBlank = true
  · refine iff_of_true ?_ (Or.inl hblank)
    rw [subjectOf, subjectOf, block_append_of_any hblank, block_append_of_any hblank]
  · rw [Bool.not_eq_true] at hblank
    have hline : isBlank ("Origin: ".toList ++ o) = false :=
      isBlank_eq_false (c := 'O') (List.mem_append_left _ (by decide)) (by decide)
    have hsplit : "Origin: ".toList ++ o = "Origin".toList ++ ':' :: (' ' :: o) := rfl
    have hstep (s : Reading) :
        readStep "subject".toList s ("Origin: ".toList ++ o) = (s.1, false) := by
      rw [hsplit, readStep_named _ (by decide) (by rfl), if_neg (by decide)]
    rw [subjectOf, subjectOf, block_append hblank, block_append hblank, block_cons hline,
      readLines_append, readLines_append]
    generalize readLines "subject".toList (none, false) before = s
    obtain ⟨v, last⟩ := s
    rw [readLines, List.foldl_cons, hstep, ← readLines]
    dsimp only
    cases last with
    | false => exact iff_of_true rfl (by simp)
    | true =>
      by_cases hany : (block after).any (isHeader "subject".toList) = true
      · exact iff_of_true (by rw [readLines_isHeader hany]) (Or.inr (Or.inr (Or.inl hany)))
      · have hnone : (block after).any (isHeader "subject".toList) = false :=
          Bool.eq_false_iff.mpr hany
        rw [readLines_closed hnone, readLines_open hnone, hnone, hblank]
        cases v with
        | none => simp
        | some v => simp [eq_comm]

/-! ### Reading a normalized patch -/

theorem from_stripEnding (hsep : '\n' ∉ sep) (hfrom : "From ".toList <+: sep) :
    "From ".toList <+: stripEnding (sep ++ ['\n']) := by
  rcases stripEnding_ended_cases sep with ⟨he, -⟩ | ⟨sep', rfl, he⟩
  · rwa [he]
  · rw [he]
    exact (isPrefix_append_cons (by decide)).mp hfrom

theorem isBlank_from {l : Str} (h : "From ".toList <+: l) : isBlank l = false :=
  isBlank_eq_false (h.subset (show 'F' ∈ "From ".toList by decide)) (by decide)

theorem isDiffStart_from {l : Str} (h : "From ".toList <+: l) : isDiffStart l = false := by
  obtain ⟨s, rfl⟩ := h
  exact Bool.eq_false_iff.mpr fun hd => absurd (isDiffStart_head hd) (by decide)

/-- A text with a separator line is a mailbox. -/
theorem classify_separator (hsep : '\n' ∉ sep) (hfrom : "From ".toList <+: sep) :
    classify (sep ++ '\n' :: rest) = .ok .mbox := by
  have hline := from_stripEnding hsep hfrom
  have hfirst : ((lines (sep ++ '\n' :: rest)).find? (!isBlank ·)).getD [] =
      stripEnding (sep ++ ['\n']) := by
    rw [lines_ended hsep, List.find?_cons_of_pos (by simp [isBlank_from hline])]
    rfl
  have hshow : isGitShowHeader (stripEnding (sep ++ ['\n'])) = false := by
    obtain ⟨l, hl⟩ := hline
    have hnone : stripPrefix (stripEnding (sep ++ ['\n'])) "commit ".toList = none := by
      refine if_neg fun hp => ?_
      rw [← hl] at hp
      exact absurd (List.cons_prefix_cons.mp hp).1 (by decide)
    rw [isGitShowHeader, hnone]
  rw [classify, hfirst, hshow, if_neg (by decide), if_pos hline]

theorem splitSeparator_separator (hsep : '\n' ∉ sep) (hfrom : "From ".toList <+: sep) :
    splitSeparator ((sep ++ '\n' :: rest).dropWhile (· = '\n')) = (sep, rest) := by
  have hdrop : (sep ++ '\n' :: rest).dropWhile (· = '\n') = sep ++ '\n' :: rest := by
    obtain ⟨s, rfl⟩ := hfrom
    exact List.dropWhile_cons_of_neg (by decide)
  rw [hdrop, splitSeparator, splitOnce_append_cons hsep]
  exact if_pos hfrom

/-- What a patch with a separator line, a diff and a final newline is normalized to. -/
theorem normalize_separator (hsep : '\n' ∉ sep) (hfrom : "From ".toList <+: sep)
    (hclosed : Closed rest) (hdiff : ¬NoDiff rest) : normalize (sep ++ '\n' :: rest) {} =
      Outcome.okOr (subjectOf (lines rest)) .patchMissingSubject >>= fun subject =>
        .ok ⟨sep ++ '\n' :: rest, subject, .mbox⟩ := by
  have hblank : (trim (sep ++ '\n' :: rest)).isEmpty = false := by
    refine isBlank_eq_false (List.mem_append_left _ ?_) (show isWhitespace 'F' = false by decide)
    exact hfrom.subset (by decide)
  have hany : (lines rest).any isDiffStart = true := by
    rwa [noDiff_iff_any, Bool.not_eq_false] at hdiff
  have hend : ensureTrailingNewline (sep ++ '\n' :: rest) = sep ++ '\n' :: rest := by
    rw [List.append_cons]
    exact ensureTrailingNewline_eq ((closed_concat sep).append hclosed) (by simp)
  rw [normalize, hblank, if_neg (by decide), classify_separator hsep hfrom, Outcome.ok_bind]
  dsimp only
  rw [normalizeMbox, splitSeparator_separator hsep hfrom]
  dsimp only
  rw [subjectOf_lines, ensureHasDiff, if_pos hany, ← List.append_cons, hend]
  rfl

/-- Normalizing again comes down to the subject the header block names. -/
theorem idempotent_iff (hsep : '\n' ∉ sep) (hfrom : "From ".toList <+: sep)
    (hclosed : Closed rest) (hdiff : ¬NoDiff rest) (h : n.mbox = sep ++ '\n' :: rest) :
    Idempotent n ↔ subjectOf (lines rest) = some n.subject := by
  rw [Idempotent, h, normalize_separator hsep hfrom hclosed hdiff]
  cases subjectOf (lines rest) with
  | none => simp [Outcome.okOr]
  | some subject => simp [Outcome.okOr]

/-- Of a rendered patch the subject comes out trimmed. -/
theorem idempotent_rendered_iff {body diff : Str} {origin : Option Str}
    (h : Rendered n body origin diff) (hclosed : Closed diff) (hdiff : isDiffStart diff = true) :
    Idempotent n ↔ trim n.subject = n.subject := by
  obtain ⟨hsubject, sha, author, date, hsha, hauthor, hdate, hmbox⟩ := h
  have hfrom : "From ".toList <+: synthSeparator sha := by
    unfold synthSeparator
    exact (List.prefix_append _ _).trans (List.prefix_append _ _)
  have hblock : Closed (headerBlock author (date.getD epochDate) n.subject) := closed_concat _
  have hdash : Closed "---\n".toList := Or.inr rfl
  have hpre := (hblock.append (prose_closed body origin)).append hdash
  have hout : n.mbox = synthSeparator sha ++ '\n' ::
      (headerBlock author (date.getD epochDate) n.subject ++ prose body origin ++
        "---\n".toList ++ diff) := by
    rw [hmbox, renderMbox, List.append_cons,
      ensureTrailingNewline_eq ((((closed_concat _).append hblock).append
        (prose_closed body origin)).append hdash |>.append hclosed) (by simp)]
    simp only [List.append_assoc, List.cons_append, List.nil_append]
  rw [idempotent_iff (not_mem_synthSeparator hsha) hfrom (hpre.append hclosed)
    (fun hno => not_noDiff_of_isDiffStart hdiff ((noDiff_append hpre).mp hno).2) hout,
    List.append_assoc, List.append_assoc,
    subjectOf_headerBlock hauthor (not_mem_getD hdate (by decide)) hsubject, Option.some.injEq]

/-! ### The place of the trailer -/

/-- The lines of a mailbox before and behind the place of a trailer. -/
def trailerPlace (rest : Str) : List Str × List Str :=
  match cutBefore "\n---\n".toList ('\n' :: rest) with
  | some (head, tail) => (lines (head ++ ['\n']).tail, lines tail.tail)
  | none => ((lines rest).takeWhile (!isDiffStart ·), (lines rest).dropWhile (!isDiffStart ·))

theorem subjectOf_ensureTrailingNewline {s : Str} (h : s ≠ []) :
    subjectOf (lines (ensureTrailingNewline s)) = subjectOf (lines s) :=
  (subjectOf_congr (sameLines_ensureTrailingNewline h)).symm

theorem noDiff_ensureTrailingNewline {s : Str} : NoDiff (ensureTrailingNewline s) ↔ NoDiff s := by
  rcases ensureTrailingNewline_cases s with he | he
  · rw [he]
  · rw [he, noDiff_concat]

theorem ensureTrailingNewline_append {s x : Str} (h : x ≠ []) :
    ensureTrailingNewline (s ++ x) = s ++ ensureTrailingNewline x := by
  rw [ensureTrailingNewline, ensureTrailingNewline, List.getLast?_append_of_ne_nil _ h]
  split_ifs
  · rfl
  · exact List.append_assoc ..

/-- The trailer is one line. -/
theorem sameLines_trailer (ho : '\n' ∉ o) :
    SameLines ["Origin: ".toList ++ o] (lines (trailer o)) := by
  have hline : '\n' ∉ "Origin: ".toList ++ o := List.not_mem_append (by decide) ho
  unfold trailer
  rw [lines_ended hline]
  exact sameLines_ended _

/-- What is written around the trailer. -/
theorem subjectOf_around {s x : Str} (ho : '\n' ∉ o) (hs : Closed s)
    (hbefore : SameLines before (lines s)) (hafter : SameLines after (lines x)) :
    subjectOf (lines (s ++ trailer o ++ x)) =
      subjectOf (before ++ ("Origin: ".toList ++ o) :: after) := by
  rw [lines_append (hs.append (trailer_closed o)), lines_append hs, List.append_assoc]
  exact (subjectOf_congr (hbefore.append ((sameLines_trailer ho).append hafter))).symm

/-- A separator line and a text that names the subject of the lines with the trailer in its
place. -/
def SplicedAt (out o : Str) (before after : List Str) : Prop :=
  ∃ sep rest, out = sep ++ '\n' :: rest ∧ '\n' ∉ sep ∧ "From ".toList <+: sep ∧ Closed rest ∧
    ¬NoDiff rest ∧ subjectOf (lines rest) = subjectOf (before ++ ("Origin: ".toList ++ o) :: after)

/-- Without a cut the lines are written anew, the trailer before the first diff line. -/
theorem splicedAt_diff (hsep : '\n' ∉ sep) (hfrom : "From ".toList <+: sep) (hdiff : ¬NoDiff rest)
    (ho : '\n' ∉ o) (hcut : cutBefore "\n---\n".toList (sep ++ '\n' :: rest) = none) :
    SplicedAt (ensureTrailingNewline (spliceOriginTrailer (sep ++ '\n' :: rest) o)) o
      ((lines rest).takeWhile (!isDiffStart ·)) ((lines rest).dropWhile (!isDiffStart ·)) := by
  have hline := from_stripEnding hsep hfrom
  have hnot := isDiffStart_from hline
  have hany : (lines rest).any isDiffStart = true := by
    rwa [noDiff_iff_any, Bool.not_eq_false] at hdiff
  have hbefore : ∀ l ∈ (lines rest).takeWhile (!isDiffStart ·), '\n' ∉ l := fun l hl =>
    not_mem_of_mem_lines ((List.takeWhile_prefix _).subset hl)
  have hafter : ∀ l ∈ (lines rest).dropWhile (!isDiffStart ·), '\n' ∉ l := fun l hl =>
    not_mem_of_mem_lines ((List.dropWhile_suffix _).subset hl)
  have hpre := (unlines_closed ((lines rest).takeWhile (!isDiffStart ·))).append (trailer_closed o)
  have hclosed := hpre.append (unlines_closed ((lines rest).dropWhile (!isDiffStart ·)))
  refine ⟨stripEnding (sep ++ ['\n']), _, ?_, not_mem_stripEnding (Ended.isRaw ⟨sep, hsep, rfl⟩),
    hline, hclosed, fun hno => hdiff ?_,
    subjectOf_around ho (unlines_closed _) (sameLines_unlines hbefore) (sameLines_unlines hafter)⟩
  · rw [spliceOriginTrailer, hcut]
    dsimp only
    rw [lines_ended hsep, List.any_cons, hany, Bool.or_true, if_pos rfl,
      List.takeWhile_cons_of_pos (by simp [hnot]), List.dropWhile_cons_of_pos (by simp [hnot]),
      unlines_cons, List.append_assoc, List.append_assoc, List.cons_append, ← List.append_assoc,
      List.append_cons]
    rw [ensureTrailingNewline_eq ((closed_concat _).append hclosed) (by simp), ← List.append_cons]
  · rw [noDiff_append hpre, noDiff_append (unlines_closed _), noDiff_unlines hbefore,
      noDiff_unlines hafter] at hno
    rw [NoDiff, ← List.takeWhile_append_dropWhile (p := (!isDiffStart ·)) (l := lines rest)]
    exact List.forall_mem_append.mpr ⟨hno.1.1, hno.2⟩

/-- Behind closed lines the trailer is a line of its own. -/
theorem splicedAt_cut {s x : Str} (hsep : '\n' ∉ sep) (hfrom : "From ".toList <+: sep)
    (hs : Closed s) (hx : x ≠ []) (hdiff : ¬NoDiff (s ++ x)) (ho : '\n' ∉ o) :
    SplicedAt (ensureTrailingNewline (sep ++ '\n' :: (s ++ trailer o ++ x))) o (lines s) (lines x) := by
  have hne : s ++ trailer o ++ x ≠ [] := by simp [hx]
  refine ⟨sep, ensureTrailingNewline (s ++ trailer o ++ x), ?_, hsep, hfrom,
    Or.inr (ensureTrailingNewline_last _), fun hno => hdiff ?_, ?_⟩
  · rw [List.append_cons, ensureTrailingNewline_append hne, ← List.append_cons]
  · rw [noDiff_ensureTrailingNewline, noDiff_append (hs.append (trailer_closed o)),
      noDiff_append hs] at hno
    exact (noDiff_append hs).mpr ⟨hno.1.1, hno.2⟩
  · rw [subjectOf_ensureTrailingNewline hne,
      subjectOf_around ho hs (SameLines.refl _) (SameLines.refl _)]

/-- The trailer of a mailbox stands at its place among the lines. -/
theorem splicedAt_trailerPlace (hsep : '\n' ∉ sep) (hfrom : "From ".toList <+: sep)
    (hdiff : ¬NoDiff rest) (ho : '\n' ∉ o) :
    (trailerPlace rest).1 ++ (trailerPlace rest).2 = lines rest ∧
      SplicedAt (ensureTrailingNewline (spliceOriginTrailer (sep ++ '\n' :: rest) o)) o
        (trailerPlace rest).1 (trailerPlace rest).2 := by
  have hfind : cutBefore "\n---\n".toList (sep ++ '\n' :: rest) =
      (cutBefore "\n---\n".toList ('\n' :: rest)).map fun p => (sep ++ p.1, p.2) :=
    cutBefore_append hsep
  rw [trailerPlace]
  rcases hcut : cutBefore "\n---\n".toList ('\n' :: rest) with _ | ⟨head, tail⟩
  · rw [hcut] at hfind
    exact ⟨List.takeWhile_append_dropWhile, splicedAt_diff hsep hfrom hdiff ho hfind⟩
  · obtain ⟨hwhole, tail, rfl⟩ := eq_of_cutBefore hcut
    obtain ⟨s, hs⟩ : ∃ s, head ++ ['\n'] = '\n' :: s := by
      cases head with
      | nil => exact ⟨[], rfl⟩
      | cons c head =>
        obtain ⟨rfl, -⟩ := List.cons.inj hwhole
        exact ⟨head ++ ['\n'], rfl⟩
    have hclosed : Closed s := by
      have hall : Closed ('\n' :: s) := hs ▸ closed_concat head
      exact closed_of_append (s := ['\n']) hall
    have hrest : rest = s ++ ("---\n".toList ++ tail) := by
      have hwhole' : '\n' :: rest = head ++ ['\n'] ++ ("---\n".toList ++ tail) := by
        rw [hwhole, List.append_assoc]
        rfl
      rw [hs] at hwhole'
      exact (List.cons.inj hwhole').2
    have hx : ("\n---\n".toList ++ tail).tail = "---\n".toList ++ tail := rfl
    have hout : spliceOriginTrailer (sep ++ '\n' :: rest) o =
        sep ++ '\n' :: (s ++ trailer o ++ ("---\n".toList ++ tail)) := by
      rw [spliceOriginTrailer, hfind, hcut]
      dsimp only [Option.map_some]
      rw [List.drop_one, hx, List.append_assoc sep head, hs]
      simp only [List.append_assoc, List.cons_append]
    dsimp only
    rw [hs, hx, hout, List.tail_cons, hrest]
    refine ⟨(lines_append hclosed _).symm, splicedAt_cut hsep hfrom hclosed ?_ (hrest ▸ hdiff) ho⟩
    exact List.append_ne_nil_of_left_ne_nil (by decide) _

/-! ### The shapes -/

/-- What a patch must be like to be passed through when it is normalized again. -/
def Kept (t : Str) (imp : ImportMeta) : PatchKind → Prop
  | .mbox =>
    let place := trailerPlace (splitSeparator (t.dropWhile (· = '\n'))).2
    imp.origin = none ∨ SubjectKept place.1 place.2
  | .gitShow => True
  | .bareDiff => imp.subject.isSome = true ∨ ∀ s ∈ deriveSubject (bareDiff t), trim s = s

theorem idempotent_mbox_iff (hsingle : imp.SingleLine) (h : normalizeMbox t imp = .ok n) :
    Idempotent n ↔ Kept t imp .mbox := by
  obtain ⟨sep, rest, hsplit, -, hsep, hfrom, -⟩ := exists_mailbox t
  obtain ⟨hdiff, hsubject, hmbox⟩ := normalizeMbox_ok h hsplit
  rw [subjectOf_lines] at hsubject
  rw [Kept, hsplit]
  cases horigin : imp.origin with
  | none =>
    have hne : rest ≠ [] := by rintro rfl; exact hdiff (by decide)
    have hout : n.mbox = sep ++ '\n' :: ensureTrailingNewline rest := by
      rw [hmbox, horigin]
      dsimp only
      rw [List.append_cons, ensureTrailingNewline_append hne, ← List.append_cons]
    rw [idempotent_iff hsep hfrom (Or.inr (ensureTrailingNewline_last _))
      (mt noDiff_ensureTrailingNewline.mp hdiff) hout, subjectOf_ensureTrailingNewline hne]
    exact iff_of_true hsubject (Or.inl rfl)
  | some o =>
    obtain ⟨hlines, sep', rest', hout, hsep', hfrom', hclosed, hdiff', hsubject'⟩ :=
      splicedAt_trailerPlace hsep hfrom hdiff (hsingle.2.2 o horigin)
    rw [horigin] at hmbox
    rw [idempotent_iff hsep' hfrom' hclosed hdiff' (hmbox.trans hout), hsubject', ← hsubject,
      ← hlines, subjectOf_trailer]
    simp

theorem idempotent_gitShow (hsingle : imp.SingleLine) (h : normalizeGitShow t imp = .ok n) :
    Idempotent n := by
  obtain ⟨hr, hne, htrim⟩ := normalizeGitShow_ok h hsingle.1 hsingle.2.1
  obtain ⟨hrw, hdiff, hclosed⟩ := rewritten_gitShowDiff hne
  exact (idempotent_rendered_iff hr hclosed (isDiffStart_of_rewritten hrw hdiff)).mpr htrim

theorem idempotent_bareDiff_iff (hsingle : imp.SingleLine) (h : normalizeBareDiff t imp = .ok n) :
    Idempotent n ↔ Kept t imp .bareDiff := by
  obtain ⟨hr, hany, hsubject⟩ := normalizeBareDiff_ok h hsingle.1 hsingle.2.1
  have hno := not_noDiff_of_any hany
  obtain ⟨hrw, hclosed⟩ := rewritten_bareDiff hno
  rw [idempotent_rendered_iff hr hclosed (isDiffStart_of_rewritten hrw (isDiffStart_diffOf hno)),
    Kept]
  cases hgiven : imp.subject with
  | some s =>
    rw [hgiven] at hsubject
    rw [Option.some.inj hsubject]
    exact iff_of_true (trim_trim s) (Or.inl rfl)
  | none =>
    rw [hgiven] at hsubject
    have hderived : deriveSubject (bareDiff t) = some n.subject := hsubject.symm
    rw [hderived]
    simp

/-- Normalizing a normalized patch again changes nothing exactly when its subject is kept. -/
theorem idempotent_iff_kept {kind : PatchKind} (hsingle : imp.SingleLine)
    (hkind : classify t = .ok kind) (h : normalize t imp = .ok n) :
    Idempotent n ↔ Kept t imp kind := by
  rw [normalize] at h
  split_ifs at h
  rw [hkind] at h
  cases kind with
  | mbox => exact idempotent_mbox_iff hsingle h
  | gitShow => exact iff_of_true (idempotent_gitShow hsingle h) trivial
  | bareDiff => exact idempotent_bareDiff_iff hsingle h

end

def demoMailbox : Str :=
  "Subject: [PATCH] Title\n\nWhy.\n---\n--- a/f\n+++ b/f\n-a\n+b".toList

/-- A mailbox with a trailer is passed through when it is normalized again. -/
theorem idempotent_demo : ∃ n,
    normalize demoMailbox { origin := some "upstream".toList } = .ok n ∧ Idempotent n := by
  have hsingle : ImportMeta.SingleLine { origin := some "upstream".toList } := by
    refine ⟨by simp, by simp, ?_⟩
    rintro _ ⟨⟩
    decide
  have hkind : classify demoMailbox = .ok .mbox := by decide +kernel
  have hok : (normalize demoMailbox { origin := some "upstream".toList }).toOption.isSome := by
    decide +kernel
  have hblank : (trailerPlace
      (splitSeparator (demoMailbox.dropWhile (· = '\n'))).2).1.any isBlank = true := by
    decide +kernel
  obtain ⟨n, hn⟩ := Option.isSome_iff_exists.mp hok
  have hn := Outcome.mem_toOption.mp hn
  exact ⟨n, hn, (idempotent_iff_kept hsingle hkind hn).mpr (Or.inr (Or.inl hblank))⟩

/-- A diff of a file whose name ends in a blank. -/
def spacedPatch : Str := "diff --git a/f  b/f \n--- a/f \n+++ b/f \n@@ -1 +1 @@\n-a\n+b\n".toList

/-- The blank the derived subject ends in is not read back. -/
theorem subject_trimmed : ∃ n ∈ (normalize spacedPatch {}).toOption,
    ∃ n' ∈ (normalize n.mbox {}).toOption, n'.subject ≠ n.subject := by
  decide +kernel

end Boot2Deb.Mbox
