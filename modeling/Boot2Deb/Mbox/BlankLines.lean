import Boot2Deb.Mbox.Leading
import Boot2Deb.Mbox.Separator
import Boot2Deb.Mbox.Idempotent

/-!
# Blank lines in front of a patch

The shape of a text is that of its first line that is not blank, but a `git show` is read from its
first line on, and the search for a `Subject:` header ends at the first blank one. What newlines in
front change is told by the ink of what is rendered: the characters that are not white space.
-/

namespace Boot2Deb.Mbox
open Rust

/-- How many characters of a text are not white space. -/
def ink (s : Str) : ℕ := s.countP (!isWhitespace ·)

/-- The ink of several lines. -/
def inkOf (ls : List Str) : ℕ := (ls.map ink).sum

section
variable {s t l c sha author subject body diff : Str} {date origin : Option Str} {imp : ImportMeta}
  {blanks hdr ls tail : List Str} {n : Normalized} {acc : Option Str × Option Str}

/-! ### Ink -/

@[simp] theorem ink_nil : ink [] = 0 := rfl

@[simp] theorem ink_append (s t : Str) : ink (s ++ t) = ink s + ink t := List.countP_append

theorem ink_cons (c : Char) (s : Str) : ink (c :: s) = ink [c] + ink s := ink_append [c] s

@[simp] theorem ink_newline_cons (s : Str) : ink ('\n' :: s) = ink s :=
  (ink_cons '\n' s).trans (zero_add _)

theorem ink_of_white (h : ∀ c ∈ s, isWhitespace c = true) : ink s = 0 := by
  rw [ink, List.countP_eq_zero]
  intro c hc
  simp [h c hc]

theorem ink_trimStart (s : Str) : ink (trimStart s) = ink s := by
  have hwhite : ink (s.takeWhile isWhitespace) = 0 :=
    ink_of_white fun c hc => List.mem_takeWhile_imp hc
  conv_rhs => rw [← @List.takeWhile_append_dropWhile _ isWhitespace s, ink_append, hwhite, zero_add]
  rfl

theorem ink_trimEnd (s : Str) : ink (trimEnd s) = ink s := by
  have hwhite : ink (s.rtakeWhile isWhitespace) = 0 :=
    ink_of_white fun c hc => List.mem_rtakeWhile_imp hc
  conv_rhs => rw [← @List.rdropWhile_append_rtakeWhile _ isWhitespace s, ink_append, hwhite]
  rfl

@[simp] theorem ink_trim (s : Str) : ink (trim s) = ink s := by
  rw [trim, ink_trimEnd, ink_trimStart]

theorem ink_eq_zero : ink s = 0 ↔ trim s = [] := by
  constructor
  · intro h
    rw [ink, List.countP_eq_zero] at h
    have hstart : trimStart s = [] := List.dropWhile_eq_nil_iff.mpr fun c hc => by simpa using h c hc
    rw [trim, hstart]
    rfl
  · intro h
    rw [← ink_trim, h, ink_nil]

theorem isBlank_iff : isBlank l = true ↔ ink l = 0 := by
  rw [isBlank, List.isEmpty_iff, ink_eq_zero]

theorem ink_pos (h : isBlank l = false) : 0 < ink l := by
  rw [← Bool.not_eq_true, isBlank_iff] at h
  omega

theorem ink_dedent (l : Str) (k : ℕ) : ink (dedent l k) = ink l := by
  induction l generalizing k with
  | nil => cases k <;> rfl
  | cons d l ih =>
    cases k with
    | zero => unfold dedent; split <;> simp_all
    | succ k =>
      unfold dedent
      split
      · rename_i heq hk
        obtain ⟨rfl, rfl⟩ := List.cons.inj heq
        obtain rfl : k = _ := Nat.succ.inj hk
        rw [ih, ink_cons]
        exact (zero_add _).symm
      · rfl

theorem ink_ensureTrailingNewline (s : Str) : ink (ensureTrailingNewline s) = ink s := by
  rcases ensureTrailingNewline_cases s with h | h
  · rw [h]
  · rw [h, ink_append, ink_newline_cons, ink_nil, add_zero]

@[simp] theorem inkOf_nil : inkOf [] = 0 := rfl

@[simp] theorem inkOf_cons (l : Str) (ls : List Str) : inkOf (l :: ls) = ink l + inkOf ls := rfl

@[simp] theorem inkOf_append (ls ls' : List Str) : inkOf (ls ++ ls') = inkOf ls + inkOf ls' := by
  rw [inkOf, List.map_append, List.sum_append, inkOf, inkOf]

theorem inkOf_eq_zero : inkOf ls = 0 ↔ ∀ l ∈ ls, isBlank l = true := by
  induction ls with
  | nil => simp
  | cons l ls ih =>
    rw [inkOf_cons, Nat.add_eq_zero_iff, ih, ← isBlank_iff, List.forall_mem_cons]

theorem inkOf_dedent (ls : List Str) : inkOf (ls.map (dedent · 4)) = inkOf ls := by
  induction ls with
  | nil => rfl
  | cons l ls ih => rw [List.map_cons, inkOf_cons, ink_dedent, ih, inkOf_cons]

theorem ink_join (ls : List Str) : ink (join ['\n'] ls) = inkOf ls := by
  rcases eq_or_ne ls [] with rfl | hne
  · rfl
  · have h := congrArg ink (unlines_eq_join hne)
    rw [ink_append, ink_newline_cons, ink_nil, add_zero] at h
    rw [← h]
    clear h hne
    induction ls with
    | nil => rfl
    | cons l ls ih =>
      rw [unlines_cons, ink_append, ink_newline_cons, ih, inkOf_cons]

theorem inkOf_lines (t : Str) : inkOf (lines t) = ink t := by
  induction t using lines_induction with
  | nil => rfl
  | last s hne hnot =>
    rw [lines, rawLines_of_not_mem hne hnot, List.map_singleton, stripEnding_of_not_mem hnot]
    exact add_zero _
  | ended l s hl ih =>
    obtain ⟨body, hbody, rfl⟩ := hl
    have hstrip : ink (stripEnding (body ++ ['\n'])) = ink body := by
      rcases stripEnding_ended_cases body with ⟨he, -⟩ | ⟨body', rfl, he⟩
      · rw [he]
      · rw [he, ink_append]
        rfl
    rw [List.append_assoc, List.singleton_append, lines_ended hbody, inkOf_cons, hstrip, ih,
      ink_append, ink_newline_cons]

/-! ### The ink of a rendered patch -/

theorem ink_prose (body : Str) (origin : Option Str) :
    ink (prose body origin) = ink body + ink (prose [] origin) := by
  have hempty : prose [] origin = origin.elim [] trailer := by cases origin <;> rfl
  rw [hempty, ← ink_trimEnd body]
  unfold prose
  dsimp only
  generalize trimEnd body = b
  rcases eq_or_ne b [] with rfl | hb
  · cases origin <;> simp
  · have hb : b.isEmpty = false := by simpa using hb
    cases origin <;> simp [hb]

/-- The parts a patch is rendered from, behind words of which only the ink counts. -/
theorem ink_parts (w₁ w₂ w₃ w₄ w₅ w₆ d : Str) :
    ink (w₁ ++ sha ++ w₂ ++ '\n' :: (w₃ ++ author ++ ['\n'] ++ (w₄ ++ d ++ ['\n']) ++
      (w₅ ++ subject ++ ['\n']) ++ ['\n']) ++ prose body origin ++ w₆ ++ diff) =
      (ink w₁ + ink w₂ + ink w₃ + ink w₄ + ink w₅ + ink w₆ + ink (prose [] origin)) +
        (ink sha + ink author + ink d + ink subject + ink body + ink diff) := by
  simp only [ink_append, ink_newline_cons, ink_nil, add_zero]
  rw [ink_prose body]
  omega

/-- What every patch with this trailer is rendered with. -/
def frameInk (origin : Option Str) : ℕ :=
  ink "From ".toList + ink (' ' :: mboxSeparatorDate) + ink "From: ".toList + ink "Date: ".toList +
    ink "Subject: [PATCH] ".toList + ink "---\n".toList + ink (prose [] origin)

theorem ink_renderMbox (sha author : Str) (date : Option Str) (subject body : Str)
    (origin : Option Str) (diff : Str) : ink (renderMbox sha author date subject body origin diff) =
      frameInk origin + (ink sha + ink author + ink (date.getD epochDate) + ink subject + ink body +
        ink diff) := by
  rw [renderMbox, ink_ensureTrailingNewline]
  exact ink_parts _ _ _ _ _ _ _

/-! ### A `git show` from its lines -/

/-- The message, dedented, from the lines behind the header block. -/
def showMessage (below : List Str) : List Str := (below.takeWhile (!isDiffStart ·)).map (dedent · 4)

/-- The diff, from the lines behind the header block. -/
def showDiff (below : List Str) : Str :=
  match below.dropWhile (!isDiffStart ·) with
  | [] => []
  | line :: rest =>
    let rest := join ['\n'] rest
    line ++ ['\n'] ++ if rest.isEmpty then [] else rest ++ ['\n']

/-- `normalize_git_show` from the commit named, the header block and the lines below it. -/
def showOf (sha : Str) (hdr below : List Str) (imp : ImportMeta) : Outcome ConfigError Normalized :=
  let (author, date) := hdr.foldl headerStep (none, none)
  let diff := showDiff below
  if (trim diff).isEmpty then .err .patchNoDiff
  else
    let (subjectFromMsg, body) := splitSubjectBody (showMessage below)
    let subject := trim (imp.subject.getD subjectFromMsg)
    if subject.isEmpty then .err .patchMissingSubject
    else
      let author := (author.or imp.author).getD defaultAuthor
      .ok { mbox := renderMbox sha author date subject body imp.origin diff
            subject := subject
            kind := .gitShow }

theorem normalizeGitShow_eq (t : Str) (imp : ImportMeta) :
    normalizeGitShow t imp = showOf (gitShowSha t) (block (lines t).tail) (gitShowBody t) imp := rfl

theorem isBlank_dedent (l : Str) : isBlank (dedent l 4) = isBlank l := by
  rw [Bool.eq_iff_iff, isBlank_iff, isBlank_iff, ink_dedent]

theorem ink_splitSubjectBody (ls : List Str) :
    ink (splitSubjectBody ls).1 + ink (splitSubjectBody ls).2 = inkOf ls := by
  have hblank : inkOf (ls.takeWhile isBlank) = 0 :=
    inkOf_eq_zero.mpr fun l hl => List.mem_takeWhile_imp hl
  conv_rhs => rw [← @List.takeWhile_append_dropWhile _ isBlank ls, inkOf_append, hblank, zero_add]
  rw [splitSubjectBody]
  cases ls.dropWhile isBlank with
  | nil => rfl
  | cons first rest => rw [ink_trim, ink_trim, ink_join, inkOf_cons]

theorem ink_showDiff (below : List Str) :
    ink (showDiff below) = inkOf (below.dropWhile (!isDiffStart ·)) := by
  rw [showDiff]
  cases below.dropWhile (!isDiffStart ·) with
  | nil => rfl
  | cons line rest =>
    have hrest : ink (if (join ['\n'] rest).isEmpty then [] else join ['\n'] rest ++ ['\n']) =
        inkOf rest := by
      rw [← ink_join]
      split_ifs with h
      · rw [List.isEmpty_iff.mp h]
      · simp
    simp only [ink_append, hrest, ink_newline_cons, ink_nil, inkOf_cons]
    omega

/-- Nothing of the lines below the header block is lost or doubled. -/
theorem ink_show (below : List Str) : ink (splitSubjectBody (showMessage below)).1 +
    ink (splitSubjectBody (showMessage below)).2 + ink (showDiff below) = inkOf below := by
  rw [ink_splitSubjectBody, showMessage, inkOf_dedent, ink_showDiff, ← inkOf_append,
    List.takeWhile_append_dropWhile]

theorem isBlank_of_isDiffStart (h : isDiffStart l = true) : isBlank l = false := by
  obtain ⟨d, s, rfl⟩ := List.exists_cons_of_ne_nil (ne_nil_of_isDiffStart h)
  refine isBlank_eq_false List.mem_cons_self ?_
  have hd := isDiffStart_head h
  simp only [List.mem_cons, List.not_mem_nil, or_false] at hd
  rcases hd with rfl | rfl | rfl <;> rfl

theorem isDiffStart_of_isBlank (h : isBlank l = true) : isDiffStart l = false := by
  by_contra hd
  rw [Bool.not_eq_false] at hd
  rw [isBlank_of_isDiffStart hd] at h
  cases h

theorem trim_showDiff (below : List Str) : (trim (showDiff below)).isEmpty = !below.any isDiffStart := by
  have hink : (trim (showDiff below)).isEmpty = true ↔ inkOf (below.dropWhile (!isDiffStart ·)) = 0 := by
    rw [List.isEmpty_iff, ← ink_eq_zero, ink_showDiff]
  have hany : below.any isDiffStart = false ↔ inkOf (below.dropWhile (!isDiffStart ·)) = 0 := by
    rcases hrest : below.dropWhile (!isDiffStart ·) with - | ⟨l, rest⟩
    · refine iff_of_true ?_ rfl
      have hall := List.dropWhile_eq_nil_iff.mp hrest
      simpa using hall
    · have hl : isDiffStart l = true := by
        have := List.head?_dropWhile_not (!isDiffStart ·) below
        rw [hrest] at this
        simpa using this
      have hmem : l ∈ below := (List.dropWhile_suffix _).subset (hrest ▸ List.mem_cons_self)
      have hpos := ink_pos (isBlank_of_isDiffStart hl)
      refine iff_of_false ?_ (by rw [inkOf_cons]; omega)
      rw [Bool.not_eq_false]
      exact List.any_eq_true.mpr ⟨l, hmem, hl⟩
  rw [Bool.eq_iff_iff, hink, ← hany, Bool.not_eq_true']

/-- The subject a `git show` is given, if not that of its metadata. -/
def showSubject (below : List Str) (imp : ImportMeta) : Str :=
  trim (imp.subject.getD (splitSubjectBody (showMessage below)).1)

theorem showOf_noDiff (h : ls.any isDiffStart = false) : showOf sha hdr ls imp = .err .patchNoDiff := by
  rw [showOf]
  dsimp only
  rw [trim_showDiff, h, Bool.not_false, if_pos rfl]

theorem showOf_noSubject (h : ls.any isDiffStart = true) (hs : showSubject ls imp = []) :
    showOf sha hdr ls imp = .err .patchMissingSubject := by
  rw [showOf]
  dsimp only
  rw [trim_showDiff, h, Bool.not_true, if_neg Bool.false_ne_true, ← showSubject, hs]
  rfl

/-- A `git show` normalized. -/
def shown (sha : Str) (hdr below : List Str) (imp : ImportMeta) : Normalized where
  mbox := renderMbox sha (((hdr.foldl headerStep (none, none)).1.or imp.author).getD defaultAuthor)
    (hdr.foldl headerStep (none, none)).2 (showSubject below imp)
    (splitSubjectBody (showMessage below)).2 imp.origin (showDiff below)
  subject := showSubject below imp
  kind := .gitShow

theorem showOf_ok (h : ls.any isDiffStart = true) (hs : showSubject ls imp ≠ []) :
    showOf sha hdr ls imp = .ok (shown sha hdr ls imp) := by
  have hs' : (showSubject ls imp).isEmpty = false := by simpa using hs
  rw [showOf]
  dsimp only
  rw [trim_showDiff, h, Bool.not_true, if_neg Bool.false_ne_true, ← showSubject, hs',
    if_neg Bool.false_ne_true]
  rfl

/-- Blank lines in front of the message are skipped. -/
theorem showOf_blank {b : Str} (hb : isBlank b = true) : showOf sha hdr (b :: ls) imp = showOf sha hdr ls imp := by
  have hstart := isDiffStart_of_isBlank hb
  have hmessage : splitSubjectBody (showMessage (b :: ls)) = splitSubjectBody (showMessage ls) := by
    rw [showMessage, List.takeWhile_cons_of_pos (by simp [hstart]), List.map_cons, ← showMessage,
      splitSubjectBody, List.dropWhile_cons_of_pos (by rwa [isBlank_dedent]), ← splitSubjectBody]
  have hdiff : showDiff (b :: ls) = showDiff ls := by
    rw [showDiff, List.dropWhile_cons_of_pos (by simp [hstart]), ← showDiff]
  rw [showOf, showOf, hmessage, hdiff]

theorem showOf_blanks (h : ∀ b ∈ blanks, isBlank b = true) :
    showOf sha hdr (blanks ++ ls) imp = showOf sha hdr ls imp := by
  induction blanks with
  | nil => rfl
  | cons b blanks ih =>
    obtain ⟨hb, hblanks⟩ := List.forall_mem_cons.mp h
    rw [List.cons_append, showOf_blank hb, ih hblanks]

/-! ### The header block -/

/-- The ink of the author and date read so far. -/
def headerInk (imp : ImportMeta) (acc : Option Str × Option Str) : ℕ :=
  ink ((acc.1.or imp.author).getD defaultAuthor) + ink (acc.2.getD epochDate)

theorem ink_headerValue {name v : Str} (hname : 0 < ink name) (h : headerValue l name = some v) :
    ink v < ink l := by
  obtain ⟨rest, hrest, rfl⟩ := Option.map_eq_some_iff.mp h
  rw [stripPrefix_eq_some.mp hrest, ink_trim, ink_append]
  omega

/-- A header line tells less than it says. -/
theorem headerInk_step (h : isBlank l = false) :
    headerInk imp (headerStep acc l) < headerInk imp acc + ink l := by
  have hpos := ink_pos h
  rw [headerStep]
  rcases hauthor : headerValue l "Author:".toList with - | v
  · rcases hdate : headerValue l "Date:".toList with - | v
    · dsimp only
      omega
    · have hlt := ink_headerValue (by decide) hdate
      simp only [headerInk, Option.getD_some]
      omega
  · have hlt := ink_headerValue (by decide) hauthor
    simp only [headerInk, Option.some_or, Option.getD_some]
    omega

theorem headerInk_foldl (h : ∀ l ∈ ls, isBlank l = false) :
    headerInk imp (ls.foldl headerStep acc) ≤ headerInk imp acc + inkOf ls ∧
      (ls ≠ [] → headerInk imp (ls.foldl headerStep acc) < headerInk imp acc + inkOf ls) := by
  induction ls generalizing acc with
  | nil => exact ⟨by simp, fun h => absurd rfl h⟩
  | cons l ls ih =>
    obtain ⟨hl, hls⟩ := List.forall_mem_cons.mp h
    have hstep := @headerInk_step l imp acc hl
    have hrest := (@ih (headerStep acc l) hls).1
    rw [List.foldl_cons, inkOf_cons]
    exact ⟨by omega, fun _ => by omega⟩

theorem ink_shown : ink (shown sha hdr ls imp).mbox + ink (splitSubjectBody (showMessage ls)).1 =
    frameInk imp.origin + ink sha + headerInk imp (hdr.foldl headerStep (none, none)) +
      ink (showSubject ls imp) + inkOf ls := by
  have hshow := ink_show ls
  rw [shown, ink_renderMbox, headerInk]
  omega

/-- The lines behind the blank line that ends the header block. -/
def below (ls : List Str) : List Str := (ls.dropWhile (!isBlank ·)).tail

theorem block_append_below (ls : List Str) : (∃ b, isBlank b = true ∧ ls = block ls ++ b :: below ls) ∨
    (ls = block ls ∧ below ls = []) := by
  rcases hrest : ls.dropWhile (!isBlank ·) with - | ⟨b, rest⟩
  · refine Or.inr ⟨?_, by rw [below, hrest]; rfl⟩
    conv_lhs => rw [← @List.takeWhile_append_dropWhile _ (!isBlank ·) ls, hrest, List.append_nil]
    rfl
  · have hb : isBlank b = true := by
      have := List.head?_dropWhile_not (!isBlank ·) ls
      rw [hrest] at this
      simpa using this
    refine Or.inl ⟨b, hb, ?_⟩
    conv_lhs => rw [← @List.takeWhile_append_dropWhile _ (!isBlank ·) ls, hrest]
    rw [below, hrest, block]
    rfl

theorem inkOf_block_below (ls : List Str) : inkOf (block ls) + inkOf (below ls) = inkOf ls := by
  rcases block_append_below ls with ⟨b, hb, hls⟩ | ⟨hls, hbelow⟩
  · conv_rhs => rw [hls, inkOf_append, inkOf_cons, isBlank_iff.mp hb, zero_add]
  · rw [hbelow, ← hls, inkOf_nil, add_zero]

theorem any_below (h : ls.any isDiffStart = false) : (below ls).any isDiffStart = false := by
  rw [List.any_eq_false] at h ⊢
  exact fun l hl => h l ((List.dropWhile_suffix _).subset (List.mem_of_mem_tail hl))

/-! ### What a `git show` is read as -/

theorem showMessage_cons (h : isDiffStart l = false) :
    showMessage (l :: ls) = dedent l 4 :: showMessage ls := by
  rw [showMessage, List.takeWhile_cons_of_pos (by simp [h]), List.map_cons, ← showMessage]

theorem showDiff_cons (h : isDiffStart l = false) : showDiff (l :: ls) = showDiff ls := by
  rw [showDiff, List.dropWhile_cons_of_pos (by simp [h]), ← showDiff]

theorem ink_subject_eq_zero : ink (splitSubjectBody ls).1 = 0 ↔ ∀ l ∈ ls, isBlank l = true := by
  rw [splitSubjectBody]
  rcases hrest : ls.dropWhile isBlank with - | ⟨first, rest⟩
  · exact iff_of_true rfl (List.dropWhile_eq_nil_iff.mp hrest)
  · have hfirst : isBlank first = false := by
      have := List.head?_dropWhile_not isBlank ls
      rw [hrest] at this
      simpa using this
    have hpos := ink_pos hfirst
    refine iff_of_false (by rw [ink_trim]; omega) fun hall => ?_
    rw [hall first ((List.dropWhile_suffix _).subset (hrest ▸ List.mem_cons_self))] at hfirst
    cases hfirst

theorem ink_subject_cons (h : isBlank l = false) (hd : isDiffStart l = false) :
    ink (splitSubjectBody (showMessage (l :: ls))).1 = ink l := by
  rw [showMessage_cons hd, splitSubjectBody,
    List.dropWhile_cons_of_neg (by rw [isBlank_dedent, h]; exact Bool.false_ne_true), ink_trim,
    ink_dedent]

/-- No line of the message is more than white space. -/
def Wordless (ls : List Str) : Prop := ∀ l ∈ ls.takeWhile (!isDiffStart ·), isBlank l = true

instance (ls : List Str) : Decidable (Wordless ls) := by
  unfold Wordless
  infer_instance

theorem wordless_iff : Wordless ls ↔ ink (splitSubjectBody (showMessage ls)).1 = 0 := by
  rw [ink_subject_eq_zero, showMessage, List.forall_mem_map]
  simp only [isBlank_dedent, Wordless]

theorem body_of_wordless (h : Wordless ls) : (splitSubjectBody (showMessage ls)).2 = [] := by
  have hall := ink_subject_eq_zero.mp (wordless_iff.mp h)
  rw [splitSubjectBody, List.dropWhile_eq_nil_iff.mpr hall]

/-- The whole message below the first line. -/
theorem body_cons (h : isBlank l = false) (hd : isDiffStart l = false) :
    (splitSubjectBody (showMessage (l :: ls))).2 = trim (join ['\n'] (showMessage ls)) := by
  rw [showMessage_cons hd, splitSubjectBody,
    List.dropWhile_cons_of_neg (by rw [isBlank_dedent, h]; exact Bool.false_ne_true)]

/-- The commit named shows in what is rendered. -/
theorem showOf_sha_iff {sha' : Str} (hsha : ink sha ≠ ink sha') :
    showOf sha hdr ls imp = showOf sha' hdr ls imp ↔
      ls.any isDiffStart = false ∨ showSubject ls imp = [] := by
  by_cases hdiff : ls.any isDiffStart = true
  · by_cases hs : showSubject ls imp = []
    · exact iff_of_true (by rw [showOf_noSubject hdiff hs, showOf_noSubject hdiff hs]) (Or.inr hs)
    · refine iff_of_false (fun h => ?_) (by simp [hdiff, hs])
      rw [showOf_ok hdiff hs, showOf_ok hdiff hs] at h
      have hmbox := congrArg ink (congrArg Normalized.mbox (Outcome.ok.inj h))
      have hink := @ink_shown sha imp hdr ls
      have hink' := @ink_shown sha' imp hdr ls
      omega
  · rw [Bool.not_eq_true] at hdiff
    exact iff_of_true (by rw [showOf_noDiff hdiff, showOf_noDiff hdiff]) (Or.inl hdiff)

/-- What the two readings of a header block would have to agree in. -/
theorem ink_absorbed (hc : isBlank c = false) (hd : isDiffStart c = false)
    (h : (shown sha (block tail) (below tail) imp).mbox = (shown sha [] (c :: tail) imp).mbox) :
    headerInk imp ((block tail).foldl headerStep (none, none)) + ink (showSubject (below tail) imp) =
      headerInk imp (none, none) + inkOf (block tail) +
        (ink (splitSubjectBody (showMessage (below tail))).1 + ink (showSubject (c :: tail) imp)) := by
  have hink := @ink_shown sha imp (block tail) (below tail)
  have hink' := @ink_shown sha imp [] (c :: tail)
  rw [ink_subject_cons hc hd, List.foldl_nil, inkOf_cons, ← inkOf_block_below tail, ← h] at hink'
  omega

theorem shown_absorbed (hc : isBlank c = false) (hd : isDiffStart c = false)
    (htail : tail.any isDiffStart = true) (hblock : block tail = []) (hwords : Wordless (below tail))
    {s : Str} (hs : imp.subject = some s) :
    shown sha (block tail) (below tail) imp = shown sha [] (c :: tail) imp := by
  obtain ⟨b, hb, htail'⟩ : ∃ b, isBlank b = true ∧ tail = b :: below tail := by
    rcases block_append_below tail with ⟨b, hb, h⟩ | ⟨h, -⟩
    · exact ⟨b, hb, by rwa [hblock] at h⟩
    · rw [h, hblock] at htail
      cases htail
  have hbd := isDiffStart_of_isBlank hb
  have hsubject : showSubject (below tail) imp = showSubject (c :: tail) imp := by
    rw [showSubject, showSubject, hs, Option.getD_some, Option.getD_some]
  have hbody : (splitSubjectBody (showMessage (c :: tail))).2 = [] := by
    rw [body_cons hc hd, ← ink_eq_zero, ink_join, htail', showMessage_cons hbd, inkOf_cons, ink_dedent,
      isBlank_iff.mp hb, zero_add, inkOf_eq_zero]
    exact ink_subject_eq_zero.mp (wordless_iff.mp hwords)
  have hdiff : showDiff (c :: tail) = showDiff (below tail) := by
    rw [showDiff_cons hd, htail', showDiff_cons hbd, ← htail']
  rw [shown, shown, hblock, hsubject, body_of_wordless hwords, hbody, hdiff]

/-- The header block can be read as part of the message exactly if nothing of either is rendered. -/
theorem showOf_absorbed_iff (hc : isBlank c = false) (hd : isDiffStart c = false) :
    showOf sha (block tail) (below tail) imp = showOf sha [] (c :: tail) imp ↔
      tail.any isDiffStart = false ∨ ((below tail).any isDiffStart = true ∧
        ∃ s ∈ imp.subject, trim s = [] ∨ (block tail = [] ∧ Wordless (below tail))) := by
  have hcons : (c :: tail).any isDiffStart = tail.any isDiffStart := by simp [hd]
  by_cases htail : tail.any isDiffStart = true
  swap
  · rw [Bool.not_eq_true] at htail
    refine iff_of_true ?_ (Or.inl htail)
    rw [showOf_noDiff (any_below htail), showOf_noDiff (hcons.trans htail)]
  rw [or_iff_right (by simp [htail])]
  rw [htail] at hcons
  by_cases hbelow : (below tail).any isDiffStart = true
  swap
  · refine iff_of_false ?_ (fun h => hbelow h.1)
    rw [Bool.not_eq_true] at hbelow
    rw [showOf_noDiff hbelow]
    by_cases hs : showSubject (c :: tail) imp = []
    · rw [showOf_noSubject hcons hs]
      simp
    · rw [showOf_ok hcons hs]
      simp
  rw [and_iff_right hbelow]
  have hblock : ∀ l ∈ block tail, isBlank l = false := fun l hl => by
    simpa using List.mem_takeWhile_imp hl
  obtain ⟨hle, hlt⟩ := @headerInk_foldl imp (block tail) (none, none) hblock
  rcases hsubject : imp.subject with - | s
  · -- the two subjects are of different lines
    have hfirst : ink (showSubject (c :: tail) imp) = ink c := by
      rw [showSubject, hsubject, Option.getD_none, ink_trim, ink_subject_cons hc hd]
    have hline : ink (showSubject (below tail) imp) =
        ink (splitSubjectBody (showMessage (below tail))).1 := by
      rw [showSubject, hsubject, Option.getD_none, ink_trim]
    have hpos := ink_pos hc
    have hs : showSubject (c :: tail) imp ≠ [] := by
      intro h
      rw [h, ink_nil] at hfirst
      omega
    refine iff_of_false (fun h => ?_) (by simp)
    by_cases hs' : showSubject (below tail) imp = []
    · rw [showOf_noSubject hbelow hs', showOf_ok hcons hs] at h
      cases h
    · rw [showOf_ok hbelow hs', showOf_ok hcons hs] at h
      have hink := ink_absorbed hc hd (congrArg Normalized.mbox (Outcome.ok.inj h))
      omega
  · have hgiven (ls : List Str) : showSubject ls imp = trim s := by
      rw [showSubject, hsubject, Option.getD_some]
    simp only [Option.mem_some_iff, exists_eq_left']
    by_cases hs : trim s = []
    · refine iff_of_true ?_ (Or.inl hs)
      rw [showOf_noSubject hbelow ((hgiven _).trans hs), showOf_noSubject hcons ((hgiven _).trans hs)]
    · rw [or_iff_right hs, showOf_ok hbelow (by rwa [hgiven]), showOf_ok hcons (by rwa [hgiven])]
      constructor
      · intro h
        have hink := ink_absorbed hc hd (congrArg Normalized.mbox (Outcome.ok.inj h))
        rw [hgiven, hgiven] at hink
        refine ⟨?_, wordless_iff.mpr (by omega)⟩
        by_contra hne
        have := hlt hne
        omega
      · rintro ⟨hblock, hwords⟩
        rw [shown_absorbed hc hd htail hblock hwords hsubject]

/-! ### The first line that is not blank -/

/-- The text's blank lines in front, its first line that is not blank, and what follows. -/
structure Starts (t : Str) (blanks : List Str) (c : Str) (tail : List Str) : Prop where
  lines_eq : lines t = blanks ++ c :: tail
  blank : ∀ b ∈ blanks, isBlank b = true
  nonblank : isBlank c = false

/-- How many blank lines a text has in front. -/
def leading (t : Str) : ℕ := ((lines t).takeWhile isBlank).length

/-- The lines behind the first line that is not blank. -/
def behind (t : Str) : List Str := ((lines t).dropWhile isBlank).tail

theorem exists_starts (h : trim t ≠ []) : ∃ blanks c tail, Starts t blanks c tail := by
  rcases hrest : (lines t).dropWhile isBlank with - | ⟨c, tail⟩
  · exfalso
    apply h
    rw [← ink_eq_zero, ← inkOf_lines, inkOf_eq_zero]
    exact List.dropWhile_eq_nil_iff.mp hrest
  · refine ⟨(lines t).takeWhile isBlank, c, tail, ?_, fun b hb => List.mem_takeWhile_imp hb, ?_⟩
    · rw [← hrest, List.takeWhile_append_dropWhile]
    · have := List.head?_dropWhile_not isBlank (lines t)
      rw [hrest] at this
      simpa using this

namespace Starts

theorem trim_ne_nil (h : Starts t blanks c tail) : trim t ≠ [] := by
  have hpos := ink_pos h.nonblank
  rw [Ne, ← ink_eq_zero, ← inkOf_lines, h.lines_eq, inkOf_append, inkOf_cons]
  omega

theorem takeWhile_eq (h : Starts t blanks c tail) : (lines t).takeWhile isBlank = blanks := by
  rw [h.lines_eq, List.takeWhile_append_of_pos h.blank,
    List.takeWhile_cons_of_neg (by simp [h.nonblank]), List.append_nil]

theorem dropWhile_eq (h : Starts t blanks c tail) : (lines t).dropWhile isBlank = c :: tail := by
  rw [h.lines_eq, List.dropWhile_append_of_pos h.blank,
    List.dropWhile_cons_of_neg (by simp [h.nonblank])]

theorem leading_eq (h : Starts t blanks c tail) : leading t = blanks.length := by
  rw [leading, h.takeWhile_eq]

theorem behind_eq (h : Starts t blanks c tail) : behind t = tail := by
  rw [behind, h.dropWhile_eq, List.tail_cons]

theorem firstLine_eq (h : Starts t blanks c tail) : firstLine t = c := by
  have hnone : blanks.find? (!isBlank ·) = none := by
    rw [List.find?_eq_none]
    intro b hb
    simp [h.blank b hb]
  rw [firstLine, h.lines_eq, List.find?_append, hnone, Option.none_or,
    List.find?_cons_of_pos (by simp [h.nonblank]), Option.getD_some]

end Starts

theorem lines_newlines (k : ℕ) (t : Str) :
    lines (List.replicate k '\n' ++ t) = List.replicate k [] ++ lines t := by
  induction k with
  | zero => rfl
  | succ k ih =>
    have hline : lines ('\n' :: (List.replicate k '\n' ++ t)) =
        stripEnding ['\n'] :: lines (List.replicate k '\n' ++ t) := @lines_ended [] (by simp) _
    have hempty : stripEnding ['\n'] = [] := by decide
    rw [List.replicate_succ, List.cons_append, hline, ih, hempty, List.replicate_succ,
      List.cons_append]

theorem Starts.newlines (h : Starts t blanks c tail) (k : ℕ) :
    Starts (List.replicate k '\n' ++ t) (List.replicate k [] ++ blanks) c tail := by
  refine ⟨by rw [lines_newlines, h.lines_eq, List.append_assoc], ?_, h.nonblank⟩
  intro b hb
  rcases List.mem_append.mp hb with hb | hb
  · rw [List.eq_of_mem_replicate hb]
    rfl
  · exact h.blank b hb

/-! ### A `git show` behind blank lines -/

/-- The commit a line names. -/
def commitOf (l : Str) : Str := ((stripPrefix l "commit ".toList).bind firstWord).getD ['0']

theorem gitShowSha_eq (h : lines t = l :: ls) : gitShowSha t = commitOf l := by
  rw [gitShowSha, h]
  rfl

theorem commitOf_blank (h : isBlank l = true) : commitOf l = ['0'] := by
  have hnone : stripPrefix l "commit ".toList = none := by
    refine if_neg ?_
    rintro ⟨rest, rfl⟩
    rw [isBlank_iff, ink_append] at h
    have hpos : 0 < ink "commit ".toList := by decide
    omega
  rw [commitOf, hnone]
  rfl

/-- What a commit line is. -/
theorem exists_commit (h : isGitShowHeader c = true) :
    ∃ rest, c = "commit ".toList ++ rest ∧ 7 ≤ ink (commitOf c) := by
  rw [isGitShowHeader] at h
  rcases hstrip : stripPrefix c "commit ".toList with - | rest
  · rw [hstrip] at h
    cases h
  · rw [hstrip] at h
    obtain ⟨hlen, -⟩ := Bool.and_eq_true_iff.mp h
    refine ⟨rest, stripPrefix_eq_some.mp hstrip, ?_⟩
    rcases hword : firstWord rest with - | w
    · rw [hword] at hlen
      simp at hlen
    · have hink : ink w = w.length := by
        rw [ink, List.countP_eq_length]
        intro d hd
        simp [isWhitespace_of_mem_firstWord hword hd]
      have hcommit : commitOf c = w := by
        rw [commitOf, hstrip, Option.bind_some, hword, Option.getD_some]
      rw [hword, Option.getD_some, decide_eq_true_eq] at hlen
      rw [hcommit, hink]
      exact hlen

theorem isDiffStart_commit (h : isGitShowHeader c = true) : isDiffStart c = false := by
  obtain ⟨rest, rfl, -⟩ := exists_commit h
  exact Bool.eq_false_iff.mpr fun hd => absurd (isDiffStart_head hd) (by decide)

theorem headerStep_commit (h : isGitShowHeader c = true) : headerStep acc c = acc := by
  obtain ⟨rest, rfl, -⟩ := exists_commit h
  have hnone {name : Str} (hname : name.head? = some 'A' ∨ name.head? = some 'D') :
      headerValue ("commit ".toList ++ rest) name = none := by
    rw [headerValue, stripPrefix, if_neg, Option.map_none]
    intro hpre
    rcases name with - | ⟨d, name⟩
    · simp at hname
    · obtain ⟨rfl, -⟩ := List.cons_prefix_cons.mp hpre
      rw [List.head?_cons] at hname
      revert hname
      decide
  rw [headerStep, hnone (Or.inl rfl), hnone (Or.inr rfl)]

/-- What a `git show` is read as behind so many blank lines. -/
def reading (c : Str) (tail : List Str) (imp : ImportMeta) : ℕ → Outcome ConfigError Normalized
  | 0 => showOf (commitOf c) (block tail) (below tail) imp
  | 1 => showOf ['0'] (block tail) (below tail) imp
  | _ + 2 => showOf ['0'] [] (c :: tail) imp

theorem classify_show (h : Starts t blanks c tail) (hgit : isGitShowHeader c = true) :
    classify t = .ok .gitShow := by
  rw [classify_eq, h.firstLine_eq, if_pos hgit]

theorem normalize_show (h : Starts t blanks c tail) (hgit : isGitShowHeader c = true) :
    normalize t imp = reading c tail imp blanks.length := by
  have hblank : ¬(trim t).isEmpty = true := by simpa using h.trim_ne_nil
  rw [normalize, if_neg hblank, classify_show h hgit, Outcome.ok_bind]
  dsimp only
  rw [normalizeGitShow_eq]
  have hlines := h.lines_eq
  rcases blanks with - | ⟨b, - | ⟨b', more⟩⟩
  · rw [gitShowSha_eq hlines, gitShowBody, hlines]
    rfl
  · obtain ⟨hb, -⟩ := List.forall_mem_cons.mp h.blank
    rw [gitShowSha_eq hlines, gitShowBody, hlines, commitOf_blank hb]
    have hbelow : (([b] ++ c :: tail).tail.dropWhile (!isBlank ·)).tail = below tail := by
      rw [List.singleton_append, List.tail_cons, List.dropWhile_cons_of_pos (by simp [h.nonblank]),
        below]
    have hblock : block ([b] ++ c :: tail).tail = c :: block tail := block_cons h.nonblank
    rw [hbelow, hblock, showOf, List.foldl_cons, headerStep_commit hgit, ← showOf]
    rfl
  · obtain ⟨hb, hmore⟩ := List.forall_mem_cons.mp h.blank
    obtain ⟨hb', hmore⟩ := List.forall_mem_cons.mp hmore
    rw [gitShowSha_eq hlines, gitShowBody, hlines, commitOf_blank hb]
    have hbelow : ((b :: b' :: more ++ c :: tail).tail.dropWhile (!isBlank ·)).tail =
        more ++ c :: tail := by
      rw [List.cons_append, List.tail_cons, List.cons_append,
        List.dropWhile_cons_of_neg (by simp [hb']), List.tail_cons]
    have hblock : block (b :: b' :: more ++ c :: tail).tail = [] :=
      List.takeWhile_cons_of_neg (by simp [hb'])
    rw [hbelow, hblock, showOf_blanks hmore]
    rfl

/-- A `git show` that newlines in front leave as it is. -/
def ShowUnmoved (t : Str) (imp : ImportMeta) : Prop :=
  2 ≤ leading t ∨ (behind t).any isDiffStart = false ∨ ((below (behind t)).any isDiffStart = true ∧
    ∃ s ∈ imp.subject, trim s = [] ∨
      (leading t = 1 ∧ block (behind t) = [] ∧ Wordless (below (behind t))))

theorem unmoved_show_iff (h : Starts t blanks c tail) (hgit : isGitShowHeader c = true) :
    (∀ k, normalize (List.replicate k '\n' ++ t) imp = normalize t imp) ↔ ShowUnmoved t imp := by
  have hread (k : ℕ) : normalize (List.replicate k '\n' ++ t) imp =
      reading c tail imp (k + blanks.length) := by
    rw [normalize_show (h.newlines k) hgit, List.length_append, List.length_replicate]
  have habsorbed := @showOf_absorbed_iff c ['0'] imp tail h.nonblank (isDiffStart_commit hgit)
  have hnamed : showOf ['0'] (block tail) (below tail) imp =
      showOf (commitOf c) (block tail) (below tail) imp ↔
        (below tail).any isDiffStart = false ∨ showSubject (below tail) imp = [] := by
    obtain ⟨-, -, hlong⟩ := exists_commit hgit
    have hzero : ink ['0'] = 1 := by decide
    exact showOf_sha_iff (by omega)
  simp only [hread, normalize_show h hgit]
  rw [ShowUnmoved, h.leading_eq, h.behind_eq]
  rcases blanks.length with - | - | m
  · constructor
    · intro h
      rcases habsorbed.mp ((h 1).trans (h 2).symm) with hno | ⟨hbelow, s, hs, -⟩
      · exact Or.inr (Or.inl hno)
      · have hsubject := (hnamed.mp (h 1)).resolve_left (by simp [hbelow])
        rw [showSubject, Option.mem_def.mp hs, Option.getD_some] at hsubject
        exact Or.inr (Or.inr ⟨hbelow, s, hs, Or.inl hsubject⟩)
    · intro h
      obtain ⟨hone, htwo⟩ : showOf ['0'] (block tail) (below tail) imp =
          showOf (commitOf c) (block tail) (below tail) imp ∧ showOf ['0'] (block tail) (below tail) imp =
            showOf ['0'] [] (c :: tail) imp := by
        rcases h with h | hno | ⟨hbelow, s, hs, hempty | ⟨h, -⟩⟩
        · omega
        · exact ⟨hnamed.mpr (Or.inl (any_below hno)), habsorbed.mpr (Or.inl hno)⟩
        · have hsubject : showSubject (below tail) imp = [] := by
            rw [showSubject, Option.mem_def.mp hs, Option.getD_some, hempty]
          exact ⟨hnamed.mpr (Or.inr hsubject), habsorbed.mpr (Or.inr ⟨hbelow, s, hs, Or.inl hempty⟩)⟩
        · omega
      intro k
      rcases k with - | - | k
      · rfl
      · exact hone
      · exact htwo.symm.trans hone
  · have hone : (∀ k, reading c tail imp (k + 1) = reading c tail imp 1) ↔
        showOf ['0'] (block tail) (below tail) imp = showOf ['0'] [] (c :: tail) imp := by
      refine ⟨fun h => (h 1).symm, fun h k => ?_⟩
      rcases k with - | k
      · rfl
      · exact h.symm
    rw [zero_add, hone, habsorbed]
    simp
  · refine iff_of_true (fun k => ?_) (Or.inl (by omega))
    rfl

/-! ### Other texts behind blank lines -/

theorem hasSubjectHeaderIn_ne_err (ls : List Str) (e : ConfigError) :
    hasSubjectHeaderIn ls ≠ .err e := by
  induction ls with
  | nil => simp [hasSubjectHeaderIn]
  | cons l ls ih =>
    rw [hasSubjectHeaderIn]
    split_ifs
    · simp
    · exact ih
    · split
      · simp
      · split_ifs
        · simp
        · exact ih

/-- The line found is one of the header block. -/
theorem any_of_hasSubjectHeaderIn (h : hasSubjectHeaderIn ls = .ok true) :
    (block ls).any isSubjectLine = true := by
  induction ls with
  | nil => cases h
  | cons l ls ih =>
    rw [hasSubjectHeaderIn] at h
    split_ifs at h with hblank hshort
    · cases h
    · rw [block_cons (by simpa using hblank), List.any_cons, ih h, Bool.or_true]
    · rw [block_cons (by simpa using hblank), List.any_cons]
      rcases hslice : sliceTo l 8 with - | name
      · rw [hslice] at h
        cases h
      · rw [hslice] at h
        dsimp only at h
        split_ifs at h with hname
        · rw [isSubjectLine, hslice, Option.any_some, decide_eq_true hname, Bool.true_or]
        · rw [ih h, Bool.or_true]

/-- Lowercasing changes no character but a letter. -/
theorem toLower_cases (d : Char) : d.toLower = d ∨
    (65 ≤ d.toNat ∧ d.toNat ≤ 90 ∧ d.toLower.toNat = d.toNat + 32) := by
  by_cases h : d.val ≥ 'A'.val ∧ d.val ≤ 'Z'.val
  · have hA : 65 ≤ d.toNat := UInt32.le_iff_toNat_le.mp h.1
    have hZ : d.toNat ≤ 90 := UInt32.le_iff_toNat_le.mp h.2
    refine Or.inr ⟨hA, hZ, ?_⟩
    rw [Char.toLower, dif_pos h]
    have hadd : (d.val + ('a'.val - 'A'.val)).toNat = (d.val.toNat + 32) % 2 ^ 32 := UInt32.toNat_add _ _
    have hval : d.val.toNat = d.toNat := rfl
    rw [Char.toNat, hadd, hval]
    omega
  · exact Or.inl (by rw [Char.toLower, dif_neg h])

theorem toLower_of_white {d : Char} (h : isWhitespace d = true) : d.toLower = d := by
  refine (toLower_cases d).resolve_right ?_
  rintro ⟨hA, hZ, -⟩
  simp only [isWhitespace, Bool.or_eq_true, Bool.and_eq_true, decide_eq_true_eq, beq_iff_eq] at h
  omega

theorem toLower_colon {d : Char} (h : d.toLower = ':') : d = ':' := by
  rcases toLower_cases d with hd | ⟨hA, -, hd⟩
  · rw [← hd, h]
  · rw [h] at hd
    have hcolon : ':'.toNat = 58 := rfl
    omega

/-- A line that begins with the name of a header in any case and a colon is that header. -/
theorem isHeader_of_lower {key name : Str} (hcolon : ':' ∉ key) (hne : key ≠ [])
    (hink : key.all (!isWhitespace ·) = true) (h : toAsciiLowercase name = key ++ [':'])
    (post : Str) : isHeader key (name ++ post) = true := by
  obtain ⟨word, last, rfl, hword, hlast⟩ := List.map_eq_append_iff.mp h
  obtain ⟨d, rfl, hd⟩ := List.map_eq_singleton_iff.mp hlast
  obtain rfl := toLower_colon hd
  have hnot : ':' ∉ word := by
    intro hmem
    exact hcolon (hword ▸ List.mem_map_of_mem hmem)
  have hwhite : ∀ d ∈ word, isWhitespace d = false := by
    intro d hd
    by_contra hspace
    rw [Bool.not_eq_false] at hspace
    have hmem : d.toLower ∈ key := hword ▸ List.mem_map_of_mem hd
    rw [toLower_of_white hspace] at hmem
    have hd := List.all_eq_true.mp hink d hmem
    rw [hspace] at hd
    cases hd
  have hcont : isContinuation (word ++ [':'] ++ post) = false := by
    rcases word with - | ⟨d, word⟩
    · exact absurd hword.symm hne
    · have hd := hwhite d List.mem_cons_self
      rw [isContinuation, Bool.or_eq_false_iff]
      constructor
      all_goals
        rw [decide_eq_false_iff_not]
        rintro hhead
        obtain rfl := Option.some.inj hhead
        exact absurd hd (by decide)
  rw [isHeader, hcont, List.append_assoc, List.singleton_append, splitOnce_append_cons hnot,
    Option.map_some]
  dsimp only
  rw [trim_of_inked hwhite, toAsciiLowercase, hword]
  simp

theorem sliceTo_prefix {k : ℕ} {pre : Str} (h : sliceTo s k = some pre) : pre <+: s := by
  induction s generalizing k pre with
  | nil =>
    cases k with
    | zero =>
      cases h
      exact List.nil_prefix
    | succ k => cases h
  | cons d s ih =>
    cases k with
    | zero =>
      cases h
      exact List.nil_prefix
    | succ k =>
      rw [sliceTo] at h
      split_ifs at h
      obtain ⟨pre', hpre, rfl⟩ := Option.map_eq_some_iff.mp h
      exact (List.prefix_cons_inj d).mpr (ih hpre)

/-- A line the search finds is a subject to the reader of the header block. -/
theorem isHeader_of_isSubjectLine (h : isSubjectLine l = true) :
    isHeader "subject".toList l = true := by
  rw [isSubjectLine] at h
  rcases hslice : sliceTo l 8 with - | name
  · rw [hslice] at h
    cases h
  · rw [hslice, Option.any_some, decide_eq_true_eq] at h
    obtain ⟨post, rfl⟩ := sliceTo_prefix hslice
    have hlower : toAsciiLowercase "Subject:".toList = "subject".toList ++ [':'] := by decide
    exact isHeader_of_lower (by decide) (by decide) (by decide) (h.trans hlower) post

theorem readStep_isSome {key : Str} {r : Reading} (h : r.1.isSome = true) :
    (readStep key r l).1.isSome = true := by
  rw [readStep]
  split_ifs
  · simpa using h
  · exact h
  · split
    · exact h
    · split_ifs
      · rfl
      · exact h

theorem readLines_isSome {key : Str} {r : Reading} (h : r.1.isSome = true ∨ ls.any (isHeader key) = true) :
    (readLines key r ls).1.isSome = true := by
  induction ls generalizing r with
  | nil => exact h.resolve_right (by simp)
  | cons l ls ih =>
    rw [readLines, List.foldl_cons]
    refine ih ?_
    rcases h with h | h
    · exact Or.inl (readStep_isSome h)
    · rw [List.any_cons, Bool.or_eq_true] at h
      refine h.imp_left fun hl => ?_
      rw [@readStep_isHeader key l r (some [], true) hl]
      exact readStep_isSome rfl

theorem subject_found (h : hasSubjectHeader t = .ok true) : ∃ s, subjectOf (lines t) = some s := by
  have hany : (block (lines t)).any (isHeader "subject".toList) = true := by
    obtain ⟨l, hl, hsubject⟩ := List.any_eq_true.mp (any_of_hasSubjectHeaderIn h)
    exact List.any_eq_true.mpr ⟨l, hl, isHeader_of_isSubjectLine hsubject⟩
  obtain ⟨s, hs⟩ := Option.isSome_iff_exists.mp
    (@readLines_isSome (block (lines t)) "subject".toList (none, false) (Or.inr hany))
  exact ⟨cleanSubject s, by rw [subjectOf, hs, Option.map_some]⟩

theorem normalizeBareDiff_congr {t' : Str} (hany : (lines t).any isDiffStart = (lines t').any isDiffStart)
    (hdrop : (lines t).dropWhile (!isDiffStart ·) = (lines t').dropWhile (!isDiffStart ·)) :
    normalizeBareDiff t imp = normalizeBareDiff t' imp := by
  rw [normalizeBareDiff, normalizeBareDiff, bareDiff, bareDiff, hany, hdrop]

theorem normalizeBareDiff_newlines (k : ℕ) :
    normalizeBareDiff (List.replicate k '\n' ++ t) imp = normalizeBareDiff t imp := by
  have hblank : ∀ b ∈ List.replicate k ([] : Str), isDiffStart b = false := fun b hb => by
    rw [List.eq_of_mem_replicate hb]
    exact isDiffStart_nil
  refine normalizeBareDiff_congr ?_ ?_
  · rw [lines_newlines, List.any_append, List.any_eq_false.mpr (by simpa using hblank), Bool.false_or]
  · rw [lines_newlines, List.dropWhile_append_of_pos (by simpa using hblank)]

theorem bareDiff_kind (h : normalizeBareDiff t imp = .ok n) : n.kind = .bareDiff := by
  rw [normalizeBareDiff] at h
  split_ifs at h
  obtain ⟨subject, -, h⟩ := Outcome.bind_eq_ok.mp h
  exact (congrArg Normalized.kind (Outcome.ok.inj h)).symm

theorem normalizeMbox_newlines (k : ℕ) :
    normalizeMbox (List.replicate k '\n' ++ t) imp = normalizeMbox t imp := by
  have hdrop : (List.replicate k '\n' ++ t).dropWhile (· = '\n') = t.dropWhile (· = '\n') := by
    refine List.dropWhile_append_of_pos fun c hc => ?_
    rw [List.eq_of_mem_replicate hc]
    rfl
  rw [normalizeMbox, hdrop, ← normalizeMbox]

theorem hasSubjectHeader_blank (h : Starts t (l :: blanks) c tail) : hasSubjectHeader t = .ok false := by
  rw [hasSubjectHeader, h.lines_eq, List.cons_append, hasSubjectHeaderIn,
    if_pos (h.blank l List.mem_cons_self)]

/-- A text with a header block and without a separator line is a mailbox as a whole. -/
theorem normalizeMbox_headers (h : Starts t [] c tail) (hfrom : ¬"From ".toList <+: c)
    (hsubject : hasSubjectHeader t = .ok true) : ∃ s, normalizeMbox t imp =
      (ensureHasDiff t >>= fun _ => .ok ⟨ensureTrailingNewline (match imp.origin with
        | some origin => spliceOriginTrailer (synthSeparator zeroSha ++ ['\n'] ++ t) origin
        | none => synthSeparator zeroSha ++ ['\n'] ++ t), s, .mbox⟩) := by
  have hdrop : t.dropWhile (· = '\n') = t := by
    rcases t with - | ⟨d, t⟩
    · rfl
    · refine List.dropWhile_cons_of_neg ?_
      rw [decide_eq_true_eq]
      rintro rfl
      have hlines := h.lines_eq
      rw [show '\n' :: t = List.replicate 1 '\n' ++ t from rfl, lines_newlines] at hlines
      obtain ⟨rfl, -⟩ := List.cons.inj hlines
      exact absurd h.nonblank (by decide)
  have hsplit : splitSeparator t = (synthSeparator zeroSha, t) := by
    rw [splitSeparator]
    split
    · rename_i first rest heq
      obtain ⟨rfl, hnot⟩ := eq_of_splitOnce heq
      refine if_neg fun hp => hfrom ?_
      have hlines := h.lines_eq
      rw [lines_ended hnot] at hlines
      obtain ⟨rfl, -⟩ := List.cons.inj hlines
      exact from_stripEnding hnot hp
    · rfl
  obtain ⟨s, hs⟩ := subject_found hsubject
  refine ⟨s, ?_⟩
  rw [normalizeMbox, hdrop, hsplit]
  dsimp only
  rw [subjectOf_lines, hs]
  rfl

/-- A text that is no `git show` and that newlines in front leave as it is. -/
def OtherUnmoved (t : Str) : Prop :=
  "From ".toList <+: firstLine t ∨ 1 ≤ leading t ∨ hasSubjectHeader t = .ok false ∨
    (hasSubjectHeader t = .ok true ∧ NoDiff t)

theorem normalize_bare (h : Starts t blanks c tail) (hgit : isGitShowHeader c = false)
    (hfrom : ¬"From ".toList <+: c) (hsubject : hasSubjectHeader t = .ok false) :
    normalize t imp = normalizeBareDiff t imp := by
  have hclassify : classify t = .ok .bareDiff := by
    rw [classify_eq, h.firstLine_eq, hgit, if_neg Bool.false_ne_true, if_neg hfrom, hsubject]
    rfl
  rw [normalize, if_neg (by simpa using h.trim_ne_nil), hclassify, Outcome.ok_bind]

theorem unmoved_other_iff (h : Starts t blanks c tail) (hgit : isGitShowHeader c = false) :
    (∀ k, normalize (List.replicate k '\n' ++ t) imp = normalize t imp) ↔ OtherUnmoved t := by
  rw [OtherUnmoved, h.firstLine_eq, h.leading_eq]
  by_cases hfrom : "From ".toList <+: c
  · refine iff_of_true (fun k => ?_) (Or.inl hfrom)
    have hmbox {blanks : List Str} {t : Str} (h : Starts t blanks c tail) :
        normalize t imp = normalizeMbox t imp := by
      have hclassify : classify t = .ok .mbox := by
        rw [classify_eq, h.firstLine_eq, hgit, if_neg Bool.false_ne_true, if_pos hfrom]
      rw [normalize, if_neg (by simpa using h.trim_ne_nil), hclassify, Outcome.ok_bind]
    rw [hmbox (h.newlines k), hmbox h, normalizeMbox_newlines]
  rw [or_iff_right hfrom]
  have hmoved (k : ℕ) : normalize (List.replicate (k + 1) '\n' ++ t) imp = normalizeBareDiff t imp := by
    rw [normalize_bare (h.newlines (k + 1)) hgit hfrom (hasSubjectHeader_blank (h.newlines (k + 1))),
      normalizeBareDiff_newlines]
  have hone : (∀ k, normalize (List.replicate k '\n' ++ t) imp = normalize t imp) ↔
      normalizeBareDiff t imp = normalize t imp := by
    constructor
    · intro hall
      rw [← hmoved 0, hall 1]
    · intro hbare k
      rcases k with - | k
      · rfl
      · rw [hmoved, hbare]
  rw [hone]
  rcases blanks with - | ⟨b, blanks⟩
  swap
  · refine iff_of_true ?_ (Or.inl (by simp))
    rw [normalize_bare h hgit hfrom (hasSubjectHeader_blank h)]
  rw [or_iff_right (by simp)]
  have hnormalize : normalize t imp = (hasSubjectHeader t >>= fun subject =>
      if subject then normalizeMbox t imp else normalizeBareDiff t imp) := by
    rw [normalize, if_neg (by simpa using h.trim_ne_nil), classify_eq, h.firstLine_eq, hgit,
      if_neg Bool.false_ne_true, if_neg hfrom]
    cases hasSubjectHeader t with
    | ok subject => cases subject <;> rfl
    | err e => rfl
    | panic => rfl
  rw [hnormalize]
  rcases hsubject : hasSubjectHeader t with (subject | e | -)
  · cases subject with
    | false => exact iff_of_true rfl (Or.inl rfl)
    | true =>
      obtain ⟨s, hs⟩ := @normalizeMbox_headers t c imp tail h hfrom hsubject
      rw [Outcome.ok_bind, if_pos rfl, hs, noDiff_iff_any, ensureHasDiff]
      cases hany : (lines t).any isDiffStart with
      | false =>
        rw [normalizeBareDiff, hany]
        simp
      | true =>
        refine iff_of_false ?_ (by simp)
        rw [if_pos rfl, Outcome.ok_bind]
        intro heq
        cases bareDiff_kind heq
  · exact absurd hsubject (hasSubjectHeaderIn_ne_err _ _)
  · exact iff_of_false normalizeBareDiff_ne_panic (by simp)

/-- Newlines in front of the text change nothing. -/
def Unmoved (t : Str) (imp : ImportMeta) : Prop :=
  trim t = [] ∨ if isGitShowHeader (firstLine t) then ShowUnmoved t imp else OtherUnmoved t

/-- Newlines in front of a text leave what it is normalized to exactly in these cases. -/
theorem newlines_iff (t : Str) (imp : ImportMeta) :
    (∀ k, normalize (List.replicate k '\n' ++ t) imp = normalize t imp) ↔ Unmoved t imp := by
  rw [Unmoved]
  by_cases hempty : trim t = []
  · refine iff_of_true (fun k => ?_) (Or.inl hempty)
    have hmore : trim (List.replicate k '\n' ++ t) = [] := by
      rw [trim_append_left, hempty]
      intro d hd
      rw [List.eq_of_mem_replicate hd]
      rfl
    rw [normalize, normalize, hmore, hempty]
    rfl
  rw [or_iff_right hempty]
  obtain ⟨blanks, c, tail, h⟩ := exists_starts hempty
  rw [h.firstLine_eq]
  split_ifs with hgit
  · exact unmoved_show_iff h hgit
  · exact unmoved_other_iff h (by simpa using hgit)

end

/-- Behind two newlines the commit line of a `git show` is its subject. -/
theorem commit_line_as_subject : ∃ n ∈ (normalize demoShow {}).toOption,
    ∃ n' ∈ (normalize (List.replicate 2 '\n' ++ demoShow) {}).toOption, n.subject ≠ n'.subject := by
  decide +kernel

end Boot2Deb.Mbox
