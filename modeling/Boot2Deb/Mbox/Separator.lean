import Boot2Deb.Rust.Pattern
import Boot2Deb.Mbox.Preservation

/-!
# What an applied patch keeps of its message

The message of a patch ends at its first line `---`. A normalized patch has its message and trailer
before that line unless one of them has such a line itself, or the trailer is put into a mailbox whose
own cut ends in a carriage return.
-/

namespace Boot2Deb.Mbox
open Rust

section
variable {a b l name sha author date subject body diff t : Str} {origin : Option Str}
  {imp : ImportMeta} {n : Normalized}

/-! ### Lines that end a message -/

/-- The line that ends a message. -/
def separator : Str := ['-', '-', '-']

/-- A line of the text is exactly `---`. -/
def Separated (s : Str) : Prop := separator ∈ s.splitOn '\n'

instance : DecidablePred Separated := fun s => by
  unfold Separated
  infer_instance

/-- A line behind the first is. -/
def SeparatedBelow (s : Str) : Prop := separator ∈ (s.splitOn '\n').tail

instance : DecidablePred SeparatedBelow := fun s => by
  unfold SeparatedBelow
  infer_instance

theorem separated_append : Separated (a ++ '\n' :: b) ↔ Separated a ∨ Separated b := by
  have happ : (a ++ '\n' :: b).splitOn '\n' = a.splitOn '\n' ++ b.splitOn '\n' :=
    List.splitOnP_append_cons a b (by simp)
  rw [Separated, happ, List.mem_append, Separated, Separated]

theorem not_separated_nil : ¬Separated [] := by decide

theorem separated_concat : Separated (a ++ ['\n']) ↔ Separated a := by
  rw [separated_append, or_iff_left not_separated_nil]

theorem not_separated_line (h : '\n' ∉ l) (hne : l ≠ separator) : ¬Separated l := by
  rw [Separated, List.splitOn_eq_singleton h, List.mem_singleton]
  exact hne.symm

theorem splitOn_append_left {c : Char} (h : c ∉ a) (s : Str) :
    (a ++ s).splitOn c = (s.splitOn c).modifyHead (a ++ ·) := by
  induction a with
  | nil =>
    obtain ⟨line, below, hsplit⟩ := List.exists_cons_of_ne_nil (List.splitOn_ne_nil c s)
    simp [hsplit]
  | cons d a ih =>
    obtain ⟨hd, ha⟩ : c ≠ d ∧ c ∉ a := by simpa using h
    obtain ⟨line, below, hsplit⟩ := List.exists_cons_of_ne_nil (List.splitOn_ne_nil c s)
    rw [List.cons_append, List.splitOn_cons_eq_if_modifyHead, if_neg (by simpa using hd.symm),
      ih ha, hsplit]
    rfl

/-- A named line begins with its name, so only what a value adds below it can be a separator. -/
theorem separated_named (hname : IsLineName name) (s : Str) :
    Separated (name ++ s) ↔ SeparatedBelow s := by
  obtain ⟨line, below, hsplit⟩ := List.exists_cons_of_ne_nil (List.splitOn_ne_nil '\n' s)
  have hnamed : (name ++ s).splitOn '\n' = (name ++ line) :: below := by
    rw [splitOn_append_left hname.1, hsplit, List.modifyHead_cons]
  have hline : separator ≠ name ++ line := by
    have hhead := hname.2
    rcases name with - | ⟨c, name⟩
    · simp at hhead
    · intro h
      obtain ⟨rfl, -⟩ := List.cons.inj h
      simp at hhead
  rw [Separated, hnamed, List.mem_cons, or_iff_right hline, SeparatedBelow, hsplit, List.tail_cons]

theorem not_separatedBelow (h : '\n' ∉ l) : ¬SeparatedBelow l := by
  rw [SeparatedBelow, List.splitOn_eq_singleton h]
  simp

theorem separated_unlines_append {ls : List Str} (h : ∀ l ∈ ls, '\n' ∉ l) (s : Str) :
    Separated (unlines ls ++ s) ↔ separator ∈ ls ∨ Separated s := by
  induction ls with
  | nil => simp
  | cons l ls ih =>
    obtain ⟨hl, hls⟩ := List.forall_mem_cons.mp h
    rw [unlines_cons, List.append_assoc, List.cons_append, separated_append, ih hls, Separated,
      List.splitOn_eq_singleton hl, List.mem_singleton, List.mem_cons, or_assoc]

theorem separated_named_line (hname : IsLineName name) (s : Str) :
    Separated (name ++ s ++ ['\n']) ↔ SeparatedBelow s := by
  rw [separated_concat, separated_named hname]

theorem separated_trailer {o : Str} : Separated (trailer o) ↔ SeparatedBelow o :=
  @separated_named_line "Origin: ".toList (by decide) o

/-! ### Where a mailbox is cut -/

/-- The first occurrence of a pattern is the one found. -/
theorem cutBefore_first {pat s head tail : Str} (h : cutBefore pat s = some (head, tail)) {i : ℕ}
    (hi : i < head.length) : ¬pat <+: s.drop i := by
  induction s generalizing head i with
  | nil =>
    rw [cutBefore] at h
    split_ifs at h
    obtain ⟨rfl, -⟩ := Prod.mk.inj (Option.some.inj h)
    simp at hi
  | cons c s ih =>
    rw [cutBefore] at h
    split_ifs at h with hp
    · obtain ⟨rfl, -⟩ := Prod.mk.inj (Option.some.inj h)
      simp at hi
    · obtain ⟨⟨head', tail'⟩, hcut, heq⟩ := Option.map_eq_some_iff.mp h
      obtain ⟨rfl, rfl⟩ := Prod.mk.inj heq
      rcases i with - | i
      · exact hp
      · exact ih hcut (by simpa using hi)

/-- A separator below the first line stands behind a line break. -/
theorem exists_of_separatedBelow {s : Str} (h : SeparatedBelow s) :
    ∃ pre post, s ++ ['\n'] = pre ++ "\n---\n".toList ++ post ∧ pre.length < s.length := by
  obtain ⟨line, below, hsplit⟩ := List.exists_cons_of_ne_nil (List.splitOn_ne_nil '\n' s)
  rw [SeparatedBelow, hsplit, List.tail_cons] at h
  obtain ⟨before, after, rfl⟩ := List.append_of_mem h
  have hs : s = join ['\n'] (line :: before) ++ ['\n'] ++ join ['\n'] (separator :: after) := by
    rw [← join_append ['\n'] (List.cons_ne_nil _ _) (List.cons_ne_nil _ _), List.cons_append,
      ← hsplit, join, List.intercalate_splitOn]
  refine ⟨join ['\n'] (line :: before), if after = [] then [] else join ['\n'] after ++ ['\n'],
    ?_, ?_⟩
  · rw [hs]
    split_ifs with hafter
    · subst hafter
      simp [join, List.intercalate, separator]
    · rw [join_cons ['\n'] separator hafter]
      simp [separator]
  · conv_rhs => rw [hs]
    simp

theorem from_prefix_head {s head tail : Str} (hfrom : "From ".toList <+: s)
    (h : cutBefore "\n---\n".toList s = some (head, tail)) : "From ".toList <+: head := by
  obtain ⟨rfl, rest, rfl⟩ := eq_of_cutBefore h
  rcases List.prefix_or_prefix_of_prefix hfrom (List.prefix_append head _) with hp | ⟨more, hmore⟩
  · exact hp
  · rcases more with - | ⟨c, more⟩
    · exact ⟨[], by simpa using hmore.symm⟩
    · -- the cut would start within the word
      obtain ⟨suffix, hsuffix⟩ := hfrom
      rw [← hmore, List.append_assoc, List.append_cancel_left_eq] at hsuffix
      obtain ⟨rfl, -⟩ := List.cons.inj hsuffix
      have hnot : '\n' ∉ "From ".toList := by decide
      rw [← hmore] at hnot
      exact absurd (List.mem_append_right head List.mem_cons_self) hnot

/-- A mailbox has no separator line before its cut. -/
theorem not_separated_of_cut {s head tail : Str} (hfrom : "From ".toList <+: s)
    (h : cutBefore "\n---\n".toList s = some (head, tail)) : ¬Separated head := by
  obtain ⟨value, rfl⟩ := from_prefix_head hfrom h
  obtain ⟨hs, rest, rfl⟩ := eq_of_cutBefore h
  have hnamed := @separated_named "From ".toList (by decide) value
  rw [hnamed]
  intro hsep
  obtain ⟨pre, post, hwhole, hlt⟩ := exists_of_separatedBelow hsep
  have hlen : ("From ".toList ++ pre).length < ("From ".toList ++ value).length := by
    rw [List.length_append, List.length_append]
    omega
  refine cutBefore_first h hlen ?_
  have hs : s = ("From ".toList ++ pre) ++ ("\n---\n".toList ++ (post ++ "---\n".toList ++ rest)) := by
    calc s = "From ".toList ++ (value ++ ['\n']) ++ ("---\n".toList ++ rest) := by
          rw [hs]
          simp
      _ = _ := by
          rw [hwhole]
          simp
  rw [hs, List.drop_left]
  exact List.prefix_append _ _

/-! ### The parts a patch is rendered from -/

/-- What a rendered patch says before its cut. -/
def renderedHead (sha author : Str) (date : Option Str) (subject body : Str) (origin : Option Str) :
    Str :=
  synthSeparator sha ++ '\n' :: headerBlock author (date.getD epochDate) subject ++ prose body origin

theorem renderedHead_prefix {sha author : Str} {date : Option Str} {subject body : Str}
    {origin : Option Str} {diff : Str} : renderedHead sha author date subject body origin <+:
      renderMbox sha author date subject body origin diff := by
  have hpre (s x : Str) : s <+: ensureTrailingNewline (s ++ x) := by
    rcases ensureTrailingNewline_cases (s ++ x) with he | he
    · rw [he]
      exact List.prefix_append _ _
    · rw [he, List.append_assoc]
      exact List.prefix_append _ _
  have hrender : renderMbox sha author date subject body origin diff = ensureTrailingNewline
      (renderedHead sha author date subject body origin ++ ("---\n".toList ++ diff)) := by
    simp only [renderMbox, renderedHead, List.append_assoc]
  rw [hrender]
  exact hpre _ _

theorem separated_prose {body : Str} {origin : Option Str} : Separated (prose body origin) ↔
    Separated (trimEnd body) ∨ ∃ o ∈ origin, SeparatedBelow o := by
  unfold prose
  dsimp only
  by_cases hbody : trimEnd body = []
  · rw [hbody]
    cases origin with
    | none => simp [not_separated_nil]
    | some o => simp [not_separated_nil, separated_trailer]
  · cases origin with
    | none => simp [hbody, separated_concat]
    | some o =>
      have hwhole : trimEnd body ++ ['\n'] ++ (['\n'] ++ trailer o) =
          trimEnd body ++ '\n' :: ([] ++ '\n' :: trailer o) := by simp
      simp only [List.isEmpty_iff, hbody, if_false]
      rw [hwhole, separated_append, separated_append, separated_trailer]
      simp [not_separated_nil]

/-- Four header lines, a blank line and what follows. -/
theorem separated_header {name₁ name₂ name₃ name₄ value₁ value₂ value₃ value₄ : Str}
    (h₁ : IsLineName name₁) (h₂ : IsLineName name₂) (h₃ : IsLineName name₃) (h₄ : IsLineName name₄)
    (rest : Str) : Separated (name₁ ++ value₁ ++ '\n' :: (name₂ ++ value₂ ++ ['\n'] ++
      (name₃ ++ value₃ ++ ['\n']) ++ (name₄ ++ value₄ ++ ['\n']) ++ ['\n']) ++ rest) ↔
        SeparatedBelow value₁ ∨ SeparatedBelow value₂ ∨ SeparatedBelow value₃ ∨
          SeparatedBelow value₄ ∨ Separated rest := by
  have hwhole : name₁ ++ value₁ ++ '\n' :: (name₂ ++ value₂ ++ ['\n'] ++ (name₃ ++ value₃ ++ ['\n']) ++
      (name₄ ++ value₄ ++ ['\n']) ++ ['\n']) ++ rest = (name₁ ++ value₁) ++ '\n' ::
        ((name₂ ++ value₂) ++ '\n' :: ((name₃ ++ value₃) ++ '\n' :: ((name₄ ++ value₄) ++ '\n' ::
          ([] ++ '\n' :: rest)))) := by simp
  rw [hwhole, separated_append, separated_append, separated_append, separated_append,
    separated_append, separated_named h₁, separated_named h₂, separated_named h₃,
    separated_named h₄, or_iff_right not_separated_nil]

theorem separated_renderedHead {sha author : Str} {date : Option Str} {subject body : Str}
    {origin : Option Str} (hsha : '\n' ∉ sha) (hdate : ∀ d ∈ date, '\n' ∉ d) :
    Separated (renderedHead sha author date subject body origin) ↔ SeparatedBelow author ∨
      SeparatedBelow subject ∨ Separated (trimEnd body) ∨ ∃ o ∈ origin, SeparatedBelow o := by
  have hline : '\n' ∉ sha ++ ' ' :: mboxSeparatorDate := List.not_mem_append hsha (by decide)
  have hepoch : '\n' ∉ date.getD epochDate := not_mem_getD hdate (by decide)
  have hheader := @separated_header "From ".toList "From: ".toList "Date: ".toList
    "Subject: [PATCH] ".toList (sha ++ ' ' :: mboxSeparatorDate) author (date.getD epochDate) subject
    (by decide) (by decide) (by decide) (by decide) (prose body origin)
  rw [← List.append_assoc "From ".toList] at hheader
  rw [or_iff_right (not_separatedBelow hline), or_left_comm,
    or_iff_right (not_separatedBelow hepoch), separated_prose] at hheader
  exact hheader

/-! ### The message of each shape -/

/-- The author and the date a `git show` names. -/
def gitShowHeader (t : Str) : Option Str × Option Str :=
  ((lines t).tail.takeWhile (!isBlank ·)).foldl headerStep (none, none)

def gitShowAuthor (t : Str) (imp : ImportMeta) : Str :=
  ((gitShowHeader t).1.or imp.author).getD defaultAuthor

/-- The message of a `git show` behind its subject. -/
def messageBody (t : Str) : Str := (splitSubjectBody (gitShowMessage t)).2

/-- A mailbox before its cut, or before its first diff line where it has no cut. -/
def messageText (mbox : Str) : Str :=
  match cutBefore "\n---\n".toList mbox with
  | some (head, _) => head ++ ['\n']
  | none => unlines ((lines mbox).takeWhile (!isDiffStart ·))

/-- What a normalized patch says up to the end of its message and trailer. -/
def messageHead (t : Str) (imp : ImportMeta) (n : Normalized) : PatchKind → Str
  | .mbox =>
    match imp.origin with
    | some o => messageText (mailbox t) ++ trailer o
    | none => join ['\n'] (((mailbox t).splitOn '\n').takeWhile (· ≠ separator))
  | .gitShow => renderedHead (gitShowSha t) (gitShowAuthor t imp) (gitShowHeader t).2 n.subject
      (messageBody t) imp.origin
  | .bareDiff => renderedHead zeroSha (imp.author.getD defaultAuthor) none n.subject [] imp.origin

/-- The message and the trailer stand in front of the first line `---`. -/
def Carried (t : Str) (imp : ImportMeta) (n : Normalized) (kind : PatchKind) : Prop :=
  messageHead t imp n kind <+: n.mbox ∧ ¬Separated (messageHead t imp n kind)

/-- No part of the message or trailer has such a line, and no line of a mailbox without a cut becomes
one. -/
def Unseparated (t : Str) (imp : ImportMeta) : PatchKind → Prop
  | .mbox => ∀ o ∈ imp.origin, ¬SeparatedBelow o ∧
      (cutBefore "\n---\n".toList (mailbox t) = none →
        separator ∉ (lines (mailbox t)).takeWhile (!isDiffStart ·))
  | .gitShow => ¬SeparatedBelow (gitShowAuthor t imp) ∧
      (∀ s ∈ imp.subject, ¬SeparatedBelow (trim s)) ∧ ¬Separated (messageBody t) ∧
        ∀ o ∈ imp.origin, ¬SeparatedBelow o
  | .bareDiff => ¬SeparatedBelow (imp.author.getD defaultAuthor) ∧
      (∀ s ∈ imp.subject, ¬SeparatedBelow (trim s)) ∧ ∀ o ∈ imp.origin, ¬SeparatedBelow o

theorem gitShow_rendered (h : normalizeGitShow t imp = .ok n) :
    n.subject = trim (imp.subject.getD (splitSubjectBody (gitShowMessage t)).1) ∧
      n.mbox = renderMbox (gitShowSha t) (gitShowAuthor t imp) (gitShowHeader t).2 n.subject
        (messageBody t) imp.origin (gitShowDiff t) := by
  rw [normalizeGitShow] at h
  dsimp only at h
  split_ifs at h
  have hn := (Outcome.ok.inj h).symm
  exact ⟨by rw [hn], by rw [hn]; rfl⟩

theorem bareDiff_rendered (h : normalizeBareDiff t imp = .ok n) :
    (bareSubject (bareDiff t) imp = .ok n.subject) ∧
      n.mbox = renderMbox zeroSha (imp.author.getD defaultAuthor) none n.subject [] imp.origin
        (bareDiff t) := by
  rw [normalizeBareDiff] at h
  split_ifs at h
  obtain ⟨subject, hsubject, h⟩ := Outcome.bind_eq_ok.mp h
  have hn := (Outcome.ok.inj h).symm
  exact ⟨by rw [hn]; exact hsubject, by rw [hn]⟩

theorem carried_gitShow (h : normalizeGitShow t imp = .ok n) :
    Carried t imp n .gitShow ↔ Unseparated t imp .gitShow := by
  obtain ⟨hsubject, hmbox⟩ := gitShow_rendered h
  have hdate : ∀ d ∈ (gitShowHeader t).2, '\n' ∉ d :=
    (not_mem_headerStep (fun l hl => not_mem_of_mem_lines
      (List.mem_of_mem_tail ((List.takeWhile_prefix _).subset hl))) (by simp) (by simp)).2
  have hline : ¬SeparatedBelow (trim (splitSubjectBody (gitShowMessage t)).1) :=
    not_separatedBelow (not_mem_trim (not_mem_splitSubjectBody fun l => not_mem_gitShowMessage))
  have hgiven : SeparatedBelow n.subject ↔ ∃ s ∈ imp.subject, SeparatedBelow (trim s) := by
    rw [hsubject]
    cases imp.subject with
    | none => simpa using hline
    | some s => simp
  have hpre : messageHead t imp n .gitShow <+: n.mbox := by
    rw [hmbox]
    exact renderedHead_prefix
  have hsep := @separated_renderedHead (gitShowSha t) (gitShowAuthor t imp) (gitShowHeader t).2
    n.subject (messageBody t) imp.origin (not_mem_gitShowSha t) hdate
  rw [messageBody, trim_splitSubjectBody, hgiven, ← messageBody] at hsep
  rw [Carried, and_iff_right hpre, messageHead, hsep, Unseparated]
  simp only [not_or, not_exists, not_and]

theorem carried_bareDiff (h : normalizeBareDiff t imp = .ok n) :
    Carried t imp n .bareDiff ↔ Unseparated t imp .bareDiff := by
  obtain ⟨hsubject, hmbox⟩ := bareDiff_rendered h
  have hgiven : SeparatedBelow n.subject ↔ ∃ s ∈ imp.subject, SeparatedBelow (trim s) := by
    unfold bareSubject at hsubject
    cases hs : imp.subject with
    | none =>
      rw [hs] at hsubject
      have hline := not_separatedBelow
        (not_mem_deriveSubjectFrom (fun l => not_mem_of_mem_lines) (Outcome.okOr_eq_ok.mp hsubject))
      simpa using hline
    | some s =>
      rw [hs] at hsubject
      rw [← Outcome.ok.inj hsubject]
      simp
  have hpre : messageHead t imp n .bareDiff <+: n.mbox := by
    rw [hmbox]
    exact renderedHead_prefix
  have hnil : ¬Separated (trimEnd []) := not_separated_nil
  have hsep := @separated_renderedHead zeroSha (imp.author.getD defaultAuthor) none
    n.subject [] imp.origin not_mem_zeroSha (by simp)
  rw [hgiven, or_iff_right hnil] at hsep
  rw [Carried, and_iff_right hpre, messageHead, hsep, Unseparated]
  simp only [not_or, not_exists, not_and]

/-- What stands before the first separator line, as the text has it. -/
theorem join_takeWhile (s : Str) :
    join ['\n'] ((s.splitOn '\n').takeWhile (· ≠ separator)) <+: s ∧
      ¬Separated (join ['\n'] ((s.splitOn '\n').takeWhile (· ≠ separator))) := by
  have hs : join ['\n'] (s.splitOn '\n') = s := List.intercalate_splitOn '\n'
  have hsplit : (s.splitOn '\n').takeWhile (· ≠ separator) ++
      (s.splitOn '\n').dropWhile (· ≠ separator) = s.splitOn '\n' := List.takeWhile_append_dropWhile
  generalize hfront : (s.splitOn '\n').takeWhile (· ≠ separator) = front at hsplit ⊢
  generalize (s.splitOn '\n').dropWhile (· ≠ separator) = back at hsplit
  by_cases hnil : front = []
  · subst hnil
    exact ⟨List.nil_prefix, not_separated_nil⟩
  refine ⟨?_, ?_⟩
  · by_cases hback : back = []
    · rw [hback, List.append_nil] at hsplit
      rw [hsplit, hs]
    · rw [← hsplit, join_append _ hnil hback, List.append_assoc] at hs
      exact ⟨_, hs⟩
  · have hlines : ∀ l ∈ front, '\n' ∉ l := by
      intro l hl
      exact not_mem_of_mem_splitOn (hsplit ▸ List.mem_append_left back hl)
    rw [Separated, join, List.splitOn_intercalate '\n' hlines hnil, ← hfront]
    intro hmem
    simpa using List.mem_takeWhile_imp hmem

theorem carried_mbox (h : normalizeMbox t imp = .ok n) :
    Carried t imp n .mbox ↔ Unseparated t imp .mbox := by
  obtain ⟨sep, rest, hsplit, hmailbox, hsep, hfrom, -⟩ := exists_mailbox t
  obtain ⟨hdiff, -, hmbox⟩ := normalizeMbox_ok h hsplit
  have hpre (s : Str) : s <+: ensureTrailingNewline s := by
    rcases ensureTrailingNewline_cases s with he | he
    · rw [he]
    · rw [he]
      exact List.prefix_append _ _
  rw [← hmailbox] at hmbox
  have hmailfrom : "From ".toList <+: mailbox t := by
    rw [hmailbox]
    exact hfrom.trans (List.prefix_append _ _)
  have hany : (lines (mailbox t)).any isDiffStart = true := by
    have hno : ¬NoDiff (mailbox t) := by
      rw [hmailbox, List.append_cons]
      exact fun hno => hdiff ((noDiff_append (closed_concat sep)).mp hno).2
    rwa [noDiff_iff_any, Bool.not_eq_false] at hno
  rw [Carried, messageHead, Unseparated, hmbox]
  rcases horigin : imp.origin with - | o
  · obtain ⟨hjoin, hnot⟩ := join_takeWhile (mailbox t)
    exact iff_of_true ⟨hjoin.trans (hpre _), hnot⟩ (by simp)
  rcases hcut : cutBefore "\n---\n".toList (mailbox t) with - | ⟨head, tail⟩
  · -- the lines are written anew, and the trailer stands before the first of the diff
    have hlines : ∀ l ∈ (lines (mailbox t)).takeWhile (!isDiffStart ·), '\n' ∉ l := fun l hl =>
      not_mem_of_mem_lines ((List.takeWhile_prefix _).subset hl)
    have hhead : messageText (mailbox t) ++ trailer o <+:
        ensureTrailingNewline (spliceOriginTrailer (mailbox t) o) := by
      refine List.IsPrefix.trans ?_ (hpre _)
      rw [messageText, spliceOriginTrailer, hcut]
      dsimp only
      rw [if_pos hany]
      exact List.prefix_append _ _
    rw [and_iff_right hhead, messageText, hcut, separated_unlines_append hlines, separated_trailer]
    simp [and_comm]
  · have hhead : messageText (mailbox t) ++ trailer o <+:
        ensureTrailingNewline (spliceOriginTrailer (mailbox t) o) := by
      refine List.IsPrefix.trans ?_ (hpre _)
      rw [messageText, spliceOriginTrailer, hcut]
      exact List.prefix_append _ _
    have hnot := not_separated_of_cut hmailfrom hcut
    have hwhole : head ++ ['\n'] ++ trailer o = head ++ '\n' :: trailer o := by simp
    rw [and_iff_right hhead, messageText, hcut]
    dsimp only
    rw [hwhole, separated_append, or_iff_right hnot, separated_trailer]
    simp

/-- A normalized patch carries its message and trailer exactly where neither has a separator line. -/
theorem carried_iff {kind : PatchKind} (hkind : classify t = .ok kind) (h : normalize t imp = .ok n) :
    Carried t imp n kind ↔ Unseparated t imp kind := by
  rw [normalize] at h
  split_ifs at h
  rw [hkind] at h
  cases kind with
  | mbox => exact carried_mbox h
  | gitShow => exact carried_gitShow h
  | bareDiff => exact carried_bareDiff h

end

/-- A commit whose message has an indented rule. -/
def ruledShow : Str :=
  "commit 0123456789\nAuthor: A <a@b>\n\n    s\n\n    one\n    ---\n    two\n\n--- a/f\n+++ b/f\n".toList

theorem carried_demo : ∃ n, normalize demoShow { origin := some "upstream".toList } = .ok n ∧
    Carried demoShow { origin := some "upstream".toList } n .gitShow := by
  have hkind : classify demoShow = .ok .gitShow := by decide +kernel
  have hok : (normalize demoShow { origin := some "upstream".toList }).toOption.isSome := by
    decide +kernel
  have hfree : Unseparated demoShow { origin := some "upstream".toList } .gitShow := by
    rw [Unseparated]
    decide +kernel
  obtain ⟨n, hn⟩ := Option.isSome_iff_exists.mp hok
  have hn := Outcome.mem_toOption.mp hn
  exact ⟨n, hn, (carried_iff hkind hn).mpr hfree⟩

/-- What stands below the rule is no message any more, nor is the trailer. -/
theorem ruled_message_lost : ∃ n, normalize ruledShow { origin := some "upstream".toList } = .ok n ∧
    ¬Carried ruledShow { origin := some "upstream".toList } n .gitShow := by
  have hlost : ∃ n ∈ (normalize ruledShow { origin := some "upstream".toList }).toOption,
      Separated (messageHead ruledShow { origin := some "upstream".toList } n .gitShow) := by
    decide +kernel
  obtain ⟨n, hn, hsep⟩ := hlost
  exact ⟨n, Outcome.mem_toOption.mp hn, fun hcarried => hcarried.2 hsep⟩

end Boot2Deb.Mbox
