import Boot2Deb.Mbox.Payload

/-!
# Rendered patches

A `git show` and a freeform diff are written by `renderMbox`: a block of header lines, the prose of
the message, the cut and the diff. The header values are single lines, so that the header block has
the lines it is written with.
-/

namespace Boot2Deb.Mbox
open Rust

/-- `n` is a patch rendered from these parts. -/
structure Rendered (n : Normalized) (body : Str) (origin : Option Str) (diff : Str) : Prop where
  subject : '\n' ∉ n.subject
  mbox : ∃ sha author date, '\n' ∉ sha ∧ '\n' ∉ author ∧ (∀ d ∈ date, '\n' ∉ d) ∧
    n.mbox = renderMbox sha author date n.subject body origin diff

section
variable {s l sha author date subject body diff t : Str} {origin : Option Str} {imp : ImportMeta}
  {n : Normalized}

theorem not_mem_trim {c : Char} (h : c ∉ s) : c ∉ trim s := fun hc => h (mem_of_mem_trim hc)

theorem not_mem_getD {o : Option Str} {default : Str} (h : ∀ s ∈ o, '\n' ∉ s)
    (hd : '\n' ∉ default) : '\n' ∉ o.getD default := by
  cases o with
  | none => exact hd
  | some s => exact h s rfl

/-! ### What the shapes render -/

theorem not_mem_zeroSha : '\n' ∉ zeroSha := by decide

theorem not_mem_gitShowSha (t : Str) : '\n' ∉ gitShowSha t := by
  refine not_mem_getD (fun sha hsha hc => ?_) (by decide)
  obtain ⟨rest, -, hword⟩ := Option.bind_eq_some_iff.mp hsha
  exact absurd (isWhitespace_of_mem_firstWord hword hc) (by decide)

/-- Each author and date is part of a line. -/
theorem not_mem_headerStep {acc : Option Str × Option Str} {ls : List Str}
    (hls : ∀ l ∈ ls, '\n' ∉ l) (h1 : ∀ s ∈ acc.1, '\n' ∉ s) (h2 : ∀ s ∈ acc.2, '\n' ∉ s) :
    (∀ s ∈ (ls.foldl headerStep acc).1, '\n' ∉ s) ∧
      ∀ s ∈ (ls.foldl headerStep acc).2, '\n' ∉ s := by
  induction ls generalizing acc with
  | nil => exact ⟨h1, h2⟩
  | cons l ls ih =>
    obtain ⟨hl, hls⟩ := List.forall_mem_cons.mp hls
    have hvalue (name v : Str) (hv : headerValue l name = some v) : '\n' ∉ v := by
      obtain ⟨rest, hrest, rfl⟩ := Option.map_eq_some_iff.mp hv
      rw [stripPrefix_eq_some.mp hrest] at hl
      exact not_mem_trim fun hc => hl (List.mem_append_right _ hc)
    refine ih hls ?_ ?_ <;> rw [headerStep] <;> split
    · rintro _ ⟨⟩
      exact hvalue _ _ ‹_›
    · split <;> exact h1
    · exact h2
    · split
      · rintro _ ⟨⟩
        exact hvalue _ _ ‹_›
      · exact h2

theorem not_mem_dedent {k : Nat} (h : '\n' ∉ l) : '\n' ∉ dedent l k := by
  fun_induction dedent l k with
  | case1 s k ih => exact ih fun hs => h (List.mem_cons_of_mem _ hs)
  | case2 => exact h

theorem not_mem_splitSubjectBody {ls : List Str} (h : ∀ l ∈ ls, '\n' ∉ l) :
    '\n' ∉ (splitSubjectBody ls).1 := by
  rw [splitSubjectBody]
  split
  · simp
  · rename_i first rest hdrop
    refine not_mem_trim (h first ((List.dropWhile_sublist _).mem (hdrop ▸ List.mem_cons_self ..)))

theorem trim_splitSubjectBody (ls : List Str) :
    trimEnd (splitSubjectBody ls).2 = (splitSubjectBody ls).2 := by
  rw [splitSubjectBody]
  split
  · rfl
  · exact trimEnd_trimEnd

theorem not_mem_gitShowMessage (h : l ∈ gitShowMessage t) : '\n' ∉ l := by
  obtain ⟨raw, hraw, rfl⟩ := List.mem_map.mp h
  refine not_mem_dedent (not_mem_of_mem_lines (s := t) ?_)
  exact List.mem_of_mem_tail ((List.dropWhile_sublist _).mem
    (List.mem_of_mem_tail ((List.takeWhile_prefix _).subset hraw)))

theorem not_mem_deriveSubjectFrom {ls : List Str} (h : ∀ l ∈ ls, '\n' ∉ l)
    (hs : deriveSubjectFrom ls = some subject) : '\n' ∉ subject := by
  induction ls with
  | nil => cases hs
  | cons l ls ih =>
    obtain ⟨hl, hls⟩ := List.forall_mem_cons.mp h
    have hupdate : '\n' ∉ "update ".toList := by decide
    rw [deriveSubjectFrom] at hs
    split at hs
    · rename_i path hpath
      cases hs
      obtain ⟨rest, hrest, hcut⟩ := Option.bind_eq_some_iff.mp hpath
      obtain ⟨⟨_, tail⟩, hfound, rfl⟩ := Option.map_eq_some_iff.mp hcut
      rw [stripPrefix_eq_some.mp hrest, (eq_of_cutBefore hfound).1] at hl
      exact List.not_mem_append hupdate fun hc => hl (by simp [hc])
    · split at hs
      · rename_i rest hrest
        cases hs
        rw [stripPrefix_eq_some.mp hrest] at hl
        have hrest : '\n' ∉ rest := fun hc => hl (List.mem_append_right _ hc)
        exact List.not_mem_append hupdate
          (not_mem_getD (fun word hw hc => hrest (mem_of_mem_firstWord hw hc)) hrest)
      · exact ih hls hs

theorem normalizeGitShow_ok (h : normalizeGitShow t imp = .ok n)
    (hauthor : ∀ a ∈ imp.author, '\n' ∉ a) (hsubject : ∀ s ∈ imp.subject, '\n' ∉ s) :
    Rendered n (splitSubjectBody (gitShowMessage t)).2 imp.origin (gitShowDiff t) ∧
      gitShowDiff t ≠ [] ∧ trim n.subject = n.subject := by
  have hheader := @not_mem_headerStep (none, none) ((lines t).tail.takeWhile (!isBlank ·))
    (fun l hl => not_mem_of_mem_lines (List.mem_of_mem_tail ((List.takeWhile_prefix _).subset hl)))
    (by simp) (by simp)
  have hmessage := not_mem_splitSubjectBody fun l => not_mem_gitShowMessage (t := t) (l := l)
  rw [normalizeGitShow] at h
  dsimp only at h
  generalize (((lines t).tail.takeWhile (!isBlank ·)).foldl headerStep (none, none)) = headers
    at h hheader
  have hauthor : '\n' ∉ (headers.1.or imp.author).getD defaultAuthor := by
    refine not_mem_getD (fun a ha => ?_) (by decide)
    rcases Option.or_eq_some_iff.mp ha with ha | ⟨-, ha⟩
    · exact hheader.1 a ha
    · exact hauthor a ha
  have hmessage : '\n' ∉ (splitSubjectBody (gitShowMessage t)).1 :=
    not_mem_splitSubjectBody fun l => not_mem_gitShowMessage
  split_ifs at h with hdiff hempty
  have hn := (Outcome.ok.inj h).symm
  have hsub : n.subject = trim (imp.subject.getD (splitSubjectBody (gitShowMessage t)).1) := by
    rw [hn]
  refine ⟨⟨?_, _, _, _, not_mem_gitShowSha t, hauthor, hheader.2, by rw [hn]⟩, ?_, ?_⟩
  · rw [hsub]
    exact not_mem_trim (not_mem_getD hsubject hmessage)
  · rintro hnil
    rw [hnil] at hdiff
    exact hdiff rfl
  · rw [hsub, trim_trim]

theorem normalizeBareDiff_ok (h : normalizeBareDiff t imp = .ok n)
    (hauthor : ∀ a ∈ imp.author, '\n' ∉ a) (hsubject : ∀ s ∈ imp.subject, '\n' ∉ s) :
    Rendered n [] imp.origin (bareDiff t) ∧ (lines t).any isDiffStart = true ∧
      some n.subject = (imp.subject.map trim).or (deriveSubject (bareDiff t)) := by
  have hauthor : '\n' ∉ imp.author.getD defaultAuthor := not_mem_getD hauthor (by decide)
  rw [normalizeBareDiff] at h
  split_ifs at h with hdiff
  obtain ⟨subject, hsub, h⟩ := Outcome.bind_eq_ok.mp h
  have hn := (Outcome.ok.inj h).symm
  have hsub : some n.subject = (imp.subject.map trim).or (deriveSubject (bareDiff t)) := by
    have hsubject : n.subject = subject := by rw [hn]
    rw [bareSubject] at hsub
    split at hsub
    · rename_i s hs
      rw [hs, hsubject, ← Outcome.ok.inj hsub]
      rfl
    · rename_i hs
      rw [hs, hsubject]
      exact (Outcome.okOr_eq_ok.mp hsub).symm
  refine ⟨⟨?_, _, _, none, not_mem_zeroSha, hauthor, by simp, ?_⟩, hdiff, hsub⟩
  · rcases Option.or_eq_some_iff.mp hsub.symm with hs | ⟨-, hs⟩
    · obtain ⟨s, hgiven, hs⟩ := Option.map_eq_some_iff.mp hs
      rw [← hs]
      exact not_mem_trim (hsubject s hgiven)
    · exact not_mem_deriveSubjectFrom (fun l => not_mem_of_mem_lines) hs
  · rw [hn]

end

end Boot2Deb.Mbox
