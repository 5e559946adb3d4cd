import Boot2Deb.Mbox.Rendering

/-!
# What a patch starts with

The shape of a text is decided by its leading lines. The search for a `Subject:` header cuts each
line of the leading block behind its eighth byte, which panics inside a character:
`normalize_ne_panic_iff`.
-/

namespace Boot2Deb.Mbox
open Rust

section
variable {l : Str} {ls : List Str} {imp : ImportMeta} {text : Str}

theorem sliceTo_isSome_iff (s : Str) (n : ℕ) :
    (sliceTo s n).isSome ↔ ∃ pre, pre <+: s ∧ byteLen pre = n := by
  have hpos : ∀ c : Char, 0 < c.utf8Size := Char.utf8Size_pos
  induction s generalizing n with
  | nil =>
    cases n with
    | zero => exact iff_of_true rfl ⟨[], List.nil_prefix, rfl⟩
    | succ n =>
      refine iff_of_false (by simp [sliceTo]) ?_
      rintro ⟨pre, hpre, hlen⟩
      rw [List.prefix_nil.mp hpre] at hlen
      cases hlen
  | cons c s ih =>
    cases n with
    | zero => exact iff_of_true rfl ⟨[], List.nil_prefix, rfl⟩
    | succ n =>
      rw [sliceTo]
      constructor
      · intro h
        split_ifs at h with hc
        · rw [Option.isSome_map] at h
          obtain ⟨pre, hpre, hlen⟩ := (ih _).mp h
          refine ⟨c :: pre, (List.prefix_cons_inj c).mpr hpre, ?_⟩
          rw [byteLen, List.map_cons, List.sum_cons, ← byteLen, hlen]
          omega
        · cases h
      · rintro ⟨pre, hpre, hlen⟩
        cases pre with
        | nil => cases hlen
        | cons d pre =>
          rw [List.cons_prefix_cons] at hpre
          obtain ⟨rfl, hpre⟩ := hpre
          rw [byteLen, List.map_cons, List.sum_cons, ← byteLen] at hlen
          rw [if_pos (by omega), Option.isSome_map]
          exact (ih _).mpr ⟨pre, hpre, by omega⟩

/-- A line the search takes for the `Subject:` header. -/
def isSubjectLine (l : Str) : Bool :=
  (sliceTo l 8).any fun name => toAsciiLowercase name = toAsciiLowercase "Subject:".toList

/-- A character of the line begins behind its first eight bytes, unless it is shorter. -/
def CutsAtEight (l : Str) : Prop := 8 ≤ byteLen l → ∃ pre, pre <+: l ∧ byteLen pre = 8

/-- The first line that is not blank. -/
def firstLine (text : Str) : Str := ((lines text).find? (!isBlank ·)).getD []

theorem classify_eq (text : Str) : classify text =
    if isGitShowHeader (firstLine text) then .ok .gitShow
    else if "From ".toList <+: firstLine text then .ok .mbox
    else (hasSubjectHeader text >>= fun subject => pure (if subject then .mbox else .bareDiff)) :=
  rfl

/-- The lines the search for a `Subject:` header looks at without finding it. -/
def searched (ls : List Str) : List Str :=
  (ls.takeWhile (!isBlank ·)).takeWhile (!isSubjectLine ·)

theorem isSubjectLine_of_short (h : byteLen l < 8) : isSubjectLine l = false := by
  unfold isSubjectLine
  cases hs : sliceTo l 8 with
  | none => rfl
  | some name =>
    obtain ⟨pre, ⟨post, rfl⟩, hlen⟩ := (sliceTo_isSome_iff l 8).mp (by rw [hs]; rfl)
    rw [byteLen, List.map_append, List.sum_append, ← byteLen, hlen] at h
    omega

theorem hasSubjectHeaderIn_ne_panic :
    hasSubjectHeaderIn ls ≠ .panic ↔ ∀ l ∈ searched ls, CutsAtEight l := by
  induction ls with
  | nil => simp [hasSubjectHeaderIn, searched]
  | cons l ls ih =>
    rw [hasSubjectHeaderIn]
    by_cases hblank : isBlank l = true
    · simp [hblank, searched]
    rw [if_neg hblank]
    have hsearched : searched (l :: ls) = if isSubjectLine l then [] else l :: searched ls := by
      simp only [searched, List.takeWhile_cons, hblank, Bool.not_false, if_true]
      cases isSubjectLine l <;> simp
    by_cases hshort : byteLen l < 8
    · have hcuts : CutsAtEight l := fun h => absurd h (by omega)
      rw [if_pos hshort, ih, hsearched, isSubjectLine_of_short hshort]
      simp [hcuts]
    rw [if_neg hshort, hsearched]
    have hslice := sliceTo_isSome_iff l 8
    unfold isSubjectLine
    cases hs : sliceTo l 8 with
    | none =>
      rw [hs] at hslice
      have hcuts : ¬CutsAtEight l := fun h => by simpa using hslice.mpr (h (by omega))
      simp [hcuts]
    | some name =>
      rw [hs] at hslice
      have hcuts : CutsAtEight l := fun _ => hslice.mp rfl
      rw [Option.any_some]
      dsimp only
      generalize toAsciiLowercase "Subject:".toList = subject
      by_cases hname : toAsciiLowercase name = subject
      · simp [hname]
      · simp [hname, ih, hcuts]

theorem normalizeMbox_ne_panic : normalizeMbox text imp ≠ .panic := by
  unfold normalizeMbox
  refine Outcome.bind_ne_panic (Outcome.okOr_ne_panic _ _) fun subject _ => ?_
  refine Outcome.bind_ne_panic ?_ fun _ _ => by simp
  unfold ensureHasDiff
  split_ifs <;> simp

theorem normalizeGitShow_ne_panic : normalizeGitShow text imp ≠ .panic := by
  unfold normalizeGitShow
  dsimp only
  split_ifs <;> simp

theorem normalizeBareDiff_ne_panic : normalizeBareDiff text imp ≠ .panic := by
  unfold normalizeBareDiff
  split_ifs
  · refine Outcome.bind_ne_panic ?_ fun _ _ => by simp
    unfold bareSubject
    cases imp.subject with
    | none => exact Outcome.okOr_ne_panic _ _
    | some s => simp
  · simp

/-- Each line the search cuts has a character boundary there, or the text is one not searched: a
blank one, a `git show` or a mailbox with its separator. -/
def Scannable (text : Str) : Prop :=
  (trim text).isEmpty = true ∨ isGitShowHeader (firstLine text) = true ∨
    "From ".toList <+: firstLine text ∨ ∀ l ∈ searched (lines text), CutsAtEight l

/-- Normalizing a text panics exactly if its search for a `Subject:` header cuts a character. -/
theorem normalize_ne_panic_iff (text : Str) (imp : ImportMeta) :
    normalize text imp ≠ .panic ↔ Scannable text := by
  have hclassify : classify text ≠ .panic ↔ isGitShowHeader (firstLine text) = true ∨
      "From ".toList <+: firstLine text ∨ ∀ l ∈ searched (lines text), CutsAtEight l := by
    rw [classify_eq]
    by_cases hgit : isGitShowHeader (firstLine text) = true
    · rw [if_pos hgit]
      exact iff_of_true (by simp) (Or.inl hgit)
    by_cases hfrom : "From ".toList <+: firstLine text
    · rw [if_neg hgit, if_pos hfrom]
      exact iff_of_true (by simp) (Or.inr (Or.inl hfrom))
    have hsearch := @hasSubjectHeaderIn_ne_panic (lines text)
    rw [if_neg hgit, if_neg hfrom, or_iff_right hgit, or_iff_right hfrom, ← hsearch]
    unfold hasSubjectHeader
    cases hasSubjectHeaderIn (lines text) <;> simp
  unfold normalize Scannable
  by_cases hblank : (trim text).isEmpty = true
  · simp [hblank]
  rw [if_neg hblank, or_iff_right hblank, ← hclassify]
  constructor
  · intro h hpanic
    rw [hpanic] at h
    exact h rfl
  · intro h
    refine Outcome.bind_ne_panic h fun kind _ => ?_
    cases kind with
    | mbox => exact normalizeMbox_ne_panic
    | gitShow => exact normalizeGitShow_ne_panic
    | bareDiff => exact normalizeBareDiff_ne_panic

end

/-- A header line with a character of two bytes across its eighth byte. -/
def accented : Str := "Conformément: A\nSubject: [PATCH] x\n\n--- a/f\n+++ b/f\n".toList

theorem accented_panics : normalize accented {} = .panic := by decide +kernel

end Boot2Deb.Mbox
