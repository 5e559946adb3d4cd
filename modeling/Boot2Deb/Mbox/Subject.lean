import Boot2Deb.Mbox.Rendering

/-!
# The subject of a header block

`parse_email_headers` folds the lines of a header block into a map. Of that fold one header sees
little: its value so far, and whether a continuation line would go on with it. Line endings do not
show, since each value is trimmed.
-/

namespace Boot2Deb.Mbox
open Rust

/-- What the fold over a header block holds of one header: its value, and whether it is the last
header read. -/
abbrev Reading := Option Str × Bool

/-- One line of the block, as the header `key` sees it. -/
def readStep (key : Str) (s : Reading) (line : Str) : Reading :=
  if isContinuation line then (if s.2 then s.1.map (· ++ ' ' :: trim line) else s.1, s.2)
  else match splitOnce line ':' with
    | none => s
    | some (name, value) =>
      if toAsciiLowercase (trim name) = key then (some (trim value), true) else (s.1, false)

/-- The header block of a text: its lines up to the first blank one. -/
def block (ls : List Str) : List Str := ls.takeWhile (!isBlank ·)

/-- The lines of a header block read for the header `key`. -/
def readLines (key : Str) (s : Reading) (ls : List Str) : Reading := ls.foldl (readStep key) s

/-- The subject of a text with these lines. -/
def subjectOf (ls : List Str) : Option Str :=
  (readLines "subject".toList (none, false) (block ls)).1.map cleanSubject

/-- What the map holds of the header `key`. -/
def Headers.reading (key : Str) (h : Headers) : Reading := (h.map[key]?, decide (h.lastKey = some key))

/-- The line is the header `key`. -/
def isHeader (key line : Str) : Bool :=
  !isContinuation line && ((splitOnce line ':').map fun p => toAsciiLowercase (trim p.1)) = some key

/-- What lines put behind the header before them, up to the next header. -/
def continuation : List Str → Str
  | [] => []
  | l :: ls =>
    if isContinuation l then ' ' :: trim l ++ continuation ls
    else if (splitOnce l ':').isSome then [] else continuation ls

section
variable {key l v : Str} {s s' : Reading} {ls ls' : List Str} {o : Option Str}

theorem Headers.reading_step (key : Str) (h : Headers) (l : Str) :
    (h.step l).reading key = readStep key (h.reading key) l := by
  rw [Headers.step, readStep]
  by_cases hc : isContinuation l = true
  · rw [if_pos hc, if_pos hc]
    cases hlast : h.lastKey with
    | none => simp [Headers.reading, hlast]
    | some last =>
      dsimp only
      by_cases he : last = key
      · subst he
        cases hv : h.map[last]? <;> simp [Headers.reading, hlast, hv]
      · cases hv : h.map[last]? <;>
          simp [Headers.reading, hlast, he, Std.ExtTreeMap.getElem?_insert]
  · rw [if_neg hc, if_neg hc]
    cases hsplit : splitOnce l ':' with
    | none => rfl
    | some pair =>
      obtain ⟨name, value⟩ := pair
      by_cases he : toAsciiLowercase (trim name) = key
      · simp [Headers.reading, he]
      · simp [Headers.reading, he, Std.ExtTreeMap.getElem?_insert]

theorem subjectOf_lines (t : Str) :
    ((parseEmailHeaders t)[("subject".toList : Str)]?).map cleanSubject = subjectOf (lines t) := by
  rw [subjectOf]
  generalize "subject".toList = key
  have hfold : (block (lines t)).foldl (readStep key) (Headers.empty.reading key) =
      ((block (lines t)).foldl Headers.step Headers.empty).reading key :=
    List.foldl_hom (Headers.reading key) fun h l => (Headers.reading_step key h l).symm
  have hempty : Headers.empty.reading key = (none, false) := by
    simp [Headers.reading, Headers.empty]
  rw [readLines, ← hempty, hfold]
  rfl

theorem readLines_append : readLines key s (ls ++ ls') = readLines key (readLines key s ls) ls' :=
  List.foldl_append

/-! ### Headers and continuations -/

theorem readStep_isHeader (h : isHeader key l = true) : readStep key s l = readStep key s' l := by
  simp only [isHeader, Bool.and_eq_true, Bool.not_eq_true', decide_eq_true_eq] at h
  obtain ⟨hc, pair, hsplit, hkey⟩ := h.1, Option.map_eq_some_iff.mp h.2
  rw [readStep, readStep, hc, hsplit]
  simp [hkey]

/-- Behind a header of its own nothing of what was read before is left. -/
theorem readLines_isHeader (h : ls.any (isHeader key) = true) :
    readLines key s ls = readLines key s' ls := by
  induction ls generalizing s s' with
  | nil => cases h
  | cons l ls ih =>
    rw [readLines, readLines, List.foldl_cons, List.foldl_cons]
    by_cases hl : isHeader key l = true
    · rw [readStep_isHeader hl]
    · rw [List.any_cons, Bool.eq_false_iff.mpr hl, Bool.false_or] at h
      exact ih h

/-- The lines that do not begin the header: its continuations, what is no header, another header. -/
theorem readStep_not_header (s : Reading) (h : isHeader key l = false) :
    (isContinuation l = true ∧
      readStep key s l = (if s.2 then s.1.map (· ++ ' ' :: trim l) else s.1, s.2)) ∨
    (isContinuation l = false ∧ splitOnce l ':' = none ∧ readStep key s l = s) ∨
    (isContinuation l = false ∧ (splitOnce l ':').isSome = true ∧
      readStep key s l = (s.1, false)) := by
  cases hc : isContinuation l with
  | true => exact Or.inl ⟨rfl, if_pos hc⟩
  | false =>
    have hstep : readStep key s l = match splitOnce l ':' with
        | none => s
        | some (name, value) =>
          if toAsciiLowercase (trim name) = key then (some (trim value), true) else (s.1, false) :=
      if_neg (by simp [hc])
    cases hsplit : splitOnce l ':' with
    | none => exact Or.inr (Or.inl ⟨rfl, rfl, by rw [hstep, hsplit]⟩)
    | some pair =>
      have hkey : toAsciiLowercase (trim pair.1) ≠ key := by
        simpa [isHeader, hc, hsplit] using h
      exact Or.inr (Or.inr ⟨rfl, rfl, by rw [hstep, hsplit]; exact if_neg hkey⟩)

/-- Another header's lines leave the reading as it is. -/
theorem readLines_closed (h : ls.any (isHeader key) = false) :
    readLines key (o, false) ls = (o, false) := by
  induction ls with
  | nil => rfl
  | cons l ls ih =>
    rw [List.any_cons, Bool.or_eq_false_iff] at h
    have hstep : readStep key (o, false) l = (o, false) := by
      rcases readStep_not_header (o, false) h.1 with ⟨-, he⟩ | ⟨-, -, he⟩ | ⟨-, -, he⟩
      · exact he.trans (by simp)
      · exact he
      · exact he
    rw [readLines, List.foldl_cons, hstep]
    exact ih h.2

/-- The header read last goes on with the continuation lines. -/
theorem readLines_open (h : ls.any (isHeader key) = false) :
    (readLines key (o, true) ls).1 = o.map (· ++ continuation ls) := by
  induction ls generalizing o with
  | nil => cases o <;> simp [readLines, continuation]
  | cons l ls ih =>
    rw [List.any_cons, Bool.or_eq_false_iff] at h
    rw [readLines, List.foldl_cons, continuation]
    rcases readStep_not_header (o, true) h.1 with ⟨hc, he⟩ | ⟨hc, hsplit, he⟩ | ⟨hc, hsplit, he⟩
    · rw [he, if_pos hc, if_pos rfl]
      refine (ih h.2).trans ?_
      cases o <;> simp
    · rw [he, hc, hsplit]
      exact ih h.2
    · rw [he, hc, hsplit]
      refine (congrArg Prod.fst (readLines_closed h.2)).trans ?_
      cases o <;> simp

/-! ### Line endings -/

/-- The lines `ls'` are the lines `ls`, some of them without a carriage return at the end. -/
def SameLines (ls ls' : List Str) : Prop :=
  List.Forall₂ (fun l l' => l = l' ∨ l = l' ++ ['\r']) ls ls'

theorem isBlank_cr (l : Str) : isBlank (l ++ ['\r']) = isBlank l := by
  rw [isBlank, trim_append_right (List.forall_mem_singleton.mpr rfl), isBlank]

theorem trim_cr (l : Str) : trim (l ++ ['\r']) = trim l := trim_append_right (List.forall_mem_singleton.mpr rfl)

theorem isContinuation_cr (l : Str) : isContinuation (l ++ ['\r']) = isContinuation l := by
  cases l <;> simp [isContinuation]

theorem splitOnce_cr (l : Str) :
    splitOnce (l ++ ['\r']) ':' = (splitOnce l ':').map fun p => (p.1, p.2 ++ ['\r']) := by
  by_cases hc : ':' ∈ l
  · obtain ⟨a, b, rfl, ha⟩ := List.eq_append_cons_of_mem hc
    rw [splitOnce_append_cons ha, List.append_assoc, List.cons_append, splitOnce_append_cons ha]
    rfl
  · have hc' : ':' ∉ l ++ ['\r'] := by simp [hc]
    rw [splitOnce_eq_none.mpr hc, splitOnce_eq_none.mpr hc']
    rfl

theorem readStep_cr : readStep key s (l ++ ['\r']) = readStep key s l := by
  rw [readStep, readStep, isContinuation_cr, trim_cr, splitOnce_cr]
  split_ifs
  · rfl
  · rfl
  · cases splitOnce l ':' with
    | none => rfl
    | some pair => simp [trim_cr]

theorem SameLines.refl (ls : List Str) : SameLines ls ls := List.forall₂_same.mpr fun _ _ => Or.inl rfl

theorem SameLines.append {ms ms' : List Str} (h : SameLines ls ls') (h' : SameLines ms ms') :
    SameLines (ls ++ ms) (ls' ++ ms') := List.rel_append h h'

theorem SameLines.block (h : SameLines ls ls') : SameLines (block ls) (block ls') := by
  induction h with
  | nil => exact .nil
  | @cons l l' ls ls' hl h ih =>
    have hblank : isBlank l = isBlank l' := by
      rcases hl with rfl | rfl
      · rfl
      · exact isBlank_cr l'
    rw [Mbox.block, Mbox.block, List.takeWhile_cons, List.takeWhile_cons, hblank]
    split_ifs
    · exact .cons hl ih
    · exact .nil

theorem SameLines.readLines (h : SameLines ls ls') (s : Reading) :
    readLines key s ls = readLines key s ls' := by
  induction h generalizing s with
  | nil => rfl
  | @cons l l' ls ls' hl h ih =>
    have hstep : readStep key s l = readStep key s l' := by
      rcases hl with rfl | rfl
      · rfl
      · exact readStep_cr
    rw [Mbox.readLines, Mbox.readLines, List.foldl_cons, List.foldl_cons, hstep]
    exact ih _

theorem subjectOf_congr (h : SameLines ls ls') : subjectOf ls = subjectOf ls' := by
  rw [subjectOf, h.block.readLines, subjectOf]

theorem sameLines_ended (l : Str) : SameLines [l] [stripEnding (l ++ ['\n'])] := by
  refine .cons ?_ .nil
  rcases stripEnding_ended_cases l with ⟨he, -⟩ | ⟨l', rfl, he⟩
  · exact Or.inl he.symm
  · exact Or.inr (by rw [he])

theorem lines_ended (h : '\n' ∉ l) (t : Str) :
    lines (l ++ '\n' :: t) = stripEnding (l ++ ['\n']) :: lines t := by
  rw [List.append_cons, lines, rawLines_ended ⟨l, h, rfl⟩, List.map_cons, lines]

theorem sameLines_unlines (h : ∀ l ∈ ls, '\n' ∉ l) : SameLines ls (lines (unlines ls)) := by
  induction ls with
  | nil => exact .nil
  | cons l ls ih =>
    obtain ⟨hl, hls⟩ := List.forall_mem_cons.mp h
    rw [unlines_cons, lines_ended hl]
    exact (sameLines_ended l).append (ih hls)

theorem sameLines_append_newline {t : Str} (h : ¬Closed t) :
    SameLines (lines t) (lines (t ++ ['\n'])) := by
  induction t using lines_induction with
  | nil => exact absurd (Or.inl rfl) h
  | last t hne hnot =>
    rw [lines, rawLines_of_not_mem hne hnot, List.map_singleton, stripEnding_of_not_mem hnot,
      lines_ended hnot]
    exact sameLines_ended t
  | ended l t hl ih =>
    rw [List.append_assoc, lines_append hl.closed, lines_append hl.closed]
    exact (SameLines.refl _).append (ih fun ht => h (hl.closed.append ht))

theorem sameLines_ensureTrailingNewline {t : Str} (h : t ≠ []) :
    SameLines (lines t) (lines (ensureTrailingNewline t)) := by
  rw [ensureTrailingNewline]
  split_ifs with hlast
  · exact SameLines.refl _
  · exact sameLines_append_newline (not_or.mpr ⟨h, hlast⟩)

/-! ### The subject of a rendered patch -/

theorem trim_trimEnd (x : Str) : trim (trimEnd x) = trim x := by
  have hsplit := @List.rdropWhile_append_rtakeWhile _ isWhitespace x
  conv_rhs => rw [← hsplit]
  exact (trim_append_right fun c hc => List.mem_rtakeWhile_imp hc).symm

/-- The tag a subject is rendered with is taken off it again. -/
theorem cleanSubject_patch (x : Str) : cleanSubject (trim (" [PATCH] ".toList ++ x)) = trim x := by
  obtain ⟨z, hz⟩ : ∃ z, z = trimEnd (' ' :: x) := ⟨_, rfl⟩
  have hspace : trim z = trim x := by
    rw [hz, trim_trimEnd, ← List.singleton_append, trim_append_left (List.forall_mem_singleton.mpr rfl)]
  have htrim : trim (" [PATCH] ".toList ++ x) = '[' :: ("PATCH".toList ++ ']' :: z) := by
    have hcut : " [PATCH] ".toList ++ x = [' '] ++ ("[PATCH".toList ++ ']' :: ' ' :: x) := rfl
    have hstart : trimStart ("[PATCH".toList ++ ']' :: ' ' :: x) =
        "[PATCH".toList ++ ']' :: ' ' :: x := rfl
    rw [hcut, trim_append_left (List.forall_mem_singleton.mpr rfl), trim, hstart, trimEnd_append_cons (by decide), ← hz]
    rfl
  have hself : trim ('[' :: ("PATCH".toList ++ ']' :: z)) = '[' :: ("PATCH".toList ++ ']' :: z) := by
    rw [← htrim, trim_trim]
  have hpre : stripPrefix ('[' :: ("PATCH".toList ++ ']' :: z)) ['['] =
      some ("PATCH".toList ++ ']' :: z) := stripPrefix_eq_some.mpr rfl
  have hfind : find ("PATCH".toList ++ ']' :: z) ']' = some 5 := find_append_cons (by decide)
  rw [htrim, cleanSubject, hself, hpre]
  dsimp only
  rw [hfind]
  dsimp only
  have htake : ("PATCH".toList ++ ']' :: z).take 5 = "PATCH".toList := rfl
  have hdrop : ("PATCH".toList ++ ']' :: z).drop 6 = z := rfl
  rw [htake, hdrop, if_pos (by decide), hspace]

/-- A line of the block that begins a header. -/
theorem readStep_named {name value : Str} (s : Reading) (hname : ':' ∉ name)
    (hc : isContinuation (name ++ ':' :: value) = false) :
    readStep key s (name ++ ':' :: value) =
      if toAsciiLowercase (trim name) = key then (some (trim value), true) else (s.1, false) := by
  rw [readStep, hc, splitOnce_append_cons hname]
  rfl

theorem block_cons (h : isBlank l = false) : block (l :: ls) = l :: block ls :=
  List.takeWhile_cons_of_pos (by simp [h])

theorem isBlank_eq_false {c : Char} (hmem : c ∈ l) (hc : isWhitespace c = false) :
    isBlank l = false := by
  by_contra hblank
  rw [Bool.not_eq_false, isBlank, List.isEmpty_iff, trim, trimEnd, List.rdropWhile_eq_nil_iff]
    at hblank
  have hstart : trimStart l = [] := by
    by_contra hne
    obtain ⟨d, t, hd⟩ := List.exists_cons_of_ne_nil hne
    have := List.head?_dropWhile_not isWhitespace l
    rw [← trimStart, hd] at this
    rw [hd] at hblank
    exact absurd (hblank d (List.mem_cons_self ..)) (by simpa using this)
  have := List.dropWhile_eq_nil_iff.mp hstart c hmem
  rw [hc] at this
  cases this

/-- The trimmed subject is what a header block is read to name. -/
theorem subjectOf_headerBlock {author date subject x : Str} (hauthor : '\n' ∉ author)
    (hdate : '\n' ∉ date) (hsubject : '\n' ∉ subject) :
    subjectOf (lines (headerBlock author date subject ++ x)) = some (trim subject) := by
  have hunlines : headerBlock author date subject = unlines ["From: ".toList ++ author,
      "Date: ".toList ++ date, "Subject: [PATCH] ".toList ++ subject, []] := by
    unfold headerBlock
    simp only [unlines_cons, unlines_nil, List.append_assoc, List.cons_append, List.nil_append]
  have hlines : SameLines (["From: ".toList ++ author, "Date: ".toList ++ date,
      "Subject: [PATCH] ".toList ++ subject, []] ++ lines x)
      (lines (headerBlock author date subject ++ x)) := by
    rw [hunlines, lines_append (unlines_closed _)]
    exact (sameLines_unlines (by simp [hauthor, hdate, hsubject])).append (.refl _)
  have hblank1 : isBlank ("From: ".toList ++ author) = false :=
    isBlank_eq_false (c := 'F') (List.mem_append_left _ (by decide)) (by decide)
  have hblank2 : isBlank ("Date: ".toList ++ date) = false :=
    isBlank_eq_false (c := 'D') (List.mem_append_left _ (by decide)) (by decide)
  have hblank3 : isBlank ("Subject: [PATCH] ".toList ++ subject) = false :=
    isBlank_eq_false (c := 'S') (List.mem_append_left _ (by decide)) (by decide)
  have hblock : block (["From: ".toList ++ author, "Date: ".toList ++ date,
      "Subject: [PATCH] ".toList ++ subject, []] ++ lines x) = ["From: ".toList ++ author,
      "Date: ".toList ++ date, "Subject: [PATCH] ".toList ++ subject] := by
    rw [List.cons_append, List.cons_append, List.cons_append, block_cons hblank1,
      block_cons hblank2, block_cons hblank3]
    rfl
  have hsplit1 : "From: ".toList ++ author = "From".toList ++ ':' :: (' ' :: author) := rfl
  have hsplit2 : "Date: ".toList ++ date = "Date".toList ++ ':' :: (' ' :: date) := rfl
  have hsplit3 : "Subject: [PATCH] ".toList ++ subject =
      "Subject".toList ++ ':' :: (" [PATCH] ".toList ++ subject) := rfl
  rw [← subjectOf_congr hlines, subjectOf, hblock, readLines, List.foldl_cons, List.foldl_cons,
    List.foldl_cons, List.foldl_nil, hsplit1, hsplit2, hsplit3]
  rw [readStep_named _ (by decide) (by rfl), readStep_named _ (by decide) (by rfl),
    readStep_named _ (by decide) (by rfl), if_pos (by decide), Option.map_some, cleanSubject_patch]

end

end Boot2Deb.Mbox
