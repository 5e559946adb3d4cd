import Boot2Deb.Debdep.Relations

/-!
# Relation fields as Debian writes them

A `Relation` is one alternative of a dependency group, a field is its groups joined by commas and
each group its alternatives joined by bars. The parser of `Relations` reads every such field back:
`splitTop` returns the groups and the alternatives, `parseAtom` the name and the constraint.
-/

namespace Boot2Deb.Debdep
open Rust

/-- One alternative: `name[:qualifier] [(relation version)] [[restriction]]`. -/
structure Relation where
  name : Str
  qualifier : Option Str
  constraint : Option (Str × Str)
  restriction : Option Str
deriving DecidableEq, Repr

/-- The relations of the policy manual and the two deprecated spellings. -/
def relationNames : List Str :=
  ["<<".toList, "<=".toList, "=".toList, ">=".toList, ">>".toList, "<".toList, ">".toList]

def isBracket (c : Char) : Bool := c = '(' || c = ')' || c = '[' || c = ']'

/-- The characters names and architectures are made of, and more. -/
def isPlain (c : Char) : Bool :=
  !isWhitespace c && !isBracket c && c ≠ ',' && c ≠ '|' && c ≠ ':'

namespace Relation

structure WellFormed (r : Relation) : Prop where
  name_ne : r.name ≠ []
  name_plain : ∀ c ∈ r.name, isPlain c
  qualifier_plain : ∀ q ∈ r.qualifier, ∀ c ∈ q, isPlain c
  relation_mem : ∀ p ∈ r.constraint, p.1 ∈ relationNames
  version_head : ∀ p ∈ r.constraint, ∃ c v, p.2 = c :: v ∧ (c.isDigit || c.isAlpha)
  version_chars : ∀ p ∈ r.constraint, ∀ c ∈ p.2, isWhitespace c = false ∧ isBracket c = false
  restriction_chars : ∀ a ∈ r.restriction, ∀ c ∈ a, isBracket c = false

/-- The name with its architecture qualifier. -/
def head (r : Relation) : Str :=
  r.name ++ match r.qualifier with
    | some q => ':' :: q
    | none => []

def constraintText (r : Relation) : Str :=
  match r.constraint with
  | some (rel, version) => " (".toList ++ (rel ++ ' ' :: version) ++ [')']
  | none => []

def restrictionText (r : Relation) : Str :=
  match r.restriction with
  | some a => " [".toList ++ a ++ [']']
  | none => []

def text (r : Relation) : Str := r.head ++ r.constraintText ++ r.restrictionText

end Relation

/-- The texts with `glue` between them. -/
def joined (glue : Str) : List Str → Str
  | [] => []
  | [t] => t
  | t :: ts => t ++ glue ++ joined glue ts

def groupText (group : List Relation) : Str := joined " | ".toList (group.map Relation.text)

def fieldText (field : List (List Relation)) : Str := joined ", ".toList (field.map groupText)

/-! ### Splitting -/

/-- The loop of `split_top` takes `t` into the piece, at depth `d` before and `d'` behind it. -/
def Passes (sep : Char) (d d' : Int) (t : Str) : Prop :=
  ∀ piece rest, splitTopFrom sep d piece (t ++ rest) = splitTopFrom sep d' (piece ++ t) rest

namespace Passes
variable {sep c : Char} {d d' d'' : Int} {t t' : Str}

theorem nil : Passes sep d d [] := fun piece rest => by simp

theorem append (h : Passes sep d d' t) (h' : Passes sep d' d'' t') : Passes sep d d'' (t ++ t') :=
  fun piece rest => by rw [List.append_assoc, h, h', List.append_assoc]

theorem cons (h : Passes sep d d' [c]) (h' : Passes sep d' d'' t) : Passes sep d d'' (c :: t) :=
  h.append h'

/-- A character that is no bracket passes where it does not separate. -/
theorem char (hc : isBracket c = false) (hsep : c ≠ sep ∨ 0 < d) : Passes sep d d [c] := by
  intro piece rest
  simp only [isBracket, Bool.or_eq_false_iff, decide_eq_false_iff_not] at hc
  obtain ⟨⟨⟨h1, h2⟩, h3⟩, h4⟩ := hc
  have hnot : ¬(c = sep ∧ d ≤ 0) := fun h => hsep.elim (· h.1) (fun hd => by omega)
  rw [List.singleton_append, splitTopFrom, if_neg (by simp [h1, h3]), if_neg (by simp [h2, h4]),
    if_neg hnot]

theorem chars (ht : ∀ c ∈ t, isBracket c = false) (hsep : (∀ c ∈ t, c ≠ sep) ∨ 0 < d) :
    Passes sep d d t := by
  induction t with
  | nil => exact nil
  | cons c t ih =>
    obtain ⟨hc, ht⟩ := List.forall_mem_cons.mp ht
    refine cons (char hc (hsep.imp_left fun h => h c (List.mem_cons_self ..))) (ih ht ?_)
    exact hsep.imp_left fun h c hc => h c (List.mem_cons_of_mem _ hc)

theorem opening (hc : c = '(' ∨ c = '[') : Passes sep d (d + 1) [c] := fun piece rest => by
  rw [List.singleton_append, splitTopFrom, if_pos hc]

theorem closing (hc : c = ')' ∨ c = ']') : Passes sep (d + 1) d [c] := by
  intro piece rest
  have hne : ¬(c = '(' ∨ c = '[') := by
    rcases hc with rfl | rfl <;> decide
  rw [List.singleton_append, splitTopFrom, if_neg hne, if_pos hc, Int.add_sub_cancel]

end Passes

/-- A piece of a split: it stands between two separators as one, and survives trimming. -/
structure IsPiece (sep : Char) (t : Str) : Prop where
  passes : Passes sep 0 0 t
  ne_nil : t ≠ []
  trimmed : trim t = t

/-- Pieces joined by a separator with blanks around it are what a split gives back. -/
theorem splitTopFrom_joined {sep : Char} {lead trail : Str} (hlead : ∀ c ∈ lead, c = ' ')
    (htrail : ∀ c ∈ trail, c = ' ') (hsep : sep ≠ ' ' ∧ isBracket sep = false) {ts : List Str}
    (hts : ∀ t ∈ ts, IsPiece sep t) (hne : ts ≠ []) {piece : Str} (hpiece : ∀ c ∈ piece, c = ' ') :
    splitTopFrom sep 0 piece (joined (lead ++ sep :: trail) ts) = ts := by
  have hblank : ∀ {u : Str}, (∀ c ∈ u, c = ' ') → ∀ c ∈ u, isWhitespace c := fun hu c hc => by
    rw [hu c hc]; decide
  have hpass : ∀ {u : Str}, (∀ c ∈ u, c = ' ') → Passes sep 0 0 u := fun hu =>
    Passes.chars (fun c hc => by rw [hu c hc]; decide)
      (Or.inl fun c hc he => hsep.1 (he ▸ hu c hc))
  induction ts generalizing piece with
  | nil => exact absurd rfl hne
  | cons t ts ih =>
    obtain ⟨ht, hts⟩ := List.forall_mem_cons.mp hts
    cases ts with
    | nil =>
      have := ht.passes piece []
      rw [List.append_nil] at this
      rw [joined, this, splitTopFrom, trim_append_left (hblank hpiece), ht.trimmed]
    | cons u ts =>
      have hstep : ∀ rest, splitTopFrom sep 0 (piece ++ t ++ lead) (sep :: rest) =
          trim (piece ++ t ++ lead) :: splitTopFrom sep 0 [] rest := fun rest => by
        simp only [isBracket, Bool.or_eq_false_iff, decide_eq_false_iff_not] at hsep
        rw [splitTopFrom, if_neg (by simp [hsep]), if_neg (by simp [hsep]), if_pos (by simp)]
      have hjoin : joined (lead ++ sep :: trail) (t :: u :: ts) =
          t ++ (lead ++ sep :: (trail ++ joined (lead ++ sep :: trail) (u :: ts))) := by
        simp [joined]
      rw [hjoin, ht.passes, hpass hlead, hstep, hpass htrail, List.nil_append,
        ih hts (List.cons_ne_nil _ _) htrail, trim_append_right (hblank hlead),
        trim_append_left (hblank hpiece), ht.trimmed]

theorem splitTop_joined {sep : Char} (lead trail : Str) (hlead : ∀ c ∈ lead, c = ' ')
    (htrail : ∀ c ∈ trail, c = ' ') (hsep : sep ≠ ' ' ∧ isBracket sep = false) {ts : List Str}
    (hts : ∀ t ∈ ts, IsPiece sep t) : splitTop (joined (lead ++ sep :: trail) ts) sep = ts := by
  rcases eq_or_ne ts [] with rfl | hne
  · rfl
  · rw [splitTop, splitTopFrom_joined hlead htrail hsep hts hne (by simp)]
    exact List.filter_eq_self.mpr fun t ht => by simpa using (hts t ht).ne_nil

/-! ### Texts of relations -/

/-- A text with no blank at either end. -/
structure Solid (t : Str) : Prop where
  head : ∃ c, t.head? = some c ∧ isWhitespace c = false
  last : ∃ c, t.getLast? = some c ∧ isWhitespace c = false

namespace Solid
variable {t u : Str}

theorem trimmed (h : Solid t) : trim t = t := by
  obtain ⟨⟨c, hhead, hc⟩, d, hlast, hd⟩ := h
  exact trim_eq_self hc hd hhead hlast

theorem ne_nil (h : Solid t) : t ≠ [] := by
  rintro rfl
  obtain ⟨c, hc, -⟩ := h.head
  simp at hc

theorem of_chars (hne : t ≠ []) (h : ∀ c ∈ t, isWhitespace c = false) : Solid t :=
  ⟨⟨t.head hne, List.head?_eq_some_head hne, h _ (List.head_mem hne)⟩,
    t.getLast hne, List.getLast?_eq_some_getLast hne, h _ (List.getLast_mem hne)⟩

/-- Only the ends count. -/
theorem append (ht : Solid t) (hu : ∃ c, u.getLast? = some c ∧ isWhitespace c = false) :
    Solid (t ++ u) := by
  obtain ⟨c, hc, hws⟩ := ht.head
  obtain ⟨d, hd, hwsd⟩ := hu
  exact ⟨⟨c, by simp [hc], hws⟩, d, by simp [hd], hwsd⟩

theorem joined {glue : Str} {ts : List Str} (hne : ts ≠ []) (h : ∀ t ∈ ts, Solid t) :
    Solid (joined glue ts) := by
  induction ts with
  | nil => exact absurd rfl hne
  | cons t ts ih =>
    obtain ⟨ht, hts⟩ := List.forall_mem_cons.mp h
    cases ts with
    | nil => exact ht
    | cons u ts =>
      obtain ⟨c, hc, hws⟩ := (ih (List.cons_ne_nil _ _) hts).last
      show Solid (t ++ glue ++ Debdep.joined glue (u :: ts))
      rw [List.append_assoc]
      exact ht.append ⟨c, by simp [hc], hws⟩

end Solid

theorem isPlain_iff {c : Char} : isPlain c = true ↔
    isWhitespace c = false ∧ isBracket c = false ∧ c ≠ ',' ∧ c ≠ '|' ∧ c ≠ ':' := by
  simp [isPlain, and_assoc]

theorem relationNames_chars {rel : Str} (h : rel ∈ relationNames) : rel ≠ [] ∧
    ∀ c ∈ rel, isWhitespace c = false ∧ isBracket c = false ∧ (c.isDigit || c.isAlpha) = false := by
  have hall : ∀ rel ∈ relationNames, rel ≠ [] ∧ rel.all (fun c =>
      !isWhitespace c && !isBracket c && !(c.isDigit || c.isAlpha)) = true := by decide
  refine ⟨(hall rel h).1, fun c hc => ?_⟩
  simpa [and_assoc] using List.all_eq_true.mp (hall rel h).2 c hc

namespace Relation
variable {r : Relation}

theorem head_eq (r : Relation) : r.head = r.name ++ (r.qualifier.map (':' :: ·)).getD [] := by
  rw [head]
  cases r.qualifier <;> rfl

/-- What a character of the head is not. -/
theorem WellFormed.head_chars (h : r.WellFormed) : ∀ c ∈ r.head,
    isWhitespace c = false ∧ isBracket c = false ∧ c ≠ ',' ∧ c ≠ '|' := by
  intro c hc
  rw [head_eq, List.mem_append] at hc
  rcases hc with hc | hc
  · obtain ⟨h1, h2, h3, h4, -⟩ := isPlain_iff.mp (h.name_plain c hc)
    exact ⟨h1, h2, h3, h4⟩
  · cases hq : r.qualifier with
    | none => simp [hq] at hc
    | some q =>
      rw [hq] at hc
      rcases List.mem_cons.mp hc with rfl | hc
      · decide
      · obtain ⟨h1, h2, h3, h4, -⟩ := isPlain_iff.mp (h.qualifier_plain q (by simp [hq]) c hc)
        exact ⟨h1, h2, h3, h4⟩

theorem WellFormed.head_ne_nil (h : r.WellFormed) : r.head ≠ [] := by
  rw [head_eq]
  simp [h.name_ne]

theorem WellFormed.head_solid (h : r.WellFormed) : Solid r.head :=
  Solid.of_chars h.head_ne_nil fun c hc => (h.head_chars c hc).1

theorem WellFormed.head_name (h : r.WellFormed) : r.head.takeWhile (· ≠ ':') = r.name := by
  have hall : ∀ c ∈ r.name, decide (c ≠ ':') = true := fun c hc =>
    decide_eq_true (isPlain_iff.mp (h.name_plain c hc)).2.2.2.2
  rw [head_eq, List.takeWhile_append_of_pos hall]
  cases r.qualifier <;> simp

/-- The version as it stands in the parentheses. -/
theorem WellFormed.body_solid (h : r.WellFormed) {rel version : Str}
    (hc : r.constraint = some (rel, version)) : Solid (rel ++ ' ' :: version) := by
  obtain ⟨hne, hrel⟩ := relationNames_chars (h.relation_mem _ hc)
  obtain ⟨c, v, rfl, -⟩ := h.version_head _ hc
  have hchars := h.version_chars _ hc
  obtain ⟨d, hd, hws⟩ := (Solid.of_chars (List.cons_ne_nil c v) fun c hc => (hchars c hc).1).last
  exact (Solid.of_chars hne fun c hc => (hrel c hc).1).append
    ⟨d, by rw [List.getLast?_cons_cons]; exact hd, hws⟩

theorem WellFormed.parseConstraint (h : r.WellFormed) {rel version : Str}
    (hc : r.constraint = some (rel, version)) :
    parseConstraint (rel ++ ' ' :: version) = (rel, version) := by
  obtain ⟨hne, hrel⟩ := relationNames_chars (h.relation_mem _ hc)
  obtain ⟨c, v, rfl, halnum⟩ := h.version_head _ hc
  have hversion : Solid (c :: v) :=
    Solid.of_chars (List.cons_ne_nil c v) fun d hd => (h.version_chars _ hc d hd).1
  have hidx : (rel ++ ' ' :: c :: v).findIdx? (fun c => c.isDigit || c.isAlpha) =
      some (rel ++ [' ']).length := by
    have hnone : (rel ++ [' ']).findIdx? (fun c => c.isDigit || c.isAlpha) = none := by
      rw [List.findIdx?_eq_none_iff]
      intro d hd
      rcases List.mem_append.mp hd with hd | hd
      · exact (hrel d hd).2.2
      · rw [List.mem_singleton.mp hd]; decide
    rw [show rel ++ ' ' :: c :: v = (rel ++ [' ']) ++ c :: v by simp, List.findIdx?_append, hnone,
      List.findIdx?_cons, if_pos halnum]
    simp
  have hsplit : rel ++ ' ' :: c :: v = (rel ++ [' ']) ++ c :: v := by simp
  rw [Debdep.parseConstraint, hidx, Option.getD_some, hsplit, List.take_left, List.drop_left,
    trim_append_right (List.forall_mem_singleton.mpr rfl), (Solid.of_chars hne fun c hc => (hrel c hc).1).trimmed,
    hversion.trimmed]

theorem constraintText_cases (r : Relation) :
    (r.constraint = none ∧ r.constraintText = []) ∨ ∃ rel version,
      r.constraint = some (rel, version) ∧
        r.constraintText = " (".toList ++ (rel ++ ' ' :: version) ++ [')'] := by
  rw [constraintText]
  cases hc : r.constraint with
  | none => exact Or.inl ⟨rfl, rfl⟩
  | some p => exact Or.inr ⟨p.1, p.2, rfl, rfl⟩

theorem restrictionText_cases (r : Relation) :
    r.restrictionText = [] ∨ ∃ a, r.restriction = some a ∧
      r.restrictionText = " [".toList ++ a ++ [']'] := by
  rw [restrictionText]
  cases hr : r.restriction with
  | none => exact Or.inl rfl
  | some a => exact Or.inr ⟨a, rfl, rfl⟩

theorem WellFormed.body_chars (h : r.WellFormed) {rel version : Str}
    (hc : r.constraint = some (rel, version)) :
    ∀ c ∈ rel ++ ' ' :: version, isBracket c = false := by
  intro c hmem
  rcases List.mem_append.mp hmem with hmem | hmem
  · exact ((relationNames_chars (h.relation_mem _ hc)).2 c hmem).2.1
  · rcases List.mem_cons.mp hmem with rfl | hmem
    · decide
    · exact (h.version_chars _ hc c hmem).2

theorem WellFormed.text_solid (h : r.WellFormed) : Solid r.text := by
  have hconstraint : Solid (r.head ++ r.constraintText) := by
    rcases r.constraintText_cases with ⟨-, he⟩ | ⟨rel, version, -, he⟩
    · rw [he, List.append_nil]
      exact h.head_solid
    · rw [he]
      exact h.head_solid.append ⟨')', List.getLast?_concat, by decide⟩
  rcases r.restrictionText_cases with he | ⟨a, -, he⟩
  · rw [text, he, List.append_nil]
    exact hconstraint
  · rw [text, he]
    exact hconstraint.append ⟨']', List.getLast?_concat, by decide⟩

theorem not_mem_of_bracket {u : Str} {c : Char} (hu : ∀ d ∈ u, isBracket d = false)
    (hc : isBracket c = true) : c ∉ u := fun hmem => by simp [hu _ hmem] at hc

/-- A text without its restriction is read as head and constraint, with blanks behind it too. -/
theorem WellFormed.splitConstraint_eq (h : r.WellFormed) {tail : Str}
    (htail : ∀ c ∈ tail, c = ' ') : ∃ blanks, (∀ c ∈ blanks, c = ' ') ∧
      splitConstraint (r.head ++ r.constraintText ++ tail) = (r.head ++ blanks, r.constraint) := by
  have hhead : ∀ c ∈ r.head, isBracket c = false := fun c hc => (h.head_chars c hc).2.1
  have hblank : ∀ c ∈ tail, isBracket c = false := fun c hc => by rw [htail c hc]; decide
  rcases r.constraintText_cases with ⟨hc, he⟩ | ⟨rel, version, hc, he⟩
  · have hnone : find (r.head ++ r.constraintText ++ tail) '(' = none := by
      rw [he, List.append_nil, find_eq_none, List.mem_append, not_or]
      exact ⟨not_mem_of_bracket hhead (by decide), not_mem_of_bracket hblank (by decide)⟩
    exact ⟨tail, htail, by rw [splitConstraint, hnone, he, hc, List.append_nil]⟩
  · have hbody := h.body_chars hc
    have htext : r.head ++ r.constraintText ++ tail =
        (r.head ++ [' ']) ++ '(' :: (rel ++ ' ' :: version ++ ')' :: tail) := by
      rw [he]; simp
    have hopen : find ((r.head ++ [' ']) ++ '(' :: (rel ++ ' ' :: version ++ ')' :: tail)) '(' =
        some (r.head ++ [' ']).length := by
      refine find_append_cons ?_
      rw [List.mem_append, not_or]
      exact ⟨not_mem_of_bracket hhead (by decide), by decide⟩
    have hclose : find ((r.head ++ [' ']) ++ '(' :: (rel ++ ' ' :: version ++ ')' :: tail)) ')' =
        some ((r.head ++ [' ']).length + 1 + (rel ++ ' ' :: version).length) := by
      have hshape : (r.head ++ [' ']) ++ '(' :: (rel ++ ' ' :: version ++ ')' :: tail) =
          (r.head ++ " (".toList ++ (rel ++ ' ' :: version)) ++ ')' :: tail := by simp
      rw [hshape, find_append_cons]
      · simp
        omega
      · simp only [List.mem_append, not_or]
        refine ⟨⟨not_mem_of_bracket hhead (by decide), by decide⟩, ?_⟩
        simpa using not_mem_of_bracket hbody (c := ')') (by decide)
    refine ⟨[' '], by simp, ?_⟩
    rw [htext, splitConstraint, hopen]
    simp only [hclose, Option.getD_some]
    have hmax : max ((r.head ++ [' ']).length + 1 + (rel ++ ' ' :: version).length)
        ((r.head ++ [' ']).length + 1) - ((r.head ++ [' ']).length + 1) =
          (rel ++ ' ' :: version).length := by omega
    have hdrop : ((r.head ++ [' ']) ++ '(' :: (rel ++ ' ' :: version ++ ')' :: tail)).drop
        ((r.head ++ [' ']).length + 1) = rel ++ ' ' :: version ++ ')' :: tail := by
      rw [List.drop_append]
      simp
    rw [hmax, hdrop, List.take_left, List.take_left, (h.body_solid hc).trimmed,
      h.parseConstraint hc, hc]

theorem WellFormed.withoutBrackets_text (h : r.WellFormed) : ∃ tail, (∀ c ∈ tail, c = ' ') ∧
    withoutBrackets r.text = r.head ++ r.constraintText ++ tail := by
  have hopen : '[' ∉ r.head ++ r.constraintText := by
    rw [List.mem_append, not_or]
    refine ⟨not_mem_of_bracket (fun c hc => (h.head_chars c hc).2.1) (by decide), ?_⟩
    rcases r.constraintText_cases with ⟨-, he⟩ | ⟨rel, version, hc, he⟩
    · simp [he]
    · rw [he]
      simp only [List.mem_append, not_or]
      refine ⟨⟨by decide, ?_⟩, by decide⟩
      simpa using not_mem_of_bracket (h.body_chars hc) (c := '[') (by decide)
  rcases r.restrictionText_cases with he | ⟨a, -, he⟩
  · refine ⟨[], by simp, ?_⟩
    rw [withoutBrackets, text, he, List.append_nil, find_eq_none.mpr hopen]
  · refine ⟨[' '], by simp, ?_⟩
    have hshape : r.head ++ r.constraintText ++ (" [".toList ++ a ++ [']']) =
        (r.head ++ r.constraintText ++ [' ']) ++ '[' :: (a ++ [']']) := by simp
    have hopen' : '[' ∉ r.head ++ r.constraintText ++ [' '] := by
      rw [List.mem_append, not_or]
      exact ⟨hopen, by decide⟩
    rw [withoutBrackets, text, he, hshape, find_append_cons hopen']
    exact List.take_left

/-- The parser reads an alternative back. -/
theorem WellFormed.parseAtom_text (h : r.WellFormed) : parseAtom r.text = (r.name, r.constraint) := by
  obtain ⟨tail, htail, hcut⟩ := h.withoutBrackets_text
  obtain ⟨blanks, hblanks, hsplit⟩ := h.splitConstraint_eq htail
  have hws : ∀ c ∈ blanks, isWhitespace c := fun c hc => by rw [hblanks c hc]; decide
  have hname : Solid r.name :=
    Solid.of_chars h.name_ne fun c hc => (isPlain_iff.mp (h.name_plain c hc)).1
  rw [parseAtom, h.text_solid.trimmed, hcut, hsplit]
  simp only [trim_append_right hws, h.head_solid.trimmed]
  rw [h.head_name, hname.trimmed]

theorem WellFormed.text_passes (h : r.WellFormed) {sep : Char} (hsep : sep = ',' ∨ sep = '|') :
    Passes sep 0 0 r.text := by
  have hhead : Passes sep 0 0 r.head := by
    refine Passes.chars (fun c hc => (h.head_chars c hc).2.1) (Or.inl fun c hc => ?_)
    obtain ⟨-, -, h1, h2⟩ := h.head_chars c hc
    rcases hsep with rfl | rfl
    · exact h1
    · exact h2
  have hspace : Passes sep 0 0 [' '] := by
    refine Passes.char (by decide) (Or.inl ?_)
    rcases hsep with rfl | rfl <;> decide
  have hconstraint : Passes sep 0 0 r.constraintText := by
    rcases r.constraintText_cases with ⟨-, he⟩ | ⟨rel, version, hc, he⟩
    · rw [he]; exact Passes.nil
    · rw [he]
      exact ((hspace.append (Passes.opening (Or.inl rfl))).append
        (Passes.chars (h.body_chars hc) (Or.inr Int.one_pos))).append
          (Passes.closing (Or.inl rfl))
  have hrestriction : Passes sep 0 0 r.restrictionText := by
    rcases r.restrictionText_cases with he | ⟨a, ha, he⟩
    · rw [he]; exact Passes.nil
    · rw [he]
      exact ((hspace.append (Passes.opening (Or.inr rfl))).append
        (Passes.chars (h.restriction_chars a ha) (Or.inr Int.one_pos))).append
          (Passes.closing (Or.inr rfl))
  exact (hhead.append hconstraint).append hrestriction

theorem WellFormed.text_isPiece (h : r.WellFormed) {sep : Char} (hsep : sep = ',' ∨ sep = '|') :
    IsPiece sep r.text :=
  ⟨h.text_passes hsep, h.text_solid.ne_nil, h.text_solid.trimmed⟩

end Relation

/-! ### Fields -/

theorem Passes.joined {sep : Char} {glue : Str} {ts : List Str} (hglue : Passes sep 0 0 glue)
    (hts : ∀ t ∈ ts, Passes sep 0 0 t) : Passes sep 0 0 (joined glue ts) := by
  induction ts with
  | nil => exact Passes.nil
  | cons t ts ih =>
    obtain ⟨ht, hts⟩ := List.forall_mem_cons.mp hts
    cases ts with
    | nil => exact ht
    | cons u ts => exact (ht.append hglue).append (ih hts)

/-- The alternatives of a group are read back. -/
theorem splitTop_groupText {group : List Relation} (h : ∀ r ∈ group, r.WellFormed) :
    splitTop (groupText group) '|' = group.map Relation.text := by
  refine splitTop_joined [' '] [' '] (by simp) (by simp) (by decide) ?_
  intro t ht
  obtain ⟨r, hr, rfl⟩ := List.mem_map.mp ht
  exact (h r hr).text_isPiece (Or.inr rfl)

/-- The groups of a field are read back. -/
theorem splitTop_fieldText {field : List (List Relation)} (hne : ∀ group ∈ field, group ≠ [])
    (h : ∀ group ∈ field, ∀ r ∈ group, r.WellFormed) :
    splitTop (fieldText field) ',' = field.map groupText := by
  have hsep : ',' ≠ ' ' ∧ isBracket ',' = false := by decide
  refine splitTop_joined [] [' '] (by simp) (by simp) hsep ?_
  intro t ht
  obtain ⟨group, hg, rfl⟩ := List.mem_map.mp ht
  have hsolid : Solid (groupText group) := by
    refine Solid.joined (by simpa using hne group hg) fun t ht => ?_
    obtain ⟨r, hr, rfl⟩ := List.mem_map.mp ht
    exact (h group hg r hr).text_solid
  refine ⟨Passes.joined ?_ fun t ht => ?_, hsolid.ne_nil, hsolid.trimmed⟩
  · exact Passes.chars (by simp [isBracket]) (Or.inl (by simp))
  · obtain ⟨r, hr, rfl⟩ := List.mem_map.mp ht
    exact (h group hg r hr).text_passes (Or.inl rfl)

end Boot2Deb.Debdep
