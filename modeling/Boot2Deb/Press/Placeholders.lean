import Boot2Deb.Error
import Boot2Deb.Rust.Outcome
import Boot2Deb.Press.Template

/-!
# The placeholders of a template (`engine/src/press/template.rs`)

`parse` cuts a text into what stands as it is and the values to fill in. It looks for two opening
braces from the left and steps over both where no reference follows, so an opening is seen only if
an even number of braces stands directly before it. A text that parses is expanded in full exactly
if no placeholder follows an odd number of braces (`expanded_iff`).
-/

namespace Boot2Deb.Press
open Rust

def OPEN : Str := ['{', '{']

def CLOSE : Str := ['}', '}']

def NAMESPACE : Str := "image.".toList

namespace ImageValue

/-- `ImageValue::ALL`. -/
def all : List ImageValue :=
  [hostname, device, description, arch, soc, bootMethod, suite, layout, kernel, recipe,
    rootfsPartuuid, rootfsUuid, seedPartuuid, diskGuid]

def asStr : ImageValue → Str
  | hostname => "hostname".toList
  | device => "device".toList
  | description => "description".toList
  | arch => "arch".toList
  | soc => "soc".toList
  | bootMethod => "boot_method".toList
  | suite => "suite".toList
  | layout => "layout".toList
  | kernel => "kernel".toList
  | recipe => "recipe".toList
  | rootfsPartuuid => "rootfs_partuuid".toList
  | rootfsUuid => "rootfs_uuid".toList
  | seedPartuuid => "seed_partuuid".toList
  | diskGuid => "disk_guid".toList

/-- The value of a name. -/
def parse (name : Str) : Option ImageValue := all.find? fun v => v.asStr = name

def vocabulary : Str := join ", ".toList (all.map fun v => NAMESPACE ++ v.asStr)

end ImageValue

namespace Template

/-- `segments.push` of a literal that is not empty. -/
def pushLiteral (segments : Template) (text : Str) : Template :=
  if text.isEmpty then segments else segments ++ [.literal text]

def unclosed : List Note :=
  [.text "a reference opens with `\x7b\x7bimage.` and never closes with `\x7d\x7d`"]

def unknown (name : Str) : List Note :=
  [.text "`\x7b\x7bimage.", .shown (asBytes name),
    .text "\x7d\x7d` names nothing this image knows about itself; the set is ",
    .shown (asBytes ImageValue.vocabulary)]

/-- The loop of `parse`: the segments so far and how many of them are references, the literal in
front, and what is left of the text. -/
def parseFrom (dest : Str) (segments : Template) (references : ℕ) (literal rest : Str) :
    Outcome EngineError (Template × ℕ) :=
  match hopen : cutBefore OPEN rest with
  | none => .ok (pushLiteral segments (literal ++ rest), references)
  | some (before, fromOpen) =>
    let afterOpen := fromOpen.drop OPEN.length
    have hafter : afterOpen.length < rest.length := by
      obtain ⟨rfl, tail, rfl⟩ := eq_of_cutBefore hopen
      simp only [afterOpen, OPEN, List.length_append, List.length_drop, List.length_cons]
      omega
    -- Only `image.` is claimed: anything else is text, and the scan goes on behind the two braces.
    match hns : stripPrefix (trimStart afterOpen) NAMESPACE with
    | none => parseFrom dest segments references (literal ++ before ++ OPEN) afterOpen
    | some afterNs =>
      match hclose : cutBefore CLOSE afterNs with
      | none => .err (.pressAddition (asBytes dest) unclosed)
      | some (spelled, fromClose) =>
        match ImageValue.parse (trim spelled) with
        | none => .err (.pressAddition (asBytes dest) (unknown (trim spelled)))
        | some value =>
          have hrest : (fromClose.drop CLOSE.length).length < rest.length := by
            have htrim : (trimStart afterOpen).length ≤ afterOpen.length :=
              (List.dropWhile_sublist _).length_le
            rw [stripPrefix_eq_some.mp hns, (eq_of_cutBefore hclose).1] at htrim
            simp only [List.length_append, List.length_drop] at htrim ⊢
            omega
          parseFrom dest (pushLiteral segments (literal ++ before) ++ [.value value])
            (references + 1) [] (fromClose.drop CLOSE.length)
termination_by rest.length
decreasing_by
  · exact hafter
  · exact hrest

/-- `Template::parse`: the segments, and how many references they hold. -/
def parse (text dest : Str) : Outcome EngineError (Template × ℕ) := parseFrom dest [] 0 [] text

end Template

/-! ### Placeholders -/

/-- The text of a placeholder of a value: `image.` and the name between two braces and two braces,
with white space around either. -/
def Placeholder (w : Str) (v : ImageValue) : Prop :=
  ∃ a b c : Str, (∀ x ∈ a ++ b ++ c, isWhitespace x) ∧
    w = OPEN ++ a ++ NAMESPACE ++ b ++ v.asStr ++ c ++ CLOSE

/-- A text that starts with an opening of the namespace. -/
def Opens (s : Str) : Prop :=
  ∃ a post : Str, (∀ x ∈ a, isWhitespace x) ∧ s = OPEN ++ a ++ NAMESPACE ++ post

/-- How many opening braces a text ends with. -/
def bracesBefore (s : Str) : ℕ := (s.reverse.takeWhile (· = '{')).length

/-- An opening behind an even number of braces that is no placeholder's. -/
def RefusedOpening (text : Str) : Prop :=
  ∃ pre s, text = pre ++ s ∧ Opens s ∧ Even (bracesBefore pre) ∧
    ∀ w v rest, s = w ++ rest → ¬ Placeholder w v

/-- A segment with the text it stands for. -/
def Spelled (piece : Segment × Str) : Prop :=
  match piece.1 with
  | .literal text => piece.2 = text
  | .value v => Placeholder piece.2 v

/-- The placeholder at a place of a text is one of the pieces. -/
def Filled (pieces : List (Segment × Str)) (pre w : Str) (v : ImageValue) : Prop :=
  ∃ front back, pieces = front ++ (.value v, w) :: back ∧ pre = (front.map Prod.snd).flatten

def Segment.isValue : Segment → Bool
  | .literal _ => false
  | .value _ => true

/-- The bytes a piece becomes: a placeholder the value it names, the rest of the text itself. -/
def fill (facts : ImageFacts) (piece : Segment × Str) : Str :=
  match piece.1 with
  | .literal _ => piece.2
  | .value v => facts.get v

/-- The segments are the text, piece by piece, every placeholder of the text is a piece of its own,
what is rendered is the text with the placeholders filled in, and so many are counted. -/
def Expands (text : Str) (segments : Template) (references : ℕ) : Prop :=
  ∃ pieces : List (Segment × Str), pieces.map Prod.fst = segments ∧
    text = (pieces.map Prod.snd).flatten ∧ (∀ piece ∈ pieces, Spelled piece) ∧
    (∀ pre w v post, text = pre ++ w ++ post → Placeholder w v → Filled pieces pre w v) ∧
    (∀ facts, segments.render facts = asBytes (pieces.flatMap (fill facts))) ∧
    references = segments.countP Segment.isValue

variable {v v' : ImageValue} {w w' s pre post rest text : Str}

/-! ### Reading a placeholder -/

theorem asStr_injective : ∀ v v' : ImageValue, v.asStr = v'.asStr → v = v' := by
  intro v v'
  cases v <;> cases v' <;> decide

theorem parse_asStr (v : ImageValue) : ImageValue.parse v.asStr = some v := by
  cases v <;> decide

theorem parse_eq_some {name : Str} (h : ImageValue.parse name = some v) : name = v.asStr :=
  (by simpa using List.find?_some h : v.asStr = name).symm

/-- What names and the namespace are spelled with is no white space and no brace. -/
theorem not_brace_of_lower {c : Char} (h : c.isLower || c == '_' || c == '.') :
    isWhitespace c = false ∧ c ≠ '{' ∧ c ≠ '}' := by
  have hrange : 0x20 < c.toNat ∧ c.toNat < 0x7b := by
    simp only [Bool.or_eq_true, beq_iff_eq] at h
    rcases h with (h | rfl) | rfl
    · have hlow : 'a'.val ≤ c.val ∧ c.val ≤ 'z'.val := by simpa [Char.isLower] using h
      have h1 : 'a'.toNat ≤ c.toNat := hlow.1
      have h2 : c.toNat ≤ 'z'.toNat := hlow.2
      exact ⟨lt_of_lt_of_le (by decide) h1, lt_of_le_of_lt h2 (by decide)⟩
    · decide
    · decide
  refine ⟨isWhitespace_of_graphic hrange.1 (by omega), ?_, ?_⟩
  · rintro rfl
    exact absurd hrange.2 (by decide)
  · rintro rfl
    exact absurd hrange.2 (by decide)

theorem chars_asStr (v : ImageValue) {c : Char} (hc : c ∈ v.asStr) :
    isWhitespace c = false ∧ c ≠ '{' ∧ c ≠ '}' := by
  have hall : v.asStr.all fun c => c.isLower || c == '_' || c == '.' := by cases v <;> rfl
  exact not_brace_of_lower (List.all_eq_true.mp hall c hc)

theorem chars_namespace {c : Char} (hc : c ∈ NAMESPACE) :
    isWhitespace c = false ∧ c ≠ '{' ∧ c ≠ '}' := by
  have hall : NAMESPACE.all fun c => c.isLower || c == '_' || c == '.' := rfl
  exact not_brace_of_lower (List.all_eq_true.mp hall c hc)

/-- Between its braces a placeholder has none. -/
theorem Placeholder.exists_middle (h : Placeholder w v) :
    ∃ m, w = OPEN ++ m ++ CLOSE ∧ '{' ∉ m ∧ '}' ∉ m := by
  obtain ⟨a, b, c, hwhite, rfl⟩ := h
  have hfree : ∀ x ∈ a ++ NAMESPACE ++ b ++ v.asStr ++ c, x ≠ '{' ∧ x ≠ '}' := by
    intro x hx
    have hcases : x ∈ a ++ b ++ c ∨ x ∈ NAMESPACE ∨ x ∈ v.asStr := by
      simp only [List.mem_append] at hx ⊢
      tauto
    rcases hcases with hx | hx | hx
    · constructor
      · rintro rfl
        exact absurd (hwhite _ hx) (by decide)
      · rintro rfl
        exact absurd (hwhite _ hx) (by decide)
    · exact (chars_namespace hx).2
    · exact (chars_asStr v hx).2
  exact ⟨a ++ NAMESPACE ++ b ++ v.asStr ++ c, by simp, fun h => (hfree _ h).1 rfl,
    fun h => (hfree _ h).2 rfl⟩

/-- What the scanner reads behind the braces of a placeholder. -/
theorem Placeholder.read (h : Placeholder w v) (rest : Str) :
    ∃ after afterNs spelled, w ++ rest = OPEN ++ after ∧
      stripPrefix (trimStart after) NAMESPACE = some afterNs ∧
      cutBefore CLOSE afterNs = some (spelled, CLOSE ++ rest) ∧
      ImageValue.parse (trim spelled) = some v := by
  obtain ⟨a, b, c, hwhite, rfl⟩ := h
  refine ⟨a ++ (NAMESPACE ++ (b ++ v.asStr ++ c ++ (CLOSE ++ rest))),
    b ++ v.asStr ++ c ++ (CLOSE ++ rest), b ++ v.asStr ++ c, by simp, ?_, ?_, ?_⟩
  · rw [stripPrefix_eq_some, trimStart_append_left fun x hx => hwhite x (by simp [hx])]
    rfl
  · have hnot : '}' ∉ b ++ v.asStr ++ c := by
      intro hmem
      simp only [List.mem_append] at hmem
      rcases hmem with (hmem | hmem) | hmem
      · exact absurd (hwhite '}' (by simp [hmem])) (by decide)
      · exact (chars_asStr v hmem).2.2 rfl
      · exact absurd (hwhite '}' (by simp [hmem])) (by decide)
    rw [CLOSE, cutBefore_append hnot]
    simp [cutBefore]
  · rw [List.append_assoc, trim_append_left fun x hx => hwhite x (by simp [hx]),
      trim_append_right fun x hx => hwhite x (by simp [hx]),
      trim_of_inked fun x hx => (chars_asStr v hx).1, parse_asStr]

/-- A text starts with one placeholder at most. -/
theorem Placeholder.unique (h : Placeholder w v) (h' : Placeholder w' v')
    (heq : w ++ post = w' ++ rest) : w = w' ∧ v = v' ∧ post = rest := by
  obtain ⟨after, afterNs, spelled, hopen, hns, hclose, hparse⟩ := h.read post
  obtain ⟨after', afterNs', spelled', hopen', hns', hclose', hparse'⟩ := h'.read rest
  rw [heq, hopen'] at hopen
  obtain rfl := List.append_cancel_left hopen
  rw [hns] at hns'
  cases hns'
  rw [hclose] at hclose'
  obtain ⟨rfl, hrest⟩ := Prod.mk.inj (Option.some.inj hclose')
  obtain rfl := List.append_cancel_left hrest
  rw [hparse] at hparse'
  cases hparse'
  exact ⟨List.append_cancel_right heq, rfl, rfl⟩

theorem Placeholder.opens (h : Placeholder w v) (post : Str) : Opens (w ++ post) := by
  obtain ⟨a, b, c, hwhite, rfl⟩ := h
  exact ⟨a, b ++ v.asStr ++ c ++ CLOSE ++ post, fun x hx => hwhite x (by simp [hx]), by simp⟩

/-- What is left and right of a string's trimmed middle. -/
theorem exists_trim (s : Str) : ∃ b c, (∀ x ∈ b ++ c, isWhitespace x) ∧ s = b ++ trim s ++ c := by
  refine ⟨s.takeWhile isWhitespace, (trimStart s).rtakeWhile isWhitespace, fun x hx => ?_, ?_⟩
  · rcases List.mem_append.mp hx with hx | hx
    · exact List.mem_takeWhile_imp hx
    · exact List.mem_rtakeWhile_imp hx
  · rw [List.append_assoc, trim, trimEnd, List.rdropWhile_append_rtakeWhile, trimStart,
      List.takeWhile_append_dropWhile]

/-- What the scanner reads as a reference is a placeholder. -/
theorem placeholder_of_read {after afterNs spelled fromClose : Str}
    (hns : stripPrefix (trimStart after) NAMESPACE = some afterNs)
    (hclose : cutBefore CLOSE afterNs = some (spelled, fromClose))
    (hparse : ImageValue.parse (trim spelled) = some v) :
    ∃ w, Placeholder w v ∧ OPEN ++ after = w ++ fromClose.drop CLOSE.length := by
  obtain ⟨rfl, tail, rfl⟩ := eq_of_cutBefore hclose
  obtain ⟨b, c, hbc, hspelled⟩ := exists_trim spelled
  rw [parse_eq_some hparse] at hspelled
  have hafter : after = after.takeWhile isWhitespace ++ trimStart after :=
    List.takeWhile_append_dropWhile.symm
  refine ⟨OPEN ++ after.takeWhile isWhitespace ++ NAMESPACE ++ b ++ v.asStr ++ c ++ CLOSE,
    ⟨_, b, c, fun x hx => ?_, rfl⟩, ?_⟩
  · rw [List.append_assoc] at hx
    rcases List.mem_append.mp hx with hx | hx
    · exact List.mem_takeWhile_imp hx
    · exact hbc x hx
  · rw [List.drop_left]
    conv_lhs => rw [hafter, stripPrefix_eq_some.mp hns, hspelled]
    simp

/-- An opening is where the scanner strips the namespace. -/
theorem opens_iff (after : Str) :
    Opens (OPEN ++ after) ↔ stripPrefix (trimStart after) NAMESPACE ≠ none := by
  rw [Option.ne_none_iff_exists']
  constructor
  · rintro ⟨a, post, ha, heq⟩
    simp only [List.append_assoc] at heq
    obtain rfl := List.append_cancel_left heq
    exact ⟨post, by rw [stripPrefix_eq_some, trimStart_append_left ha]; rfl⟩
  · rintro ⟨afterNs, hns⟩
    refine ⟨after.takeWhile isWhitespace, afterNs, fun x hx => List.mem_takeWhile_imp hx, ?_⟩
    rw [List.append_assoc, List.append_assoc, ← stripPrefix_eq_some.mp hns]
    exact congrArg _ List.takeWhile_append_dropWhile.symm

theorem Opens.exists_after (h : Opens s) : ∃ after, s = OPEN ++ after := by
  obtain ⟨a, post, -, rfl⟩ := h
  exact ⟨a ++ NAMESPACE ++ post, by simp⟩

/-- Behind an opening stands no third brace. -/
theorem Opens.head (h : Opens (OPEN ++ s)) : s.head? ≠ some '{' := by
  obtain ⟨a, post, ha, heq⟩ := h
  simp only [List.append_assoc] at heq
  obtain rfl := List.append_cancel_left heq
  cases a with
  | nil => simp [NAMESPACE]
  | cons x a =>
    rintro hx
    obtain rfl : x = '{' := Option.some.inj hx
    exact absurd (ha _ List.mem_cons_self) (by decide)

/-! ### The scan -/

theorem length_le_of_cutBefore {pat head tail x y : Str} (h : cutBefore pat s = some (head, tail))
    (hs : s = x ++ y) (hy : pat <+: y) : head.length ≤ x.length := by
  induction s generalizing head x with
  | nil =>
    rw [cutBefore] at h
    split_ifs at h
    cases h
    exact Nat.zero_le _
  | cons c s ih =>
    rw [cutBefore] at h
    split_ifs at h with hpat
    · cases h
      exact Nat.zero_le _
    · obtain ⟨⟨head', tail'⟩, hcut, heq⟩ := Option.map_eq_some_iff.mp h
      cases heq
      cases x with
      | nil =>
        obtain rfl : c :: s = y := hs
        exact absurd hy hpat
      | cons d x =>
        rw [List.length_cons, List.length_cons]
        exact Nat.succ_le_succ (ih hcut (List.cons.inj hs).2)

theorem cutBefore_eq_none {pat x y : Str} (h : cutBefore pat s = none) (hs : s = x ++ y) :
    ¬ pat <+: y := by
  intro hy
  induction s generalizing x with
  | nil =>
    obtain ⟨rfl, rfl⟩ := List.append_eq_nil_iff.mp hs.symm
    rw [cutBefore, if_pos hy] at h
    cases h
  | cons c s ih =>
    rw [cutBefore] at h
    split_ifs at h with hpat
    cases x with
    | nil =>
      obtain rfl : c :: s = y := hs
      exact hpat hy
    | cons d x => exact ih (Option.map_eq_none_iff.mp h) (List.cons.inj hs).2

theorem bracesBefore_concat (s : Str) : bracesBefore (s ++ ['{']) = bracesBefore s + 1 := by
  simp [bracesBefore]

/-- Braces are counted from the last character on that is none. -/
theorem bracesBefore_append_cons {c : Char} (h : c ≠ '{') (x y : Str) :
    bracesBefore (x ++ c :: y) = bracesBefore y := by
  have hrev : (x ++ c :: y).reverse = y.reverse ++ c :: x.reverse := by simp
  unfold bracesBefore
  rw [hrev]
  induction y.reverse with
  | nil =>
    rw [List.nil_append, List.takeWhile_cons_of_neg (by simpa using h)]
    rfl
  | cons d z ih =>
    rw [List.cons_append, List.takeWhile_cons, List.takeWhile_cons]
    split_ifs
    · rw [List.length_cons, List.length_cons, ih]
    · rfl

/-- What lies before the first two braces ends with none of its own. -/
theorem even_before {literal before fromOpen : Str} (heven : Even (bracesBefore literal))
    (hcut : cutBefore OPEN rest = some (before, fromOpen)) :
    Even (bracesBefore (literal ++ before)) := by
  rcases List.eq_nil_or_concat before with rfl | ⟨front, c, rfl⟩
  · rwa [List.append_nil]
  · obtain ⟨hrest, tail, htail⟩ := eq_of_cutBefore hcut
    have hc : c ≠ '{' := by
      rintro rfl
      have hlen := @length_le_of_cutBefore rest OPEN _ _ front ('{' :: fromOpen) hcut
        (by simp [hrest]) ⟨'{' :: tail, by rw [← htail]; rfl⟩
      simp at hlen
    rw [List.concat_eq_append, ← List.append_assoc, bracesBefore_append_cons hc]
    exact Even.zero

/-- The openings that start in the literal in front are behind an odd number of braces. -/
def Scanned (literal rest : Str) : Prop :=
  Even (bracesBefore literal) ∧ ∀ pre s, literal ++ rest = pre ++ s →
    pre.length < literal.length → Opens s → ¬ Even (bracesBefore pre)

theorem scanned_nil (rest : Str) : Scanned [] rest :=
  ⟨Even.zero, fun _ _ _ hlen => absurd hlen (Nat.not_lt_zero _)⟩

/-- An opening that starts in what is left of the text starts where it is cut, or behind. -/
theorem Scanned.length_le {literal before fromOpen : Str} (h : Scanned literal rest)
    (hcut : cutBefore OPEN rest = some (before, fromOpen)) (heq : literal ++ rest = pre ++ s)
    (hopens : Opens s) (heven : Even (bracesBefore pre)) :
    (literal ++ before).length ≤ pre.length := by
  rcases List.append_eq_append_iff.mp heq with ⟨x, rfl, hrest⟩ | ⟨x, rfl, hs⟩
  · obtain ⟨after, rfl⟩ := hopens.exists_after
    have hlen := length_le_of_cutBefore hcut hrest ⟨after, rfl⟩
    rw [List.length_append, List.length_append]
    omega
  · rcases List.eq_nil_or_concat x with rfl | ⟨y, c, rfl⟩
    · obtain ⟨after, rfl⟩ := hopens.exists_after
      have hlen : before.length ≤ 0 := 
        @length_le_of_cutBefore rest OPEN _ _ [] _ hcut hs.symm ⟨after, rfl⟩
      rw [List.append_nil, List.length_append]
      omega
    · refine absurd heven (h.2 pre s heq ?_ hopens)
      simp

/-- Two braces no reference follows are stepped over. -/
theorem Scanned.skip {literal before after : Str} (h : Scanned literal rest)
    (hcut : cutBefore OPEN rest = some (before, OPEN ++ after)) (hno : ¬ Opens (OPEN ++ after)) :
    Scanned (literal ++ before ++ OPEN) after := by
  have hbefore := even_before h.1 hcut
  have hopen : literal ++ before ++ OPEN = literal ++ before ++ ['{'] ++ ['{'] := by simp [OPEN]
  have htext : literal ++ before ++ OPEN ++ after = literal ++ rest := by
    rw [(eq_of_cutBefore hcut).1]
    simp
  refine ⟨?_, fun pre s heq hlen hopens heven => ?_⟩
  · rw [hopen, bracesBefore_concat, bracesBefore_concat]
    exact (Nat.even_add.mpr (iff_of_true hbefore (by decide)) : Even (_ + 2))
  · have hge := h.length_le hcut (htext.symm.trans heq) hopens heven
    rcases List.append_eq_append_iff.mp ((List.append_assoc _ _ _).symm.trans heq) with
      ⟨x, rfl, hs⟩ | ⟨x, hx, rfl⟩
    · rw [List.length_append, @List.length_append _ _ OPEN] at hlen
      have hx : x.length < 2 := by simpa [OPEN] using hlen
      match x, hx with
      | [], _ => exact hno (hs ▸ hopens)
      | [c], _ =>
        obtain ⟨rfl, -⟩ := List.cons.inj hs
        rw [bracesBefore_concat, Nat.even_add_one] at heven
        exact heven hbefore
    · obtain rfl : x = [] := by
        have hlen' := congrArg List.length hx
        rw [@List.length_append _ _ x] at hlen'
        exact List.length_eq_zero_iff.mp (by omega)
      exact hno hopens

/-- A literal as a piece, where it is not empty. -/
def lead (text : Str) : List (Segment × Str) :=
  if text.isEmpty then [] else [(.literal text, text)]

theorem pushLiteral_eq (segments : Template) (text : Str) :
    segments.pushLiteral text = segments ++ (lead text).map Prod.fst := by
  unfold Template.pushLiteral lead
  split_ifs <;> simp

theorem flatten_lead (text : Str) : ((lead text).map Prod.snd).flatten = text := by
  unfold lead
  split_ifs with h
  · exact (List.isEmpty_iff.mp h).symm
  · simp

theorem mem_lead {piece : Segment × Str} (h : piece ∈ lead text) : piece = (.literal text, text) := by
  unfold lead at h
  split_ifs at h
  · cases h
  · exact List.mem_singleton.mp h

theorem countP_lead (text : Str) : ((lead text).map Prod.fst).countP Segment.isValue = 0 := by
  rw [List.countP_eq_zero]
  intro segment hsegment
  obtain ⟨piece, hpiece, rfl⟩ := List.mem_map.mp hsegment
  rw [mem_lead hpiece]
  exact Bool.false_ne_true

/-- How a text is read: it is the pieces one after another, an opening behind an even number of
braces starts a value, and values start nowhere else. -/
structure Reading (text : Str) (pieces : List (Segment × Str)) : Prop where
  whole : text = (pieces.map Prod.snd).flatten
  spelled : ∀ piece ∈ pieces, Spelled piece
  every : ∀ pre s, text = pre ++ s → Opens s → Even (bracesBefore pre) →
    ∃ v w, Filled pieces pre w v
  even : ∀ pre w v, Filled pieces pre w v → Even (bracesBefore pre)

/-- A text without two braces in what is left of it is a literal. -/
theorem Reading.last {literal : Str} (h : Scanned literal rest)
    (hcut : cutBefore OPEN rest = none) : Reading (literal ++ rest) (lead (literal ++ rest)) where
  whole := (flatten_lead _).symm
  spelled piece hpiece := by
    rw [mem_lead hpiece]
    rfl
  every pre s heq hopens heven := by
    exfalso
    obtain ⟨after, hs⟩ := hopens.exists_after
    rcases List.append_eq_append_iff.mp heq with ⟨x, rfl, hrest⟩ | ⟨x, rfl, hx⟩
    · exact cutBefore_eq_none hcut hrest ⟨after, hs.symm⟩
    · rcases List.eq_nil_or_concat x with rfl | ⟨y, c, rfl⟩
      · exact @cutBefore_eq_none rest OPEN [] s hcut hx.symm ⟨after, hs.symm⟩
      · exact h.2 pre s heq (by simp) hopens heven
  even pre w v hfilled := by
    obtain ⟨front, back, hpieces, -⟩ := hfilled
    have hmem : (Segment.value v, w) ∈ lead (literal ++ rest) := by simp [hpieces]
    cases mem_lead hmem

/-- No opening starts within a placeholder. -/
theorem Placeholder.not_opens {x y : Str} (h : Placeholder (x ++ y) v) (hx : x ≠ []) (hy : y ≠ []) :
    ¬ Opens (y ++ rest) := by
  intro hopens
  obtain ⟨m, hw, hfree, -⟩ := h.exists_middle
  obtain ⟨after, hs⟩ := hopens.exists_after
  obtain ⟨c, y, rfl⟩ := List.exists_cons_of_ne_nil hy
  obtain ⟨rfl, htail⟩ := List.cons.inj hs
  have hmiddle : ∀ z, m ++ CLOSE = z ++ '{' :: y → False := by
    intro z hz
    have hmem : '{' ∈ m ++ CLOSE := hz ▸ by simp
    rcases List.mem_append.mp hmem with hmem | hmem
    · exact hfree hmem
    · exact absurd hmem (by decide)
  match x, hx with
  | [d], _ =>
    obtain ⟨-, rfl⟩ := List.cons.inj (List.cons.inj hw).2
    cases m with
    | nil => cases htail
    | cons b m =>
      obtain ⟨rfl, -⟩ := List.cons.inj htail
      exact hfree List.mem_cons_self
  | d :: e :: z, _ => exact hmiddle z (List.cons.inj (List.cons.inj hw).2).2.symm

theorem Placeholder.bracesBefore (h : Placeholder w v) (x y : Str) :
    bracesBefore (x ++ w ++ y) = Press.bracesBefore y := by
  obtain ⟨m, rfl, -⟩ := h.exists_middle
  have hsplit : x ++ (OPEN ++ m ++ CLOSE) ++ y = (x ++ OPEN ++ m ++ ['}']) ++ '}' :: y := by
    simp [CLOSE]
  rw [hsplit, bracesBefore_append_cons (by decide)]

/-- A placeholder behind what is scanned, and a reading of what follows it. -/
theorem Reading.value {literal before fromOpen : Str} {pieces : List (Segment × Str)}
    (hscan : Scanned literal (before ++ fromOpen))
    (hcut : cutBefore OPEN (before ++ fromOpen) = some (before, fromOpen))
    (hw : Placeholder w v) (hopen : fromOpen = w ++ rest) (h : Reading rest pieces) :
    Reading (literal ++ (before ++ fromOpen))
      (lead (literal ++ before) ++ (.value v, w) :: pieces) where
  whole := by
    rw [List.map_append, List.flatten_append, flatten_lead, List.map_cons, List.flatten_cons,
      ← h.whole, hopen, List.append_assoc]
  spelled piece hpiece := by
    rcases List.mem_append.mp hpiece with hpiece | hpiece
    · rw [mem_lead hpiece]
      rfl
    · rcases List.mem_cons.mp hpiece with rfl | hpiece
      · exact hw
      · exact h.spelled piece hpiece
  every pre s heq hopens heven := by
    obtain ⟨x, rfl⟩ : ∃ x, pre = literal ++ before ++ x := by
      have hlen := hscan.length_le hcut heq hopens heven
      rw [← List.append_assoc] at heq
      rcases List.append_eq_append_iff.mp heq with ⟨x, hx, -⟩ | ⟨x, hx, -⟩
      · exact ⟨x, hx⟩
      · have hlen' := congrArg List.length hx
        rw [@List.length_append _ _ x] at hlen'
        obtain rfl : x = [] := List.length_eq_zero_iff.mp (by omega)
        exact ⟨[], by rw [hx]; simp⟩
    rw [← List.append_assoc, List.append_assoc (literal ++ before) x] at heq
    have hws := List.append_cancel_left heq
    rw [hopen] at hws
    rcases eq_or_ne x [] with rfl | hx
    · exact ⟨v, w, lead (literal ++ before), pieces, rfl, by rw [flatten_lead, List.append_nil]⟩
    obtain ⟨y, rfl, hrest⟩ : ∃ y, x = w ++ y ∧ rest = y ++ s := by
      rcases List.append_eq_append_iff.mp hws with ⟨y, hy, hrest⟩ | ⟨y, rfl, rfl⟩
      · exact ⟨y, hy, hrest⟩
      · rcases eq_or_ne y [] with rfl | hy
        · exact ⟨[], by simp, by simp⟩
        · exact absurd hopens (hw.not_opens hx hy)
    rw [← List.append_assoc, hw.bracesBefore] at heven
    obtain ⟨v', w', front, back, rfl, rfl⟩ := h.every y s hrest hopens heven
    refine ⟨v', w', lead (literal ++ before) ++ (.value v, w) :: front, back, by simp, ?_⟩
    rw [List.map_append, List.flatten_append, flatten_lead, List.map_cons, List.flatten_cons]
  even pre w' v' hfilled := by
    obtain ⟨front, back, hpieces, rfl⟩ := hfilled
    have hbefore := even_before hscan.1 hcut
    rcases List.append_eq_append_iff.mp hpieces with ⟨x, rfl, hx⟩ | ⟨x, hlead, hx⟩
    · rw [List.map_append, List.flatten_append, flatten_lead]
      cases x with
      | nil => rwa [List.map_nil, List.flatten_nil, List.append_nil]
      | cons piece x =>
        obtain ⟨rfl, rfl⟩ := List.cons.inj hx
        rw [List.map_cons, List.flatten_cons, ← List.append_assoc, hw.bracesBefore]
        exact h.even _ w' v' ⟨x, back, rfl, rfl⟩
    · cases x with
      | nil =>
        rw [List.append_nil] at hlead
        rwa [← hlead, flatten_lead]
      | cons piece x =>
        obtain ⟨rfl, -⟩ := List.cons.inj hx
        have hmem : (Segment.value v', w') ∈ lead (literal ++ before) := by simp [hlead]
        cases mem_lead hmem

/-- What the loop gives is a reading; where it refuses there is an opening to refuse. -/
theorem parseFrom_spec {dest : Str} {segments : Template} {references : ℕ} {literal rest : Str}
    (h : Scanned literal rest) :
    (∃ pieces, Reading (literal ++ rest) pieces ∧
      Template.parseFrom dest segments references literal rest =
        .ok (segments ++ pieces.map Prod.fst,
          references + (pieces.map Prod.fst).countP Segment.isValue)) ∨
    (∃ e, Template.parseFrom dest segments references literal rest = .err e) ∧
      RefusedOpening (literal ++ rest) := by
  have hfrom : ∀ {rest before fromOpen : Str}, cutBefore OPEN rest = some (before, fromOpen) →
      rest = before ++ (OPEN ++ fromOpen.drop OPEN.length) := by
    intro rest before fromOpen hcut
    obtain ⟨rfl, tail, rfl⟩ := eq_of_cutBefore hcut
    rw [List.drop_left]
  fun_induction Template.parseFrom dest segments references literal rest with
  | case1 segments references literal rest hopen =>
    refine .inl ⟨lead (literal ++ rest), .last h hopen, ?_⟩
    rw [pushLiteral_eq, countP_lead, Nat.add_zero]
  | case2 segments references literal rest before fromOpen hopen afterOpen hafter hns ih =>
    have hrest := hfrom hopen
    have hcut : cutBefore OPEN rest = some (before, OPEN ++ afterOpen) := by
      rw [hopen, (List.append_cancel_left ((eq_of_cutBefore hopen).1.symm.trans hrest))]
    have hskip := h.skip hcut ((opens_iff _).not.mpr (not_not.mpr hns))
    have htext : literal ++ before ++ OPEN ++ afterOpen = literal ++ rest := by
      rw [hrest]
      simp [afterOpen]
    rw [← htext]
    exact ih hskip
  | case3 segments references literal rest before fromOpen hopen afterOpen hafter afterNs hns
      hclose =>
    refine .inr ⟨⟨_, rfl⟩, literal ++ before, OPEN ++ afterOpen, ?_, ?_, even_before h.1 hopen, ?_⟩
    · rw [hfrom hopen]
      simp [afterOpen]
    · rw [opens_iff, hns]
      exact Option.some_ne_none _
    · intro w v rest' hs hw
      obtain ⟨after, afterNs', spelled, hs', hns', hclose', -⟩ := hw.read rest'
      obtain rfl := List.append_cancel_left (hs.trans hs')
      rw [hns] at hns'
      cases hns'
      rw [hclose] at hclose'
      cases hclose'
  | case4 segments references literal rest before fromOpen hopen afterOpen hafter afterNs hns spelled
      fromClose hclose hparse =>
    refine .inr ⟨⟨_, rfl⟩, literal ++ before, OPEN ++ afterOpen, ?_, ?_, even_before h.1 hopen, ?_⟩
    · rw [hfrom hopen]
      simp [afterOpen]
    · rw [opens_iff, hns]
      exact Option.some_ne_none _
    · intro w v rest' hs hw
      obtain ⟨after, afterNs', spelled', hs', hns', hclose', hparse'⟩ := hw.read rest'
      obtain rfl := List.append_cancel_left (hs.trans hs')
      rw [hns] at hns'
      cases hns'
      rw [hclose] at hclose'
      cases hclose'
      rw [hparse] at hparse'
      cases hparse'
  | case5 segments references literal rest before fromOpen hopen afterOpen hafter afterNs hns spelled
      fromClose hclose value hparse hrest ih =>
    obtain ⟨w, hw, hopens⟩ := placeholder_of_read hns hclose hparse
    have hfromOpen : fromOpen = w ++ fromClose.drop CLOSE.length := by
      rw [← hopens]
      exact List.append_cancel_left ((eq_of_cutBefore hopen).1.symm.trans (hfrom hopen))
    obtain ⟨rfl, -⟩ := eq_of_cutBefore hopen
    rcases ih (scanned_nil _) with ⟨pieces, hreading, hok⟩ | ⟨herr, pre, s, heq, hs, heven, hno⟩
    · refine .inl ⟨_, .value h hopen hw hfromOpen hreading, ?_⟩
      rw [hok, pushLiteral_eq, List.map_append, List.countP_append, countP_lead, List.map_cons,
        List.countP_cons_of_pos rfl]
      simp only [List.append_assoc, List.singleton_append, Nat.zero_add, Nat.add_assoc, Nat.add_comm]
    · refine .inr ⟨herr, literal ++ before ++ w ++ pre, s, ?_, hs, ?_, hno⟩
      · rw [List.nil_append] at heq
        rw [hfromOpen, heq]
        simp
      · rwa [List.append_assoc (literal ++ before), ← List.append_assoc, hw.bracesBefore]

/-! ### What is expanded -/

/-- A text is spelled by segments in one way. -/
theorem pieces_unique {pieces pieces' : List (Segment × Str)}
    (hfst : pieces.map Prod.fst = pieces'.map Prod.fst)
    (hsnd : (pieces.map Prod.snd).flatten = (pieces'.map Prod.snd).flatten)
    (h : ∀ piece ∈ pieces, Spelled piece) (h' : ∀ piece ∈ pieces', Spelled piece) :
    pieces = pieces' := by
  induction pieces generalizing pieces' with
  | nil => exact (List.map_eq_nil_iff.mp hfst.symm).symm
  | cons piece pieces ih =>
    obtain ⟨segment, w⟩ := piece
    obtain ⟨⟨segment', w'⟩, pieces', rfl⟩ := List.exists_cons_of_ne_nil
      (fun hnil : pieces' = [] => by rw [hnil] at hfst; cases hfst)
    obtain ⟨rfl, htail⟩ := List.cons.inj hfst
    obtain ⟨hw, hrest⟩ := List.forall_mem_cons.mp h
    obtain ⟨hw', hrest'⟩ := List.forall_mem_cons.mp h'
    simp only [List.map_cons, List.flatten_cons] at hsnd
    have hsame : w = w' := by
      cases segment with
      | literal text => exact hw.trans hw'.symm
      | value v => exact (Placeholder.unique hw hw' hsnd).1
    subst hsame
    rw [ih htail (List.append_cancel_left hsnd) hrest hrest']

theorem render_eq {pieces : List (Segment × Str)} (h : ∀ piece ∈ pieces, Spelled piece)
    (facts : ImageFacts) :
    Template.render (pieces.map Prod.fst) facts = asBytes (pieces.flatMap (fill facts)) := by
  refine congrArg asBytes ?_
  rw [List.flatMap_map]
  refine List.flatMap_congr fun piece hpiece => ?_
  have hspelled := h piece hpiece
  obtain ⟨segment, w⟩ := piece
  cases segment with
  | literal text => exact hspelled.symm
  | value v => rfl

/-- Every placeholder of a text that parses is expanded, and nothing else, exactly if an opening is
refused or no placeholder stands behind an odd number of braces. -/
theorem expanded_iff (text dest : Str) :
    (∀ segments references, Template.parse text dest = .ok (segments, references) →
      Expands text segments references) ↔
    RefusedOpening text ∨ ∀ pre w v post, text = pre ++ w ++ post → Placeholder w v →
      Even (bracesBefore pre) := by
  rcases @parseFrom_spec dest [] 0 [] text (scanned_nil text) with
    ⟨pieces, hreading, hok⟩ | ⟨⟨e, herr⟩, hrefused⟩
  · rw [List.nil_append] at hreading
    have hok : Template.parse text dest = .ok (pieces.map Prod.fst,
        (pieces.map Prod.fst).countP Segment.isValue) := by
      rw [Template.parse, hok, List.nil_append, Nat.zero_add]
    constructor
    · intro h
      obtain ⟨pieces', hfst, hwhole, hspelled, hfilled, -⟩ := h _ _ hok
      obtain rfl := pieces_unique hfst (hwhole.symm.trans hreading.whole) hspelled hreading.spelled
      exact .inr fun pre w v post heq hw => hreading.even pre w v (hfilled pre w v post heq hw)
    · intro h segments references hparsed
      rw [hok] at hparsed
      cases hparsed
      refine ⟨pieces, rfl, hreading.whole, hreading.spelled, fun pre w v post heq hw => ?_,
        render_eq hreading.spelled, rfl⟩
      have hplaced : ∀ pre s, text = pre ++ s → Opens s → Even (bracesBefore pre) →
          ∃ v w rest, Filled pieces pre w v ∧ Placeholder w v ∧ s = w ++ rest := by
        intro pre s heq hopens heven
        obtain ⟨v, w, front, back, rfl, rfl⟩ := hreading.every pre s heq hopens heven
        have hw : Placeholder w v := hreading.spelled (.value v, w) (by simp)
        refine ⟨v, w, (back.map Prod.snd).flatten, ⟨front, back, rfl, rfl⟩, hw, ?_⟩
        refine List.append_cancel_left (heq.symm.trans (hreading.whole.trans ?_))
        simp
      rcases h with ⟨pre, s, heq, hopens, heven, hno⟩ | heven
      · obtain ⟨v, w, rest, -, hw, hs⟩ := hplaced pre s heq hopens heven
        exact absurd hw (hno w v rest hs)
      · rw [List.append_assoc] at heq
        obtain ⟨v', w', rest, hfilled, hw', hs⟩ := hplaced pre (w ++ post) heq (hw.opens post)
          (heven pre w v post (by rw [heq, List.append_assoc]) hw)
        obtain ⟨rfl, rfl, -⟩ := hw.unique hw' hs
        exact hfilled
  · refine iff_of_true (fun segments references hparsed => ?_) (.inl hrefused)
    rw [Template.parse, herr] at hparsed
    cases hparsed

/-- Three braces: the scan steps over two of them and expands nothing. -/
theorem odd_brace_literal : ¬ ∀ (text dest : Str) (segments : Template) (references : ℕ),
    Template.parse text dest = .ok (segments, references) → Expands text segments references := by
  intro h
  have hparse : Template.parse "\x7b\x7b\x7bimage.arch\x7d\x7d".toList [] =
      .ok ([.literal "\x7b\x7b\x7bimage.arch\x7d\x7d".toList], 0) := by
    simp [Template.parse, Template.parseFrom, cutBefore, OPEN, NAMESPACE, stripPrefix, trimStart,
      isWhitespace, Template.pushLiteral]
  obtain ⟨pieces, hfst, -, -, hfilled, -⟩ := h _ _ _ _ hparse
  obtain ⟨front, back, hpieces, -⟩ := hfilled ['{'] "\x7b\x7bimage.arch\x7d\x7d".toList .arch [] rfl
    ⟨[], [], [], by simp, rfl⟩
  rw [hpieces, List.map_append, List.map_cons] at hfst
  have hmem : Segment.value .arch ∈ [Segment.literal "\x7b\x7b\x7bimage.arch\x7d\x7d".toList] := by
    rw [← hfst]
    simp
  simp at hmem

end Boot2Deb.Press
