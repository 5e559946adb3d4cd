import Mathlib

/-!
# References of RFC 3986

The five components of a reference, how it is resolved against a base (section 5.2), and the text
it is put together to (section 5.3). `removeDots` works on an input and an output buffer;
on a path of segments it is a walk over them (`removeDots_render`).
-/

namespace Boot2Deb.Uri

/-- A reference by its components. -/
structure Reference where
  scheme : Option (List Char)
  authority : Option (List Char)
  path : List Char
  query : Option (List Char)
  fragment : Option (List Char)
deriving DecidableEq

/-! ### Components -/

/-- What is neither in the query nor in the fragment. -/
def isHier (c : Char) : Bool := c ≠ '?' && c ≠ '#'

def isSchemeChar (c : Char) : Bool := c.isAlphanum || c = '+' || c = '-' || c = '.'

/-- The scheme of a text before its query: a letter and what follows, up to a colon. -/
def schemeOf (s : List Char) : Option (List Char) :=
  let name := s.takeWhile isSchemeChar
  if name.head?.any Char.isAlpha ∧ (s.drop name.length).head? = some ':' then some name else none

/-- The query of what stands behind the path. -/
def queryOf : List Char → Option (List Char)
  | '?' :: q => some (q.takeWhile (· ≠ '#'))
  | _ => none

def fragmentOf (tail : List Char) : Option (List Char) :=
  match tail.dropWhile (· ≠ '#') with
  | _ :: f => some f
  | [] => none

/-- The authority and the path of what stands behind the scheme. -/
def authorityPath : List Char → Option (List Char) × List Char
  | '/' :: '/' :: rest => (some (rest.takeWhile (· ≠ '/')), rest.dropWhile (· ≠ '/'))
  | path => (none, path)

def parse (s : List Char) : Reference :=
  let hier := s.takeWhile isHier
  let tail := s.dropWhile isHier
  let rest := match schemeOf hier with
    | some name => hier.drop (name.length + 1)
    | none => hier
  ⟨schemeOf hier, (authorityPath rest).1, (authorityPath rest).2, queryOf tail, fragmentOf tail⟩

/-! ### Resolution -/

/-- The output without its last segment and the slash before it. -/
def dropSegment (output : List Char) : List Char := (output.rdropWhile (· ≠ '/')).dropLast

/-- `remove_dot_segments`, in the steps 2A to 2E of section 5.2.4. -/
def removeDots (output input : List Char) : List Char :=
  if _hnil : input = [] then output
  else if ['.', '.', '/'] <+: input then removeDots output (input.drop 3)
  else if ['.', '/'] <+: input then removeDots output (input.drop 2)
  else if _hstay : ['/', '.', '/'] <+: input then removeDots output ('/' :: input.drop 3)
  else if input = ['/', '.'] then removeDots output ['/']
  else if _hup : ['/', '.', '.', '/'] <+: input then
    removeDots (dropSegment output) ('/' :: input.drop 4)
  else if input = ['/', '.', '.'] then removeDots (dropSegment output) ['/']
  else if input = ['.'] ∨ input = ['.', '.'] then output
  else
    removeDots (output ++ input.take 1 ++ (input.drop 1).takeWhile (· ≠ '/'))
      ((input.drop 1).dropWhile (· ≠ '/'))
termination_by input.length
decreasing_by
  · have := List.length_pos_of_ne_nil _hnil
    rw [List.length_drop]
    omega
  · have := List.length_pos_of_ne_nil _hnil
    rw [List.length_drop]
    omega
  · have := _hstay.length_le
    simp only [List.length_cons, List.length_nil, List.length_drop] at this ⊢
    omega
  · simp_all
  · have := _hup.length_le
    simp only [List.length_cons, List.length_nil, List.length_drop] at this ⊢
    omega
  · simp_all
  · have hlen := List.length_pos_of_ne_nil _hnil
    have := (List.dropWhile_sublist (· ≠ '/') (l := input.drop 1)).length_le
    rw [List.length_drop] at this
    omega

/-- `merge`: the path in the place of the last segment of the base's. -/
def merge (base : Reference) (path : List Char) : List Char :=
  if base.authority.isSome ∧ base.path = [] then '/' :: path
  else base.path.rdropWhile (· ≠ '/') ++ path

/-- The target of a reference, section 5.2.2. -/
def resolve (base r : Reference) : Reference :=
  match r.scheme, r.authority with
  | some _, _ => { r with path := removeDots [] r.path }
  | none, some _ => { r with scheme := base.scheme, path := removeDots [] r.path }
  | none, none =>
    if r.path = [] then { base with query := r.query.or base.query, fragment := r.fragment }
    else
      { base with
        path := removeDots [] (if r.path.head? = some '/' then r.path else merge base r.path)
        query := r.query
        fragment := r.fragment }

/-- The text of a reference. -/
def recompose (r : Reference) : List Char :=
  (r.scheme.map (· ++ [':'])).getD [] ++ (r.authority.map (['/', '/'] ++ ·)).getD [] ++ r.path ++
    (r.query.map ('?' :: ·)).getD [] ++ (r.fragment.map ('#' :: ·)).getD []

/-! ### Segments -/

/-- The path of segments, a slash before each. -/
def render (segs : List (List Char)) : List Char := segs.flatMap ('/' :: ·)

/-- The walk along the segments of a path: what is taken, and what is to come. -/
def walkDots : List (List Char) → List (List Char) → List (List Char)
  | out, [] => out
  | out, [s] =>
    if s = ['.'] then out ++ [[]] else if s = ['.', '.'] then out.dropLast ++ [[]] else out ++ [s]
  | out, s :: segs =>
    walkDots (if s = ['.'] then out else if s = ['.', '.'] then out.dropLast else out ++ [s]) segs

variable {out segs : List (List Char)} {s rest : List Char}

@[simp] theorem render_nil : render [] = [] := rfl

@[simp] theorem render_cons : render (s :: segs) = '/' :: (s ++ render segs) := by simp [render]

@[simp] theorem render_append (more : List (List Char)) :
    render (segs ++ more) = render segs ++ render more := by simp [render]

theorem dropSegment_render (h : ∀ s ∈ out, '/' ∉ s) :
    dropSegment (render out) = render out.dropLast := by
  rcases List.eq_nil_or_concat out with rfl | ⟨front, last, rfl⟩
  · rfl
  · have hlast : '/' ∉ last := h last (by simp)
    have hrender : render (front ++ [last]) = (render front ++ ['/']) ++ last := by simp
    have hdrop : ((render front ++ ['/']) ++ last).rdropWhile (· ≠ '/') = render front ++ ['/'] := by
      rw [List.rdropWhile, List.reverse_append, List.dropWhile_append_of_pos]
      · simp
      · intro c hc
        exact decide_eq_true fun he => hlast (he ▸ List.mem_reverse.mp hc)
    rw [List.concat_eq_append, hrender, dropSegment, hdrop]
    simp

/-- A rest of a path: nothing, or a slash first. -/
def Rooted (rest : List Char) : Prop := rest = [] ∨ ∃ more, rest = '/' :: more

theorem rooted_render (segs : List (List Char)) : Rooted (render segs) := by
  cases segs with
  | nil => exact .inl rfl
  | cons s segs => exact .inr ⟨_, render_cons⟩

/-- One segment is taken into the output. -/
theorem removeDots_segment (output : List Char) (hs : '/' ∉ s) (hstay : s ≠ ['.'])
    (hup : s ≠ ['.', '.']) (hrest : Rooted rest) :
    removeDots output ('/' :: (s ++ rest)) = removeDots (output ++ '/' :: s) rest := by
  have htake : (s ++ rest).takeWhile (· ≠ '/') = s ∧ (s ++ rest).dropWhile (· ≠ '/') = rest := by
    have hall : ∀ c ∈ s, decide (c ≠ '/') = true := fun c hc =>
      decide_eq_true fun he => hs (he ▸ hc)
    rw [List.takeWhile_append_of_pos hall, List.dropWhile_append_of_pos hall]
    rcases hrest with rfl | ⟨more, rfl⟩ <;> simp
  have hsegment : ∀ dots : List Char, '/' ∉ dots → s ≠ dots →
      ¬dots ++ ['/'] <+: s ++ rest ∧ s ++ rest ≠ dots := by
    intro dots hdots hne
    constructor
    · rintro ⟨more, h⟩
      rw [List.append_assoc, List.singleton_append] at h
      rcases hrest with rfl | ⟨more', rfl⟩
      · rw [List.append_nil] at h
        exact hs (h ▸ by simp)
      · have := congrArg (List.takeWhile (· ≠ '/')) h
        have hall : ∀ c ∈ dots, decide (c ≠ '/') = true := fun c hc =>
          decide_eq_true fun he => hdots (he ▸ hc)
        rw [htake.1, List.takeWhile_append_of_pos hall] at this
        exact hne (by simpa using this.symm)
    · rintro h
      rcases hrest with rfl | ⟨more', rfl⟩
      · exact hne (by simpa using h)
      · exact hdots (h ▸ by simp)
  obtain ⟨hstay1, hstay2⟩ := hsegment ['.'] (by simp) hstay
  obtain ⟨hup1, hup2⟩ := hsegment ['.', '.'] (by simp) hup
  rw [removeDots, dif_neg (List.cons_ne_nil _ _), if_neg (by simp), if_neg (by simp),
    dif_neg (by simpa using hstay1), if_neg (by simpa using hstay2), dif_neg (by simpa using hup1),
    if_neg (by simpa using hup2), if_neg (by simp)]
  simp only [List.drop_succ_cons, List.drop_zero, List.take_succ_cons, List.take_zero, htake.1,
    htake.2, List.append_assoc, List.singleton_append]

/-- The last slash of a path that ends in a dot segment. -/
theorem removeDots_slash (output : List Char) : removeDots output ['/'] = output ++ ['/'] := by
  have h := (@removeDots_segment [] []) output (by simp) (by simp) (by simp) (.inl rfl)
  rw [List.append_nil] at h
  rw [h, removeDots, dif_pos rfl]

theorem removeDots_stay (output : List Char) (more : List Char) :
    removeDots output ('/' :: '.' :: '/' :: more) = removeDots output ('/' :: more) := by
  rw [removeDots, dif_neg (List.cons_ne_nil _ _), if_neg (by simp), if_neg (by simp),
    dif_pos (by simp)]
  simp

theorem removeDots_up (output : List Char) (more : List Char) :
    removeDots output ('/' :: '.' :: '.' :: '/' :: more) =
      removeDots (dropSegment output) ('/' :: more) := by
  rw [removeDots, dif_neg (List.cons_ne_nil _ _), if_neg (by simp), if_neg (by simp),
    dif_neg (by simp), if_neg (by simp), dif_pos (by simp)]
  simp

theorem removeDots_last (output : List Char) :
    removeDots output ['/', '.'] = output ++ ['/'] ∧
      removeDots output ['/', '.', '.'] = dropSegment output ++ ['/'] := by
  constructor
  · rw [removeDots, dif_neg (List.cons_ne_nil _ _), if_neg (by simp), if_neg (by simp),
      dif_neg (by simp), if_pos rfl, removeDots_slash]
  · rw [removeDots, dif_neg (List.cons_ne_nil _ _), if_neg (by simp), if_neg (by simp),
      dif_neg (by simp), if_neg (by simp), dif_neg (by simp), if_pos rfl, removeDots_slash]

/-- On a path of segments, what the buffers do is the walk. -/
theorem removeDots_render (hout : ∀ s ∈ out, '/' ∉ s) (hsegs : ∀ s ∈ segs, '/' ∉ s) :
    removeDots (render out) (render segs) = render (walkDots out segs) := by
  have hdrop : ∀ s ∈ out.dropLast, '/' ∉ s := fun s hs => hout s (List.mem_of_mem_dropLast hs)
  induction segs generalizing out with
  | nil => rw [render_nil, removeDots, dif_pos rfl, walkDots]
  | cons s segs ih =>
    obtain ⟨hs, hsegs⟩ := List.forall_mem_cons.mp hsegs
    have htake : ∀ c ∈ out ++ [s], '/' ∉ c := by
      intro c hc
      rcases List.mem_append.mp hc with hc | hc
      · exact hout c hc
      · rwa [List.mem_singleton.mp hc]
    cases segs with
    | nil =>
      rw [walkDots, render_cons, render_nil, List.append_nil]
      split_ifs with hstay hup
      · rw [hstay, (removeDots_last _).1]
        simp
      · rw [hup, (removeDots_last _).2, dropSegment_render hout]
        simp
      · have h := (@removeDots_segment _ []) (render out) hs hstay hup (.inl rfl)
        rw [List.append_nil] at h
        rw [h, removeDots, dif_pos rfl]
        simp
    | cons t segs =>
      rw [walkDots, render_cons]
      · split_ifs with hstay hup
        · rw [hstay, ← ih hout hsegs hdrop, render_cons]
          exact removeDots_stay _ _
        · rw [hup, ← ih hdrop hsegs fun s hs => hdrop s (List.mem_of_mem_dropLast hs),
            ← dropSegment_render hout, render_cons]
          exact removeDots_up _ _
        · rw [removeDots_segment _ hs hstay hup (rooted_render _), ← ih htake hsegs fun c hc =>
            htake c (List.mem_of_mem_dropLast hc)]
          simp
      · simp

end Boot2Deb.Uri
