import Boot2Deb.Lib.Uri
import Boot2Deb.Rust.Outcome
import Boot2Deb.Rust.Pattern
import Boot2Deb.Rust.Text

/-!
# Bounded fetches (`engine/src/netfetch.rs`)

`fetch_bounded` follows redirects one at a time and checks the scheme of what it resolved. A
reference that names another scheme is resolved as a path, and so is one without a path, so what is
requested is always below the policy and is the target of the reference only for the others
(`resolveRedirect_spec`).
-/

namespace Boot2Deb.Engine.Netfetch
open Rust Uri

def MAX_REDIRECTS : ℕ := 5

structure FetchError where
  text : Str
deriving DecidableEq

/-! ### References -/

def HTTP : Str := "http://".toList

def HTTPS : Str := "https://".toList

def SEP : Str := "://".toList

/-- `require_http`. -/
def requireHttp (url : Str) : Outcome FetchError Unit :=
  if HTTPS <+: url ∨ HTTP <+: url then .ok ()
  else .err ⟨"refusing non-HTTP(S) URL: ".toList ++ url⟩

/-- `reject_downgrade`. -/
def rejectDowngrade (current next : Str) : Outcome FetchError Unit :=
  if HTTPS <+: current ∧ HTTP <+: next then
    .err ⟨"refusing HTTPS→HTTP downgrade redirect: ".toList ++ current ++ " -> ".toList ++ next⟩
  else .ok ()

/-- One segment of `normalize_dot_segments`. -/
def dotStep (out : List Str) (seg : Str) : List Str :=
  if seg = ['.'] then out
  else if seg = ['.', '.'] then if 1 < out.length then out.dropLast else out
  else out ++ [seg]

def normalizeDotSegments (path : Str) : Str :=
  let out := ((path.splitOn '/').drop 1).foldl dotStep [[]]
  let last := (path.splitOn '/').getLast?
  join ['/'] (if last = some ['.'] ∨ last = some ['.', '.'] then out ++ [[]] else out)

/-- `normalize_url_path`. -/
def normalizeUrlPath (url : Str) : Outcome FetchError Str :=
  match cutBefore SEP url with
  | none => .err ⟨"malformed URL: ".toList ++ url⟩
  | some (scheme, rest) =>
    let rest := rest.drop 3
    let found := rest.dropWhile (· ≠ '/')
    if found = [] then .ok url
    else .ok (scheme ++ SEP ++ rest.takeWhile (· ≠ '/') ++
      normalizeDotSegments (found.takeWhile isHier) ++ found.dropWhile isHier)

/-- `resolve_redirect`. -/
def resolveRedirect (base loc : Str) : Outcome FetchError Str :=
  match cutBefore SEP base with
  | none => .err ⟨"malformed base URL: ".toList ++ base⟩
  | some (scheme, rest) =>
    let front := scheme ++ SEP
    let hierarchical := (rest.drop 3).takeWhile isHier
    let authority := hierarchical.takeWhile (· ≠ '/')
    let path := hierarchical.dropWhile (· ≠ '/')
    normalizeUrlPath
      (if HTTP <+: loc ∨ HTTPS <+: loc then loc
      else match stripPrefix loc ['/', '/'] with
        | some rest => front ++ rest
        | none =>
          if loc.head? = some '/' then front ++ authority ++ loc
          -- an empty path merges as if it were the root
          else if path = [] then front ++ authority ++ '/' :: loc
          else front ++ authority ++ path.rdropWhile (· ≠ '/') ++ loc)

/-! ### The fetch -/

/-- What a server sends as a body: bytes, and how the connection broke behind them. -/
structure Body where
  bytes : Bytes
  broken : Option Str

/-- How one request ends. -/
inductive Answer where
  | failed (error : Str)
  | response (status : ℕ) (location : Option Bytes) (body : Body)

/-- The body under the size cap: `read_to_end` of a `take`. A vector holds `isize::MAX` bytes. -/
def readCapped (maxBytes : ℕ) (body : Body) : Outcome FetchError Bytes :=
  let limit := min (maxBytes + 1) (2 ^ 64 - 1)
  let bytes := body.bytes.take limit
  if isizeMax < bytes.length then .panic
  else match (if bytes.length < limit then body.broken else none) with
    | some e => .err ⟨"reading response body: ".toList ++ e⟩
    | none =>
      if maxBytes < bytes.length then
        .err ⟨"response body exceeds the ".toList ++ Nat.toDigits 10 maxBytes ++ "-byte cap".toList⟩
      else .ok bytes

/-- One answer: a body, or the URL to go on with. -/
def answered (maxBytes : ℕ) (current : Str) : Answer → Outcome FetchError (Bytes ⊕ Str)
  | .failed e => .err ⟨current ++ ": ".toList ++ e⟩
  | .response status location body =>
    if 300 ≤ status ∧ status < 400 then do
      let loc ← Outcome.okOr (location.bind fromUtf8)
        ⟨"redirect ".toList ++ Nat.toDigits 10 status ++ " without a Location header".toList⟩
      let next ← resolveRedirect current loc
      requireHttp next
      rejectDowngrade current next
      .ok (.inr next)
    else do
      .ok (.inl (← readCapped maxBytes body))

/-- The loop: the URLs requested, and how the fetch ends. -/
def hops (maxBytes : ℕ) : ℕ → (ℕ → Answer) → Str → List Str × Outcome FetchError Bytes
  | 0, _, _ => ([], .err ⟨"too many redirects (more than ".toList ++ Nat.toDigits 10 MAX_REDIRECTS ++
      ")".toList⟩)
  | n + 1, answers, current =>
    match answered maxBytes current (answers 0) with
    | .ok (.inl bytes) => ([current], .ok bytes)
    | .ok (.inr next) =>
      let (urls, result) := hops maxBytes n (fun k => answers (k + 1)) next
      (current :: urls, result)
    | .err e => ([current], .err e)
    | .panic => ([current], .panic)

/-- `fetch_bounded`, with what the `k`-th request is answered. -/
def fetchBounded (url : Str) (maxBytes : ℕ) (answers : ℕ → Answer) :
    List Str × Outcome FetchError Bytes :=
  match requireHttp url with
  | .ok () => hops maxBytes (MAX_REDIRECTS + 1) answers url
  | .err e => ([], .err e)
  | .panic => ([], .panic)

/-! ### Dot segments -/

theorem render_eq_join {segs : List Str} (h : segs ≠ []) : render segs = '/' :: join ['/'] segs := by
  induction segs with
  | nil => exact absurd rfl h
  | cons s segs ih =>
    cases segs with
    | nil => simp [render, join, List.intercalate]
    | cons t segs =>
      rw [join_cons _ _ (List.cons_ne_nil _ _), render_cons, ih (List.cons_ne_nil _ _)]
      simp

/-- The loop keeps the anchor it starts from. -/
theorem foldl_dotStep (out segs : List Str) : ∃ out', segs.foldl dotStep ([] :: out) = [] :: out' ∧
    (segs ≠ [] → walkDots out segs =
      if segs.getLast? = some ['.'] ∨ segs.getLast? = some ['.', '.'] then out' ++ [[]]
      else out') := by
  have hstep : ∀ (out : List Str) (seg : Str), dotStep ([] :: out) seg =
      [] :: (if seg = ['.'] then out else if seg = ['.', '.'] then out.dropLast else out ++ [seg]) := by
    intro out seg
    rw [dotStep]
    split_ifs with hstay hup hlong
    · rfl
    · cases out with
      | nil => exact absurd hlong (by simp)
      | cons s out => rfl
    · cases out with
      | nil => rfl
      | cons s out => exact absurd hlong (by simp)
    · rfl
  induction segs generalizing out with
  | nil => exact ⟨out, rfl, fun h => absurd rfl h⟩
  | cons s segs ih =>
    rw [List.foldl_cons, hstep]
    obtain ⟨out', hfold, hwalk⟩ := ih (if s = ['.'] then out else if s = ['.', '.'] then out.dropLast
      else out ++ [s])
    refine ⟨out', hfold, fun _ => ?_⟩
    cases segs with
    | nil =>
      obtain rfl := (List.cons.inj hfold).2
      rw [walkDots]
      by_cases hstay : s = ['.']
      · simp [hstay]
      · by_cases hup : s = ['.', '.'] <;> simp [hstay, hup]
    | cons t segs =>
      have hstep : walkDots out (s :: t :: segs) = walkDots (if s = ['.'] then out
          else if s = ['.', '.'] then out.dropLast else out ++ [s]) (t :: segs) := by
        rw [walkDots]
        simp
      rw [hstep, hwalk (List.cons_ne_nil _ _), List.getLast?_cons_cons]

/-- `normalize_dot_segments` is `remove_dot_segments` of the standard. -/
theorem normalizeDotSegments_eq (p : Str) :
    normalizeDotSegments ('/' :: p) = removeDots [] ('/' :: p) := by
  have hsplit : ('/' :: p).splitOn '/' = [] :: p.splitOn '/' :=
    (@List.splitOn_append_cons_self_of_not_mem _ []) List.not_mem_nil p
  have hne : p.splitOn '/' ≠ [] := List.splitOn_ne_nil _ _
  have hsegs : ∀ s ∈ p.splitOn '/', '/' ∉ s := fun s hs => not_mem_of_mem_splitOn hs
  have hpath : render (p.splitOn '/') = '/' :: p := by
    rw [render_eq_join hne, join, List.intercalate_splitOn]
  obtain ⟨out', hfold, hwalk⟩ := foldl_dotStep [] (p.splitOn '/')
  have hremove := (@removeDots_render []) (by simp) hsegs
  rw [hpath, render_nil, hwalk hne] at hremove
  rw [hremove, normalizeDotSegments, hsplit, List.drop_one, List.tail_cons, hfold,
    List.getLast?_cons_of_ne_nil hne]
  have hjoin : ∀ out : List Str, join ['/'] ([] :: out) = render out := by
    intro out
    cases out with
    | nil => rfl
    | cons s out =>
      rw [join_cons _ _ (List.cons_ne_nil _ _), render_eq_join (List.cons_ne_nil _ _)]
      rfl
  split_ifs
  · exact hjoin (out' ++ [[]])
  · exact hjoin out'

/-- A path without dot segments is kept. -/
theorem normalizeDotSegments_of_plain {p : Str}
    (h : ∀ s ∈ p.splitOn '/', s ≠ ['.'] ∧ s ≠ ['.', '.']) :
    normalizeDotSegments ('/' :: p) = '/' :: p := by
  have hsplit : ('/' :: p).splitOn '/' = [] :: p.splitOn '/' :=
    (@List.splitOn_append_cons_self_of_not_mem _ []) List.not_mem_nil p
  have hne : p.splitOn '/' ≠ [] := List.splitOn_ne_nil _ _
  have hfold : ∀ (segs out : List Str), (∀ s ∈ segs, s ≠ ['.'] ∧ s ≠ ['.', '.']) →
      segs.foldl dotStep out = out ++ segs := by
    intro segs
    induction segs with
    | nil => simp
    | cons s segs ih =>
      intro out hsegs
      obtain ⟨hs, hsegs⟩ := List.forall_mem_cons.mp hsegs
      rw [List.foldl_cons, dotStep, if_neg hs.1, if_neg hs.2, ih _ hsegs]
      simp
  have hlast : ¬((p.splitOn '/').getLast? = some ['.'] ∨
      (p.splitOn '/').getLast? = some ['.', '.']) := by
    rintro (hlast | hlast)
    · exact (h _ (List.mem_of_getLast? hlast)).1 rfl
    · exact (h _ (List.mem_of_getLast? hlast)).2 rfl
  rw [normalizeDotSegments, hsplit, List.drop_one, List.tail_cons, hfold _ _ h,
    List.getLast?_cons_of_ne_nil hne, if_neg hlast, List.singleton_append,
    join_cons _ _ hne, join, List.intercalate_splitOn]
  rfl

/-! ### Cutting a URL -/

variable {scheme base loc url x : Str}

/-- The two schemes that are fetched. -/
def IsHttp (scheme : Str) : Prop := scheme = "http".toList ∨ scheme = "https".toList

/-- A URL without its fragment. -/
def cutFragment (url : Str) : Str := url.takeWhile (· ≠ '#')

theorem cutBefore_http (h : IsHttp scheme) (x : Str) :
    cutBefore SEP (scheme ++ SEP ++ x) = some (scheme, SEP ++ x) := by
  rcases h with rfl | rfl <;> simp [cutBefore, SEP]

theorem exists_http (h : requireHttp url = .ok ()) :
    ∃ scheme x, IsHttp scheme ∧ url = scheme ++ SEP ++ x := by
  rw [requireHttp] at h
  split_ifs at h with hurl
  rcases hurl with ⟨x, rfl⟩ | ⟨x, rfl⟩
  · exact ⟨"https".toList, x, .inr rfl, rfl⟩
  · exact ⟨"http".toList, x, .inl rfl, rfl⟩

theorem requireHttp_of_scheme (h : IsHttp scheme) (x : Str) :
    requireHttp (scheme ++ SEP ++ x) = .ok () := by
  rw [requireHttp, if_pos]
  rcases h with rfl | rfl
  · exact .inr ⟨x, rfl⟩
  · exact .inl ⟨x, rfl⟩

/-- The authority and the path behind a scheme, and what is behind them. -/
def authorityOf (x : Str) : Str := (x.takeWhile isHier).takeWhile (· ≠ '/')

def pathOf (x : Str) : Str := (x.takeWhile isHier).dropWhile (· ≠ '/')

def tailOf (x : Str) : Str := x.dropWhile isHier

theorem parts_eq (x : Str) : authorityOf x ++ pathOf x ++ tailOf x = x := by
  rw [authorityOf, pathOf, tailOf, List.takeWhile_append_dropWhile, List.takeWhile_append_dropWhile]

/-- The scheme reaches to the colon behind it. -/
theorem schemeOf_http (h : IsHttp scheme) (x : Str) : schemeOf (scheme ++ SEP ++ x) = some scheme := by
  rcases h with rfl | rfl <;> simp [schemeOf, SEP, isSchemeChar, Char.isAlphanum, Char.isAlpha,
    Char.isUpper, Char.isLower, Char.isDigit]

theorem takeWhile_http (h : IsHttp scheme) (x : Str) :
    (scheme ++ SEP ++ x).takeWhile isHier = scheme ++ SEP ++ x.takeWhile isHier ∧
      (scheme ++ SEP ++ x).dropWhile isHier = x.dropWhile isHier := by
  rcases h with rfl | rfl <;> simp [SEP, isHier]

theorem parse_http (h : IsHttp scheme) (x : Str) : parse (scheme ++ SEP ++ x) =
    ⟨some scheme, some (authorityOf x), pathOf x, queryOf (tailOf x), fragmentOf (tailOf x)⟩ := by
  obtain ⟨htake, hdrop⟩ := takeWhile_http h x
  have hrest : (scheme ++ SEP ++ x.takeWhile isHier).drop (scheme.length + 1) =
      '/' :: '/' :: x.takeWhile isHier := by
    rcases h with rfl | rfl <;> simp [SEP]
  rw [parse, htake, hdrop, schemeOf_http h]
  simp only [hrest, authorityPath, authorityOf, pathOf, tailOf]

theorem not_isHier_tail : ∀ c ∈ (tailOf x).head?, isHier c = false := by
  intro c hc
  have := List.head?_dropWhile_not isHier x
  rw [tailOf] at hc
  rw [Option.mem_def.mp hc] at this
  simpa using this

/-- What a tail starts with, and its query. -/
theorem tail_cases (x : Str) : tailOf x = [] ∨ (∃ f, tailOf x = '#' :: f) ∨
    ∃ q, tailOf x = '?' :: q := by
  rcases h : tailOf x with - | ⟨c, rest⟩
  · exact .inl rfl
  · have hc := @not_isHier_tail x c (by rw [h]; rfl)
    simp only [isHier, Bool.and_eq_false_iff, decide_eq_false_iff_not, not_not] at hc
    rcases hc with rfl | rfl
    · exact .inr (.inr ⟨rest, rfl⟩)
    · exact .inr (.inl ⟨rest, rfl⟩)

theorem takeWhile_tail (x : Str) :
    (tailOf x).takeWhile (· ≠ '#') = ((queryOf (tailOf x)).map ('?' :: ·)).getD [] := by
  rcases tail_cases x with h | ⟨f, h⟩ | ⟨q, h⟩
  · simp [h, queryOf]
  · simp [h, queryOf]
  · simp [h, queryOf]

theorem hash_notMem_hier (x : Str) : ∀ c ∈ x.takeWhile isHier, decide (c ≠ '#') = true := by
  intro c hc
  have := List.mem_takeWhile_imp hc
  simp only [isHier, Bool.and_eq_true] at this
  exact this.2

/-- A URL up to its fragment. -/
theorem cutFragment_parts (h : IsHttp scheme) {authority path tail : Str}
    (hauthority : '#' ∉ authority) (hpath : '#' ∉ path) :
    cutFragment (scheme ++ SEP ++ authority ++ path ++ tail) =
      scheme ++ SEP ++ authority ++ path ++ tail.takeWhile (· ≠ '#') := by
  have hall : ∀ c ∈ scheme ++ SEP ++ authority ++ path, decide (c ≠ '#') = true := by
    intro c hc
    refine decide_eq_true fun he => ?_
    subst he
    rcases h with rfl | rfl <;> simp [SEP, hauthority, hpath] at hc
  rw [cutFragment, List.takeWhile_append_of_pos hall]

/-! ### Resolving -/

/-- A query that starts the text behind an authority and has no dot segments, as the path search
would read it. -/
def PlainQuery (q : Str) : Prop :=
  ∀ s ∈ (((q.dropWhile (· ≠ '/')).takeWhile (· ≠ '?')).drop 1).splitOn '/',
    s ≠ ['.'] ∧ s ≠ ['.', '.']

/-- The references that resolve as the standard says: without a scheme, or with `http://` or
`https://` in lower case; not without a path, unless an authority is named; and then without dot
segments in the query. -/
structure Faithful (loc : Str) : Prop where
  scheme : (parse loc).scheme.isSome → HTTP <+: loc ∨ HTTPS <+: loc
  path : (parse loc).authority.isSome ∨ (parse loc).path ≠ []
  query : (parse loc).authority.isSome → (parse loc).path = [] →
    ∀ q, (parse loc).query = some q → PlainQuery q

theorem hash_notMem_normalize {p : Str} (h : '#' ∉ p) : '#' ∉ normalizeDotSegments p := by
  have hfold : ∀ (segs out : List Str), (∀ s ∈ segs, '#' ∉ s) → (∀ s ∈ out, '#' ∉ s) →
      ∀ s ∈ segs.foldl dotStep out, '#' ∉ s := by
    intro segs
    induction segs with
    | nil => exact fun out _ hout => hout
    | cons seg segs ih =>
      intro out hsegs hout
      obtain ⟨hseg, hsegs⟩ := List.forall_mem_cons.mp hsegs
      refine ih _ hsegs fun s hs => ?_
      rw [dotStep] at hs
      split_ifs at hs
      · exact hout s hs
      · exact hout s (List.mem_of_mem_dropLast hs)
      · exact hout s hs
      · rcases List.mem_append.mp hs with hs | hs
        · exact hout s hs
        · rwa [List.mem_singleton.mp hs]
  have hsegs : ∀ s ∈ (p.splitOn '/').drop 1, '#' ∉ s := by
    intro s hs hc
    have hmem := List.mem_of_mem_drop hs
    rw [List.splitOn_eq_splitOnP] at hmem
    exact h (mem_of_mem_splitOnP hmem hc)
  have hout := hfold _ [[]] hsegs (by simp)
  have hjoin : ∀ out : List Str, (∀ s ∈ out, '#' ∉ s) → '#' ∉ join ['/'] out := by
    intro out
    induction out with
    | nil => simp [join]
    | cons s out ih =>
      intro hall
      obtain ⟨hs, hall⟩ := List.forall_mem_cons.mp hall
      cases out with
      | nil => simpa [join] using hs
      | cons t out =>
        rw [join_cons _ _ (List.cons_ne_nil _ _)]
        simp only [List.mem_append, List.mem_singleton, not_or]
        exact ⟨⟨hs, by decide⟩, ih hall⟩
  rw [normalizeDotSegments]
  refine hjoin _ ?_
  split_ifs
  · intro s hs
    rcases List.mem_append.mp hs with hs | hs
    · exact hout s hs
    · rw [List.mem_singleton.mp hs]
      exact List.not_mem_nil
  · exact hout

theorem slash_notMem_authority (x : Str) : '/' ∉ authorityOf x := by
  intro h
  simpa using List.mem_takeWhile_imp h

theorem hash_notMem_parts (x : Str) : '#' ∉ authorityOf x ∧ '#' ∉ pathOf x := by
  have hall : ∀ c ∈ x.takeWhile isHier, c ≠ '#' := fun c hc =>
    of_decide_eq_true (hash_notMem_hier x c hc)
  exact ⟨fun h => hall _ ((List.takeWhile_sublist _).mem h) rfl,
    fun h => hall _ ((List.dropWhile_sublist _).mem h) rfl⟩

theorem isHier_pathOf (x : Str) : ∀ c ∈ pathOf x, isHier c = true := fun _ hc =>
  List.mem_takeWhile_imp ((List.dropWhile_sublist _).mem hc)

theorem takeWhile_isHier_tail (x : Str) :
    (tailOf x).takeWhile isHier = [] ∧ (tailOf x).dropWhile isHier = tailOf x := by
  rcases tail_cases x with h | ⟨f, h⟩ | ⟨q, h⟩ <;> simp [h, isHier]

theorem pathOf_cases (x : Str) : pathOf x = [] ∨ ∃ p, pathOf x = '/' :: p := by
  rcases h : pathOf x with - | ⟨c, p⟩
  · exact .inl rfl
  · have hc := List.head?_dropWhile_not (fun c : Char => decide (c ≠ '/')) (x.takeWhile isHier)
    rw [← pathOf, h] at hc
    simp only [List.head?_cons, decide_eq_false_iff_not, not_not] at hc
    exact .inr ⟨p, by rw [hc]⟩

/-- Behind an authority without a path, the first slash is one of the query or the fragment. -/
theorem normalizeUrlPath_noPath (hscheme : IsHttp scheme) (hpath : pathOf x = [])
    (hplain : ∀ q, queryOf (tailOf x) = some q → PlainQuery q) :
    ∃ url, normalizeUrlPath (scheme ++ SEP ++ x) = .ok url ∧
      cutFragment url = scheme ++ SEP ++ authorityOf x ++ (tailOf x).takeWhile (· ≠ '#') := by
  have hx : x = authorityOf x ++ tailOf x := by
    have := parts_eq x
    rwa [hpath, List.append_nil, eq_comm] at this
  have hwhole : cutFragment (scheme ++ SEP ++ x) =
      scheme ++ SEP ++ authorityOf x ++ (tailOf x).takeWhile (· ≠ '#') := by
    have := @cutFragment_parts scheme hscheme (authorityOf x) [] (tailOf x)
      (hash_notMem_parts x).1 List.not_mem_nil
    rw [List.append_nil, List.append_assoc, ← hx] at this
    exact this
  have hauthority : ∀ c ∈ authorityOf x, decide (c ≠ '/') = true := fun c hc =>
    decide_eq_true fun he => slash_notMem_authority x (he ▸ hc)
  have htake : x.takeWhile (· ≠ '/') = authorityOf x ++ (tailOf x).takeWhile (· ≠ '/') := by
    conv_lhs => rw [hx]
    rw [List.takeWhile_append_of_pos hauthority]
  have hdrop : x.dropWhile (· ≠ '/') = (tailOf x).dropWhile (· ≠ '/') := by
    conv_lhs => rw [hx]
    rw [List.dropWhile_append_of_pos hauthority]
  have hrest : (SEP ++ x).drop 3 = x := rfl
  rw [normalizeUrlPath, cutBefore_http hscheme]
  simp only [hrest]
  by_cases hfound : x.dropWhile (· ≠ '/') = []
  · rw [if_pos hfound]
    exact ⟨_, rfl, hwhole⟩
  · rw [if_neg hfound]
    refine ⟨_, rfl, ?_⟩
    by_cases hhash : '#' ∈ (tailOf x).takeWhile (· ≠ '/')
    · -- the fragment starts before the slash, and only the fragment is rewritten
      have hcut : ∀ more : Str, cutFragment (scheme ++ SEP ++ (authorityOf x ++
          (tailOf x).takeWhile (· ≠ '/')) ++ more) =
            cutFragment (scheme ++ SEP ++ (authorityOf x ++ (tailOf x).takeWhile (· ≠ '/'))) := by
        intro more
        rw [cutFragment, List.takeWhile_append, if_neg]
        · rfl
        · intro hlen
          have := (List.takeWhile_prefix _).eq_of_length hlen
          have hmem : '#' ∈ scheme ++ SEP ++ (authorityOf x ++ (tailOf x).takeWhile (· ≠ '/')) := by
            simp only [List.mem_append]
            exact .inr (.inr hhash)
          rw [← this] at hmem
          simpa using List.mem_takeWhile_imp hmem
      rw [htake, List.append_assoc _ (normalizeDotSegments _), hcut, ← hwhole]
      conv_rhs => rw [hx, ← List.takeWhile_append_dropWhile (p := (· ≠ '/')) (l := tailOf x)]
      rw [← hcut ((tailOf x).dropWhile (· ≠ '/'))]
      simp only [List.append_assoc]
    · -- the slash is one of the query
      have hkept : normalizeDotSegments ((x.dropWhile (· ≠ '/')).takeWhile isHier) =
          (x.dropWhile (· ≠ '/')).takeWhile isHier := by
        rw [hdrop] at hfound ⊢
        rcases tail_cases x with h | ⟨f, h⟩ | ⟨t, h⟩
        · rw [h] at hfound
          exact absurd rfl hfound
        · rw [h] at hhash
          exact absurd (by simp) hhash
        · have hq : queryOf (tailOf x) = some (t.takeWhile (· ≠ '#')) := by rw [h, queryOf]
          have hplain := hplain _ hq
          rw [h] at hfound hhash ⊢
          have hfound' : t.dropWhile (· ≠ '/') ≠ [] := by simpa using hfound
          have hhash' : '#' ∉ t.takeWhile (· ≠ '/') := by simpa using hhash
          obtain ⟨f, hf⟩ : ∃ f, t.dropWhile (· ≠ '/') = '/' :: f := by
            rcases hd : t.dropWhile (· ≠ '/') with - | ⟨c, f⟩
            · exact absurd hd hfound'
            · have hc := List.head?_dropWhile_not (fun c : Char => decide (c ≠ '/')) t
              rw [hd] at hc
              simp only [List.head?_cons, decide_eq_false_iff_not, not_not] at hc
              exact ⟨f, by rw [hc]⟩
          have ht : t = t.takeWhile (· ≠ '/') ++ '/' :: f := by
            rw [← hf, List.takeWhile_append_dropWhile]
          have hall : ∀ c ∈ t.takeWhile (· ≠ '/'), decide (c ≠ '#') = true := fun c hc =>
            decide_eq_true fun he => hhash' (he ▸ hc)
          have hslash : ∀ c ∈ t.takeWhile (· ≠ '/'), decide (c ≠ '/') = true := by
            intro c hc
            simpa using List.mem_takeWhile_imp hc
          have hquery : (t.takeWhile (· ≠ '#')).dropWhile (· ≠ '/') =
              '/' :: f.takeWhile (· ≠ '#') := by
            conv_lhs => rw [ht]
            rw [List.takeWhile_append_of_pos hall, List.dropWhile_append_of_pos hslash]
            simp
          have hhier : ∀ l : Str, (l.takeWhile (· ≠ '#')).takeWhile (· ≠ '?') =
              l.takeWhile isHier := by
            intro l
            rw [List.takeWhile_takeWhile]
            refine congrArg (fun p => List.takeWhile p l) (funext fun c => ?_)
            simp [isHier]
          rw [PlainQuery, hquery, List.takeWhile_cons_of_pos (by simp), List.drop_one,
            List.tail_cons, hhier] at hplain
          have hdrop' : ('?' :: t).dropWhile (· ≠ '/') = '/' :: f := by
            rw [List.dropWhile_cons_of_pos (by simp), hf]
          rw [hdrop', List.takeWhile_cons_of_pos (by decide)]
          exact normalizeDotSegments_of_plain hplain
      rw [hkept, List.append_assoc, List.takeWhile_append_dropWhile, List.append_assoc,
        List.takeWhile_append_dropWhile]
      exact hwhole

/-- What a URL is normalized to, its fragment aside. -/
theorem normalizeUrlPath_spec (hscheme : IsHttp scheme)
    (hplain : pathOf x = [] → ∀ q, queryOf (tailOf x) = some q → PlainQuery q) :
    ∃ url, normalizeUrlPath (scheme ++ SEP ++ x) = .ok url ∧
      cutFragment url = recompose ⟨some scheme, some (authorityOf x), removeDots [] (pathOf x),
        queryOf (tailOf x), none⟩ := by
  have hrecompose : ∀ path : Str, recompose ⟨some scheme, some (authorityOf x), path,
      queryOf (tailOf x), none⟩ =
        scheme ++ SEP ++ authorityOf x ++ path ++ (tailOf x).takeWhile (· ≠ '#') := by
    intro path
    rw [takeWhile_tail]
    simp [recompose, SEP, List.append_assoc]
  rw [hrecompose]
  rcases pathOf_cases x with hpath | ⟨p, hpath⟩
  · obtain ⟨url, hurl, hcut⟩ := normalizeUrlPath_noPath hscheme hpath (hplain hpath)
    refine ⟨url, hurl, ?_⟩
    rw [hcut, hpath, removeDots, dif_pos rfl, List.append_nil]
  · have hauthority : ∀ c ∈ authorityOf x, decide (c ≠ '/') = true := fun c hc =>
      decide_eq_true fun he => slash_notMem_authority x (he ▸ hc)
    have hx : x = authorityOf x ++ ('/' :: p ++ tailOf x) := by
      have := parts_eq x
      rw [hpath, List.append_assoc] at this
      exact this.symm
    have htake : x.takeWhile (· ≠ '/') = authorityOf x := by
      conv_lhs => rw [hx]
      rw [List.takeWhile_append_of_pos hauthority]
      simp
    have hdrop : x.dropWhile (· ≠ '/') = '/' :: p ++ tailOf x := by
      conv_lhs => rw [hx]
      rw [List.dropWhile_append_of_pos hauthority]
      simp
    have hhier : ∀ c ∈ '/' :: p, isHier c = true := hpath ▸ isHier_pathOf x
    have hrest : (SEP ++ x).drop 3 = x := rfl
    rw [normalizeUrlPath, cutBefore_http hscheme]
    simp only [hrest]
    rw [hdrop, if_neg (by simp), htake, List.takeWhile_append_of_pos hhier,
      List.dropWhile_append_of_pos hhier, (takeWhile_isHier_tail x).1, (takeWhile_isHier_tail x).2,
      List.append_nil]
    refine ⟨_, rfl, ?_⟩
    have hhash : '#' ∉ normalizeDotSegments ('/' :: p) :=
      hash_notMem_normalize (hpath ▸ (hash_notMem_parts x).2)
    rw [cutFragment_parts hscheme (hash_notMem_parts x).1 hhash, hpath, normalizeDotSegments_eq]

/-! ### One redirect -/

theorem prefix_http (hscheme : IsHttp scheme) (x : Str) :
    HTTP <+: scheme ++ SEP ++ x ∨ HTTPS <+: scheme ++ SEP ++ x := by
  rcases hscheme with rfl | rfl
  · exact .inl ⟨x, rfl⟩
  · exact .inr ⟨x, rfl⟩

theorem parse_network (x : Str) : parse ('/' :: '/' :: x) =
    ⟨none, some (authorityOf x), pathOf x, queryOf (tailOf x), fragmentOf (tailOf x)⟩ := by
  have htake : ('/' :: '/' :: x).takeWhile isHier = '/' :: '/' :: x.takeWhile isHier := by
    simp [isHier]
  have hdrop : ('/' :: '/' :: x).dropWhile isHier = x.dropWhile isHier := by simp [isHier]
  have hnone : schemeOf ('/' :: '/' :: x.takeWhile isHier) = none := by
    simp [schemeOf, isSchemeChar, Char.isAlphanum, Char.isAlpha, Char.isUpper, Char.isLower,
      Char.isDigit]
  rw [parse, htake, hdrop, hnone]
  simp only [authorityPath, authorityOf, pathOf, tailOf]

/-- What `x` is cut into where the pieces are known. -/
theorem parts_append {authority path tail : Str} (hauthority : ∀ c ∈ authority, isHier c = true)
    (hslash : '/' ∉ authority) (hpath : ∀ c ∈ path, isHier c = true)
    (hrooted : path = [] ∨ ∃ p, path = '/' :: p) (htail : tail.takeWhile isHier = []) :
    authorityOf (authority ++ (path ++ tail)) = authority ∧
      pathOf (authority ++ (path ++ tail)) = path ∧ tailOf (authority ++ (path ++ tail)) = tail := by
  have hhier : (authority ++ (path ++ tail)).takeWhile isHier = authority ++ path := by
    rw [List.takeWhile_append_of_pos hauthority, List.takeWhile_append_of_pos hpath, htail,
      List.append_nil]
  have hdrop : tail.dropWhile isHier = tail := by
    have := List.takeWhile_append_dropWhile (p := isHier) (l := tail)
    rwa [htail, List.nil_append] at this
  have hall : ∀ c ∈ authority, decide (c ≠ '/') = true := fun c hc =>
    decide_eq_true fun he => hslash (he ▸ hc)
  refine ⟨?_, ?_, ?_⟩
  · rw [authorityOf, hhier, List.takeWhile_append_of_pos hall]
    rcases hrooted with rfl | ⟨p, rfl⟩ <;> simp
  · rw [pathOf, hhier, List.dropWhile_append_of_pos hall]
    rcases hrooted with rfl | ⟨p, rfl⟩ <;> simp
  · rw [tailOf, List.dropWhile_append_of_pos hauthority, List.dropWhile_append_of_pos hpath, hdrop]

theorem isHier_authority (x : Str) : ∀ c ∈ authorityOf x, isHier c = true := fun _ hc =>
  List.mem_takeWhile_imp ((List.takeWhile_sublist _).mem hc)

/-- The path up to its last slash still starts with one. -/
theorem rdropWhile_pathOf {p : Str} (h : pathOf x = '/' :: p) :
    ∃ p', (pathOf x).rdropWhile (· ≠ '/') = '/' :: p' := by
  have hpre := List.rdropWhile_prefix (fun c : Char => decide (c ≠ '/')) (l := pathOf x)
  rw [h] at hpre ⊢
  rcases hcut : ('/' :: p).rdropWhile (· ≠ '/') with - | ⟨c, p'⟩
  · have := List.rdropWhile_eq_nil_iff.mp hcut '/' (List.mem_cons_self ..)
    simp at this
  · rw [hcut] at hpre
    exact ⟨p', by rw [(List.cons_prefix_cons.mp hpre).1]⟩

/-- A reference the standard resolves as `resolve_redirect` does. -/
theorem resolveRedirect_spec (hbase : requireHttp base = .ok ()) (h : Faithful loc) :
    ∃ url, resolveRedirect base loc = .ok url ∧
      cutFragment url = recompose { resolve (parse base) (parse loc) with fragment := none } := by
  obtain ⟨scheme, b, hscheme, rfl⟩ := exists_http hbase
  have hrest : (SEP ++ b).drop 3 = b := rfl
  rw [resolveRedirect, cutBefore_http hscheme, parse_http hscheme]
  simp only [hrest]
  by_cases habsolute : HTTP <+: loc ∨ HTTPS <+: loc
  · rw [if_pos habsolute]
    obtain ⟨scheme', y, hscheme', rfl⟩ : ∃ scheme' y, IsHttp scheme' ∧ loc = scheme' ++ SEP ++ y := by
      rcases habsolute with ⟨y, rfl⟩ | ⟨y, rfl⟩
      · exact ⟨"http".toList, y, .inl rfl, rfl⟩
      · exact ⟨"https".toList, y, .inr rfl, rfl⟩
    have hquery := h.query
    rw [parse_http hscheme'] at hquery ⊢
    obtain ⟨url, hurl, hcut⟩ := normalizeUrlPath_spec hscheme' (x := y) (hquery rfl)
    exact ⟨url, hurl, hcut⟩
  · rw [if_neg habsolute]
    have hnone : (parse loc).scheme = none := by
      by_contra hsome
      exact habsolute (h.scheme (Option.isSome_iff_ne_none.mpr hsome))
    by_cases hnetwork : ['/', '/'] <+: loc
    · obtain ⟨y, rfl⟩ := hnetwork
      have hstrip : stripPrefix (['/', '/'] ++ y) ['/', '/'] = some y := by
        rw [stripPrefix, if_pos (List.prefix_append _ _), List.drop_left]
      have hquery := h.query
      have hparse : parse (['/', '/'] ++ y) = _ := parse_network y
      rw [hparse] at hquery ⊢
      rw [hstrip]
      obtain ⟨url, hurl, hcut⟩ := normalizeUrlPath_spec hscheme (x := y) (hquery rfl)
      exact ⟨url, hurl, hcut⟩
    · have hstrip : stripPrefix loc ['/', '/'] = none := by rw [stripPrefix, if_neg hnetwork]
      -- no scheme and no authority: the text before the query is the path
      have hschemeOf : schemeOf (loc.takeWhile isHier) = none := hnone
      have hplain : authorityPath (loc.takeWhile isHier) = (none, loc.takeWhile isHier) := by
        unfold authorityPath
        split
        · rename_i more hmore
          refine absurd ?_ hnetwork
          have := List.takeWhile_prefix isHier (l := loc)
          rw [hmore] at this
          exact List.IsPrefix.trans ⟨more, rfl⟩ this
        · rfl
      have hparse : parse loc = ⟨none, none, loc.takeWhile isHier, queryOf (tailOf loc),
          fragmentOf (tailOf loc)⟩ := by
        rw [parse]
        simp only [hschemeOf, hplain, tailOf]
      have hpath : loc.takeWhile isHier ≠ [] := by
        have := h.path
        rw [hparse] at this
        simpa using this
      have hloc : loc = loc.takeWhile isHier ++ tailOf loc :=
        List.takeWhile_append_dropWhile.symm
      have hhead : loc.head? = some '/' ↔ (loc.takeWhile isHier).head? = some '/' := by
        conv_lhs => rw [hloc]
        rw [List.head?_append_of_ne_nil _ hpath]
      have hhier : ∀ c ∈ loc.takeWhile isHier, isHier c = true := fun c hc =>
        List.mem_takeWhile_imp hc
      rw [hstrip, hparse]
      simp only [resolve, if_neg hpath]
      -- the path of the target, as both put it together
      obtain ⟨path, hjoined, hrfc, hpathHier, hrooted⟩ : ∃ path,
          (if loc.head? = some '/' then scheme ++ SEP ++ authorityOf b ++ loc
            else if pathOf b = [] then scheme ++ SEP ++ authorityOf b ++ '/' :: loc
            else scheme ++ SEP ++ authorityOf b ++ (pathOf b).rdropWhile (· ≠ '/') ++ loc) =
              scheme ++ SEP ++ (authorityOf b ++ (path ++ tailOf loc)) ∧
          (if (loc.takeWhile isHier).head? = some '/' then loc.takeWhile isHier
            else merge ⟨some scheme, some (authorityOf b), pathOf b, queryOf (tailOf b),
              fragmentOf (tailOf b)⟩ (loc.takeWhile isHier)) = path ∧
          (∀ c ∈ path, isHier c = true) ∧ ∃ p, path = '/' :: p := by
        by_cases hroot : loc.head? = some '/'
        · refine ⟨loc.takeWhile isHier, ?_, if_pos (hhead.mp hroot), hhier, ?_⟩
          · rw [if_pos hroot, ← hloc, List.append_assoc, List.append_assoc]
          · rcases hcases : loc.takeWhile isHier with - | ⟨c, p⟩
            · exact absurd hcases hpath
            · have := hhead.mp hroot
              rw [hcases] at this
              exact ⟨p, by rw [Option.some.inj this]⟩
        · rw [if_neg hroot, if_neg fun hc => hroot (hhead.mpr hc)]
          rcases pathOf_cases b with hempty | ⟨p, hp⟩
          · refine ⟨'/' :: loc.takeWhile isHier, ?_, ?_, ?_, _, rfl⟩
            · rw [if_pos hempty, List.cons_append, ← hloc, List.append_assoc, List.append_assoc]
            · simp [merge, hempty]
            · rintro c (- | ⟨-, hc⟩)
              exacts [by decide, hhier c hc]
          · obtain ⟨p', hp'⟩ := rdropWhile_pathOf hp
            refine ⟨(pathOf b).rdropWhile (· ≠ '/') ++ loc.takeWhile isHier, ?_, ?_, ?_,
              p' ++ loc.takeWhile isHier, by rw [hp', List.cons_append]⟩
            · rw [if_neg (by rw [hp]; exact List.cons_ne_nil _ _), List.append_assoc _ _ (tailOf loc),
                ← hloc]
              simp only [List.append_assoc]
            · rw [merge, if_neg (by simp [hp])]
            · intro c hc
              rcases List.mem_append.mp hc with hc | hc
              · exact isHier_pathOf b c ((List.rdropWhile_prefix _ _).subset hc)
              · exact hhier c hc
      have hparts := parts_append (isHier_authority b) (slash_notMem_authority b) hpathHier
        (.inr hrooted) (takeWhile_isHier_tail loc).1
      obtain ⟨p, hp⟩ := hrooted
      obtain ⟨url, hurl, hcut⟩ := normalizeUrlPath_spec hscheme
        (x := authorityOf b ++ (path ++ tailOf loc)) fun hnil => by
          rw [hparts.2.1, hp] at hnil
          cases hnil
      refine ⟨url, ?_, ?_⟩
      · show normalizeUrlPath (if loc.head? = some '/' then scheme ++ SEP ++ authorityOf b ++ loc
            else if pathOf b = [] then scheme ++ SEP ++ authorityOf b ++ '/' :: loc
            else scheme ++ SEP ++ authorityOf b ++ (pathOf b).rdropWhile (· ≠ '/') ++ loc) = _
        rw [hjoined]
        exact hurl
      · rw [hcut, hparts.1, hparts.2.1, hparts.2.2, hrfc]

/-! ### A whole fetch -/

variable {maxBytes n : ℕ} {answers : ℕ → Answer} {current next : Str} {bytes : Bytes}

/-- The policy of the requests: HTTP alone, nothing plain behind TLS, and few. -/
structure Policy (urls : List Str) : Prop where
  http : ∀ url ∈ urls, requireHttp url = .ok ()
  upgrade : urls.Pairwise fun u v => HTTPS <+: u → HTTPS <+: v
  few : urls.length ≤ MAX_REDIRECTS + 1

/-- The redirect an answer is. -/
def redirects (a : Answer) (loc : Str) : Prop :=
  ∃ status location body, a = .response status (some location) body ∧
    fromUtf8 location = some loc ∧ 300 ≤ status ∧ status < 400

/-- What is requested next is what the reference resolves to. -/
def Resolves (current next loc : Str) : Prop :=
  cutFragment next = recompose { resolve (parse current) (parse loc) with fragment := none }

/-- The body of an answer that is no redirect, all of it. -/
def Answers (maxBytes : ℕ) (a : Answer) (bytes : Bytes) : Prop :=
  ∃ status location, a = .response status location ⟨bytes, none⟩ ∧ ¬(300 ≤ status ∧ status < 400) ∧
    bytes.length ≤ maxBytes

theorem readCapped_eq_ok {body : Body} (h : readCapped maxBytes body = .ok bytes) :
    body = ⟨bytes, none⟩ ∧ bytes.length ≤ maxBytes := by
  obtain ⟨all, broken⟩ := body
  rw [readCapped] at h
  simp only at h
  by_cases hpanic : isizeMax < (all.take (min (maxBytes + 1) (2 ^ 64 - 1))).length
  · rw [if_pos hpanic] at h
    cases h
  rw [if_neg hpanic] at h
  have hlen := List.length_take (i := min (maxBytes + 1) (2 ^ 64 - 1)) (l := all)
  have hcap : ∀ {b : Bytes}, (if maxBytes < b.length then
      (.err ⟨"response body exceeds the ".toList ++ Nat.toDigits 10 maxBytes ++
        "-byte cap".toList⟩ : Outcome FetchError Bytes) else .ok b) = .ok bytes →
        b = bytes ∧ b.length ≤ maxBytes := by
    intro b hb
    split_ifs at hb with hmax
    exact ⟨Outcome.ok.inj hb, Nat.le_of_not_lt hmax⟩
  by_cases hlimit : (all.take (min (maxBytes + 1) (2 ^ 64 - 1))).length <
      min (maxBytes + 1) (2 ^ 64 - 1)
  · rw [if_pos hlimit] at h
    cases broken with
    | some e => cases h
    | none =>
      obtain ⟨rfl, hmax⟩ := hcap h
      have hwhole : all.take (min (maxBytes + 1) (2 ^ 64 - 1)) = all :=
        List.take_of_length_le (by omega)
      rw [hwhole] at hmax ⊢
      exact ⟨rfl, hmax⟩
  · -- the limit is past the cap, and past what a vector holds
    rw [if_neg hlimit] at h
    obtain ⟨-, hmax⟩ := hcap h
    rw [isizeMax] at hpanic
    omega

/-- One answer: the body it carries, or a URL the policy lets through. -/
theorem answered_cases {a : Answer} : (∀ bytes, answered maxBytes current a = .ok (.inl bytes) →
    Answers maxBytes a bytes) ∧ ∀ next, answered maxBytes current a = .ok (.inr next) →
      requireHttp next = .ok () ∧ (HTTPS <+: current → HTTPS <+: next) ∧
        ∃ loc, redirects a loc ∧ resolveRedirect current loc = .ok next := by
  cases a with
  | failed e => exact ⟨fun _ h => (nomatch h), fun _ h => (nomatch h)⟩
  | response status location body =>
    rw [answered]
    split_ifs with hstatus
    · constructor
      · intro bytes h
        obtain ⟨_, -, h⟩ := Outcome.bind_eq_ok.mp h
        obtain ⟨_, -, h⟩ := Outcome.bind_eq_ok.mp h
        obtain ⟨_, -, h⟩ := Outcome.bind_eq_ok.mp h
        obtain ⟨_, -, h⟩ := Outcome.bind_eq_ok.mp h
        cases h
      · intro next h
        obtain ⟨loc, hloc, h⟩ := Outcome.bind_eq_ok.mp h
        obtain ⟨url, hurl, h⟩ := Outcome.bind_eq_ok.mp h
        obtain ⟨_, hhttp, h⟩ := Outcome.bind_eq_ok.mp h
        obtain ⟨_, hdown, h⟩ := Outcome.bind_eq_ok.mp h
        obtain rfl := Sum.inr.inj (Outcome.ok.inj h)
        refine ⟨hhttp, fun hs => ?_, loc, ?_, hurl⟩
        · rw [rejectDowngrade] at hdown
          split_ifs at hdown with hboth
          rw [requireHttp] at hhttp
          split_ifs at hhttp with heither
          exact heither.resolve_right fun hplain => hboth ⟨hs, hplain⟩
        · cases location with
          | none => cases hloc
          | some b =>
            rw [Option.bind_some] at hloc
            cases hdecode : fromUtf8 b with
            | none =>
              rw [hdecode] at hloc
              cases hloc
            | some loc' =>
              rw [hdecode] at hloc
              obtain rfl := Outcome.ok.inj hloc
              exact ⟨status, b, body, rfl, hdecode, hstatus⟩
    · constructor
      · intro bytes h
        obtain ⟨b, hread, h⟩ := Outcome.bind_eq_ok.mp h
        obtain rfl := Sum.inl.inj (Outcome.ok.inj h)
        obtain ⟨rfl, hlen⟩ := readCapped_eq_ok hread
        exact ⟨status, location, rfl, hstatus, hlen⟩
      · intro next h
        obtain ⟨_, -, h⟩ := Outcome.bind_eq_ok.mp h
        cases h

/-- What a run of the loop is, from the URL it starts at. -/
structure Fetched (maxBytes n : ℕ) (answers : ℕ → Answer) (current : Str)
    (run : List Str × Outcome FetchError Bytes) : Prop where
  few : run.1.length ≤ n
  http : ∀ url ∈ run.1, requireHttp url = .ok ()
  upgrade : run.1.Pairwise fun u v => HTTPS <+: u → HTTPS <+: v
  first : ∀ url ∈ run.1.head?, url = current
  body : ∀ bytes, run.2 = .ok bytes →
    ∃ k, run.1.length = k + 1 ∧ Answers maxBytes (answers k) bytes
  next : ∀ k (h : k + 1 < run.1.length), ∃ loc, redirects (answers k) loc ∧
    resolveRedirect run.1[k] loc = .ok run.1[k + 1]

theorem hops_fetched (hcurrent : requireHttp current = .ok ()) :
    Fetched maxBytes n answers current (hops maxBytes n answers current) := by
  induction n generalizing answers current with
  | zero =>
    exact ⟨le_refl 0, fun _ h => (nomatch h), .nil, fun _ h => (nomatch h), fun _ h => (nomatch h),
      fun _ h => (nomatch h)⟩
  | succ n ih =>
    have hone : ∀ result : Outcome FetchError Bytes,
        (∀ bytes, result = .ok bytes → Answers maxBytes (answers 0) bytes) →
          Fetched maxBytes (n + 1) answers current ([current], result) := fun result hresult =>
      ⟨by simp, by simpa using hcurrent, List.pairwise_singleton .., by simp,
        fun bytes h => ⟨0, rfl, hresult bytes h⟩, fun k h => by simp at h⟩
    obtain ⟨hbody, hnext⟩ := @answered_cases maxBytes current (answers 0)
    rw [hops]
    split
    · rename_i bytes h
      exact hone _ fun b hb => Outcome.ok.inj hb ▸ hbody bytes h
    · rename_i next h
      obtain ⟨hhttp, htls, loc, hredirects, hresolve⟩ := hnext next h
      have hrest := @ih (fun k => answers (k + 1)) next hhttp
      generalize hops maxBytes n (fun k => answers (k + 1)) next = run at hrest
      obtain ⟨urls, result⟩ := run
      refine ⟨Nat.succ_le_succ hrest.few, List.forall_mem_cons.mpr ⟨hcurrent, hrest.http⟩,
        List.pairwise_cons.mpr ⟨fun url hurl hs => ?_, hrest.upgrade⟩, by simp,
        fun bytes hok => ?_, fun k hk => ?_⟩
      · cases urls with
        | nil => cases hurl
        | cons u urls =>
          obtain rfl : u = next := hrest.first u rfl
          rcases List.mem_cons.mp hurl with rfl | hurl
          · exact htls hs
          · exact (List.pairwise_cons.mp hrest.upgrade).1 url hurl (htls hs)
      · obtain ⟨k, hlen, hanswer⟩ := hrest.body bytes hok
        exact ⟨k + 1, congrArg Nat.succ hlen, hanswer⟩
      · cases k with
        | zero =>
          cases urls with
          | nil => simp at hk
          | cons u urls =>
            obtain rfl : u = next := hrest.first u rfl
            exact ⟨loc, hredirects, hresolve⟩
        | succ k => exact hrest.next k (Nat.lt_of_succ_lt_succ hk)
    · exact hone _ fun _ h => (nomatch h)
    · exact hone _ fun _ h => (nomatch h)

theorem fetchBounded_fetched (url : Str) (maxBytes : ℕ) (answers : ℕ → Answer) :
    Fetched maxBytes (MAX_REDIRECTS + 1) answers url (fetchBounded url maxBytes answers) := by
  have hnone : ∀ result : Outcome FetchError Bytes, (∀ bytes, result ≠ .ok bytes) →
      Fetched maxBytes (MAX_REDIRECTS + 1) answers url ([], result) := fun _ hresult =>
    ⟨Nat.zero_le _, fun _ h => (nomatch h), .nil, fun _ h => (nomatch h),
      fun bytes h => absurd h (hresult bytes), fun _ h => (nomatch h)⟩
  cases hurl : requireHttp url with
  | ok _ =>
    have hrun : fetchBounded url maxBytes answers = hops maxBytes (MAX_REDIRECTS + 1) answers url := by
      rw [fetchBounded, hurl]
    rw [hrun]
    exact hops_fetched hurl
  | err e =>
    have hrun : fetchBounded url maxBytes answers = ([], .err e) := by rw [fetchBounded, hurl]
    rw [hrun]
    exact hnone _ fun _ h => (nomatch h)
  | panic =>
    have hrun : fetchBounded url maxBytes answers = ([], .panic) := by rw [fetchBounded, hurl]
    rw [hrun]
    exact hnone _ fun _ h => (nomatch h)

/-- A fetch keeps the policy and answers the whole body whatever the server says, and where every
reference it follows is faithful it requests what the standard resolves it to. -/
theorem fetchBounded_policy (url : Str) (maxBytes : ℕ) (answers : ℕ → Answer) :
    Policy (fetchBounded url maxBytes answers).1 ∧
      (∀ bytes, (fetchBounded url maxBytes answers).2 = .ok bytes →
        ∃ k, (fetchBounded url maxBytes answers).1.length = k + 1 ∧
          Answers maxBytes (answers k) bytes) ∧
      ((∀ k loc, k + 1 < (fetchBounded url maxBytes answers).1.length → redirects (answers k) loc →
          Faithful loc) →
        ∀ k (h : k + 1 < (fetchBounded url maxBytes answers).1.length), ∃ loc,
          redirects (answers k) loc ∧ Resolves (fetchBounded url maxBytes answers).1[k]
            (fetchBounded url maxBytes answers).1[k + 1] loc) := by
  have h := fetchBounded_fetched url maxBytes answers
  refine ⟨⟨h.http, h.upgrade, h.few⟩, h.body, fun hfaithful k hk => ?_⟩
  obtain ⟨loc, hloc, hresolve⟩ := h.next k hk
  have hbase := h.http _ (List.getElem_mem (Nat.lt_of_succ_lt hk))
  obtain ⟨next, hnext, hspec⟩ := resolveRedirect_spec hbase (hfaithful k loc hk hloc)
  rw [Outcome.ok.inj (hnext.symm.trans hresolve)] at hspec
  exact ⟨loc, hloc, hspec⟩

/-- A server that redirects to another scheme, and serves what is asked for next. -/
def elsewhere : ℕ → Answer
  | 0 => .response 302 (some (asBytes "ftp://o/c".toList)) ⟨[], none⟩
  | _ => .response 200 none ⟨[7], none⟩

/-- The other scheme is followed, as a path. -/
theorem elsewhere_followed :
    fetchBounded "https://h/a".toList 100 elsewhere =
      (["https://h/a".toList, "https://h/ftp://o/c".toList], .ok [7]) ∧
    redirects (elsewhere 0) "ftp://o/c".toList ∧
    (parse "ftp://o/c".toList).scheme = some "ftp".toList := by
  have hdecode : fromUtf8 (asBytes "ftp://o/c".toList) = some "ftp://o/c".toList :=
    fromUtf8_asBytes _
  have hresolve : resolveRedirect "https://h/a".toList "ftp://o/c".toList =
      .ok "https://h/ftp://o/c".toList := by decide +kernel
  have hfirst : answered 100 "https://h/a".toList (elsewhere 0) =
      .ok (.inr "https://h/ftp://o/c".toList) := by
    simp only [elsewhere, answered, Option.bind_some, hdecode, Outcome.okOr, Outcome.ok_bind,
      hresolve]
    decide +kernel
  have hsecond : answered 100 "https://h/ftp://o/c".toList (elsewhere 1) = .ok (.inl [7]) := by
    decide +kernel
  have hstart : requireHttp "https://h/a".toList = .ok () := by decide +kernel
  refine ⟨?_, ⟨302, _, _, rfl, hdecode, by decide, by decide⟩, by decide +kernel⟩
  rw [fetchBounded, hstart]
  show hops 100 6 elsewhere _ = _
  rw [hops, hfirst]
  show (_ :: (hops 100 5 (fun k => elsewhere (k + 1)) _).1, _) = _
  rw [hops, hsecond]
  rfl

end Boot2Deb.Engine.Netfetch
