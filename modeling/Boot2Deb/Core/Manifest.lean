import Mathlib
import Boot2Deb.Rust.Lines
import Boot2Deb.Rust.Outcome
import Boot2Deb.Lib.PadLex
import Boot2Deb.Lib.Sorting
import Boot2Deb.Core.Diff

/-!
# Package manifests

The text form of a solved package set, one line per package behind a header. What `render` writes of a
plan `parse` reads back, in the rows' order, and `moved` finds no difference between two plans just
when they are one set.
-/

namespace Boot2Deb.Core.Manifest

open Rust
open Std (ExtTreeMap ExtTreeSet TransCmp LawfulEqCmp)

/-! ### The text form -/

/-- The derived order of the rows. -/
def comparePackages : Package → Package → Ordering :=
  compareLex (compareOn Package.name) <| compareLex (compareOn Package.version) <|
    compareLex (compareOn Package.architecture) (compareOn Package.sha256)

/-- One line of a manifest. -/
def row (p : Package) : Str :=
  p.name ++ ' ' :: (p.version ++ ' ' :: (p.architecture ++ ' ' :: p.sha256))

def render (header : Str) (packages : List Package) : Str :=
  '#' :: ' ' :: header ++ '\n' :: unlines ((sortBy comparePackages packages).map row)

/-- A line that is no row: the file, the line's number and the line. -/
structure InvalidManifest where
  path : Str
  line : ℕ
  content : Str
deriving DecidableEq

def parseLine (path : Str) (i : ℕ) (line : Str) : Outcome InvalidManifest (Option Package) :=
  let line := trim line
  if line.isEmpty ∨ line.head? = some '#' then .ok none
  else match splitWhitespace line with
    | [name, version, architecture, sha256] => .ok (some ⟨name, version, architecture, sha256⟩)
    | _ => .err ⟨path, i + 1, line⟩

def parseLines (path : Str) : ℕ → List Str → Outcome InvalidManifest (List Package)
  | _, [] => .ok []
  | i, line :: lines => do
    let package ← parseLine path i line
    let packages ← parseLines path (i + 1) lines
    return package.toList ++ packages

def parse (text path : Str) : Outcome InvalidManifest (List Package) := parseLines path 0 (lines text)

/-! ### What moved -/

structure Moved where
  name : Str
  architecture : Str
  before : Option Package
  after : Option Package
deriving DecidableEq

def key (p : Package) : Str × Str := (p.name, p.architecture)

def compareKeys : Str × Str → Str × Str → Ordering := compareLex (compareOn Prod.fst) (compareOn Prod.snd)

instance : TransCmp compareKeys := by
  unfold compareKeys
  infer_instance

instance : LawfulEqCmp compareKeys where
  eq_of_compare {a b} h := by
    rw [compareKeys, compareLex_eq_eq] at h
    exact Prod.ext (LawfulEqCmp.eq_of_compare h.1) (LawfulEqCmp.eq_of_compare h.2)

abbrev Index := ExtTreeMap (Str × Str) Package compareKeys

def index (set : List Package) : Index := set.foldl (fun m p => m.insert (key p) p) ∅

/-- What differs between two solved sets, matched on name and architecture. -/
def moved (before after : List Package) : List Moved :=
  let b := index before
  let a := index after
  ((ExtTreeSet.ofList (b.keys ++ a.keys) compareKeys).toList.filter fun k => b[k]? ≠ a[k]?).map
    fun k => ⟨k.1, k.2, b[k]?, a[k]?⟩

def isWord (field : Str) : Bool := !field.isEmpty && field.all fun c => !isWhitespace c

/-- Rows whose fields are words, none of which begins as a comment does. -/
structure Admitted (packages : List Package) : Prop where
  words : ∀ p ∈ packages, ∀ field ∈ [p.name, p.version, p.architecture, p.sha256], isWord field
  named : ∀ p ∈ packages, p.name.head? ≠ some '#'

/-- The packages a resolution names: each field a word, each package once. -/
structure Plan where
  packages : List Package
  words : ∀ p ∈ packages, ∀ field ∈ [p.name, p.version, p.architecture, p.sha256], isWord field
  named : ∀ p ∈ packages, p.name.head? ≠ some '#'
  distinct : (packages.map key).Nodup

/-! ### Rows read back -/

theorem head?_trim_comment (s : Str) : (trim ('#' :: s)).head? = some '#' := by
  have hstart : trimStart ('#' :: s) = '#' :: s := List.dropWhile_cons_of_neg (by decide)
  have hne : trimEnd ('#' :: s) ≠ [] := by
    intro h
    exact absurd (List.rdropWhile_eq_nil_iff.mp h '#' List.mem_cons_self) (by decide)
  obtain ⟨c, rest, hcons⟩ := List.exists_cons_of_ne_nil hne
  obtain ⟨t, ht⟩ : trimEnd ('#' :: s) <+: '#' :: s := List.rdropWhile_prefix _ _
  rw [hcons, List.cons_append] at ht
  rw [trim, hstart, hcons, List.head?_cons, (List.cons.inj ht).1]

/-- The header is a comment, a carriage return at its end taken off or not. -/
theorem parseLine_header (path : Str) (i : ℕ) (header : Str) :
    parseLine path i (stripEnding ('#' :: header ++ ['\n'])) = .ok none := by
  have hcomment (s : Str) : parseLine path i ('#' :: s) = .ok none := by
    rw [parseLine, if_pos (Or.inr (head?_trim_comment s))]
  rcases stripEnding_ended_cases ('#' :: header) with ⟨h, -⟩ | ⟨body, hbody, h⟩
  · rw [h, hcomment]
  · rcases body with - | ⟨c, body⟩
    · simp at hbody
    · obtain ⟨rfl, -⟩ := List.cons.inj hbody
      rw [h, hcomment]

section Admitted
variable {packages : List Package} (ha : Admitted packages) {p : Package} (hp : p ∈ packages)
include ha hp

theorem Admitted.plain {field : Str} (h : field ∈ [p.name, p.version, p.architecture, p.sha256]) :
    field ≠ [] ∧ ∀ c ∈ field, isWhitespace c = false := by
  simpa [isWord] using ha.words p hp field h

theorem Admitted.splitWhitespace_row : splitWhitespace (row p) = [p.name, p.version, p.architecture, p.sha256] := by
  have hname := @Admitted.plain packages ha p hp p.name (by simp)
  have hversion := @Admitted.plain packages ha p hp p.version (by simp)
  have harchitecture := @Admitted.plain packages ha p hp p.architecture (by simp)
  have hsha256 := @Admitted.plain packages ha p hp p.sha256 (by simp)
  rw [row, splitWhitespace_append_cons hname.1 hname.2 rfl,
    splitWhitespace_append_cons hversion.1 hversion.2 rfl,
    splitWhitespace_append_cons harchitecture.1 harchitecture.2 rfl,
    splitWhitespace_word hsha256.1 hsha256.2]

/-- A row begins and ends with a character of a field. -/
theorem Admitted.row_ends : ∃ c d, (row p).head? = some c ∧ (row p).getLast? = some d ∧
    isWhitespace c = false ∧ isWhitespace d = false ∧ c ≠ '#' := by
  have hname := @Admitted.plain packages ha p hp p.name (by simp)
  have hsha256 := @Admitted.plain packages ha p hp p.sha256 (by simp)
  obtain ⟨c, name, hc⟩ := List.exists_cons_of_ne_nil hname.1
  rcases List.eq_nil_or_concat p.sha256 with hnil | ⟨digits, d, hd⟩
  · exact absurd hnil hsha256.1
  · have hlast : row p = (p.name ++ ' ' :: (p.version ++ ' ' :: (p.architecture ++
        ' ' :: digits))) ++ [d] := by simp [row, hd]
    refine ⟨c, d, by simp [row, hc], by rw [hlast, List.getLast?_concat], hname.2 c (by simp [hc]),
      hsha256.2 d (by simp [hd]), ?_⟩
    rintro rfl
    exact ha.named p hp (by simp [hc])

theorem Admitted.parseLine_row (path : Str) (i : ℕ) : parseLine path i (row p) = .ok (some p) := by
  obtain ⟨c, d, hhead, hlast, hc, hd, hne⟩ := ha.row_ends hp
  have hnil : row p ≠ [] := by
    rintro h
    simp [h] at hhead
  have hnot : ¬((row p).isEmpty = true ∨ (row p).head? = some '#') := by
    rw [hhead, List.isEmpty_iff, Option.some.injEq]
    exact not_or.mpr ⟨hnil, hne⟩
  simp only [parseLine, trim_eq_self hc hd hhead hlast, if_neg hnot, ha.splitWhitespace_row hp]

theorem Admitted.stripEnding_row : stripEnding (row p ++ ['\n']) = row p := by
  obtain ⟨c, d, -, hlast, -, hd, -⟩ := ha.row_ends hp
  rcases stripEnding_ended_cases (row p) with ⟨h, -⟩ | ⟨body, hbody, -⟩
  · exact h
  · rw [hbody, List.getLast?_concat] at hlast
    obtain rfl := Option.some.inj hlast
    exact absurd hd (by decide)

theorem Admitted.newline_notMem_row : '\n' ∉ row p := by
  have hfield {field : Str} (h : field ∈ [p.name, p.version, p.architecture, p.sha256]) :
      '\n' ∉ field := by
    intro hmem
    exact absurd ((ha.plain hp h).2 _ hmem) (by decide)
  simp only [row, List.mem_append, List.mem_cons, not_or]
  exact ⟨hfield (by simp), by decide, hfield (by simp), by decide, hfield (by simp), by decide,
    hfield (by simp)⟩

end Admitted

theorem lines_ended {body : Str} (h : '\n' ∉ body) (s : Str) :
    lines (body ++ '\n' :: s) = stripEnding (body ++ ['\n']) :: lines s := by
  have hended : Ended (body ++ ['\n']) := ⟨body, h, rfl⟩
  have happ : body ++ '\n' :: s = (body ++ ['\n']) ++ s := by simp
  rw [lines, happ, rawLines_ended hended, List.map_cons, lines]

theorem parseLines_rows {packages : List Package} (ha : Admitted packages) (path : Str)
    {rows : List Package} (h : rows ⊆ packages) (i : ℕ) :
    parseLines path i (lines (unlines (rows.map row))) = .ok rows := by
  induction rows generalizing i with
  | nil => rfl
  | cons p rows ih =>
    have hp : p ∈ packages := h List.mem_cons_self
    rw [List.map_cons, unlines_cons, lines_ended (ha.newline_notMem_row hp),
      ha.stripEnding_row hp, parseLines, ha.parseLine_row hp,
      ih (fun _ hq => h (List.mem_cons_of_mem _ hq))]
    rfl

/-- What was rendered is read back, in the order of the rows. -/
theorem Admitted.parse_render {packages : List Package} (ha : Admitted packages) {header : Str}
    (hheader : '\n' ∉ header) (path : Str) :
    parse (render header packages) path = .ok (sortBy comparePackages packages) := by
  have hcomment : '\n' ∉ '#' :: ' ' :: header := by simp [hheader]
  have hrows := parseLines_rows ha path (sortBy_perm comparePackages packages).subset 1
  have hlines := lines_ended hcomment (unlines ((sortBy comparePackages packages).map row))
  rw [parse, render, hlines, parseLines, parseLine_header path 0 (' ' :: header)]
  show (parseLines path 1 _ >>= fun packages => Outcome.ok packages) = _
  rw [hrows]
  rfl

theorem parse_render (plan : Plan) {header : Str} (hheader : '\n' ∉ header) (path : Str) :
    parse (render header plan.packages) path = .ok (sortBy comparePackages plan.packages) :=
  Admitted.parse_render ⟨plan.words, plan.named⟩ hheader path

/-! ### Sets that did not move -/

theorem getElem?_index {set : List Package} {k : Str × Str} :
    (index set)[k]? = firstWith key set.reverse k := by
  rw [index, getElem?_foldl_insert]
  simp

theorem moved_eq_nil {before after : List Package} :
    moved before after = [] ↔ ∀ k : Str × Str, (index before)[k]? = (index after)[k]? := by
  unfold moved
  dsimp only
  rw [List.map_eq_nil_iff, List.filter_eq_nil_iff]
  simp only [ExtTreeSet.mem_toList, ExtTreeSet.mem_ofList, List.contains_eq_mem, decide_eq_true_eq, List.mem_append,
    ExtTreeMap.mem_keys, ne_eq, decide_not, Bool.not_eq_true', decide_eq_false_iff_not, not_not]
  constructor
  · intro h k
    by_cases hb : k ∈ index before
    · exact h k (Or.inl hb)
    · by_cases ha : k ∈ index after
      · exact h k (Or.inr ha)
      · rw [ExtTreeMap.getElem?_eq_none hb, ExtTreeMap.getElem?_eq_none ha]
  · exact fun h k _ => h k

/-- Two sets of distinct packages that did not move are one set. -/
theorem perm_of_moved {before after : List Package} (hb : (before.map key).Nodup)
    (ha : (after.map key).Nodup) : moved before after = [] ↔ before.Perm after := by
  have hrev {l : List Package} (h : (l.map key).Nodup) : (l.reverse.map key).Nodup := by
    rw [List.map_reverse]
    exact List.nodup_reverse.mpr h
  rw [moved_eq_nil]
  simp only [getElem?_index]
  constructor
  · intro h
    refine (List.perm_ext_iff_of_nodup hb.of_map ha.of_map).mpr fun p => ?_
    have hp := h (key p)
    rw [← List.mem_reverse, ← @List.mem_reverse _ _ after]
    have hbefore := @firstWith_eq_some_iff _ _ _ key before.reverse (key p) p (hrev hb)
    have hafter := @firstWith_eq_some_iff _ _ _ key after.reverse (key p) p (hrev ha)
    rw [hp, hafter] at hbefore
    simpa using hbefore.symm
  · intro h k
    exact firstWith_perm (hrev hb) ((before.reverse_perm.trans h).trans after.reverse_perm.symm)

/-! ### Comparing two texts -/

instance : TransCmp comparePackages := by
  unfold comparePackages
  infer_instance

instance : LawfulEqCmp comparePackages where
  eq_of_compare {p q} h := by
    simp only [comparePackages, compareLex_eq_eq] at h
    obtain ⟨hname, hversion, harchitecture, hsha256⟩ := h
    cases p
    cases q
    rw [Package.mk.injEq]
    exact ⟨LawfulEqCmp.eq_of_compare hname, LawfulEqCmp.eq_of_compare hversion,
      LawfulEqCmp.eq_of_compare harchitecture, LawfulEqCmp.eq_of_compare hsha256⟩

/-- One multiset of rows is sorted to one list. -/
theorem sort_perm {ps qs : List Package} (h : ps.Perm qs) :
    sortBy comparePackages ps = sortBy comparePackages qs := by
  have hperm := (sortBy_perm comparePackages ps).trans
    (h.trans (sortBy_perm comparePackages qs).symm)
  refine hperm.eq_of_pairwise ?_ (pairwise_sortBy ps) (pairwise_sortBy qs)
  intro p q _ _ hle hge
  exact LawfulEqCmp.eq_of_compare (Std.OrientedCmp.isLE_antisymm hle hge)

theorem render_perm {ps qs : List Package} (h : ps.Perm qs) (header : Str) :
    render header ps = render header qs := by
  rw [render, render, sort_perm h]

/-- The rendering does not depend on the order, what is read back is the rows sorted, and where
neither list names a package twice nothing moved just where the rows are the same. -/
theorem comparison_exact {ps qs : List Package} (hp : Admitted ps) (hq : Admitted qs) {h1 h2 : Str}
    (hh1 : '\n' ∉ h1) (hh2 : '\n' ∉ h2) (path : Str) :
    (∀ header ps', ps'.Perm ps → render header ps' = render header ps) ∧
      parse (render h1 ps) path = .ok (sortBy comparePackages ps) ∧
      ∃ before after, parse (render h1 ps) path = .ok before ∧
        parse (render h2 qs) path = .ok after ∧ (ps.Perm qs → moved before after = []) ∧
        ((ps.map key).Nodup → (qs.map key).Nodup → moved before after = [] → ps.Perm qs) := by
  have hps := sortBy_perm comparePackages ps
  have hqs := sortBy_perm comparePackages qs
  refine ⟨fun header ps' h => render_perm h header, hp.parse_render hh1 path, _, _,
    hp.parse_render hh1 path, hq.parse_render hh2 path, fun h => ?_, fun hnp hnq h => ?_⟩
  · rw [sort_perm h, moved_eq_nil]
    exact fun _ => rfl
  · have hkeys := (perm_of_moved ((hps.map key).nodup_iff.mpr hnp)
      ((hqs.map key).nodup_iff.mpr hnq)).mp h
    exact hps.symm.trans (hkeys.trans hqs)

/-- Two rows in either order. -/
theorem comparison_exact_swapped : ∃ before after,
    parse (render [] [⟨['b'], ['1'], ['x'], ['f']⟩, ⟨['a'], ['2'], ['x'], ['e']⟩]) [] = .ok before ∧
    parse (render ['h'] [⟨['a'], ['2'], ['x'], ['e']⟩, ⟨['b'], ['1'], ['x'], ['f']⟩]) [] = .ok after ∧
    moved before after = [] := by
  obtain ⟨-, -, before, after, hbefore, hafter, hmoved, -⟩ :=
    @comparison_exact [⟨['b'], ['1'], ['x'], ['f']⟩, ⟨['a'], ['2'], ['x'], ['e']⟩]
      [⟨['a'], ['2'], ['x'], ['e']⟩, ⟨['b'], ['1'], ['x'], ['f']⟩] ⟨by decide, by decide⟩
      ⟨by decide, by decide⟩ [] ['h'] (by decide) (by decide) []
  exact ⟨before, after, hbefore, hafter, hmoved (.swap ..)⟩

def nameVersionArchitecture (p : Package) : Str × Str × Str := (p.name, p.version, p.architecture)

/-- A row's hash is compared with the rest of it; of the rows of one name and architecture one is;
and a header of two lines has a row of its own. -/
theorem comparison_counterexamples :
    (∃ ps qs before after, Admitted ps ∧ Admitted qs ∧ parse (render [] ps) [] = .ok before ∧
      parse (render [] qs) [] = .ok after ∧
      (ps.map nameVersionArchitecture).Perm (qs.map nameVersionArchitecture) ∧
      moved before after ≠ []) ∧
    (∃ ps qs before after, Admitted ps ∧ Admitted qs ∧ parse (render [] ps) [] = .ok before ∧
      parse (render [] qs) [] = .ok after ∧
      ¬(ps.map nameVersionArchitecture).Perm (qs.map nameVersionArchitecture) ∧
      moved before after = []) ∧
    ∃ header, parse (render header []) [] ≠ .ok [] :=
  ⟨⟨[⟨['a'], ['1'], ['x'], ['e']⟩], [⟨['a'], ['1'], ['x'], ['f']⟩], _, _, ⟨by decide, by decide⟩,
      ⟨by decide, by decide⟩, rfl, rfl, by decide, by decide +kernel⟩,
    ⟨[⟨['a'], ['1'], ['x'], ['e']⟩, ⟨['a'], ['2'], ['x'], ['e']⟩], [⟨['a'], ['2'], ['x'], ['e']⟩],
      _, _, ⟨by decide, by decide⟩, ⟨by decide, by decide⟩, rfl, rfl, by decide, by decide +kernel⟩,
    ⟨"h\na 1 x e".toList, by decide +kernel⟩⟩

end Boot2Deb.Core.Manifest
