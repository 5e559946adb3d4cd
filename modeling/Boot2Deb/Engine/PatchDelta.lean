import Boot2Deb.Lib.Runs
import Boot2Deb.Series.Selection

/-!
# What a bump of the patches moved (`engine/src/patchdelta.rs`)

Which patch files a series gained, lost and rewrote between two commits. As sets the three lists are
the files that differ, but `patch_paths` drops a repeated path only behind itself: a row is repeated
exactly where a path that moved is listed in two places with another between them
(`delta_exact_iff`).
-/

namespace Boot2Deb.Engine.PatchDelta
open Rust Lib Series

/-- What the checkout answers: whether it is there, and what git finds in its object store. -/
structure PatchesRepo where
  display : Str
  isDir : Bool
  hasCommit : Str → Bool
  /-- The text of a path at a commit. -/
  showFile : Str → Str → Option Str
  /-- The object id of a path at a commit. -/
  blobId : Str → Str → Option Str

inductive SeriesDelta where
  | compared (series : Str) (added removed modified : List Str)
  | unavailable (series why : Str)
deriving DecidableEq

/-- `SeriesDelta::is_quiet`. -/
def SeriesDelta.isQuiet : SeriesDelta → Bool
  | compared _ added removed modified => added.isEmpty && removed.isEmpty && modified.isEmpty
  | unavailable .. => false

/-- The paths a series document lists, in the order of the scopes. -/
def listed (doc : PatchSeries) : List Str := (Scope.all.flatMap doc.scope).map PatchEntry.path

/-- `patch_paths`. -/
def patchPaths (doc : PatchSeries) : List Str := dedup (listed doc)

/-- `&commit[..commit.len().min(12)]`. -/
def short (commit : Str) : Outcome Empty Str :=
  match sliceTo commit (min (byteLen commit) 12) with
  | some s => .ok s
  | none => .panic

/-- The closure `paths_at`: none where the series does not exist at the commit, and why its
document does not parse. -/
def pathsAt (repo : PatchesRepo) (parse : Str → Except Str PatchSeries) (file commit : Str) :
    Outcome Empty (Option (Except Str (List Str))) :=
  match repo.showFile commit file with
  | none => .ok none
  | some text =>
    match parse text with
    | .ok doc => .ok (some (.ok (patchPaths doc)))
    | .error e => do
      let commit ← short commit
      .ok (some (.error (file ++ " at ".toList ++ commit ++ " does not parse: ".toList ++ e)))

/-- The comparison at the end of `series_delta`. -/
def compare (repo : PatchesRepo) (old new series : Str) (before after : List Str) : SeriesDelta :=
  .compared series (after.filter fun p => p ∉ before) (before.filter fun p => p ∉ after)
    ((after.filter fun p => p ∈ before).filter fun p => repo.blobId old p ≠ repo.blobId new p)

/-- `series_delta` between two commits. -/
def seriesDelta (repo : PatchesRepo) (parse : Str → Except Str PatchSeries) (old new series : Str) :
    Outcome Empty SeriesDelta :=
  let unavailable (why : Str) : Outcome Empty SeriesDelta := .ok (.unavailable series why)
  if !repo.isDir then unavailable ("no patches checkout at ".toList ++ repo.display)
  else
    match [old, new].find? fun commit => !repo.hasCommit commit with
    | some commit => do
      let commit ← short commit
      unavailable (commit ++ " is not in the patches checkout at ".toList ++ repo.display ++
        " — fetch it to see which patch files moved".toList)
    | none => do
      let file := "series/".toList ++ series ++ ".toml".toList
      let before ← pathsAt repo parse file old
      let after ← pathsAt repo parse file new
      match before, after with
      | none, none => unavailable (file ++ " exists at neither commit".toList)
      | before, after =>
        match before.getD (.ok []), after.getD (.ok []) with
        | .error why, _ => unavailable why
        | .ok _, .error why => unavailable why
        | .ok before, .ok after => .ok (compare repo old new series before after)

/-! ### The delta of two listings -/

/-- What the series lists at a commit: nothing where it does not exist there. -/
def listing (repo : PatchesRepo) (parse : Str → Except Str PatchSeries) (series commit : Str) :
    List Str :=
  match repo.showFile commit ("series/".toList ++ series ++ ".toml".toList) with
  | none => []
  | some text =>
    match parse text with
    | .ok doc => listed doc
    | .error _ => []

/-- A path that one side lists alone, or both with another blob. -/
def Moved (repo : PatchesRepo) (old new : Str) (before after : List Str) (p : Str) : Prop :=
  ¬ (p ∈ before ↔ p ∈ after) ∨ (p ∈ before ∧ p ∈ after ∧ repo.blobId old p ≠ repo.blobId new p)

/-- The three lists are duplicate-free, disjoint, and the paths that moved; with the commits swapped
what was added is removed; and the delta is quiet where nothing moved. -/
def Exact (repo : PatchesRepo) (parse : Str → Except Str PatchSeries) (old new series : Str)
    (added removed modified : List Str) : Prop :=
  let before := listing repo parse series old
  let after := listing repo parse series new
  (added.Nodup ∧ removed.Nodup ∧ modified.Nodup) ∧
  (added.Disjoint removed ∧ added.Disjoint modified ∧ removed.Disjoint modified) ∧
  (∀ p, p ∈ added ∨ p ∈ removed ∨ p ∈ modified ↔ Moved repo old new before after p) ∧
  (∃ added' removed' modified',
    seriesDelta repo parse new old series = .ok (.compared series added' removed' modified') ∧
      (∀ p, p ∈ added ↔ p ∈ removed') ∧ (∀ p, p ∈ removed ↔ p ∈ added') ∧
      ∀ p, p ∈ modified ↔ p ∈ modified') ∧
  ((SeriesDelta.compared series added removed modified).isQuiet ↔
    ∀ p, (p ∈ before ↔ p ∈ after) ∧ (p ∈ before → repo.blobId old p = repo.blobId new p))

variable {repo : PatchesRepo} {parse : Str → Except Str PatchSeries} {old new series : Str}
  {added removed modified before after : List Str} {p : Str}

/-- What the two commits must give for their deltas to be told. -/
def Comparable (repo : PatchesRepo) (parse : Str → Except Str PatchSeries) (old new series : Str) :
    Prop :=
  repo.isDir ∧ repo.hasCommit old ∧ repo.hasCommit new ∧
    ∃ b a, pathsAt repo parse ("series/".toList ++ series ++ ".toml".toList) old = .ok b ∧
      pathsAt repo parse ("series/".toList ++ series ++ ".toml".toList) new = .ok a ∧
      (b.isSome ∨ a.isSome) ∧ (∃ l, b.getD (.ok []) = .ok l) ∧ ∃ l, a.getD (.ok []) = .ok l

theorem Comparable.symm (h : Comparable repo parse old new series) :
    Comparable repo parse new old series := by
  obtain ⟨hdir, hold, hnew, b, a, hb, ha, hsome, hbok, haok⟩ := h
  exact ⟨hdir, hnew, hold, a, b, ha, hb, hsome.symm, haok, hbok⟩

/-- The paths a commit gives are the listing, one of each run. -/
theorem pathsAt_eq {commit : Str} {o : Option (Except Str (List Str))} {l : List Str}
    (h : pathsAt repo parse ("series/".toList ++ series ++ ".toml".toList) commit = .ok o)
    (hl : o.getD (.ok []) = .ok l) : l = dedup (listing repo parse series commit) := by
  unfold pathsAt at h
  unfold listing
  cases hshow : repo.showFile commit ("series/".toList ++ series ++ ".toml".toList) with
  | none =>
    rw [hshow] at h
    cases h
    cases hl
    rfl
  | some text =>
    rw [hshow] at h
    simp only at h ⊢
    cases hparse : parse text with
    | ok doc =>
      rw [hparse] at h
      cases h
      cases hl
      rfl
    | error e =>
      rw [hparse] at h
      obtain ⟨cut, -, h⟩ := Outcome.bind_eq_ok.mp h
      cases h
      cases hl

/-- A comparison is that of the two listings, one of each run, and is made wherever both sides can
be read. -/
theorem seriesDelta_eq_compared_iff {told : Str} :
    seriesDelta repo parse old new series = .ok (.compared told added removed modified) ↔
      Comparable repo parse old new series ∧
      SeriesDelta.compared told added removed modified = compare repo old new series
        (dedup (listing repo parse series old)) (dedup (listing repo parse series new)) := by
  constructor
  · intro h
    unfold seriesDelta at h
    extract_lets unavailable at h
    have hnever : ∀ why, unavailable why ≠ .ok (.compared told added removed modified) :=
      fun why h => by cases h
    split_ifs at h with hdir
    · exact absurd h (hnever _)
    cases hfind : [old, new].find? fun commit => !repo.hasCommit commit with
    | some commit =>
      rw [hfind] at h
      obtain ⟨cut, -, h⟩ := Outcome.bind_eq_ok.mp h
      exact absurd h (hnever _)
    | none =>
      rw [hfind] at h
      have hcommits : ∀ commit ∈ [old, new], repo.hasCommit commit := fun commit hmem => by
        simpa using List.find?_eq_none.mp hfind commit hmem
      obtain ⟨b, hb, h⟩ := Outcome.bind_eq_ok.mp h
      obtain ⟨a, ha, h⟩ := Outcome.bind_eq_ok.mp h
      split at h
      · exact absurd h (hnever _)
      · rename_i hneither
        split at h
        · exact absurd h (hnever _)
        · exact absurd h (hnever _)
        · rename_i before after hbefore hafter
          refine ⟨⟨by simpa using hdir, hcommits old (by simp), hcommits new (by simp), b, a, hb, ha,
            ?_, ⟨before, hbefore⟩, after, hafter⟩, ?_⟩
          · rcases b with - | b
            · rcases a with - | a
              · exact (hneither rfl rfl).elim
              · exact .inr rfl
            · exact .inl rfl
          · rw [← pathsAt_eq hb hbefore, ← pathsAt_eq ha hafter]
            exact (Outcome.ok.inj h).symm
  · rintro ⟨⟨hdir, hold, hnew, b, a, hb, ha, hsome, ⟨before, hbefore⟩, after, hafter⟩, heq⟩
    rw [← pathsAt_eq hb hbefore, ← pathsAt_eq ha hafter] at heq
    have hfind : ([old, new].find? fun commit => !repo.hasCommit commit) = none := by
      simp [hold, hnew]
    unfold seriesDelta
    extract_lets unavailable
    rw [if_neg (by simp [hdir]), hfind]
    refine Outcome.bind_eq_ok.mpr ⟨b, hb, Outcome.bind_eq_ok.mpr ⟨a, ha, ?_⟩⟩
    split
    · simp at hsome
    · rw [hbefore, hafter, heq]

theorem mem_of_compare {told : Str} (h : SeriesDelta.compared told added removed modified =
    compare repo old new series (dedup before) (dedup after)) :
    (p ∈ added ↔ p ∈ after ∧ p ∉ before) ∧ (p ∈ removed ↔ p ∈ before ∧ p ∉ after) ∧
      (p ∈ modified ↔ p ∈ before ∧ p ∈ after ∧ repo.blobId old p ≠ repo.blobId new p) := by
  cases h
  simp only [List.mem_filter, decide_eq_true_eq, mem_dedup]
  tauto

/-- The rows are duplicate-free where each path that moved is listed in one run. -/
theorem nodup_compare_iff {told : Str} (h : SeriesDelta.compared told added removed modified =
    compare repo old new series (dedup before) (dedup after)) :
    (added.Nodup ∧ removed.Nodup ∧ modified.Nodup) ↔
      ∀ p, Moved repo old new before after p →
        (p ∈ after → InOneRun p after) ∧ (p ∉ after → InOneRun p before) := by
  cases h
  have hrewritten : ((dedup after).filter fun p => p ∈ dedup before).filter
      (fun p => repo.blobId old p ≠ repo.blobId new p) = (dedup after).filter
        fun p => p ∈ before ∧ repo.blobId old p ≠ repo.blobId new p := by
    rw [List.filter_filter]
    refine List.filter_congr fun p _ => ?_
    simp [mem_dedup, Bool.and_comm]
  rw [hrewritten, nodup_filter_dedup_iff, nodup_filter_dedup_iff, nodup_filter_dedup_iff]
  simp only [decide_eq_true_eq, mem_dedup]
  constructor
  · rintro ⟨hadded, hremoved, hmodified⟩ p hmoved
    rcases hmoved with hside | ⟨hb, ha, hblob⟩
    · refine ⟨fun ha => hadded p ha fun hb => hside (iff_of_true hb ha), fun ha => ?_⟩
      by_cases hb : p ∈ before
      · exact hremoved p hb ha
      · exact absurd (iff_of_false hb ha) hside
    · exact ⟨fun _ => hmodified p ha ⟨hb, hblob⟩, fun hna => absurd ha hna⟩
  · intro h
    exact ⟨fun p ha hb => (h p (.inl fun hiff => hb (hiff.mpr ha))).1 ha,
      fun p hb ha => (h p (.inl fun hiff => ha (hiff.mp hb))).2 ha,
      fun p ha hb => (h p (.inr ⟨hb.1, ha, hb.2⟩)).1 ha⟩

/-- A comparison is exact if and only if each path that moved is listed in one run, at the new
commit where it is listed there. -/
theorem delta_exact_iff {told : Str}
    (h : seriesDelta repo parse old new series = .ok (.compared told added removed modified)) :
    Exact repo parse old new series added removed modified ↔
      ∀ p, Moved repo old new (listing repo parse series old) (listing repo parse series new) p →
        (p ∈ listing repo parse series new → InOneRun p (listing repo parse series new)) ∧
        (p ∉ listing repo parse series new → InOneRun p (listing repo parse series old)) := by
  obtain ⟨hcomparable, heq⟩ := seriesDelta_eq_compared_iff.mp h
  have hmem := fun p => @mem_of_compare repo old new series added removed modified _ _ p told heq
  rw [← nodup_compare_iff heq]
  refine ⟨fun hexact => hexact.1, fun hnodup => ⟨hnodup, ⟨?_, ?_, ?_⟩, fun p => ?_, ?_, ?_⟩⟩
  · exact fun p hadded hremoved => ((hmem p).2.1.mp hremoved).2 ((hmem p).1.mp hadded).1
  · exact fun p hadded hmodified => ((hmem p).1.mp hadded).2 ((hmem p).2.2.mp hmodified).1
  · exact fun p hremoved hmodified => ((hmem p).2.1.mp hremoved).2 ((hmem p).2.2.mp hmodified).2.1
  · rw [(hmem p).1, (hmem p).2.1, (hmem p).2.2, Moved]
    tauto
  · have hback := seriesDelta_eq_compared_iff.mpr ⟨hcomparable.symm, rfl⟩
    have hmem' := fun p => @mem_of_compare repo new old series _ _ _ _ _ p _
      (seriesDelta_eq_compared_iff.mp hback).2
    refine ⟨_, _, _, hback, fun p => ?_, fun p => ?_, fun p => ?_⟩
    · rw [(hmem p).1, (hmem' p).2.1]
    · rw [(hmem p).2.1, (hmem' p).1]
    · rw [(hmem p).2.2, (hmem' p).2.2, ne_comm]
      tauto
  · have hempty : ∀ l : List Str, l.isEmpty ↔ ∀ p, p ∉ l := fun l => by
      rw [List.isEmpty_iff, List.eq_nil_iff_forall_not_mem]
    simp only [SeriesDelta.isQuiet, Bool.and_eq_true, hempty, (hmem _).1, (hmem _).2.1,
      (hmem _).2.2]
    constructor
    · rintro ⟨⟨hadded, hremoved⟩, hmodified⟩ p
      have h1 := hadded p
      have h2 := hremoved p
      have h3 := hmodified p
      tauto
    · intro hsame
      exact ⟨⟨fun p hp => hp.2 ((hsame p).1.mpr hp.1), fun p hp => hp.2 ((hsame p).1.mp hp.1)⟩,
        fun p hp => hp.2.2 ((hsame p).2 hp.1)⟩

/-! ### A file two trees share -/

/-- A series that lists `b` for the kernel, between two scopes that list `a`, and one that lists
nothing. -/
def sharedSeries : PatchSeries :=
  ⟨none, none, none, [.always "a".toList, .always "b".toList], [.always "a".toList], [], [], [], []⟩

def emptySeries : PatchSeries := ⟨none, none, none, [], [], [], [], [], []⟩

def sharedText : Str := "kernel = [\"a\", \"b\"]\nffmpeg = [\"a\"]".toList

/-- A checkout whose commit `1` has the empty document, and whose commit `2` this one. -/
def checkout (text : Str) : PatchesRepo where
  display := "patches".toList
  isDir := true
  hasCommit _ := true
  showFile commit _ := some (if commit = "1".toList then [] else text)
  blobId commit path := if commit = "1".toList then none else some path

/-- What the parser gives for the documents. -/
def parseSeries (text : Str) : Except Str PatchSeries :=
  if text = [] then .ok emptySeries
  else if text = sharedText then .ok sharedSeries
  else if text = "kernel = [\"b\"]".toList then
    .ok { emptySeries with kernel := [.always "b".toList] }
  else .error []

/-- The theorem where one patch is added. -/
theorem delta_exact_one : Exact (checkout "kernel = [\"b\"]".toList) parseSeries "1".toList
    "2".toList "s".toList ["b".toList] [] [] := by
  refine (delta_exact_iff rfl).mpr fun p _ => ⟨fun _ => ?_, fun _ => ?_⟩
  · show InOneRun p ["b".toList]
    rcases eq_or_ne p "b".toList with rfl | h
    · exact (inOneRun_cons_iff_not_mem (by simp)).mpr List.not_mem_nil
    · exact (inOneRun_cons_of_ne h).mpr (inOneRun_of_not_mem List.not_mem_nil)
  · exact inOneRun_of_not_mem (l := []) List.not_mem_nil

/-- A patch that is new in two scopes is two rows. -/
theorem shared_row_twice : ¬ ∀ (repo : PatchesRepo) (parse : Str → Except Str PatchSeries)
    (old new series told : Str) (added removed modified : List Str),
    seriesDelta repo parse old new series = .ok (.compared told added removed modified) →
    Exact repo parse old new series added removed modified := by
  intro h
  have hexact := h (checkout sharedText) parseSeries "1".toList "2".toList "s".toList _ _ _ _ rfl
  exact absurd hexact.1.1 (by decide)

end Boot2Deb.Engine.PatchDelta
