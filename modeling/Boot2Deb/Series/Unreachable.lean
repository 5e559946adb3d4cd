import Boot2Deb.Series.Manifest

/-!
# Entries no version selects

The lint compares the span of an entry's range with that of its scope's envelope. `Interval.of`
computes the set of releases a requirement of bounding comparators documents, so two spans whose
bounds close share no release, and two that do not share one when each has one of its own.
-/

namespace Boot2Deb.Series
open Rust Semver

/-! ### The span of a requirement -/

namespace Interval
variable {c : Comparator} {i j : Interval}

theorem bumped_eq_ok {next : Core} (h : bumped c = .ok next) : next = c.past := by
  obtain ⟨op, major, minor, patch, pre⟩ := c
  cases minor with
  | none =>
    obtain ⟨major', hadd, hok⟩ := Outcome.bind_eq_ok.mp h
    rw [← Outcome.ok.inj hok, U64.add_eq_ok.mp hadd]
    rfl
  | some minor =>
    cases patch with
    | none =>
      obtain ⟨minor', hadd, hok⟩ := Outcome.bind_eq_ok.mp h
      rw [← Outcome.ok.inj hok, U64.add_eq_ok.mp hadd]
      rfl
    | some patch =>
      obtain ⟨patch', hadd, hok⟩ := Outcome.bind_eq_ok.mp h
      rw [← Outcome.ok.inj hok, U64.add_eq_ok.mp hadd]
      rfl

/-- The bound is a version. -/
def Representable (x : Core) : Prop := ∃ a b c : UInt64, x = core a.toNat b.toNat c.toNat

theorem representable_first (c : Comparator) : Representable c.first :=
  ⟨c.major, c.minor.getD 0, c.patch.getD 0, rfl⟩

theorem representable_bumped {next : Core} (h : bumped c = .ok next) : Representable next := by
  rw [bumped] at h
  split at h
  · obtain ⟨patch', -, hok⟩ := Outcome.bind_eq_ok.mp h
    exact ⟨_, _, patch', (Outcome.ok.inj hok).symm⟩
  · obtain ⟨minor', -, hok⟩ := Outcome.bind_eq_ok.mp h
    exact ⟨_, minor', 0, (Outcome.ok.inj hok).symm⟩
  · obtain ⟨major', -, hok⟩ := Outcome.bind_eq_ok.mp h
    exact ⟨major', 0, 0, (Outcome.ok.inj hok).symm⟩

/-- What one round of the loop does to the span, for a comparator it models. -/
theorem ofFrom_cons {cs : List Comparator} (h : ofFrom i (c :: cs) = .ok (some j)) :
    c.IsBounding ∧ ∃ i' : Interval, ofFrom i' cs = .ok (some j) ∧
      (∀ v, i'.Mem v ↔ i.Mem v ∧ c.Admits v) ∧
      ((∀ l ∈ i.lo, Representable l) → ∀ l ∈ i'.lo, Representable l) := by
  have hraise : ∀ (k : Interval) {x : Core}, Representable x → (∀ l ∈ k.lo, Representable l) →
      ∀ l ∈ (k.raise x).lo, Representable l := by
    rintro ⟨lo, hi⟩ x hx hk l hl
    cases lo with
    | none => exact Option.some.inj hl ▸ hx
    | some cur =>
      obtain rfl : max cur x = l := Option.some.inj hl
      rcases max_choice cur x with he | he
      · rw [he]; exact hk cur rfl
      · rw [he]; exact hx
  rw [ofFrom] at h
  split_ifs at h with hpre
  · simp at h
  simp only [ne_eq, not_not] at hpre
  obtain ⟨next, hnext, h⟩ := Outcome.bind_eq_ok.mp h
  have hpast := bumped_eq_ok hnext
  have hrep := representable_bumped hnext
  have hfirst := representable_first c
  cases hop : c.op <;> simp only [hop] at h
  case exact =>
    refine ⟨⟨hpre, by simp [hop]⟩, _, h, fun v => ?_, fun hi => hraise i hfirst hi⟩
    rw [HalfOpen.mem_lower, HalfOpen.mem_raise, Comparator.Admits, hop, and_assoc, hpast]
    rfl
  case greater =>
    refine ⟨⟨hpre, by simp [hop]⟩, _, h, fun v => ?_, fun hi => hraise i hrep hi⟩
    rw [HalfOpen.mem_raise, Comparator.Admits, hop, hpast]
  case greaterEq =>
    refine ⟨⟨hpre, by simp [hop]⟩, _, h, fun v => ?_, fun hi => hraise i hfirst hi⟩
    rw [HalfOpen.mem_raise, Comparator.Admits, hop]
    rfl
  case less =>
    refine ⟨⟨hpre, by simp [hop]⟩, _, h, fun v => ?_, fun hi => hi⟩
    rw [HalfOpen.mem_lower, Comparator.Admits, hop]
    rfl
  case lessEq =>
    refine ⟨⟨hpre, by simp [hop]⟩, _, h, fun v => ?_, fun hi => hi⟩
    rw [HalfOpen.mem_lower, Comparator.Admits, hop, hpast]
  case tilde => simp at h
  case caret => simp at h
  case wildcard => simp at h

theorem ofFrom_spec {cs : List Comparator} (h : ofFrom i cs = .ok (some j)) :
    (∀ c ∈ cs, c.IsBounding) ∧ (∀ v, j.Mem v ↔ i.Mem v ∧ ∀ c ∈ cs, c.Admits v) ∧
      ((∀ l ∈ i.lo, Representable l) → ∀ l ∈ j.lo, Representable l) := by
  induction cs generalizing i with
  | nil =>
    obtain rfl : i = j := by simpa [ofFrom] using h
    exact ⟨by simp, by simp, id⟩
  | cons c cs ih =>
    obtain ⟨hc, i', hrun, hmem, hrep⟩ := ofFrom_cons h
    obtain ⟨hcs, hmem', hrep'⟩ := ih hrun
    refine ⟨List.forall_mem_cons.mpr ⟨hc, hcs⟩, fun v => ?_, fun hi => hrep' (hrep hi)⟩
    rw [hmem', hmem, List.forall_mem_cons, and_assoc]

/-- The span of a requirement the lint models is the set of releases it documents. -/
theorem of_spec {req : VersionReq} (h : of req = .ok (some j)) :
    (∀ c ∈ req.comparators, c.IsBounding) ∧
      (∀ v, j.Mem v ↔ ∀ c ∈ req.comparators, c.Admits v) ∧ Representable j.least := by
  obtain ⟨hb, hmem, hrep⟩ := ofFrom_spec h
  refine ⟨hb, fun v => by rw [hmem, and_iff_right HalfOpen.mem_all], ?_⟩
  rw [HalfOpen.least]
  cases hlo : j.lo with
  | none => exact ⟨0, 0, 0, rfl⟩
  | some l => exact hrep (by simp [HalfOpen.all]) l hlo

/-- Bounding comparators are modelled. -/
theorem ofFrom_ne_none {cs : List Comparator} (h : ∀ c ∈ cs, c.IsBounding) (i : Interval) :
    ofFrom i cs ≠ .ok none := by
  induction cs generalizing i with
  | nil => simp [ofFrom]
  | cons c cs ih =>
    obtain ⟨⟨hpre, hop⟩, hcs⟩ := List.forall_mem_cons.mp h
    rw [ofFrom, if_neg (by simpa using hpre)]
    intro hrun
    obtain ⟨next, -, hrun⟩ := Outcome.bind_eq_ok.mp hrun
    simp only [List.mem_cons, List.not_mem_nil, or_false] at hop
    rcases hop with hop | hop | hop | hop | hop <;> simp only [hop] at hrun <;>
      exact ih hcs _ hrun

end Interval

/-! ### Matching a range -/

section
variable {S : Crate} {p : PatchSeries} {series : Str}

/-- The range parses, and the lint reads it as the span `i`. -/
def Spans (S : Crate) (range : Str) (i : Interval) : Prop :=
  ∃ req, S.parseReq (Version.normalizeReq range) = some req ∧ Interval.of req = .ok (some i)

/-- The range, when it parses, is written with `=`, `>`, `>=`, `<` and `<=` on releases. -/
def Bounding (S : Crate) (range : Str) : Prop :=
  ∀ req, S.parseReq (Version.normalizeReq range) = some req → ∀ c ∈ req.comparators, c.IsBounding

/-- A range that spans `i` matches the versions whose release is in `i`. -/
theorem matchesRange_iff (hS : S.Documented) {range version : Str} {i : Interval}
    (h : Spans S range i) {mode : RangeMatch} :
    matchesRange S series range version mode = .ok true ↔
      ∃ ver, Version.parseTag S version = .ok ver ∧ (mode = .release → ver.pre = []) ∧
        i.Mem ver.core := by
  obtain ⟨req, hparse, hof⟩ := h
  obtain ⟨hb, hmem, -⟩ := Interval.of_spec hof
  have hreq : ∀ c ∈ req.comparators, c.IsBounding ∧ c.WellFormed :=
    fun c hc => ⟨hb c hc, hS.wellFormed _ _ hparse c hc⟩
  rw [matchesRange, parseReq, hparse]
  simp only [Outcome.okOr, Outcome.ok_bind, Outcome.bind_eq_ok, Outcome.pure_eq,
    Outcome.ok.injEq, hS.isMatch_iff req _ hreq, ← hmem]
  refine exists_congr fun ver => and_congr_right fun _ => ?_
  cases mode with
  | release => simp
  | candidate => simp [Version.core]

/-! ### The report -/

theorem mem_deadEntries {scope : Scope} {env : Interval} {entries : List PatchEntry}
    {dead : List (Scope × PatchEntry)}
    (h : PatchSeries.deadEntries S series scope env entries = .ok dead) :
    (∀ x, x ∈ dead ↔ ∃ entry ∈ entries, x = (scope, entry) ∧
      PatchSeries.entryDead S series env entry = .ok true) ∧
    ∀ entry ∈ entries, ∃ b, PatchSeries.entryDead S series env entry = .ok b := by
  induction entries generalizing dead with
  | nil =>
    obtain rfl : [] = dead := by simpa [PatchSeries.deadEntries] using h
    simp
  | cons entry entries ih =>
    obtain ⟨b, hb, h⟩ := Outcome.bind_eq_ok.mp h
    obtain ⟨rest, hrest, h⟩ := Outcome.bind_eq_ok.mp h
    obtain rfl := Outcome.ok.inj h
    obtain ⟨hmem, hall⟩ := ih hrest
    refine ⟨fun x => ?_, List.forall_mem_cons.mpr ⟨⟨b, hb⟩, hall⟩⟩
    cases b with
    | true => simp [hmem, hb]
    | false => simp [hmem, hb]

/-- The entry is compared with its scope's envelope, and the two spans are `env` and `i`. -/
def Compared (S : Crate) (p : PatchSeries) (scope : Scope) (entry : PatchEntry)
    (env i : Interval) : Prop :=
  (∃ range, p.envelope scope = some range ∧ Spans S range env) ∧
    ∃ range, entry.kernels = some range ∧ Spans S range i

theorem entryDead_eq_true_iff {env : Interval} {entry : PatchEntry} :
    PatchSeries.entryDead S series env entry = .ok true ↔
      ∃ range i, entry.kernels = some range ∧ Spans S range i ∧ env.intersects i = false := by
  rw [PatchSeries.entryDead]
  cases hk : entry.kernels with
  | none => simp
  | some range =>
    simp only [parseReq, Outcome.bind_eq_ok, Outcome.okOr_eq_ok, Outcome.pure_eq,
      Outcome.ok.injEq, Option.any_eq_true, Bool.not_eq_true']
    constructor
    · rintro ⟨req, hreq, _, hof, i, rfl, hi⟩
      exact ⟨range, i, rfl, ⟨req, hreq, hof⟩, hi⟩
    · rintro ⟨range', i, he, ⟨req, hreq, hof⟩, hi⟩
      obtain rfl := Option.some.inj he
      exact ⟨req, hreq, _, hof, i, rfl, hi⟩

/-- What one scope contributes: nothing, or the dead entries against the span of its envelope. -/
theorem scopeUnreachable_cases {scope : Scope} {dead : List (Scope × PatchEntry)}
    (h : p.scopeUnreachable S series scope = .ok dead) :
    (dead = [] ∧ ∀ range, p.envelope scope = some range →
      ∃ req, S.parseReq (Version.normalizeReq range) = some req ∧ Interval.of req = .ok none) ∨
    ∃ range env, p.envelope scope = some range ∧ Spans S range env ∧
      PatchSeries.deadEntries S series scope env (p.scope scope) = .ok dead := by
  rw [PatchSeries.scopeUnreachable] at h
  cases he : p.envelope scope with
  | none =>
    rw [he] at h
    exact Or.inl ⟨(Outcome.ok.inj h).symm, by simp⟩
  | some range =>
    rw [he] at h
    obtain ⟨req, hreq, h⟩ := Outcome.bind_eq_ok.mp h
    obtain ⟨span, hof, h⟩ := Outcome.bind_eq_ok.mp h
    have hreq := Outcome.okOr_eq_ok.mp hreq
    cases span with
    | none =>
      refine Or.inl ⟨(Outcome.ok.inj h).symm, fun range' hr => ?_⟩
      obtain rfl := Option.some.inj hr
      exact ⟨req, hreq, hof⟩
    | some env => exact Or.inr ⟨range, env, rfl, ⟨req, hreq, hof⟩, h⟩

theorem spans_unique {range : Str} {i j : Interval} (hi : Spans S range i) (hj : Spans S range j) :
    i = j := by
  obtain ⟨req, hreq, hof⟩ := hi
  obtain ⟨req', hreq', hof'⟩ := hj
  obtain rfl := Option.some.inj (hreq.symm.trans hreq')
  exact Option.some.inj (Outcome.ok.inj (hof.symm.trans hof'))

theorem mem_scopeUnreachable {scope : Scope} {dead : List (Scope × PatchEntry)}
    (h : p.scopeUnreachable S series scope = .ok dead) (x : Scope × PatchEntry) :
    x ∈ dead ↔ x.1 = scope ∧ x.2 ∈ p.scope scope ∧
      ∃ env i, Compared S p scope x.2 env i ∧ env.intersects i = false := by
  rcases scopeUnreachable_cases h with ⟨rfl, hnone⟩ | ⟨range, env, hrange, hspan, hrun⟩
  · refine iff_of_false List.not_mem_nil ?_
    rintro ⟨-, -, env, i, ⟨⟨range, hrange, req, hreq, hof⟩, -⟩, -⟩
    obtain ⟨req', hreq', hof'⟩ := hnone range hrange
    obtain rfl := Option.some.inj (hreq.symm.trans hreq')
    simp [hof] at hof'
  · rw [(mem_deadEntries hrun).1]
    constructor
    · rintro ⟨entry, hentry, rfl, hdead⟩
      obtain ⟨range', i, hk, hi, hdisjoint⟩ := entryDead_eq_true_iff.mp hdead
      exact ⟨rfl, hentry, env, i, ⟨⟨range, hrange, hspan⟩, range', hk, hi⟩, hdisjoint⟩
    · rintro ⟨rfl, hentry, env', i, ⟨⟨range', hrange', hspan'⟩, range'', hk, hi⟩, hdisjoint⟩
      obtain rfl := Option.some.inj (hrange.symm.trans hrange')
      obtain rfl := spans_unique hspan hspan'
      exact ⟨x.2, hentry, rfl, entryDead_eq_true_iff.mpr ⟨range'', i, hk, hi, hdisjoint⟩⟩

theorem Scope.mem_all (scope : Scope) : scope ∈ Scope.all := by
  cases scope <;> decide

/-- Every scope was run. -/
theorem exists_scopeUnreachable {dead : List (Scope × PatchEntry)}
    (h : p.unreachable S series = .ok dead) (scope : Scope) :
    ∃ ds, p.scopeUnreachable S series scope = .ok ds := by
  obtain ⟨per, hper, -⟩ := Outcome.bind_eq_ok.mp h
  obtain ⟨ds, -, hds⟩ := (Outcome.mapM_eq_ok hper).1 scope (Scope.mem_all scope)
  exact ⟨ds, hds⟩

/-- What the lint reports. -/
theorem mem_unreachable {dead : List (Scope × PatchEntry)} (h : p.unreachable S series = .ok dead)
    (scope : Scope) (entry : PatchEntry) :
    (scope, entry) ∈ dead ↔ entry ∈ p.scope scope ∧
      ∃ env i, Compared S p scope entry env i ∧ env.intersects i = false := by
  obtain ⟨per, hper, h⟩ := Outcome.bind_eq_ok.mp h
  obtain rfl := Outcome.ok.inj h
  obtain ⟨hall, hmem⟩ := Outcome.mapM_eq_ok hper
  rw [List.mem_flatten]
  constructor
  · rintro ⟨ds, hds, hx⟩
    obtain ⟨s, -, hrun⟩ := hmem ds hds
    obtain ⟨rfl, hx⟩ := (mem_scopeUnreachable hrun _).mp hx
    exact hx
  · rintro ⟨hentry, hx⟩
    obtain ⟨ds, hds, hrun⟩ := hall scope (Scope.mem_all scope)
    exact ⟨ds, hds, (mem_scopeUnreachable hrun _).mpr ⟨rfl, hentry, hx⟩⟩

/-- Two ranges of bounding comparators were compared: neither the parse nor a bound failed. -/
theorem exists_compared {dead : List (Scope × PatchEntry)} (h : p.unreachable S series = .ok dead)
    {scope : Scope} {entry : PatchEntry} (hentry : entry ∈ p.scope scope) {envelope range : Str}
    (hrange : p.envelope scope = some envelope) (hk : entry.kernels = some range)
    (hb : Bounding S envelope) (hb' : Bounding S range) :
    ∃ env i, Compared S p scope entry env i := by
  obtain ⟨ds, hrun⟩ := exists_scopeUnreachable h scope
  rcases scopeUnreachable_cases hrun with ⟨-, hnone⟩ | ⟨envelope', env, hrange', hspan, hrun⟩
  · obtain ⟨req, hreq, hof⟩ := hnone envelope hrange
    exact absurd hof (Interval.ofFrom_ne_none (hb req hreq) _)
  · obtain ⟨b, hdead⟩ := (mem_deadEntries hrun).2 entry hentry
    rw [PatchSeries.entryDead, hk] at hdead
    obtain ⟨req, hreq, hdead⟩ := Outcome.bind_eq_ok.mp hdead
    obtain ⟨span, hof, -⟩ := Outcome.bind_eq_ok.mp hdead
    have hreq := Outcome.okOr_eq_ok.mp hreq
    cases span with
    | none => exact absurd hof (Interval.ofFrom_ne_none (hb' req hreq) _)
    | some i => exact ⟨env, i, ⟨envelope', hrange', hspan⟩, range, hk, req, hreq, hof⟩

/-! ### Soundness and exactness -/

theorem appliesToScope_iff (hS : S.Documented) {scope : Scope} {envelope version : Str}
    {env : Interval} (hrange : p.envelope scope = some envelope) (henv : Spans S envelope env)
    {mode : RangeMatch} : p.appliesToScope S series scope version mode = .ok true ↔
      ∃ ver, Version.parseTag S version = .ok ver ∧ (mode = .release → ver.pre = []) ∧
        env.Mem ver.core := by
  rw [PatchSeries.appliesToScope, hrange]
  exact matchesRange_iff hS henv

theorem selected_iff (hS : S.Documented) {entry : PatchEntry} {range version : Str} {i : Interval}
    (hk : entry.kernels = some range) (hi : Spans S range i) {mode : RangeMatch} :
    entry.selected S series version mode = .ok true ↔
      ∃ ver, Version.parseTag S version = .ok ver ∧ (mode = .release → ver.pre = []) ∧
        i.Mem ver.core := by
  rw [PatchEntry.selected, hk]
  exact matchesRange_iff hS hi

/-- No version is in both of two spans whose bounds close. -/
theorem not_selected (hS : S.Documented) {scope : Scope} {entry : PatchEntry} {env i : Interval}
    (h : Compared S p scope entry env i) (hdisjoint : env.intersects i = false) (version : Str)
    (mode mode' : RangeMatch) : ¬(p.appliesToScope S series scope version mode = .ok true ∧
      entry.selected S series version mode' = .ok true) := by
  obtain ⟨⟨envelope, hrange, henv⟩, range, hk, hi⟩ := h
  rw [appliesToScope_iff hS hrange henv, selected_iff hS hk hi]
  rintro ⟨⟨ver, hver, -, hmem⟩, ver', hver', -, hmem'⟩
  obtain rfl := Outcome.ok.inj (hver.symm.trans hver')
  rw [HalfOpen.intersects_of_mem hmem hmem'] at hdisjoint
  exact Bool.noConfusion hdisjoint

/-- A representable release of a span is a version both modes match. -/
theorem exists_version (hS : S.Documented) {z : Core} (hz : Interval.Representable z) :
    ∃ version ver, Version.parseTag S version = .ok ver ∧ ver.pre = [] ∧ ver.core = z := by
  obtain ⟨a, b, c, rfl⟩ := hz
  exact ⟨_, _, Version.parseTag_releaseText hS a b c, rfl, rfl⟩

/-- Two satisfiable ranges whose bounds do not close are both matched by some release. -/
theorem exists_selected (hS : S.Documented) {scope : Scope} {entry : PatchEntry} {env i : Interval}
    (h : Compared S p scope entry env i) (hmeet : env.intersects i = true) {mode : RangeMatch}
    (hsat : ∃ version, p.appliesToScope S series scope version mode = .ok true)
    (hsat' : ∃ version, entry.selected S series version mode = .ok true) :
    ∃ version, p.appliesToScope S series scope version mode = .ok true ∧
      entry.selected S series version mode = .ok true := by
  obtain ⟨⟨envelope, hrange, henv⟩, range, hk, hi⟩ := h
  simp only [appliesToScope_iff hS hrange henv, selected_iff hS hk hi] at hsat hsat' ⊢
  obtain ⟨-, ver, -, -, hmem⟩ := hsat
  obtain ⟨-, ver', -, -, hmem'⟩ := hsat'
  obtain ⟨z, hz, hz', hleast⟩ := HalfOpen.exists_mem_of_intersects hmem hmem' hmeet
  have hrep : Interval.Representable z := by
    obtain ⟨req, -, hof⟩ := henv
    obtain ⟨req', -, hof'⟩ := hi
    rcases hleast with rfl | rfl
    · exact (Interval.of_spec hof).2.2
    · exact (Interval.of_spec hof').2.2
  obtain ⟨version, v, hparse, hpre, rfl⟩ := exists_version hS hrep
  exact ⟨version, ⟨v, hparse, fun _ => hpre, hz⟩, v, hparse, fun _ => hpre, hz'⟩

end

/-- A series of one ranged kernel patch in the envelope `>=7.8, <8.0`. -/
def demoSeries (kernels : List PatchEntry) : PatchSeries where
  appliesToKernel := some ">=7.8, <8.0".toList
  appliesToUboot := none
  appliesToApp := none
  kernel := kernels
  ffmpeg := []
  userspace := []
  uboot := []
  app := []
  appPackaging := []

end Boot2Deb.Series
