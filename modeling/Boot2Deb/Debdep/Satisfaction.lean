import Boot2Deb.Debdep.RelationSyntax

/-!
# What the dependency check reports

`Met packages alt` is the meaning of an alternative: a package of its name is installed at a version
the constraint admits, or some installed package provides the name, at an admitted version when
there is a constraint. `unsatisfied` reports a group when no alternative of it is met; an alternative
that names no package counts as satisfied.
-/

namespace Boot2Deb.Debdep
open Rust Std

/-! ### The meaning of a dependency -/

/-- The relation `rel` admits a version that compares to the wanted one as `ord`. -/
def RelationAdmits (rel : Str) (ord : Ordering) : Prop :=
  (rel = "<<".toList ∧ ord = .lt) ∨
  ((rel = "<=".toList ∨ rel = "<".toList) ∧ ord ≠ .gt) ∨
  (rel = "=".toList ∧ ord = .eq) ∨
  ((rel = ">=".toList ∨ rel = ">".toList) ∧ ord ≠ .lt) ∨
  (rel = ">>".toList ∧ ord = .gt)

/-- A version meets a constraint; every version meets an absent one. -/
def VersionMeets (version : Str) (constraint : Option (Str × Str)) : Prop :=
  ∀ c ∈ constraint, RelationAdmits c.1 (compareVersions version c.2)

/-- What an item of a `Provides` field satisfies: its name without a constraint, and at the version
it declares also with one. -/
def ProvidesMeets (item : Str) (constraint : Option (Str × Str)) : Prop :=
  constraint = none ∨ ∃ rel version, (parseAtom item).2 = some (rel, version) ∧ version ≠ [] ∧
    VersionMeets version constraint

/-- The alternative is satisfied by an installed package of its name or by a `Provides`. -/
def Met (packages : List Package) (alt : Str) : Prop :=
  (∃ q ∈ packages, q.name = (parseAtom alt).1 ∧ VersionMeets q.version (parseAtom alt).2) ∨
    ∃ q ∈ packages, ∃ item ∈ splitTop q.provides ',', (parseAtom item).1 = (parseAtom alt).1 ∧
      ProvidesMeets item (parseAtom alt).2

/-- Some alternative of the group is met, or names no package at all. -/
def GroupMet (packages : List Package) (group : Str) : Prop :=
  ∃ alt ∈ splitTop group '|', (parseAtom alt).1 = [] ∨ Met packages alt

/-- The group of the package is reported. -/
def Reported (packages : List Package) (name group : Str) : Prop :=
  ∃ u ∈ unsatisfied packages, u.package = name ∧ u.required = group

theorem relationHolds_iff (version rel want : Str) :
    relationHolds version rel want = true ↔ RelationAdmits rel (compareVersions version want) := by
  rw [relationHolds, RelationAdmits]
  generalize compareVersions version want = ord
  split_ifs with h1 h2 h3 h4 h5 h6 h7
  -- one case for each relation, then the unrecognised ones
  · subst h1; cases ord <;> decide
  · subst h2; cases ord <;> decide
  · subst h3; cases ord <;> decide
  · subst h4; cases ord <;> decide
  · subst h5; cases ord <;> decide
  · subst h6; cases ord <;> decide
  · subst h7; cases ord <;> decide
  · simp only [h1, h2, h3, h4, h5, h6, h7, false_and, or_self]

/-! ### The two maps -/

section
variable {packages packages' : List Package} {name : Str}

theorem installedMap_of_mem (hn : (packages.map Package.name).Nodup) {q : Package}
    (hq : q ∈ packages) : (installedMap packages)[q.name]? = some q.version := by
  have hdistinct : (packages.map fun p => (p.name, p.version)).Pairwise
      fun a b => ¬compare a.1 b.1 = .eq := by
    rw [List.pairwise_map]
    exact (List.pairwise_map.mp hn).imp fun h he => h (LawfulEqCmp.eq_of_compare he)
  exact ExtTreeMap.getElem?_ofList_of_mem ReflCmp.compare_self hdistinct
    (List.mem_map.mpr ⟨q, hq, rfl⟩)

theorem installedMap_eq_none (h : name ∉ packages.map Package.name) :
    (installedMap packages)[name]? = none := by
  refine ExtTreeMap.getElem?_ofList_of_contains_eq_false ?_
  rw [List.map_map]
  simpa using h

theorem installedMap_eq_some_iff (hn : (packages.map Package.name).Nodup) {version : Str} :
    (installedMap packages)[name]? = some version ↔
      ∃ q ∈ packages, q.name = name ∧ q.version = version := by
  constructor
  · intro h
    have hmem : name ∈ packages.map Package.name := by
      by_contra hnot
      simp [installedMap_eq_none hnot] at h
    obtain ⟨q, hq, rfl⟩ := List.mem_map.mp hmem
    rw [installedMap_of_mem hn hq] at h
    exact ⟨q, hq, rfl, Option.some.inj h⟩
  · rintro ⟨q, hq, rfl, rfl⟩
    exact installedMap_of_mem hn hq

/-- The entries all `Provides` fields make, in the order they are pushed. -/
def provisions (packages : List Package) : List (Str × Str) :=
  packages.flatMap fun p => (splitTop p.provides ',').map provided

theorem providesMap_eq (packages : List Package) :
    providesMap packages = (provisions packages).foldl pushProvided ∅ := by
  rw [providesMap, provisions, List.foldl_flatMap]
  simp only [List.foldl_map]

theorem getElem?_pushProvided (m : ProvidesMap) (entry : Str × Str) (name : Str) :
    (pushProvided m entry)[name]? =
      if entry.1 = name then some (m[name]?.getD [] ++ [entry.2]) else m[name]? := by
  rw [pushProvided, ExtTreeMap.getElem?_insert]
  by_cases h : entry.1 = name
  · subst h
    rw [if_pos ReflCmp.compare_self, if_pos rfl]
  · rw [if_neg fun he => h (LawfulEqCmp.eq_of_compare he), if_neg h]

/-- A map that entries were pushed into, looked up. -/
theorem getElem?_foldl_pushProvided (entries : List (Str × Str)) (m : ProvidesMap) (name : Str) :
    (entries.foldl pushProvided m)[name]? =
      if (entries.filter (·.1 = name)) = [] then m[name]?
      else some (m[name]?.getD [] ++ (entries.filter (·.1 = name)).map (·.2)) := by
  induction entries generalizing m with
  | nil => rfl
  | cons entry entries ih =>
    rw [List.foldl_cons, ih, getElem?_pushProvided]
    by_cases h : entry.1 = name
    · rw [List.filter_cons_of_pos (by simpa using h)]
      by_cases hrest : entries.filter (·.1 = name) = []
      · simp [h, hrest]
      · simp [h, hrest]
    · rw [List.filter_cons_of_neg (by simpa using h)]
      simp [h]

theorem providesMap_getElem? (packages : List Package) (name : Str) :
    (providesMap packages)[name]? =
      if (provisions packages).filter (·.1 = name) = [] then none
      else some (((provisions packages).filter (·.1 = name)).map (·.2)) := by
  rw [providesMap_eq, getElem?_foldl_pushProvided]
  simp

theorem mem_provisions {entry : Str × Str} : entry ∈ provisions packages ↔
    ∃ q ∈ packages, ∃ item ∈ splitTop q.provides ',', provided item = entry := by
  simp only [provisions, List.mem_flatMap, List.mem_map]

/-- The name is provided at all. -/
theorem providesMap_isSome_iff : (providesMap packages)[name]?.isSome ↔
    ∃ q ∈ packages, ∃ item ∈ splitTop q.provides ',', (parseAtom item).1 = name := by
  rw [providesMap_getElem?]
  constructor
  · intro h
    split_ifs at h with hnil
    · simp at h
    · obtain ⟨entry, hentry⟩ := List.exists_mem_of_ne_nil _ hnil
      obtain ⟨hmem, hname⟩ := List.mem_filter.mp hentry
      obtain ⟨q, hq, item, hitem, rfl⟩ := mem_provisions.mp hmem
      exact ⟨q, hq, item, hitem, of_decide_eq_true hname⟩
  · rintro ⟨q, hq, item, hitem, rfl⟩
    have hmem : provided item ∈ (provisions packages).filter (·.1 = (parseAtom item).1) :=
      List.mem_filter.mpr ⟨mem_provisions.mpr ⟨q, hq, item, hitem, rfl⟩, by simp [provided]⟩
    rw [if_neg (List.ne_nil_of_mem hmem)]
    rfl

/-- The versions a name is provided at. -/
theorem mem_providesMap_iff {versions : List Str} (h : (providesMap packages)[name]? = some versions)
    {version : Str} : version ∈ versions ↔
      ∃ q ∈ packages, ∃ item ∈ splitTop q.provides ',', provided item = (name, version) := by
  rw [providesMap_getElem?] at h
  split_ifs at h with hnil
  obtain rfl := Option.some.inj h
  rw [← mem_provisions]
  simp only [List.mem_map, List.mem_filter, decide_eq_true_eq, Prod.exists]
  constructor
  · rintro ⟨n, v, ⟨hmem, rfl⟩, rfl⟩
    exact hmem
  · exact fun hmem => ⟨name, version, ⟨hmem, rfl⟩, rfl⟩

/-! ### One alternative -/

theorem installed_branch_iff (hn : (packages.map Package.name).Nodup)
    (constraint : Option (Str × Str)) :
    (match (installedMap packages)[name]?, constraint with
      | some _, none => true
      | some version, some (rel, want) => relationHolds version rel want
      | none, _ => false) = true ↔
      ∃ q ∈ packages, q.name = name ∧ VersionMeets q.version constraint := by
  cases hget : (installedMap packages)[name]? with
  | none =>
    refine iff_of_false (by simp) ?_
    rintro ⟨q, hq, rfl, -⟩
    simp [installedMap_of_mem hn hq] at hget
  | some version =>
    have hiff : (∃ q ∈ packages, q.name = name ∧ VersionMeets q.version constraint) ↔
        VersionMeets version constraint := by
      constructor
      · rintro ⟨q, hq, rfl, hmeets⟩
        rw [installedMap_of_mem hn hq] at hget
        exact Option.some.inj hget ▸ hmeets
      · intro hmeets
        obtain ⟨q, hq, hname, rfl⟩ := (installedMap_eq_some_iff hn).mp hget
        exact ⟨q, hq, hname, hmeets⟩
    rw [hiff]
    cases constraint with
    | none => simp [VersionMeets]
    | some c => simp [VersionMeets, relationHolds_iff]

theorem provided_eq_iff {item version : Str} (hv : version ≠ []) :
    provided item = (name, version) ↔
      (parseAtom item).1 = name ∧ ∃ rel, (parseAtom item).2 = some (rel, version) := by
  cases hc : (parseAtom item).2 with
  | none => simp [provided, hc, hv.symm]
  | some c =>
    obtain ⟨rel, v⟩ := c
    simp [provided, hc]

theorem provides_branch_iff (constraint : Option (Str × Str)) :
    (match (providesMap packages)[name]?, constraint with
      | some _, none => true
      | some versions, some (rel, want) =>
        versions.any fun v => !v.isEmpty && relationHolds v rel want
      | none, _ => false) = true ↔
      ∃ q ∈ packages, ∃ item ∈ splitTop q.provides ',', (parseAtom item).1 = name ∧
        ProvidesMeets item constraint := by
  cases hget : (providesMap packages)[name]? with
  | none =>
    refine iff_of_false (by simp) ?_
    rintro ⟨q, hq, item, hitem, hname, -⟩
    have := providesMap_isSome_iff.mpr ⟨q, hq, item, hitem, hname⟩
    simp [hget] at this
  | some versions =>
    cases constraint with
    | none =>
      refine iff_of_true rfl ?_
      obtain ⟨q, hq, item, hitem, hname⟩ := providesMap_isSome_iff.mp
        (show (providesMap packages)[name]?.isSome by rw [hget]; rfl)
      exact ⟨q, hq, item, hitem, hname, Or.inl rfl⟩
    | some c =>
      simp only [List.any_eq_true, Bool.and_eq_true, Bool.not_eq_true', List.isEmpty_eq_false_iff]
      constructor
      · rintro ⟨v, hv, hne, hrel⟩
        obtain ⟨q, hq, item, hitem, hprov⟩ := (mem_providesMap_iff hget).mp hv
        obtain ⟨hname, rel, hatom⟩ := (provided_eq_iff hne).mp hprov
        refine ⟨q, hq, item, hitem, hname, Or.inr ⟨rel, v, hatom, hne, ?_⟩⟩
        simpa [VersionMeets] using (relationHolds_iff ..).mp hrel
      · rintro ⟨q, hq, item, hitem, hname, hmeets⟩
        obtain ⟨rel, v, hatom, hne, hmeets⟩ := hmeets.resolve_left (by simp)
        refine ⟨v, (mem_providesMap_iff hget).mpr ⟨q, hq, item, hitem,
          (provided_eq_iff hne).mpr ⟨hname, rel, hatom⟩⟩, hne, ?_⟩
        exact (relationHolds_iff ..).mpr (hmeets c rfl)

/-- What `satisfied` decides. -/
theorem satisfied_iff (hn : (packages.map Package.name).Nodup) (alt : Str) :
    satisfied alt (installedMap packages) (providesMap packages) = true ↔
      (parseAtom alt).1 = [] ∨ Met packages alt := by
  rw [satisfied, Bool.or_eq_true, Bool.or_eq_true, List.isEmpty_iff, or_assoc]
  exact or_congr_right (or_congr (installed_branch_iff hn _) (provides_branch_iff _))

/-! ### The report -/

theorem splitTopFrom_trimmed (sep : Char) (depth : Int) (piece s : Str) :
    ∀ t ∈ splitTopFrom sep depth piece s, trim t = t := by
  induction s generalizing depth piece with
  | nil => simp [splitTopFrom, trim_trim]
  | cons c s ih =>
    rw [splitTopFrom]
    split_ifs with h1 h2 h3
    · exact ih _ _
    · exact ih _ _
    · exact List.forall_mem_cons.mpr ⟨trim_trim _, ih _ _⟩
    · exact ih _ _

theorem splitTop_trimmed {s t : Str} {sep : Char} (h : t ∈ splitTop s sep) : trim t = t ∧ t ≠ [] := by
  obtain ⟨hmem, hne⟩ := List.mem_filter.mp h
  exact ⟨splitTopFrom_trimmed sep 0 [] s t hmem, by simpa using hne⟩

/-- A group is reported as it stands, and only when it is not met. -/
theorem reportGroup_eq_some_iff (hn : (packages.map Package.name).Nodup) {p : Package} {group : Str}
    (hg : group ∈ splitTop p.depends ',') {u : Unsatisfied} :
    reportGroup (installedMap packages) (providesMap packages) p group = some u ↔
      ¬GroupMet packages group ∧
        u = { package := p.name
              packageVersion := p.version
              required := group
              installed :=
                (installedMap packages)[(parseAtom ((splitTop group '|').head?.getD [])).1]? } := by
  obtain ⟨htrim, hne⟩ := splitTop_trimmed hg
  have hany : ((splitTop group '|').any fun alt =>
      satisfied alt (installedMap packages) (providesMap packages)) = true ↔
        GroupMet packages group := by
    simp only [List.any_eq_true, satisfied_iff hn, GroupMet]
  rw [reportGroup, htrim, if_neg (by simpa using hne)]
  by_cases h : GroupMet packages group
  · simp only [hany.mpr h, if_true, h, not_true_eq_false, false_and]
    simp
  · simp only [mt hany.mp h, if_false, h, not_false_eq_true, true_and, Option.some.injEq,
      Bool.false_eq_true]
    exact eq_comm

/-- What is reported, entry by entry. -/
theorem mem_unsatisfied_iff (hn : (packages.map Package.name).Nodup) {u : Unsatisfied} :
    u ∈ unsatisfied packages ↔ ∃ p ∈ packages, ∃ group ∈ splitTop p.depends ',',
      ¬GroupMet packages group ∧
        u = { package := p.name
              packageVersion := p.version
              required := group
              installed :=
                (installedMap packages)[(parseAtom ((splitTop group '|').head?.getD [])).1]? } := by
  rw [unsatisfied, List.mem_mergeSort, List.mem_flatMap]
  simp only [List.mem_filterMap]
  constructor
  · rintro ⟨p, hp, group, hg, hu⟩
    exact ⟨p, hp, group, hg, (reportGroup_eq_some_iff hn hg).mp hu⟩
  · rintro ⟨p, hp, group, hg, hu⟩
    exact ⟨p, hp, group, hg, (reportGroup_eq_some_iff hn hg).mpr hu⟩

theorem reported_iff (hn : (packages.map Package.name).Nodup) {group : Str} :
    Reported packages name group ↔ ∃ p ∈ packages, p.name = name ∧
      group ∈ splitTop p.depends ',' ∧ ¬GroupMet packages group := by
  rw [Reported]
  simp only [mem_unsatisfied_iff hn]
  constructor
  · rintro ⟨u, ⟨p, hp, group, hg, hmet, rfl⟩, rfl, rfl⟩
    exact ⟨p, hp, rfl, hg, hmet⟩
  · rintro ⟨p, hp, rfl, hg, hmet⟩
    exact ⟨_, ⟨p, hp, group, hg, hmet, rfl⟩, rfl, rfl⟩

/-! ### Other lists of packages -/

theorem Met.mono (h : packages ⊆ packages') {alt : Str} (hmet : Met packages alt) :
    Met packages' alt := by
  rcases hmet with ⟨q, hq, hmeets⟩ | ⟨q, hq, hmeets⟩
  · exact Or.inl ⟨q, h hq, hmeets⟩
  · exact Or.inr ⟨q, h hq, hmeets⟩

theorem GroupMet.mono (h : packages ⊆ packages') {group : Str} (hmet : GroupMet packages group) :
    GroupMet packages' group := by
  obtain ⟨alt, halt, hmet⟩ := hmet
  exact ⟨alt, halt, hmet.imp_right (Met.mono h)⟩

/-- The entries before they are sorted. -/
def unsorted (packages : List Package) : List Unsatisfied :=
  packages.flatMap fun p => (splitTop p.depends ',').filterMap
    (reportGroup (installedMap packages) (providesMap packages) p)

theorem installedMap_perm (hn : (packages.map Package.name).Nodup) (h : packages'.Perm packages)
    (name : Str) : (installedMap packages')[name]? = (installedMap packages)[name]? := by
  have hn' : (packages'.map Package.name).Nodup := (h.map _).nodup_iff.mpr hn
  apply Option.ext
  intro version
  simp only [installedMap_eq_some_iff hn, installedMap_eq_some_iff hn', h.mem_iff]

theorem reportGroup_perm (hn : (packages.map Package.name).Nodup) (h : packages'.Perm packages)
    {p : Package} {group : Str} (hg : group ∈ splitTop p.depends ',') :
    reportGroup (installedMap packages') (providesMap packages') p group =
      reportGroup (installedMap packages) (providesMap packages) p group := by
  have hn' : (packages'.map Package.name).Nodup := (h.map _).nodup_iff.mpr hn
  have hmet : GroupMet packages' group ↔ GroupMet packages group :=
    ⟨GroupMet.mono h.subset, GroupMet.mono h.symm.subset⟩
  apply Option.ext
  intro u
  rw [reportGroup_eq_some_iff hn' hg, reportGroup_eq_some_iff hn hg, hmet,
    installedMap_perm hn h]

theorem unsorted_perm (hn : (packages.map Package.name).Nodup) (h : packages'.Perm packages) :
    (unsorted packages').Perm (unsorted packages) := by
  have hcongr : unsorted packages' = packages'.flatMap fun p => (splitTop p.depends ',').filterMap
      (reportGroup (installedMap packages) (providesMap packages) p) :=
    List.flatMap_congr fun p _ => List.filterMap_congr fun group hg => reportGroup_perm hn h hg
  rw [hcongr, unsorted]
  exact h.flatMap_right _

instance : TransCmp Unsatisfied.order :=
  have : TransCmp fun a b : Unsatisfied => compare a.package b.package :=
    transCmp_comap compare Unsatisfied.package
  have : TransCmp fun a b : Unsatisfied => compare a.required b.required :=
    transCmp_comap compare Unsatisfied.required
  inferInstanceAs (TransCmp (compareLex _ _))

/-- With distinct names an entry is determined by its package and its group. -/
theorem eq_of_order_eq (hn : (packages.map Package.name).Nodup) {u w : Unsatisfied}
    (hu : u ∈ unsatisfied packages) (hw : w ∈ unsatisfied packages) (h : u.order w = .eq) :
    u = w := by
  obtain ⟨p, hp, group, -, -, rfl⟩ := (mem_unsatisfied_iff hn).mp hu
  obtain ⟨q, hq, group', -, -, rfl⟩ := (mem_unsatisfied_iff hn).mp hw
  obtain ⟨hcmp, hcmp'⟩ := Ordering.then_eq_eq.mp h
  have hname : p.name = q.name := LawfulEqCmp.eq_of_compare hcmp
  have hgroup : group = group' := LawfulEqCmp.eq_of_compare hcmp'
  obtain rfl := List.inj_on_of_nodup_map hn hp hq hname
  subst hgroup
  rfl

/-- The report does not depend on the order of the input, not even in its own order. -/
theorem unsatisfied_perm (hn : (packages.map Package.name).Nodup) (h : packages'.Perm packages) :
    unsatisfied packages' = unsatisfied packages := by
  have hcmp : TransCmp Unsatisfied.order := inferInstance
  have hsorted : ∀ l : List Unsatisfied, (l.mergeSort fun a b => (a.order b).isLE).Pairwise
      fun a b => (a.order b).isLE = true :=
    List.pairwise_mergeSort (fun _ _ _ => hcmp.isLE_trans)
      fun a b => by
        rw [hcmp.eq_swap (a := b)]
        cases a.order b <;> rfl
  have hperm : (unsatisfied packages').Perm (unsatisfied packages) :=
    (List.mergeSort_perm _ _).trans ((unsorted_perm hn h).trans (List.mergeSort_perm _ _).symm)
  refine List.Perm.eq_of_pairwise ?_ (hsorted _) (hsorted _) hperm
  intro u w hu hw huw hwu
  refine eq_of_order_eq hn (hperm.mem_iff.mp hu) hw ?_
  rw [hcmp.eq_swap] at hwu
  cases ho : u.order w <;> simp_all

/-- A package of a new name leaves no group of the others unmet. -/
theorem reported_of_cons (hn : (packages.map Package.name).Nodup) {q : Package}
    (hq : q.name ∉ packages.map Package.name) (hname : name ∈ packages.map Package.name)
    {group : Str} (h : Reported (q :: packages) name group) : Reported packages name group := by
  have hn' : ((q :: packages).map Package.name).Nodup := List.nodup_cons.mpr ⟨hq, hn⟩
  obtain ⟨p, hp, rfl, hg, hmet⟩ := (reported_iff hn').mp h
  have hp : p ∈ packages := (List.mem_cons.mp hp).resolve_left fun he => hq (he ▸ hname)
  exact (reported_iff hn).mpr ⟨p, hp, rfl, hg, fun hm => hmet (hm.mono (List.subset_cons_self ..))⟩

end

/-- The dependency check is sound and complete, does not depend on the order of the packages, and
is monotone in them; a field in Debian's syntax is read as what it says. -/
theorem unsatisfied_exact (packages : List Package) (hn : (packages.map Package.name).Nodup) :
    (∀ name group, Reported packages name group ↔ ∃ p ∈ packages, p.name = name ∧
      group ∈ splitTop p.depends ',' ∧
        ∀ alt ∈ splitTop group '|', (parseAtom alt).1 ≠ [] ∧ ¬Met packages alt) ∧
    (∀ packages' : List Package, packages'.Perm packages →
      unsatisfied packages' = unsatisfied packages) ∧
    (∀ q : Package, q.name ∉ packages.map Package.name → ∀ name ∈ packages.map Package.name,
      ∀ group, Reported (q :: packages) name group → Reported packages name group) ∧
    (∀ field : List (List Relation),
      (∀ group ∈ field, group ≠ [] ∧ ∀ r ∈ group, r.WellFormed) →
        splitTop (fieldText field) ',' = field.map groupText ∧
        ∀ group ∈ field, splitTop (groupText group) '|' = group.map Relation.text ∧
          ∀ r ∈ group, parseAtom r.text = (r.name, r.constraint)) := by
  refine ⟨fun name group => ?_, fun _ h => unsatisfied_perm hn h,
    fun q hq name hname group h => reported_of_cons hn hq hname h, fun field h => ⟨?_, ?_⟩⟩
  · rw [reported_iff hn]
    simp only [GroupMet, not_exists, not_and, not_or, ne_eq]
  · exact splitTop_fieldText (fun g hg => (h g hg).1) fun g hg => (h g hg).2
  · exact fun g hg => ⟨splitTop_groupText (h g hg).2, fun r hr => ((h g hg).2 r hr).parseAtom_text⟩

def demoPackages : List Package :=
  [⟨"app".toList, "1.0".toList, "lib (>= 2) | virtual (>= 1), lib".toList, []⟩,
    ⟨"lib".toList, "1.9~rc1".toList, [], "virtual".toList⟩]

theorem unsatisfied_exact_demo : ∃ p ∈ demoPackages, p.name = "app".toList ∧
    "lib (>= 2) | virtual (>= 1)".toList ∈ splitTop p.depends ',' ∧
      ∀ alt ∈ splitTop "lib (>= 2) | virtual (>= 1)".toList '|',
        (parseAtom alt).1 ≠ [] ∧ ¬Met demoPackages alt :=
  ((unsatisfied_exact demoPackages (by decide)).1 _ _).mp (by
    rw [Reported]
    decide +kernel)

/-- An alternative that names no package is not reported, though nothing satisfies it. -/
theorem nameless_not_reported :
    let packages : List Package := [⟨"app".toList, "1".toList, "(>= 2)".toList, []⟩]
    (∃ p ∈ packages, p.name = "app".toList ∧ "(>= 2)".toList ∈ splitTop p.depends ',' ∧
      ∀ alt ∈ splitTop "(>= 2)".toList '|', ¬Met packages alt) ∧
    ¬Reported packages "app".toList "(>= 2)".toList := by
  refine ⟨⟨_, List.mem_singleton_self _, rfl, by decide, ?_⟩, by rw [Reported]; decide +kernel⟩
  have halts : splitTop "(>= 2)".toList '|' = ["(>= 2)".toList] := by decide
  have hname : (parseAtom "(>= 2)".toList).1 = [] := by decide
  have hprovides : splitTop [] ',' = [] := by decide
  intro alt halt
  rw [halts, List.mem_singleton] at halt
  subst halt
  rintro (⟨q, hq, hn, -⟩ | ⟨q, hq, item, hitem, -⟩)
  · rw [List.mem_singleton.mp hq, hname] at hn
    exact absurd hn (by decide)
  · rw [List.mem_singleton.mp hq, hprovides] at hitem
    exact absurd hitem List.not_mem_nil

end Boot2Deb.Debdep
