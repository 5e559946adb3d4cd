import Boot2Deb.Config.Packages
import Boot2Deb.Lib.Sorting

/-!
# Suites no recipe builds (`core/src/loader.rs`)

`unreachable_suites` reads the base layer and the hardware and features of every recipe, and reports
each suite an entry names that no recipe builds and that is no symbolic name
(`mem_reports`). An entry that names another suite beside it still applies there.
-/

namespace Boot2Deb.Config
open Rust

/-! ### The tree -/

/-- What the walk reads of a recipe. -/
structure RecipeSuites where
  device : Str
  suite : Option Str
  features : List Str

/-- A layer of the hardware with its firmware. -/
structure HardwareEntries where
  packages : List PackageEntry
  nonfreeFirmwarePackages : List PackageEntry

structure DeviceEntries extends HardwareEntries where
  defaultSuite : Str
  soc : Str
  bootMethod : Str

/-- What the loads of a config tree answer. -/
structure LoadedTree where
  listRecipes : Outcome ConfigError (List Str)
  recipe : Str → Outcome ConfigError RecipeSuites
  base : Outcome ConfigError (List PackageEntry)
  device : Str → Outcome ConfigError DeviceEntries
  soc : Str → Outcome ConfigError HardwareEntries
  bootMethod : Str → Outcome ConfigError (List PackageEntry)
  feature : Str → Outcome ConfigError (List PackageEntry)

structure UnreachableSuite where
  layer : Str
  package : Str
  suite : Str
deriving DecidableEq

/-! ### The walk -/

namespace LoadedTree

/-- The suites the recipes build. -/
def builtSuites (tree : LoadedTree) : List Str → Outcome ConfigError (List Str)
  | [] => .ok []
  | name :: recipes => do
    let recipe ← tree.recipe name
    let built ← tree.builtSuites recipes
    match recipe.suite, tree.device recipe.device with
    | some suite, _ => .ok (suite :: built)
    | none, .ok device => .ok (device.defaultSuite :: built)
    | none, _ => .ok built

def featureLayer (name : Str) : Str := "feature '".toList ++ name ++ "'".toList

/-- The layers of one recipe, one that does not load left out. -/
def walkRecipe (tree : LoadedTree) (name : Str) : List (Str × List PackageEntry) :=
  match tree.recipe name with
  | .ok recipe =>
    match tree.device recipe.device with
    | .ok device =>
      let deviceLayer := "device '".toList ++ recipe.device ++ "'".toList
      let socLayer := "soc '".toList ++ device.soc ++ "'".toList
      let bmLayer := "boot method '".toList ++ device.bootMethod ++ "'".toList
      [(deviceLayer, device.packages), (deviceLayer, device.nonfreeFirmwarePackages)] ++
      (match tree.soc device.soc with
        | .ok soc => [(socLayer, soc.packages), (socLayer, soc.nonfreeFirmwarePackages)]
        | _ => []) ++
      (match tree.bootMethod device.bootMethod with
        | .ok packages => [(bmLayer, packages)]
        | _ => []) ++
      recipe.features.flatMap fun feature =>
        match tree.feature feature with
        | .ok packages => [(featureLayer feature, packages)]
        | _ => []
    | _ => []
  | _ => []

/-- Every list of entries the walk checks, with its layer. -/
def walk (tree : LoadedTree) (recipes : List Str) : List (Str × List PackageEntry) :=
  (match tree.base with
    | .ok packages => [("the base layer".toList, packages)]
    | _ => []) ++
  recipes.flatMap tree.walkRecipe

end LoadedTree

/-- The symbolic names of suites, and the one that never becomes a release. -/
def ALWAYS : List Str :=
  ["sid".toList, "unstable".toList, "testing".toList, "stable".toList, "oldstable".toList]

/-- The inner loop of `check`. -/
def checkSuites (built : List Str) (layer package : Str) (out : List UnreachableSuite)
    (suites : List Str) : List UnreachableSuite :=
  suites.foldl (fun out suite => if suite ∈ built ∨ suite ∈ ALWAYS then out
    else insertNew out ⟨layer, package, suite⟩) out

/-- `check`. -/
def checkEntries (built : List Str) (out : List UnreachableSuite) :
    Str × List PackageEntry → List UnreachableSuite
  | (layer, entries) => entries.foldl
      (fun out entry => checkSuites built layer entry.name out (entry.suites.getD [])) out

/-- The order of the report. -/
def UnreachableSuite.cmp : UnreachableSuite → UnreachableSuite → Ordering :=
  compareLex (compareOn layer) (compareLex (compareOn package) (compareOn suite))

/-- `unreachable_suites`. -/
def LoadedTree.unreachableSuites (tree : LoadedTree) :
    Outcome ConfigError (List UnreachableSuite) := do
  let recipes ← tree.listRecipes
  let built ← tree.builtSuites recipes
  .ok (sortBy UnreachableSuite.cmp ((tree.walk recipes).foldl (checkEntries built) []))

/-! ### What the walk reports -/

/-- A suite some recipe builds: the one it names, else its device's. -/
inductive Built (tree : LoadedTree) (recipes : List Str) : Str → Prop where
  | named {name recipe suite} : name ∈ recipes → tree.recipe name = .ok recipe →
      recipe.suite = some suite → Built tree recipes suite
  | byDevice {name recipe device} : name ∈ recipes → tree.recipe name = .ok recipe →
      recipe.suite = none → tree.device recipe.device = .ok device →
      Built tree recipes device.defaultSuite

/-- An entry of a layer some recipe reaches. -/
inductive Reached (tree : LoadedTree) (recipes : List Str) : Str → PackageEntry → Prop where
  | base {entries entry} : tree.base = .ok entries → entry ∈ entries →
      Reached tree recipes "the base layer".toList entry
  | device {name recipe device entry} : name ∈ recipes → tree.recipe name = .ok recipe →
      tree.device recipe.device = .ok device →
      entry ∈ device.packages ∨ entry ∈ device.nonfreeFirmwarePackages →
      Reached tree recipes ("device '".toList ++ recipe.device ++ "'".toList) entry
  | soc {name recipe device soc entry} : name ∈ recipes → tree.recipe name = .ok recipe →
      tree.device recipe.device = .ok device → tree.soc device.soc = .ok soc →
      entry ∈ soc.packages ∨ entry ∈ soc.nonfreeFirmwarePackages →
      Reached tree recipes ("soc '".toList ++ device.soc ++ "'".toList) entry
  | bootMethod {name recipe device entries entry} : name ∈ recipes → tree.recipe name = .ok recipe →
      tree.device recipe.device = .ok device → tree.bootMethod device.bootMethod = .ok entries →
      entry ∈ entries →
      Reached tree recipes ("boot method '".toList ++ device.bootMethod ++ "'".toList) entry
  | feature {name recipe device feature entries entry} : name ∈ recipes →
      tree.recipe name = .ok recipe → tree.device recipe.device = .ok device →
      feature ∈ recipe.features → tree.feature feature = .ok entries → entry ∈ entries →
      Reached tree recipes (LoadedTree.featureLayer feature) entry

variable {tree : LoadedTree} {recipes built : List Str} {found : List UnreachableSuite}

theorem mem_builtSuites (h : tree.builtSuites recipes = .ok built) (suite : Str) :
    suite ∈ built ↔ Built tree recipes suite := by
  induction recipes generalizing built with
  | nil =>
    obtain rfl := Outcome.ok.inj h
    refine ⟨fun h => absurd h List.not_mem_nil, ?_⟩
    rintro (⟨hname, -, -⟩ | ⟨hname, -, -, -⟩) <;> exact absurd hname List.not_mem_nil
  | cons name recipes ih =>
    obtain ⟨recipe, hrecipe, h⟩ := Outcome.bind_eq_ok.mp h
    obtain ⟨rest, hrest, h⟩ := Outcome.bind_eq_ok.mp h
    have hmore : Built tree recipes suite → Built tree (name :: recipes) suite := by
      rintro (⟨hname, h, hsuite⟩ | ⟨hname, h, hsuite, hdevice⟩)
      · exact .named (List.mem_cons_of_mem _ hname) h hsuite
      · exact .byDevice (List.mem_cons_of_mem _ hname) h hsuite hdevice
    have hsplit : Built tree (name :: recipes) suite → (recipe.suite = some suite ∨
        recipe.suite = none ∧ ∃ device, tree.device recipe.device = .ok device ∧
          device.defaultSuite = suite) ∨ Built tree recipes suite := by
      rintro (⟨hname, hload, hsuite⟩ | ⟨hname, hload, hsuite, hdevice⟩)
      · rcases List.mem_cons.mp hname with rfl | hname
        · obtain rfl := Outcome.ok.inj (hrecipe.symm.trans hload)
          exact .inl (.inl hsuite)
        · exact .inr (.named hname hload hsuite)
      · rcases List.mem_cons.mp hname with rfl | hname
        · obtain rfl := Outcome.ok.inj (hrecipe.symm.trans hload)
          exact .inl (.inr ⟨hsuite, _, hdevice, rfl⟩)
        · exact .inr (.byDevice hname hload hsuite hdevice)
    have hhead : name ∈ name :: recipes := List.mem_cons_self ..
    split at h
    · rename_i mine hmine
      obtain rfl := Outcome.ok.inj h
      rw [List.mem_cons, ih hrest]
      constructor
      · rintro (rfl | h)
        exacts [.named hhead hrecipe hmine, hmore h]
      · intro h
        rcases hsplit h with (h | ⟨h, -⟩) | h
        · exact .inl (Option.some.inj (h.symm.trans hmine))
        · cases h.symm.trans hmine
        · exact .inr h
    · rename_i device hnone hdevice
      obtain rfl := Outcome.ok.inj h
      rw [List.mem_cons, ih hrest]
      constructor
      · rintro (rfl | h)
        exacts [.byDevice hhead hrecipe hnone hdevice, hmore h]
      · intro h
        rcases hsplit h with (h | ⟨-, d, hd, rfl⟩) | h
        · cases h.symm.trans hnone
        · obtain rfl := Outcome.ok.inj (hdevice.symm.trans hd)
          exact .inl rfl
        · exact .inr h
    · rename_i hnone hdevice
      obtain rfl := Outcome.ok.inj h
      rw [ih hrest]
      refine ⟨hmore, fun h => ?_⟩
      rcases hsplit h with (h | ⟨-, d, hd, -⟩) | h
      · cases h.symm.trans hnone
      · exact absurd hd (hdevice d)
      · exact h

theorem mem_walk {layer : Str} {entry : PackageEntry} :
    (∃ entries, (layer, entries) ∈ tree.walk recipes ∧ entry ∈ entries) ↔
      Reached tree recipes layer entry := by
  constructor
  · rintro ⟨entries, hwalk, hentry⟩
    rcases List.mem_append.mp hwalk with hbase | hwalk
    · split at hbase
      · rename_i hload
        obtain ⟨rfl, rfl⟩ := Prod.mk.inj (List.mem_singleton.mp hbase)
        exact .base hload hentry
      · cases hbase
    · obtain ⟨name, hname, hwalk⟩ := List.mem_flatMap.mp hwalk
      rw [LoadedTree.walkRecipe] at hwalk
      split at hwalk
      · rename_i recipe hrecipe
        split at hwalk
        · rename_i device hdevice
          simp only [List.mem_append, List.mem_cons, List.not_mem_nil, or_false,
            Prod.mk.injEq] at hwalk
          rcases hwalk with (((⟨rfl, rfl⟩ | ⟨rfl, rfl⟩) | hsoc) | hbm) | hfeature
          · exact .device hname hrecipe hdevice (.inl hentry)
          · exact .device hname hrecipe hdevice (.inr hentry)
          · split at hsoc
            · rename_i soc hload
              simp only [List.mem_cons, List.not_mem_nil, or_false, Prod.mk.injEq] at hsoc
              rcases hsoc with ⟨rfl, rfl⟩ | ⟨rfl, rfl⟩
              · exact .soc hname hrecipe hdevice hload (.inl hentry)
              · exact .soc hname hrecipe hdevice hload (.inr hentry)
            · cases hsoc
          · split at hbm
            · rename_i packages hload
              obtain ⟨rfl, rfl⟩ := Prod.mk.inj (List.mem_singleton.mp hbm)
              exact .bootMethod hname hrecipe hdevice hload hentry
            · cases hbm
          · obtain ⟨feature, hmem, hfeature⟩ := List.mem_flatMap.mp hfeature
            split at hfeature
            · rename_i packages hload
              obtain ⟨rfl, rfl⟩ := Prod.mk.inj (List.mem_singleton.mp hfeature)
              exact .feature hname hrecipe hdevice hmem hload hentry
            · cases hfeature
        · cases hwalk
      · cases hwalk
  · have hin : ∀ {name layer entries}, name ∈ recipes → (layer, entries) ∈ tree.walkRecipe name →
        entry ∈ entries →
        ∃ entries, (layer, entries) ∈ tree.walk recipes ∧ entry ∈ entries :=
      fun hname hwalk hentry =>
        ⟨_, List.mem_append_right _ (List.mem_flatMap.mpr ⟨_, hname, hwalk⟩), hentry⟩
    rintro (⟨hload, hentry⟩ | ⟨hname, hrecipe, hdevice, hentry⟩ |
      ⟨hname, hrecipe, hdevice, hload, hentry⟩ | ⟨hname, hrecipe, hdevice, hload, hentry⟩ |
      ⟨hname, hrecipe, hdevice, hmem, hload, hentry⟩)
    · refine ⟨_, List.mem_append_left _ ?_, hentry⟩
      rw [hload]
      exact List.mem_singleton_self _
    · rcases hentry with hentry | hentry <;>
        exact hin hname (by simp [LoadedTree.walkRecipe, hrecipe, hdevice]) hentry
    · rcases hentry with hentry | hentry <;>
        exact hin hname (by simp [LoadedTree.walkRecipe, hrecipe, hdevice, hload]) hentry
    · exact hin hname (by simp [LoadedTree.walkRecipe, hrecipe, hdevice, hload]) hentry
    · refine hin hname ?_ hentry
      simp only [LoadedTree.walkRecipe, hrecipe, hdevice]
      refine List.mem_append_right _ (List.mem_flatMap.mpr ⟨_, hmem, ?_⟩)
      rw [hload]
      exact List.mem_singleton_self _

/-! ### What the check reports -/

/-- What the check says of a list of suites. -/
def reportsOf (built : List Str) (layer package : Str) (suites : List Str) :
    List UnreachableSuite :=
  (suites.filter fun suite => ¬(suite ∈ built ∨ suite ∈ ALWAYS)).map fun suite =>
    ⟨layer, package, suite⟩

def reportsOfLayer (built : List Str) : Str × List PackageEntry → List UnreachableSuite
  | (layer, entries) => entries.flatMap fun entry =>
      reportsOf built layer entry.name (entry.suites.getD [])

theorem checkSuites_eraseDups (built : List Str) (layer package : Str)
    (before : List UnreachableSuite) (suites : List Str) :
    checkSuites built layer package before.eraseDups suites =
      (before ++ reportsOf built layer package suites).eraseDups := by
  induction suites generalizing before with
  | nil => simp [checkSuites, reportsOf]
  | cons suite suites ih =>
    have hstep : checkSuites built layer package before.eraseDups (suite :: suites) =
        checkSuites built layer package (if suite ∈ built ∨ suite ∈ ALWAYS then before.eraseDups
          else insertNew before.eraseDups ⟨layer, package, suite⟩) suites := rfl
    rw [hstep]
    by_cases h : suite ∈ built ∨ suite ∈ ALWAYS
    · rw [if_pos h, ih, reportsOf, reportsOf, List.filter_cons_of_neg (by simp [h])]
    · rw [if_neg h, insertNew_eraseDups, ih, reportsOf, reportsOf,
        List.filter_cons_of_pos (by simp [h]), List.map_cons, List.append_assoc,
        List.singleton_append]

theorem checkEntries_eraseDups (built : List Str) (before : List UnreachableSuite)
    (source : Str × List PackageEntry) :
    checkEntries built before.eraseDups source =
      (before ++ reportsOfLayer built source).eraseDups := by
  obtain ⟨layer, entries⟩ := source
  induction entries generalizing before with
  | nil => simp [checkEntries, reportsOfLayer]
  | cons entry entries ih =>
    rw [checkEntries, List.foldl_cons, checkSuites_eraseDups, ← checkEntries, ih, reportsOfLayer,
      reportsOfLayer, List.flatMap_cons, List.append_assoc]

theorem walk_eraseDups (built : List Str) (before : List UnreachableSuite)
    (sources : List (Str × List PackageEntry)) :
    sources.foldl (checkEntries built) before.eraseDups =
      (before ++ sources.flatMap (reportsOfLayer built)).eraseDups := by
  induction sources generalizing before with
  | nil => simp
  | cons source sources ih =>
    rw [List.foldl_cons, checkEntries_eraseDups, ih, List.flatMap_cons, List.append_assoc]

/-- A suite an entry of a reached layer names, that no recipe builds and the archive has no fixed
name for. -/
def Unreachable (tree : LoadedTree) (recipes : List Str) (u : UnreachableSuite) : Prop :=
  ∃ entry, Reached tree recipes u.layer entry ∧ entry.name = u.package ∧
    u.suite ∈ entry.suites.getD [] ∧ ¬Built tree recipes u.suite ∧ u.suite ∉ ALWAYS

theorem mem_reports (h : tree.builtSuites recipes = .ok built) (u : UnreachableSuite) :
    u ∈ (tree.walk recipes).flatMap (reportsOfLayer built) ↔ Unreachable tree recipes u := by
  have hentry : ∀ entry : PackageEntry, u ∈ reportsOf built u.layer entry.name (entry.suites.getD []) ↔
      entry.name = u.package ∧ u.suite ∈ entry.suites.getD [] ∧ ¬Built tree recipes u.suite ∧
        u.suite ∉ ALWAYS := by
    intro entry
    simp only [reportsOf, List.mem_map, List.mem_filter, mem_builtSuites h, decide_not,
      Bool.not_eq_eq_eq_not, Bool.not_true, decide_eq_false_iff_not, not_or]
    constructor
    · rintro ⟨suite, ⟨hsuite, hbuilt, halways⟩, hu⟩
      have hname : entry.name = u.package := congrArg UnreachableSuite.package hu
      obtain rfl : suite = u.suite := congrArg UnreachableSuite.suite hu
      exact ⟨hname, hsuite, hbuilt, halways⟩
    · rintro ⟨hname, hsuite, hbuilt, halways⟩
      exact ⟨u.suite, ⟨hsuite, hbuilt, halways⟩, by rw [hname]⟩
  have hlayer : ∀ source : Str × List PackageEntry, u ∈ reportsOfLayer built source →
      source.1 = u.layer := by
    rintro ⟨layer, entries⟩ hu
    obtain ⟨entry, -, hu⟩ := List.mem_flatMap.mp hu
    obtain ⟨suite, -, rfl⟩ := List.mem_map.mp hu
    rfl
  rw [List.mem_flatMap]
  constructor
  · rintro ⟨⟨layer, entries⟩, hwalk, hu⟩
    obtain rfl := hlayer _ hu
    obtain ⟨entry, hmem, hu⟩ := List.mem_flatMap.mp hu
    exact ⟨entry, mem_walk.mp ⟨entries, hwalk, hmem⟩, (hentry entry).mp hu⟩
  · rintro ⟨entry, hreached, hu⟩
    obtain ⟨entries, hwalk, hmem⟩ := mem_walk.mpr hreached
    exact ⟨(u.layer, entries), hwalk, List.mem_flatMap.mpr ⟨entry, hmem, (hentry entry).mpr hu⟩⟩

/-- What the lint reports, and what a clean report says. -/
structure ReportExact (tree : LoadedTree) (recipes : List Str) (found : List UnreachableSuite) :
    Prop where
  mem_iff : ∀ u, u ∈ found ↔ Unreachable tree recipes u
  nodup : found.Nodup
  sorted : found.Pairwise fun u v => (UnreachableSuite.cmp u v).isLE
  clean : found = [] → ∀ layer entry, Reached tree recipes layer entry →
    entry.validate layer = .ok () →
    entry.suites = none ∨ ∃ suite, (Built tree recipes suite ∨ suite ∈ ALWAYS) ∧
      ∀ distro, entry.appliesTo distro suite = true

/-- Every entry that passes its check and names a suite applies to one it names. -/
theorem PackageEntry.appliesTo_of_suites {entry : PackageEntry} {layer : Str} {suites : List Str}
    (hok : entry.validate layer = .ok ()) (h : entry.suites = some suites) :
    ∃ suite ∈ suites, ∀ distro, entry.appliesTo distro suite = true := by
  cases entry with
  | plain name => cases h
  | conditional c =>
    have hsuites : c.suites = some suites := h
    cases suites with
    | nil => cases hd : c.distros <;> simp [validate, hsuites, hd] at hok
    | cons suite suites =>
      exact ⟨suite, List.mem_cons_self .., fun distro => by simp [appliesTo, hsuites]⟩

instance : Std.TransCmp UnreachableSuite.cmp :=
  inferInstanceAs (Std.TransCmp (compareLex _ (compareLex _ _)))

theorem unreachableSuites_exact (h : tree.unreachableSuites = .ok found) :
    ∃ recipes, tree.listRecipes = .ok recipes ∧ ReportExact tree recipes found := by
  obtain ⟨recipes, hrecipes, h⟩ := Outcome.bind_eq_ok.mp h
  obtain ⟨built, hbuilt, h⟩ := Outcome.bind_eq_ok.mp h
  obtain rfl := Outcome.ok.inj h
  have hwalk := walk_eraseDups built [] (tree.walk recipes)
  rw [List.eraseDups_nil, List.nil_append] at hwalk
  rw [hwalk]
  have hmem : ∀ u, u ∈ sortBy UnreachableSuite.cmp
      ((tree.walk recipes).flatMap (reportsOfLayer built)).eraseDups ↔
        Unreachable tree recipes u := by
    intro u
    rw [(sortBy_perm _ _).mem_iff, List.mem_eraseDups, mem_reports hbuilt]
  refine ⟨recipes, hrecipes, hmem, ?_, pairwise_sortBy _, fun hnone layer entry hreached hok => ?_⟩
  · exact (sortBy_perm _ _).nodup_iff.mpr (nodup_eraseDups _)
  · cases hsuites : entry.suites with
    | none => exact .inl rfl
    | some suites =>
      obtain ⟨suite, hsuite, happlies⟩ := PackageEntry.appliesTo_of_suites hok hsuites
      refine .inr ⟨suite, ?_, happlies⟩
      by_contra hno
      rw [not_or] at hno
      have hu : (⟨layer, entry.name, suite⟩ : UnreachableSuite) ∈ sortBy UnreachableSuite.cmp
          ((tree.walk recipes).flatMap (reportsOfLayer built)).eraseDups :=
        (hmem _).mpr ⟨entry, hreached, rfl, by rwa [hsuites], hno⟩
      rw [hnone] at hu
      cases hu

/-- One recipe, and a base layer that spells one of the two suites of an entry wrong. -/
def misspelt : LoadedTree where
  listRecipes := .ok ["r".toList]
  recipe _ := .ok ⟨"dev".toList, some "forky".toList, []⟩
  base := .ok [.plain "bash".toList,
    .conditional ⟨"nmtui".toList, some ["forky".toList, "forkey".toList], none⟩]
  device name := .err (.notFound "device" name [] [])
  soc name := .err (.notFound "soc" name [] [])
  bootMethod name := .err (.notFound "boot method" name [] [])
  feature name := .err (.notFound "feature" name [] [])

theorem misspelt_report : misspelt.unreachableSuites =
    .ok [⟨"the base layer".toList, "nmtui".toList, "forkey".toList⟩] := by
  decide +kernel

theorem misspelt_exact :
    ∃ found, misspelt.unreachableSuites = .ok found ∧
      ∃ recipes, misspelt.listRecipes = .ok recipes ∧ ReportExact misspelt recipes found :=
  ⟨_, misspelt_report, unreachableSuites_exact misspelt_report⟩

/-- What is reported applies to the suite the recipe builds. -/
theorem misspelt_applies :
    ∃ found recipes entry, misspelt.unreachableSuites = .ok found ∧
      misspelt.listRecipes = .ok recipes ∧
      Reached misspelt recipes "the base layer".toList entry ∧
      (∃ u ∈ found, u.layer = "the base layer".toList ∧ u.package = entry.name) ∧
      Built misspelt recipes "forky".toList ∧
      entry.appliesTo "debian".toList "forky".toList = true := by
  refine ⟨_, _, .conditional ⟨"nmtui".toList, some ["forky".toList, "forkey".toList], none⟩,
    misspelt_report, rfl, .base rfl ?_, ⟨_, List.mem_singleton_self _, rfl, rfl⟩,
    .named (List.mem_singleton_self _) rfl rfl, ?_⟩
  · exact List.mem_cons_of_mem _ (List.mem_singleton_self _)
  · decide +kernel

end Boot2Deb.Config
