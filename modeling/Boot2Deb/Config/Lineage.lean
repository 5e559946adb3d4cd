import Mathlib.Data.Set.Finite.List
import Boot2Deb.Config.Device

/-!
# A device is its chain, flattened (`core/src/loader.rs`)

The levels of a device are the devices its `extends` leads to, each the last-wins merge of its
copies along the search path. What loads is the last-wins merge of the levels, from the base-most to
the device, but for the accumulated arrays, which hold the entries of all levels
(`device_flattened`). An `extends` that leads back to a level is refused, and every load ends.
-/

namespace Boot2Deb.Config
open Rust Lib Relation

/-- The copies of a level with their paths, from the lowest root up. -/
abbrev Copies := List (Document × Path)

/-! ### Levels -/

/-- What reading a level gives: its copies, and the device that what they merge to extends. -/
def ConfigRoot.readLevel (root : ConfigRoot) (parse : Str → Option Document) (t : Tree) :
    Links Str Copies ConfigError := fun current => do
  let copies ← copiesFrom parse t (deviceRel current) root.roots
  if copies = [] then .err (root.notFound "device" current (deviceRel current) t)
  else
    let parent ← parentOf current (layerValue copies).value
    .ok (copies, parent)

/-- The levels a device name leads to. -/
def ConfigRoot.levels (root : ConfigRoot) (parse : Str → Option Document) (t : Tree) :
    Links Str Copies ConfigError :=
  Links.checked validateDeviceName (root.readLevel parse t)

/-- A level as `device_with_lineage` keeps it: the device's own, and that of an ancestor. -/
def ownLevel (level : Str × Copies) : Toml × Path := ((layerValue level.2).value, topPath level.2)

def ancestorLevel (level : Str × Copies) : Toml × Path :=
  (((layerValue level.2).remove EXTENDS).value, topPath level.2)

def kept : List (Str × Copies) → List (Toml × Path)
  | [] => []
  | level :: levels => ownLevel level :: levels.map ancestorLevel

variable {root : ConfigRoot} {parse : Str → Option Document} {t : Tree} {name : Str} {fuel : ℕ}
  {levels seen : List (Str × Copies)}

theorem kept_concat (levels : List (Str × Copies)) (level : Str × Copies) :
    kept (levels ++ [level]) = kept levels ++
      [if (kept levels).isEmpty then ownLevel level else ancestorLevel level] := by
  cases levels with
  | nil => rfl
  | cons first levels => simp [kept]

/-- The walk of `device_with_lineage` is the walk along the levels. -/
theorem value_walkExtends (fuel : ℕ) (seen : List (Str × Copies)) (current : Str) :
    (root.walkExtends parse name fuel (seen.map Prod.fst) (kept seen) current).value t =
      (Links.walk validateDeviceName (root.readLevel parse t) (cycleError name) fuel seen
        current).bind fun found =>
          .ok (found.map fun levels => (levels.map Prod.fst, kept levels)) := by
  induction fuel generalizing seen current with
  | zero => rfl
  | succ fuel ih =>
    rw [ConfigRoot.walkExtends, Links.walk, Recorded.value_bind, Recorded.value_lift]
    cases validateDeviceName current with
    | err e => rfl
    | panic => rfl
    | ok u =>
      simp only [Outcome.ok_bind]
      by_cases hseen : current ∈ seen.map Prod.fst
      · rw [if_pos hseen, if_pos hseen]
        rfl
      rw [if_neg hseen, if_neg hseen, Recorded.value_bind, value_mergeValue]
      unfold ConfigRoot.readLevel
      cases copiesFrom parse t (deviceRel current) root.roots with
      | err e => rfl
      | panic => rfl
      | ok copies =>
        by_cases hnone : copies = []
        · subst hnone
          rfl
        show ((if copies = [] then Outcome.err _ else Outcome.ok _) >>= _) =
          ((if copies = [] then Outcome.err _ else _) >>= _).bind _
        rw [if_neg hnone, if_neg hnone, Outcome.ok_bind, Recorded.value_bind, Recorded.value_lift]
        cases parentOf current (layerValue copies).value with
        | err e => rfl
        | panic => rfl
        | ok parent =>
          have hchain : kept seen ++ [(if (kept seen).isEmpty then (layerValue copies).value
              else (layerValue copies).value.remove EXTENDS, topPath copies)] =
              kept (seen ++ [(current, copies)]) := by
            rw [kept_concat]
            split_ifs <;> rfl
          have hnames : seen.map Prod.fst ++ [current] =
              (seen ++ [(current, copies)]).map Prod.fst := by
            rw [List.map_append]
            rfl
          simp only [Outcome.ok_bind]
          rw [hchain, hnames]
          cases parent with
          | none => rfl
          | some p => exact ih _ p

/-! ### Merging the levels -/

/-- The documents of the levels, from the base-most to the device. -/
def documents (levels : List (Str × Copies)) : List Document :=
  levels.reverse.map fun level => layerValue level.2

theorem parentOf_eq_some {device p : Str} {v : Toml} (h : parentOf device v = .ok (some p)) :
    v.get EXTENDS = some (.string p) := by
  unfold parentOf at h
  split at h
  · cases h
  · rename_i p' hget
    cases h
    exact hget
  · cases h

theorem levels_eq_ok {current : Str} {copies : Copies} {parent : Option Str}
    (h : root.levels parse t current = .ok (copies, parent)) :
    copies ≠ [] ∧ parentOf current (layerValue copies).value = .ok parent := by
  obtain ⟨u, -, h⟩ := Outcome.bind_eq_ok.mp h
  obtain ⟨found, -, h⟩ := Outcome.bind_eq_ok.mp h
  by_cases hnone : found = []
  · rw [if_pos hnone] at h
    cases h
  · rw [if_neg hnone] at h
    obtain ⟨p, hp, h⟩ := Outcome.bind_eq_ok.mp h
    cases h
    exact ⟨hnone, hp⟩

theorem foldl_levels (d : Document) (path : Path) (levels : List (Document × Path)) :
    (levels.map fun level => (level.1.value, level.2)).foldl
        (fun merged level => (merged.1.merge level.1, level.2)) (d.value, path) =
      (((levels.map Prod.fst).foldl Document.merge d).value,
        (levels.map Prod.snd).getLastD path) := by
  induction levels generalizing d path with
  | nil => rfl
  | cons level levels ih =>
    rw [List.map_cons, List.foldl_cons, ← Document.value_merge, ih, List.map_cons, List.map_cons,
      List.getLastD_cons]
    rfl

theorem mergeChain_eq (own : Document × Path) (ancestors : List (Document × Path)) :
    ConfigRoot.mergeChain ((own :: ancestors).map fun level => (level.1.value, level.2)) =
      .ok ((Document.lastWins ((ancestors.reverse.map Prod.fst) ++ [own.1])).value, own.2) := by
  unfold ConfigRoot.mergeChain
  rw [← List.map_reverse, List.reverse_cons]
  cases hrev : ancestors.reverse with
  | nil => rfl
  | cons base rest =>
    rw [List.cons_append, List.map_cons]
    refine congrArg Outcome.ok ((foldl_levels base.1 base.2 (rest ++ [own])).trans ?_)
    rw [List.map_append, List.map_append, List.map_singleton, List.map_singleton,
      List.getLastD_concat]
    rfl

/-- Without the ancestors' `extends` the levels merge to the same: the device sets its own. -/
theorem mergeChain_kept {copies : Copies} {rest : List (Str × Copies)}
    (h : (root.levels parse t).Chain name ((name, copies) :: rest)) :
    ConfigRoot.mergeChain (kept ((name, copies) :: rest)) =
      .ok ((Document.lastWins (documents ((name, copies) :: rest))).value, topPath copies) := by
  have hkept : kept ((name, copies) :: rest) = ((layerValue copies, topPath copies) ::
      rest.map fun level => ((layerValue level.2).remove EXTENDS, topPath level.2)).map
        fun level => (level.1.value, level.2) := by
    rw [List.map_cons, List.map_map]
    rfl
  have hdocs : documents ((name, copies) :: rest) =
      rest.reverse.map (fun level => layerValue level.2) ++ [layerValue copies] := by
    simp [documents]
  have hbelow : (rest.map fun level => ((layerValue level.2).remove EXTENDS,
      topPath level.2)).reverse.map Prod.fst =
        (rest.reverse.map fun level => layerValue level.2).map (Document.remove EXTENDS) := by
    rw [← List.map_reverse, List.map_map, List.map_map]
    rfl
  rw [hkept, mergeChain_eq, hbelow, hdocs]
  cases h with
  | last => rfl
  | link hlinks hrest =>
    obtain ⟨-, hparent⟩ := levels_eq_ok hlinks
    have hne : rest.reverse.map (fun level => layerValue level.2) ≠ [] := by
      simpa using hrest.ne_nil
    rw [Document.lastWins_concat (by simpa using hrest.ne_nil), Document.lastWins_remove hne,
      Document.remove_merge_of_set (parentOf_eq_some hparent) (by rintro ⟨rows, hrows⟩; cases hrows),
      Document.lastWins_concat hne]

/-! ### Accumulating the arrays -/

/-- What the accumulated keys hold is arrays. -/
def ArraysOnly (docs : List Document) : Prop :=
  ∀ key ∈ ACCUMULATED, ∀ d ∈ docs, ∀ v, d.value.atKey key = some v → ∃ entries, v = .array entries

def entriesOf : Option Toml → List Toml
  | some (.array entries) => entries
  | _ => []

/-- What the documents hold at an accumulated key, in order, each entry once; none where no document
has the key. -/
def concatenated (docs : List Document) (key : Str) : Option (List Toml) :=
  let held := docs.map fun d => d.value.atKey key
  if held.any Option.isSome then
    some ((held.flatMap entriesOf).eraseDupsBy fun e before => before.same e)
  else none

def accumulatedOf (docs : List Document) : List (Str × List Toml) :=
  ACCUMULATED.filterMap fun key => (concatenated docs key).map fun entries => (key, entries)

/-- The merge of the documents with the accumulated arrays put over it. -/
def flattened (docs : List Document) : Toml :=
  ConfigRoot.setKeys (accumulatedOf docs) (Document.lastWins docs).value

theorem pushNew_eq (entries level : List Toml) :
    pushNew entries level =
      List.eraseDupsBy.loop (fun e before => before.same e) level entries.reverse := by
  induction level generalizing entries with
  | nil => simp [pushNew, List.eraseDupsBy.loop]
  | cons e level ih =>
    rw [pushNew, List.eraseDupsBy.loop, List.any_reverse]
    cases entries.any fun held => held.same e with
    | true => exact ih entries
    | false =>
      refine (ih (entries ++ [e])).trans ?_
      rw [List.reverse_append]
      rfl

theorem pushNew_append (entries a b : List Toml) :
    pushNew entries (a ++ b) = pushNew (pushNew entries a) b := by
  induction a generalizing entries with
  | nil => rfl
  | cons e a ih =>
    rw [List.cons_append, pushNew, pushNew]
    split_ifs
    · exact ih entries
    · exact ih (entries ++ [e])

theorem accumulate_eq_ok {key : Str} {entries : Option (List Toml)} {levels : List (Toml × Path)}
    {held : List (Option Toml)} (hheld : levels.map (fun level => level.1.atKey key) = held)
    {found : Option (List Toml)} : accumulate key entries levels = .ok found ↔
      (∀ v, some v ∈ held → ∃ array, v = .array array) ∧
        found = if entries.isSome || held.any Option.isSome then
          some (pushNew (entries.getD []) (held.flatMap entriesOf)) else none := by
  induction levels generalizing entries held with
  | nil =>
    obtain rfl : [] = held := hheld
    cases entries <;> simp [accumulate, pushNew, eq_comm]
  | cons level levels ih =>
    obtain ⟨value, path⟩ := level
    obtain ⟨o, held, rfl⟩ : ∃ o held', held = o :: held' := ⟨_, _, hheld.symm⟩
    obtain ⟨ho, hrest⟩ := List.cons.inj hheld
    rw [accumulate]
    cases o with
    | none =>
      have hnone : value.atKey key = none := ho
      rw [hnone]
      refine (ih hrest).trans (and_congr (by simp) ?_)
      simp [entriesOf]
    | some v =>
      have hsome : value.atKey key = some v := ho
      rw [hsome]
      cases v with
      | array array =>
        refine (ih hrest).trans (and_congr (by simp) ?_)
        rw [List.flatMap_cons, pushNew_append]
        simp [entriesOf]
      | _ =>
        refine ⟨fun h => (by cases h), fun h => ?_⟩
        obtain ⟨array, harray⟩ := h.1 _ List.mem_cons_self
        cases harray

/-- Collecting what is computed under a condition on each element. -/
theorem mapM_eq_ok_iff {α β ε : Type} {f : α → Outcome ε β} {p : α → Prop} {g : α → β} {as : List α}
    {bs : List β} (h : ∀ a ∈ as, ∀ b, f a = .ok b ↔ p a ∧ b = g a) :
    Outcome.mapM f as = .ok bs ↔ (∀ a ∈ as, p a) ∧ bs = as.map g := by
  induction as generalizing bs with
  | nil => simp [Outcome.mapM, eq_comm]
  | cons a as ih =>
    obtain ⟨ha, has⟩ := List.forall_mem_cons.mp h
    constructor
    · intro hok
      obtain ⟨b, hb, hok⟩ := Outcome.bind_eq_ok.mp hok
      obtain ⟨bs', hbs, hok⟩ := Outcome.bind_eq_ok.mp hok
      cases hok
      obtain ⟨hpa, rfl⟩ := (ha b).mp hb
      obtain ⟨hpas, rfl⟩ := (ih has).mp hbs
      exact ⟨List.forall_mem_cons.mpr ⟨hpa, hpas⟩, rfl⟩
    · rintro ⟨hp, rfl⟩
      obtain ⟨hpa, hpas⟩ := List.forall_mem_cons.mp hp
      have hb := (ha (g a)).mpr ⟨hpa, rfl⟩
      have hbs := (ih has).mpr ⟨hpas, rfl⟩
      show ((f a).bind fun b => (Outcome.mapM f as).bind fun bs => Outcome.ok (b :: bs)) = _
      rw [hb]
      show ((Outcome.mapM f as).bind fun bs => Outcome.ok (g a :: bs)) = _
      rw [hbs]
      rfl

/-- No accumulated key starts at `extends`. -/
theorem head_accumulated : ∀ key ∈ ACCUMULATED,
    ∃ first rest, key.splitOn '.' = first :: rest ∧ first ≠ EXTENDS := by
  have hhead : ∀ key ∈ ACCUMULATED, key.splitOn '.' ≠ [] ∧
      (key.splitOn '.').head? ≠ some EXTENDS := by decide
  intro key hkey
  obtain ⟨hne, hfirst⟩ := hhead key hkey
  obtain ⟨first, rest, hsplit⟩ := List.exists_cons_of_ne_nil hne
  refine ⟨first, rest, hsplit, fun hext => hfirst ?_⟩
  rw [hsplit, hext]
  rfl

theorem atKey_remove {key : Str} (hkey : key ∈ ACCUMULATED) (d : Document) :
    (d.remove EXTENDS).value.atKey key = d.value.atKey key := by
  obtain ⟨first, rest, hsplit, hfirst⟩ := head_accumulated key hkey
  unfold Toml.atKey
  rw [hsplit, Toml.along_cons, Toml.along_cons, Document.get_remove, if_neg hfirst]

theorem map_atKey_kept {key : Str} (hkey : key ∈ ACCUMULATED) (levels : List (Str × Copies)) :
    (kept levels).reverse.map (fun level => level.1.atKey key) =
      (documents levels).map fun d => d.value.atKey key := by
  have hkept : (kept levels).map (fun level => level.1.atKey key) =
      (levels.map fun level => layerValue level.2).map fun d => d.value.atKey key := by
    cases levels with
    | nil => rfl
    | cons own levels =>
      rw [kept, List.map_cons, List.map_cons, List.map_cons, List.map_map, List.map_map]
      exact congrArg _ (List.map_congr_left fun level _ => atKey_remove hkey (layerValue level.2))
  rw [List.map_reverse, hkept, documents, List.map_reverse, List.map_reverse]

/-- The accumulated arrays of a chain are those of its documents. -/
theorem accumulatedArrays_eq_ok {levels : List (Str × Copies)} {found : List (Str × List Toml)} :
    accumulatedArrays (kept levels) = .ok found ↔
      ArraysOnly (documents levels) ∧ found = accumulatedOf (documents levels) := by
  have hkey : ∀ key ∈ ACCUMULATED, ∀ r : Option (Str × List Toml),
      (do let entries ← accumulate key none (kept levels).reverse
          Outcome.ok (entries.map fun entries => (key, entries)) : Outcome ConfigError _) = .ok r ↔
        (∀ d ∈ documents levels, ∀ v, d.value.atKey key = some v → ∃ entries, v = .array entries) ∧
          r = (concatenated (documents levels) key).map fun entries => (key, entries) := by
    intro key hkey r
    have hiff : ∀ {entries}, accumulate key none (kept levels).reverse = .ok entries ↔ _ :=
      accumulate_eq_ok (map_atKey_kept hkey levels)
    rw [Outcome.bind_eq_ok]
    constructor
    · rintro ⟨entries, hentries, hr⟩
      obtain ⟨harrays, rfl⟩ := hiff.mp hentries
      cases hr
      exact ⟨fun d hd v hv => harrays v (List.mem_map.mpr ⟨d, hd, hv⟩), by simp [concatenated, pushNew_eq, List.eraseDupsBy]⟩
    · rintro ⟨harrays, rfl⟩
      refine ⟨concatenated (documents levels) key, hiff.mpr ⟨fun v hv => ?_,
        by simp [concatenated, pushNew_eq, List.eraseDupsBy]⟩,
        rfl⟩
      obtain ⟨d, hd, hv⟩ := List.mem_map.mp hv
      exact harrays d hd v hv
  unfold accumulatedArrays
  rw [Outcome.bind_eq_ok]
  constructor
  · rintro ⟨all, hall, hfound⟩
    obtain ⟨harrays, rfl⟩ := (mapM_eq_ok_iff hkey).mp hall
    cases hfound
    exact ⟨harrays, by rw [List.reduceOption, List.filterMap_map]; rfl⟩
  · rintro ⟨harrays, rfl⟩
    refine ⟨_, (mapM_eq_ok_iff hkey).mpr ⟨harrays, rfl⟩, ?_⟩
    rw [List.reduceOption, List.filterMap_map]
    rfl

/-! ### Loading -/

variable {Device : Type} {tryInto : Toml → Option Device}

theorem walkExtends_of_chain (h : (root.levels parse t).Chain name levels)
    (hfuel : levels.length ≤ fuel) : (root.walkExtends parse name fuel [] [] name).value t =
      .ok (some (levels.map Prod.fst, kept levels)) := by
  refine (value_walkExtends fuel [] name).trans ?_
  rw [Links.walk_of_chain h hfuel]
  rfl

/-- Along a chain of levels, a load puts the accumulated arrays over what the levels merge to. -/
theorem value_eq_of_chain (h : (root.levels parse t).Chain name levels)
    (hfuel : levels.length ≤ fuel) :
    ∃ top, (root.deviceWithLineage parse tryInto fuel name).value t =
      (do
        let accumulated ← accumulatedArrays (kept levels)
        let device ← Outcome.okOr (tryInto (ConfigRoot.setKeys accumulated
          (Document.lastWins (documents levels)).value)) (.parse top)
        .ok (some (device, (levels.map Prod.fst).reverse))) := by
  obtain ⟨copies, rest, rfl⟩ : ∃ copies rest, levels = (name, copies) :: rest := by
    cases h with
    | last => exact ⟨_, _, rfl⟩
    | link => exact ⟨_, _, rfl⟩
  refine ⟨topPath copies, ?_⟩
  unfold ConfigRoot.deviceWithLineage
  rw [Recorded.value_bind, walkExtends_of_chain h hfuel, Outcome.ok_bind]
  simp only [Recorded.value_bind, Recorded.value_lift, mergeChain_kept h, Outcome.ok_bind]
  rfl

/-- Along a chain of levels, what loads is the device of the flattened documents. -/
theorem value_of_chain (h : (root.levels parse t).Chain name levels) (hfuel : levels.length ≤ fuel)
    {device : Device} {lineage : List Str} :
    (root.deviceWithLineage parse tryInto fuel name).value t = .ok (some (device, lineage)) ↔
      ArraysOnly (documents levels) ∧ tryInto (flattened (documents levels)) = some device ∧
        lineage = (levels.map Prod.fst).reverse := by
  obtain ⟨top, hvalue⟩ := @value_eq_of_chain root parse t name fuel levels Device tryInto h hfuel
  rw [hvalue, Outcome.bind_eq_ok]
  constructor
  · rintro ⟨found, hfound, hloaded⟩
    obtain ⟨harrays, rfl⟩ := accumulatedArrays_eq_ok.mp hfound
    obtain ⟨device', hdevice, hloaded⟩ := Outcome.bind_eq_ok.mp hloaded
    cases hloaded
    exact ⟨harrays, Outcome.okOr_eq_ok.mp hdevice, rfl⟩
  · rintro ⟨harrays, hdevice, rfl⟩
    refine ⟨_, accumulatedArrays_eq_ok.mpr ⟨harrays, rfl⟩, ?_⟩
    rw [Outcome.bind_eq_ok]
    exact ⟨device, Outcome.okOr_eq_ok.mpr hdevice, rfl⟩

theorem value_of_chain_ne_none (h : (root.levels parse t).Chain name levels)
    (hfuel : levels.length ≤ fuel) :
    (root.deviceWithLineage parse tryInto fuel name).value t ≠ .ok none := by
  obtain ⟨top, hvalue⟩ := @value_eq_of_chain root parse t name fuel levels Device tryInto h hfuel
  rw [hvalue]
  intro hnone
  obtain ⟨accumulated, -, hnone⟩ := Outcome.bind_eq_ok.mp hnone
  obtain ⟨device, -, hnone⟩ := Outcome.bind_eq_ok.mp hnone
  cases hnone

/-! ### Names -/

theorem finite_char : Finite Char :=
  Finite.of_injective (fun c : Char => c.val.toFin) fun _ _ h => Char.ext (UInt32.toFin_inj.mp h)

theorem length_of_validateDeviceName {device : Str} (h : validateDeviceName device = .ok ()) :
    device.length ≤ 64 := by
  have hcheck : Core.Hostname.check device = .ok () := Outcome.mapErr_eq_ok.mp h
  have hlen : byteLen device ≤ 64 := by
    unfold Core.Hostname.check Core.Hostname.MAX_HOSTNAME_LEN at hcheck
    split_ifs at hcheck with hempty hlong
    exact not_lt.mp hlong
  refine le_trans ?_ hlen
  rw [← (@List.length_map _ _ device) Char.utf8Size]
  exact List.length_le_sum_of_one_le _ fun n hn => by
    obtain ⟨c, -, rfl⟩ := List.mem_map.mp hn
    exact c.utf8Size_pos

/-- Only finitely many names are device names. -/
theorem exists_deviceNames :
    ∃ names : Finset Str, ∀ device, validateDeviceName device = .ok () → device ∈ names := by
  have := finite_char
  refine ⟨(List.finite_length_le Char 64).toFinset, fun device h => ?_⟩
  exact (Set.Finite.mem_toFinset _).mpr (length_of_validateDeviceName h)

theorem validate_of_mem_chain (h : (root.levels parse t).Chain name levels) :
    ∀ device ∈ levels.map Prod.fst, validateDeviceName device = .ok () := by
  have hlevel : ∀ {device p}, root.levels parse t device = .ok p →
      validateDeviceName device = .ok () := by
    intro device p hp
    obtain ⟨u, hu, -⟩ := Outcome.bind_eq_ok.mp hp
    exact hu
  induction h with
  | last h => exact fun device hd => by rw [List.mem_singleton.mp hd]; exact hlevel h
  | link h rest ih =>
    rw [List.map_cons]
    exact List.forall_mem_cons.mpr ⟨hlevel h, ih⟩

/-! ### The flattened device -/

theorem head_of_chain (h : (root.levels parse t).Chain name levels) :
    (levels.map Prod.fst).head? = some name := by
  cases h <;> rfl

/-- Putting entries under other keys leaves what stands at a path that is no table. -/
theorem along_setKeys {rows : List (Str × Toml)} {sets : List (Str × List Toml)} {path : List Str}
    {v : Toml} (hsets : ∀ set ∈ sets, ¬ set.1.splitOn '.' <+: path)
    (h : (Toml.table rows).along path = some v) (hv : ¬ v.IsTable) :
    (ConfigRoot.setKeys sets (.table rows)).along path = some v := by
  induction sets generalizing rows with
  | nil => exact h
  | cons set sets ih =>
    obtain ⟨hset, hsets⟩ := List.forall_mem_cons.mp hsets
    refine ih hsets ((Toml.along_setAlong hset fun _ w hw => ?_).trans h)
    rw [h] at hw
    cases hw
    exact hv

theorem key_of_mem_accumulatedOf {docs : List Document} {set : Str × List Toml}
    (h : set ∈ accumulatedOf docs) :
    set.1 ∈ ACCUMULATED ∧ concatenated docs set.1 = some set.2 := by
  obtain ⟨key, hkey, hset⟩ := List.mem_filterMap.mp h
  obtain ⟨entries, hentries, rfl⟩ := Option.map_eq_some_iff.mp hset
  exact ⟨hkey, hentries⟩

theorem copies_ne_nil (h : (root.levels parse t).Chain name levels) :
    ∀ level ∈ levels, level.2 ≠ [] := by
  induction h with
  | last h => exact fun level hl => by rw [List.mem_singleton.mp hl]; exact (levels_eq_ok h).1
  | link h _ ih => exact List.forall_mem_cons.mpr ⟨(levels_eq_ok h).1, ih⟩

/-- What a copy of a level sets, where the copies over it and the nearer levels are silent, stands
in the flattened device. -/
theorem along_flattened {nearer further : List (Str × Copies)} {level : Str × Copies}
    {below above : Copies} {copy : Document × Path} {path : List Str} {v : Toml}
    (hcopies : level.2 = below ++ copy :: above) (h : copy.1.value.along path = some v)
    (hv : ¬ v.IsTable) (habove : ∀ c ∈ above, Toml.Silent path c.1.value)
    (hnearer : ∀ level ∈ nearer, Toml.Silent path (layerValue level.2).value)
    (hpath : ∀ key ∈ ACCUMULATED, ¬ key.splitOn '.' <+: path) :
    (flattened (documents (nearer ++ level :: further))).along path = some v := by
  have hlevel : (layerValue level.2).value.along path = some v := by
    rw [hcopies, layerValue, List.map_append, List.map_cons]
    refine Document.along_lastWins h hv fun d hd => ?_
    obtain ⟨c, hc, rfl⟩ := List.mem_map.mp hd
    exact habove c hc
  have hdocs : documents (nearer ++ level :: further) =
      documents further ++ layerValue level.2 :: documents nearer := by
    simp [documents]
  have hmerged : (Document.lastWins (documents (nearer ++ level :: further))).value.along path =
      some v := by
    rw [hdocs]
    refine Document.along_lastWins hlevel hv fun d hd => ?_
    obtain ⟨l, hl, rfl⟩ := List.mem_map.mp hd
    exact hnearer l (List.mem_reverse.mp hl)
  exact along_setKeys (fun set hset => hpath _ (key_of_mem_accumulatedOf hset).1) hmerged hv

/-- A load ends; it gives the device of the flattened levels, and refuses a name that leads to a
cycle. In the flattened levels the highest copy of the nearest level that says something at a path
is what stands there, but for the accumulated arrays. -/
theorem device_flattened : ∃ enough : ℕ, ∀ {Device : Type} (root : ConfigRoot)
    (parse : Str → Option Document) (tryInto : Toml → Option Device) (t : Tree) (name : Str)
    (fuel : ℕ), enough ≤ fuel →
      let loaded := (root.deviceWithLineage parse tryInto fuel name).value t
      loaded ≠ .ok none ∧
      (∀ chain, (root.levels parse t).Chain name chain → ∀ device lineage,
        loaded = .ok (some (device, lineage)) ↔ ArraysOnly (documents chain) ∧
          tryInto (flattened (documents chain)) = some device ∧
          lineage = (chain.map Prod.fst).reverse) ∧
      (∀ device lineage, loaded = .ok (some (device, lineage)) →
        ∃ chain, (root.levels parse t).Chain name chain) ∧
      ((root.levels parse t).Cyclic name → ∃ names last, last ∈ names ∧ names.head? = some name ∧
        (names ++ [last]).IsChain (root.levels parse t).LeadsTo ∧
        loaded = .err (cycleError name (names ++ [last]))) ∧
      ∀ nearer level further below copy above path v,
        (root.levels parse t).Chain name (nearer ++ level :: further) →
        level.2 = below ++ copy :: above → copy.1.value.along path = some v → ¬ v.IsTable →
        (∀ c ∈ above, Toml.Silent path c.1.value) →
        (∀ level ∈ nearer, ∀ c ∈ level.2, Toml.Silent path c.1.value) →
        (∀ key ∈ ACCUMULATED, ¬ key.splitOn '.' <+: path) →
        (flattened (documents (nearer ++ level :: further))).along path = some v := by
  obtain ⟨names, hnames⟩ := exists_deviceNames
  refine ⟨names.card + 1, fun {Device} root parse tryInto t name fuel hfuel => ?_⟩
  extract_lets loaded
  have hwalk := @value_walkExtends root parse t name fuel [] name
  have hends : Links.walk validateDeviceName (root.readLevel parse t) (cycleError name) fuel []
      name ≠ .ok none :=
    Links.walk_ends hnames List.nodup_nil (fun _ h => absurd h List.not_mem_nil)
      (by rw [List.length_nil]; omega)
  have hfound : ∀ found, loaded = .ok found →
      ∃ levels, found ≠ none ∧ (root.levels parse t).Chain name levels := by
    intro found hfound
    have hloaded : (root.deviceWithLineage parse tryInto fuel name).value t = .ok found := hfound
    unfold ConfigRoot.deviceWithLineage at hloaded
    rw [Recorded.value_bind, Outcome.bind_eq_ok] at hloaded
    obtain ⟨o, ho, hloaded⟩ := hloaded
    obtain ⟨walked, hwalked, ho⟩ := Outcome.bind_eq_ok.mp (hwalk.symm.trans ho)
    cases walked with
    | none => exact absurd hwalked hends
    | some levels =>
      cases ho
      obtain ⟨chain, -, hchain⟩ := Links.chain_of_walk hwalked
      refine ⟨chain, ?_, hchain⟩
      rintro rfl
      simp only [Option.map_some, Recorded.value_bind, Recorded.value_lift] at hloaded
      obtain ⟨_, -, hloaded⟩ := Outcome.bind_eq_ok.mp hloaded
      obtain ⟨_, -, hloaded⟩ := Outcome.bind_eq_ok.mp hloaded
      obtain ⟨_, -, hloaded⟩ := Outcome.bind_eq_ok.mp hloaded
      cases hloaded
  refine ⟨fun h => ?_, fun chain h device lineage => value_of_chain h ?_, fun device lineage h => ?_,
    fun h => ?_, fun nearer level further below copy above path v hchain hcopies h hv habove
      hnearer hpath => along_flattened hcopies h hv habove (fun level hlevel => ?_) hpath⟩
  · obtain ⟨_, hne, -⟩ := hfound none h
    exact hne rfl
  · have hsub : (chain.map Prod.fst).toFinset ⊆ names := fun x hx =>
      hnames x (validate_of_mem_chain h x (List.mem_toFinset.mp hx))
    have hcard := Finset.card_le_card hsub
    rw [List.toFinset_card_of_nodup h.nodup, List.length_map] at hcard
    omega
  · obtain ⟨levels, -, hchain⟩ := hfound _ h
    exact ⟨levels, hchain⟩
  · obtain ⟨found, last, hlast, hlinked, hhead, hcyclic⟩ := Links.walk_of_cyclic h hends
    refine ⟨found, last, hlast, ?_, hlinked, ?_⟩
    · cases found with
      | nil => cases hlast
      | cons first found => exact hhead
    · show (root.deviceWithLineage parse tryInto fuel name).value t = _
      unfold ConfigRoot.deviceWithLineage
      have herr : (root.walkExtends parse name fuel [] [] name).value t =
          .err (cycleError name (found ++ [last])) := by
        refine hwalk.trans ?_
        rw [hcyclic]
        rfl
      rw [Recorded.value_bind, herr]
      rfl
  · refine Document.silent_lastWins ?_ fun d hd => ?_
    · exact fun hnil => copies_ne_nil hchain level (by simp [hlevel]) (List.map_eq_nil_iff.mp hnil)
    · obtain ⟨c, hc, rfl⟩ := List.mem_map.mp hd
      exact hnearer level hlevel c hc

/-- A tree of these files. -/
def Tree.ofFiles (files : List (Path × Str)) : Tree where
  entry path := match files.lookup path with
    | some s => .text s
    | none => .absent
  readDir _ := .unreadable
  mem_readDir _ _ _ _ := .inl rfl

/-- A board that states caveat `b`, and a variant of it that states caveat `a`. -/
def boardText : Str := "caveats = [\"b\"]".toList

def variantText : Str := "extends = \"board\"\ncaveats = [\"a\"]".toList

def boardDocument : Document where
  rows := [("caveats".toList, .array [.string "b".toList])]
  ordered := .table (by decide) (by simp; exact .other (by simp))

def variantDocument : Document where
  rows := [("caveats".toList, .array [.string "a".toList]),
    ("extends".toList, .string "board".toList)]
  ordered := .table (by decide) (by simp; exact ⟨.other (by simp), .other (by simp)⟩)

/-- The variant keeps the caveat of the board, which it would not were the merge last-wins. -/
theorem caveats_not_lastWins : ¬ ∀ (root : ConfigRoot) (parse : Str → Option Document) (t : Tree)
    (name : Str) (chain : List (Str × Copies)), (root.levels parse t).Chain name chain →
    ∀ device lineage, (∃ fuel, (root.deviceWithLineage parse some fuel name).value t =
      .ok (some (device, lineage))) → device = (Document.lastWins (documents chain)).value := by
  intro h
  let root : ConfigRoot := ⟨["cfg".toList], []⟩
  let parse : Str → Option Document := fun s =>
    if s = boardText then some boardDocument
    else if s = variantText then some variantDocument else none
  let t := Tree.ofFiles [(["cfg".toList, "devices".toList, "board.toml".toList], boardText),
    (["cfg".toList, "devices".toList, "variant.toml".toList], variantText)]
  have hchain : (root.levels parse t).Chain "variant".toList
      [("variant".toList, [(variantDocument,
          ["cfg".toList, "devices".toList, "variant.toml".toList])]),
        ("board".toList, [(boardDocument,
          ["cfg".toList, "devices".toList, "board.toml".toList])])] :=
    .link rfl (.last rfl)
  have heq := h root parse t _ _ hchain _ _ ⟨3, rfl⟩
  cases heq

end Boot2Deb.Config
