import Boot2Deb.Config.Lineage

/-!
# The accumulated arrays of a device (`core/src/loader.rs`)

The accumulated arrays are taken from the levels before these are merged, and put back into the
merged table. What loads has the entries of all levels under each accumulated key. A level that
holds something else than an array under such a key is refused; one that holds something else than a
table on the way to it need not be: a nearer table replaces it (`arrays_accumulated`).
-/

namespace Boot2Deb.Config
open Rust Lib

/-- What is no table stands on the way to an accumulated key. -/
def WrongOnTheWay (v : Toml) : Prop :=
  ∃ key ∈ ACCUMULATED, ∃ way ≠ [], way <+: key.splitOn '.' ∧ way ≠ key.splitOn '.' ∧
    ∃ w, v.along way = some w ∧ ¬ w.IsTable

/-- A level holds something else than an array at an accumulated key. -/
def WrongAt (level : Str × Copies) (key : Str) (v : Toml) : Prop :=
  (layerValue level.2).value.atKey key = some v ∧ ∀ entries, v ≠ .array entries

/-- What loads along a chain holds the entries of all levels, and a level of the wrong shape is
refused. -/
def Accumulates {Device : Type} (tryInto : Toml → Option Device) (chain : List (Str × Copies))
    (loaded : Outcome ConfigError (Option (Device × List Str))) : Prop :=
  (∀ device lineage, loaded = .ok (some (device, lineage)) → ∃ whole, tryInto whole = some device ∧
    ∀ key ∈ ACCUMULATED, whole.atKey key = (concatenated (documents chain) key).map Toml.array) ∧
  ((∃ level ∈ chain, ∃ key ∈ ACCUMULATED, ∃ v, WrongAt level key v) →
    ∃ level ∈ chain, ∃ key ∈ ACCUMULATED, ∃ v, WrongAt level key v ∧
      loaded = .err (.invalidDeviceField (topPath level.2) key v.typeStr)) ∧
  ((∃ level ∈ chain, WrongOnTheWay (layerValue level.2).value) → ∀ found, loaded ≠ .ok found)

/-! ### Putting the arrays back -/

variable {docs : List Document} {key : Str}

/-- Where a key starts. -/
def headOf (key : Str) : Option Str := (key.splitOn '.').head?

theorem nodup_heads : (ACCUMULATED.map headOf).Nodup := by decide

/-- An accumulated key has one segment or two. -/
theorem segments_of_accumulated (hkey : key ∈ ACCUMULATED) :
    (∃ a, key.splitOn '.' = [a]) ∨ ∃ a b, key.splitOn '.' = [a, b] := by
  have hlen : ∀ key ∈ ACCUMULATED, (key.splitOn '.').length = 1 ∨ (key.splitOn '.').length = 2 := by
    decide
  rcases hlen key hkey with h | h
  · exact .inl (List.length_eq_one_iff.mp h)
  · exact .inr (List.length_eq_two.mp h)

theorem setKeys_table {rows : List (Str × Toml)} {sets : List (Str × List Toml)} :
    ConfigRoot.setKeys sets (.table rows) =
      .table (sets.foldl (fun rows put => Toml.setKey rows put.1 put.2) rows) := rfl

/-- Sets under keys that start elsewhere. -/
theorem along_setKeys_elsewhere {rows : List (Str × Toml)} {sets : List (Str × List Toml)}
    {a : Str} {path : List Str} (hsets : ∀ put ∈ sets, headOf put.1 ≠ some a ∧ put.1.splitOn '.' ≠ []) :
    (ConfigRoot.setKeys sets (.table rows)).along (a :: path) = (Toml.table rows).along (a :: path) := by
  induction sets generalizing rows with
  | nil => rfl
  | cons put sets ih =>
    obtain ⟨⟨hput, hne⟩, hsets⟩ := List.forall_mem_cons.mp hsets
    obtain ⟨first, rest, hsplit⟩ := List.exists_cons_of_ne_nil hne
    have hfirst : first ≠ a := by
      rintro rfl
      exact hput (by rw [headOf, hsplit]; rfl)
    refine (ih hsets).trans ?_
    show (Toml.table (Toml.setAlong put.2 (put.1.splitOn '.') rows)).along (a :: path) = _
    rw [hsplit]
    refine Toml.along_setAlong (fun hpre => ?_) fun hpre => ?_
    · exact absurd (List.cons_prefix_cons.mp hpre).1 hfirst
    · exact absurd (List.cons_prefix_cons.mp hpre).1.symm hfirst

theorem splitOn_ne_nil (hkey : key ∈ ACCUMULATED) : key.splitOn '.' ≠ [] := by
  rcases segments_of_accumulated hkey with ⟨a, h⟩ | ⟨a, b, h⟩ <;> rw [h] <;> exact List.cons_ne_nil _ _

theorem heads_sublist (docs : List Document) :
    ((accumulatedOf docs).map fun put => headOf put.1).Sublist (ACCUMULATED.map headOf) := by
  unfold accumulatedOf
  induction ACCUMULATED with
  | nil => exact List.Sublist.slnil
  | cons key keys ih =>
    rw [List.filterMap_cons]
    cases concatenated docs key with
    | none => exact ih.cons _
    | some entries => exact ih.cons_cons _

theorem concatenated_eq_none (h : concatenated docs key = none) {d : Document} (hd : d ∈ docs) :
    d.value.atKey key = none := by
  unfold concatenated at h
  extract_lets held at h
  split_ifs at h with hany
  cases hv : d.value.atKey key with
  | none => rfl
  | some v =>
    refine absurd (List.any_eq_true.mpr ⟨some v, ?_, rfl⟩) hany
    exact List.mem_map.mpr ⟨d, hd, hv⟩

theorem exists_of_concatenated {entries : List Toml} (h : concatenated docs key = some entries) :
    ∃ d ∈ docs, d.value.atKey key ≠ none := by
  by_contra hno
  push Not at hno
  unfold concatenated at h
  extract_lets held at h
  split_ifs at h with hany
  obtain ⟨o, ho, hsome⟩ := List.any_eq_true.mp hany
  obtain ⟨d, hd, rfl⟩ := List.mem_map.mp ho
  rw [hno d hd] at hsome
  cases hsome

/-- Where what the levels merge to holds tables on the way to the accumulated keys, the flattened
levels hold the entries of all levels there. -/
theorem atKey_flattened (hway : ¬ WrongOnTheWay (Document.lastWins docs).value) (hkey : key ∈ ACCUMULATED) :
    (flattened docs).atKey key = (concatenated docs key).map Toml.array := by
  have hkeys : ∀ put ∈ accumulatedOf docs, put.1.splitOn '.' ≠ [] := fun put hput =>
    splitOn_ne_nil (key_of_mem_accumulatedOf hput).1
  obtain ⟨a, rest, hsplit⟩ := List.exists_cons_of_ne_nil (splitOn_ne_nil hkey)
  have hhead : headOf key = some a := by rw [headOf, hsplit]; rfl
  cases hentries : concatenated docs key with
  | none =>
    have helse : ∀ put ∈ accumulatedOf docs, headOf put.1 ≠ some a ∧ put.1.splitOn '.' ≠ [] := by
      intro put hput
      refine ⟨fun heq => ?_, hkeys put hput⟩
      obtain ⟨hmem, hsome⟩ := key_of_mem_accumulatedOf hput
      have hsame := List.inj_on_of_nodup_map nodup_heads hmem hkey (heq.trans hhead.symm)
      rw [hsame, hentries] at hsome
      cases hsome
    show (flattened docs).along (key.splitOn '.') = none
    rw [hsplit]
    refine (along_setKeys_elsewhere helse).trans ?_
    refine Document.along_lastWins_none (List.cons_ne_nil _ _) fun d hd => ?_
    have hnone := concatenated_eq_none hentries hd
    rwa [Toml.atKey, hsplit] at hnone
  | some entries =>
    have hmem : (key, entries) ∈ accumulatedOf docs :=
      List.mem_filterMap.mpr ⟨key, hkey, by rw [hentries]; rfl⟩
    obtain ⟨before, after, hsets⟩ := List.append_of_mem hmem
    have hnodup := List.Nodup.sublist (heads_sublist docs) nodup_heads
    rw [hsets, List.map_append, List.map_cons] at hnodup
    obtain ⟨-, hafter, hdisjoint⟩ := List.nodup_append.mp hnodup
    have hbefore : ∀ put ∈ before, headOf put.1 ≠ some a ∧ put.1.splitOn '.' ≠ [] := by
      intro put hput
      refine ⟨fun heq => ?_, hkeys put (by rw [hsets]; simp [hput])⟩
      exact hdisjoint _ (List.mem_map_of_mem hput) _ List.mem_cons_self (heq.trans hhead.symm)
    have hafter : ∀ put ∈ after, headOf put.1 ≠ some a ∧ put.1.splitOn '.' ≠ [] := by
      intro put hput
      refine ⟨fun heq => ?_, hkeys put (by rw [hsets]; simp [hput])⟩
      exact (List.nodup_cons.mp hafter).1 (List.mem_map.mpr ⟨put, hput, heq.trans hhead.symm⟩)
    have hflat : ∀ path, (flattened docs).along (a :: path) = (Toml.table (Toml.setAlong entries
        (a :: rest) (before.foldl (fun rows put => Toml.setKey rows put.1 put.2)
          (Document.lastWins docs).rows))).along (a :: path) := by
      intro path
      rw [← hsplit]
      refine Eq.trans ?_ (along_setKeys_elsewhere hafter)
      rw [flattened, hsets, Document.value, setKeys_table, setKeys_table, List.foldl_append,
        List.foldl_cons, Toml.setKey]
    have hbelow : ∀ path, (Toml.table (before.foldl (fun rows put => Toml.setKey rows put.1 put.2)
        (Document.lastWins docs).rows)).along (a :: path) =
          (Document.lastWins docs).value.along (a :: path) := fun path =>
      along_setKeys_elsewhere hbefore
    generalize before.foldl (fun rows put => Toml.setKey rows put.1 put.2)
      (Document.lastWins docs).rows = rows at hflat hbelow
    show (flattened docs).along (key.splitOn '.') = some (.array entries)
    rcases segments_of_accumulated hkey with ⟨a', h⟩ | ⟨a', b, h⟩
    · obtain ⟨rfl, rfl⟩ := List.cons.inj (hsplit.symm.trans h)
      rw [hsplit, hflat, Toml.setAlong, Toml.along_cons, Toml.get, lookup_insertRow, if_pos rfl]
      rfl
    · obtain ⟨rfl, rfl⟩ := List.cons.inj (hsplit.symm.trans h)
      obtain ⟨d, hd, hset⟩ := exists_of_concatenated hentries
      have hget : d.value.get a ≠ none := by
        intro hnone
        rw [Toml.atKey, hsplit, Toml.along_cons, hnone] at hset
        exact hset rfl
      have hmerged := Document.get_lastWins_ne_none hd hget
      have hlookup : (Toml.table rows).get a = (Document.lastWins docs).value.get a := by
        have hone := hbelow []
        simpa [Toml.along_cons] using hone
      rw [hsplit, hflat, Toml.setAlong]
      · cases hrow : lookup a rows with
        | none => exact absurd (hlookup.symm.trans hrow) hmerged
        | some u =>
          by_cases hu : u.IsTable
          · obtain ⟨next, rfl⟩ := hu
            show (Toml.table (insertRow a (.table (Toml.setAlong entries [b] next)) rows)).along _ = _
            rw [Toml.along_cons, Toml.get, lookup_insertRow, if_pos rfl, Option.bind_some,
              Toml.setAlong, Toml.along_cons, Toml.get, lookup_insertRow, if_pos rfl]
            rfl
          · refine absurd ⟨key, hkey, [a], List.cons_ne_nil _ _, ?_, ?_, u, ?_, hu⟩ hway
            · exact hsplit ▸ List.cons_prefix_cons.mpr ⟨rfl, List.nil_prefix⟩
            · rw [hsplit]
              simp
            · rw [Toml.along_cons, ← hlookup]
              exact congrArg (Option.bind · _) hrow
      · exact fun h => by cases h

/-! ### What a load does with the levels -/

/-- The way to `initramfs.modules` is the only one. -/
theorem wrongOnTheWay_iff {v : Toml} : WrongOnTheWay v ↔
    ∃ w, v.get "initramfs".toList = some w ∧ ¬ w.IsTable := by
  have hways : ∀ key ∈ ACCUMULATED, ∀ way ∈ (key.splitOn '.').inits, way ≠ [] →
      way ≠ key.splitOn '.' → way = ["initramfs".toList] := by decide
  have halong : ∀ w, v.along ["initramfs".toList] = some w ↔ v.get "initramfs".toList = some w := by
    simp [Toml.along_cons]
  constructor
  · rintro ⟨key, hkey, way, hne, hpre, hproper, w, hw, htable⟩
    obtain rfl := hways key hkey way ((List.mem_inits _ _).mpr hpre) hne hproper
    exact ⟨w, (halong w).mp hw, htable⟩
  · rintro ⟨w, hw, htable⟩
    refine ⟨"initramfs.modules".toList, by decide, ["initramfs".toList], List.cons_ne_nil _ _,
      by decide, by decide, w, (halong w).mpr hw, htable⟩

/-- Where no level holds something else than a table on the way, neither does what they merge to. -/
theorem not_wrong_lastWins (h : ∀ d ∈ docs, ¬ WrongOnTheWay d.value) :
    ¬ WrongOnTheWay (Document.lastWins docs).value := by
  simp only [wrongOnTheWay_iff] at h ⊢
  rintro ⟨w, hw, htable⟩
  refine htable ?_
  clear htable
  induction docs using List.reverseRecOn generalizing w with
  | nil => cases hw
  | append_singleton docs d ih =>
    have htables : ∀ d' ∈ docs ++ [d], ∀ w, d'.value.get "initramfs".toList = some w → w.IsTable :=
      fun d' hd' w hw => by_contra fun htable => h d' hd' ⟨w, hw, htable⟩
    rcases eq_or_ne docs [] with rfl | hdocs
    · exact htables d (by simp) w hw
    · rw [Document.lastWins_concat hdocs, Document.get_merge] at hw
      have hbelow := fun w => ih (fun d' hd' => h d' (by simp [hd'])) w
      cases hd : d.value.get "initramfs".toList with
      | none =>
        rw [hd] at hw
        cases hb : (Document.lastWins docs).value.get "initramfs".toList with
        | none =>
          rw [hb] at hw
          cases hw
        | some held =>
          rw [hb] at hw
          exact hbelow w (hb.trans hw)
      | some v =>
        obtain ⟨upper, rfl⟩ := htables d (by simp) v hd
        rw [hd] at hw
        cases hb : (Document.lastWins docs).value.get "initramfs".toList with
        | none =>
          rw [hb] at hw
          cases hw
          exact ⟨upper, rfl⟩
        | some held =>
          obtain ⟨under, rfl⟩ := hbelow held hb
          rw [hb] at hw
          cases hw
          exact ⟨_, Toml.merge_table_table⟩

theorem accumulate_eq_err {entries : Option (List Toml)} {levels : List (Toml × Path)}
    (h : ∃ level ∈ levels, ∃ v, level.1.atKey key = some v ∧ ∀ entries, v ≠ .array entries) :
    ∃ level ∈ levels, ∃ v, level.1.atKey key = some v ∧ (∀ entries, v ≠ .array entries) ∧
      accumulate key entries levels = .err (.invalidDeviceField level.2 key v.typeStr) := by
  induction levels generalizing entries with
  | nil =>
    obtain ⟨level, hlevel, -⟩ := h
    cases hlevel
  | cons level levels ih =>
    obtain ⟨value, path⟩ := level
    have hpass : ∀ entries', accumulate key entries ((value, path) :: levels) =
        accumulate key entries' levels →
        (∀ v, value.atKey key = some v → ∃ entries, v = .array entries) →
        ∃ level ∈ (value, path) :: levels, ∃ v, level.1.atKey key = some v ∧
          (∀ entries, v ≠ .array entries) ∧ accumulate key entries ((value, path) :: levels) =
            .err (.invalidDeviceField level.2 key v.typeStr) := by
      intro entries' hnext harray
      obtain ⟨wrong, hmem, v, hv, hwrong⟩ := h
      rcases List.mem_cons.mp hmem with rfl | hmem
      · obtain ⟨array, rfl⟩ := harray v hv
        exact absurd rfl (hwrong array)
      · obtain ⟨level, hlevel, hfound⟩ := @ih entries' ⟨wrong, hmem, v, hv, hwrong⟩
        exact ⟨level, List.mem_cons_of_mem _ hlevel, hnext ▸ hfound⟩
    cases hv : value.atKey key with
    | none => exact hpass entries (by rw [accumulate, hv]) fun v h => by rw [hv] at h; cases h
    | some v =>
      by_cases harray : ∃ array, v = .array array
      · obtain ⟨array, rfl⟩ := harray
        refine hpass _ (by rw [accumulate, hv]) fun v h => ?_
        rw [hv] at h
        cases h
        exact ⟨array, rfl⟩
      · refine ⟨(value, path), List.mem_cons_self, v, hv, fun array h => harray ⟨array, h⟩, ?_⟩
        rw [accumulate, hv]
        cases v with
        | array array => exact absurd ⟨array, rfl⟩ harray
        | _ => rfl

/-- Where each element is computed or refused with an error of its kind, what cannot be collected
is refused with the error of an element. -/
theorem mapM_eq_err {α β ε : Type} {f : α → Outcome ε β} {wrong : α → ε → Prop} {as : List α}
    (h : ∀ a ∈ as, (∃ b, f a = .ok b) ∨ ∃ e, wrong a e ∧ f a = .err e)
    (hno : ∀ bs, Outcome.mapM f as ≠ .ok bs) :
    ∃ a ∈ as, ∃ e, wrong a e ∧ Outcome.mapM f as = .err e := by
  induction as with
  | nil => exact absurd rfl (hno [])
  | cons a as ih =>
    obtain ⟨ha, has⟩ := List.forall_mem_cons.mp h
    have hcons : Outcome.mapM f (a :: as) =
        (f a).bind fun b => (Outcome.mapM f as).bind fun bs => Outcome.ok (b :: bs) := rfl
    rcases ha with ⟨b, hb⟩ | ⟨e, he, herr⟩
    · have hrest : ∀ bs, Outcome.mapM f as ≠ .ok bs := by
        intro bs hbs
        refine hno (b :: bs) ?_
        rw [hcons, hb, hbs]
        rfl
      obtain ⟨a', ha', e, he, herr⟩ := ih has hrest
      exact ⟨a', List.mem_cons_of_mem _ ha', e, he, by rw [hcons, hb, herr]; rfl⟩
    · exact ⟨a, List.mem_cons_self, e, he, by rw [hcons, herr]; rfl⟩

/-- What the walk keeps of a level is its path and, at the accumulated keys, its values. -/
theorem mem_kept {levels : List (Str × Copies)} {level : Toml × Path} (h : level ∈ kept levels) :
    ∃ l ∈ levels, level.2 = topPath l.2 ∧
      ∀ key ∈ ACCUMULATED, level.1.atKey key = (layerValue l.2).value.atKey key := by
  cases levels with
  | nil => cases h
  | cons own levels =>
    rcases List.mem_cons.mp h with rfl | h
    · exact ⟨own, List.mem_cons_self, rfl, fun _ _ => rfl⟩
    · obtain ⟨l, hl, rfl⟩ := List.mem_map.mp h
      exact ⟨l, List.mem_cons_of_mem _ hl, rfl, fun key hkey => atKey_remove hkey _⟩

/-- A level that holds something else than an array is reported. -/
theorem accumulatedArrays_eq_err {levels : List (Str × Copies)}
    (h : ¬ ArraysOnly (documents levels)) : ∃ level ∈ levels, ∃ key ∈ ACCUMULATED, ∃ v,
      WrongAt level key v ∧ accumulatedArrays (kept levels) =
        .err (.invalidDeviceField (topPath level.2) key v.typeStr) := by
  have hno : ∀ found, Outcome.mapM (fun key => do
      let entries ← accumulate key none (kept levels).reverse
      Outcome.ok (entries.map fun entries => (key, entries))) ACCUMULATED ≠ .ok found := by
    intro found hfound
    have hok : accumulatedArrays (kept levels) = .ok found.reduceOption := by
      unfold accumulatedArrays
      rw [hfound]
      rfl
    exact h (accumulatedArrays_eq_ok.mp hok).1
  have hkey : ∀ key ∈ ACCUMULATED, (∃ r, (do
      let entries ← accumulate key none (kept levels).reverse
      Outcome.ok (entries.map fun entries => (key, entries)) : Outcome ConfigError _) = .ok r) ∨
      ∃ e, (∃ level ∈ levels, ∃ v, WrongAt level key v ∧
        e = .invalidDeviceField (topPath level.2) key v.typeStr) ∧ (do
          let entries ← accumulate key none (kept levels).reverse
          Outcome.ok (entries.map fun entries => (key, entries))) = .err e := by
    intro key hkey
    by_cases hwrong : ∃ level ∈ (kept levels).reverse, ∃ v, level.1.atKey key = some v ∧
        ∀ entries, v ≠ .array entries
    · obtain ⟨level, hlevel, v, hv, harray, herr⟩ := @accumulate_eq_err key none _ hwrong
      obtain ⟨l, hl, hpath, hat⟩ := mem_kept (List.mem_reverse.mp hlevel)
      refine .inr ⟨_, ⟨l, hl, v, ⟨hat key hkey ▸ hv, harray⟩, rfl⟩, ?_⟩
      rw [herr, hpath]
      rfl
    · refine .inl ?_
      have hok := (@accumulate_eq_ok key none (kept levels).reverse _ rfl _).mpr ⟨?_, rfl⟩
      · exact ⟨_, by rw [hok]; rfl⟩
      · intro v hv
        obtain ⟨level, hlevel, hv⟩ := List.mem_map.mp hv
        by_contra harray
        exact hwrong ⟨level, hlevel, v, hv, fun entries h => harray ⟨entries, h⟩⟩
  obtain ⟨key, hmem, e, ⟨level, hlevel, v, hwrong, rfl⟩, herr⟩ := mapM_eq_err hkey hno
  refine ⟨level, hlevel, key, hmem, v, hwrong, ?_⟩
  unfold accumulatedArrays
  rw [herr]
  rfl

/-- A device type that asks for a table at `initramfs`. -/
def typed (v : Toml) : Option Toml :=
  match v.get "initramfs".toList with
  | none | some (.table _) => some v
  | some _ => none

/-- A board whose `initramfs` is a number, and a variant of it whose `initramfs` is a table. -/
def numberText : Str := "initramfs = 5".toList

def tableText : Str := "extends = \"board\"\ninitramfs = \x7b modules = [\"a\"] \x7d".toList

def numberDocument : Document where
  rows := [("initramfs".toList, .integer 5)]
  ordered := .table (by decide) (by simp; exact .other (by simp))

def tableDocument : Document where
  rows := [("extends".toList, .string "board".toList),
    ("initramfs".toList, .table [("modules".toList, .array [.string "a".toList])])]
  ordered := by
    refine .table (by decide) fun row hrow => ?_
    rcases List.mem_cons.mp hrow with rfl | hrow
    · exact .other (by simp)
    · obtain rfl := List.mem_singleton.mp hrow
      exact .table (by decide) (by simp; exact .other (by simp))

/-- What the parser gives for the two texts. -/
def parseBoards (s : Str) : Option Document :=
  if s = numberText then some numberDocument
  else if s = tableText then some tableDocument
  else if s = boardText then some boardDocument
  else if s = variantText then some variantDocument
  else none

def boardPath : Path := ["cfg".toList, "devices".toList, "board.toml".toList]

def variantPath : Path := ["cfg".toList, "devices".toList, "variant.toml".toList]

end Boot2Deb.Config
