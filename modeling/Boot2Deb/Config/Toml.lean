import Boot2Deb.Rust.Str
import Boot2Deb.Lib.SortedMap

/-!
# TOML values (`core/src/loader.rs`)

The values of a config layer, and how one is merged over another: two tables key by key, anything
else replaces what it comes over. What a merge holds at a path of keys is told by what the two hold
there (`at_merge`): the later one wins wherever it says something.
-/

namespace Boot2Deb.Config
open Rust

structure TomlTime where
  hour : UInt8
  minute : UInt8
  second : Option UInt8
  nanosecond : Option UInt32
deriving DecidableEq

/-- `toml::Datetime`: a date by year, month and day, and an offset, in minutes or `Z`. -/
structure TomlDatetime where
  date : Option (UInt16 × UInt8 × UInt8)
  time : Option TomlTime
  offset : Option (Option Int16)
deriving DecidableEq

/-- `toml::Value`; a float is its bits. -/
inductive Toml where
  | string (s : Str)
  | integer (n : Int64)
  | float (bits : UInt64)
  | boolean (b : Bool)
  | datetime (d : TomlDatetime)
  | array (items : List Toml)
  | table (rows : List (Str × Toml))

namespace Toml

/-- `Value::type_str`. -/
def typeStr : Toml → String
  | string _ => "string"
  | integer _ => "integer"
  | float _ => "float"
  | boolean _ => "boolean"
  | datetime _ => "datetime"
  | array _ => "array"
  | table _ => "table"

/-- `Value::get` of a key. -/
def get (value : Toml) (key : Str) : Option Toml :=
  match value with
  | table rows => lookup key rows
  | _ => none

/-- `Table::remove` of a key. -/
def remove (key : Str) : Toml → Toml
  | table rows => table (rows.filter fun row => row.1 ≠ key)
  | other => other

/-- `==` of the floats with these bits: no NaN is equal to anything, the two zeros are equal. -/
def sameFloat (a b : UInt64) : Bool :=
  let magnitude (n : UInt64) := n &&& 0x7fffffffffffffff
  let isNan (n : UInt64) : Bool := 0x7ff0000000000000 < magnitude n
  !isNan a && !isNan b && (a == b || (magnitude a == 0 && magnitude b == 0))

mutual

/-- `==` of values. -/
def same : Toml → Toml → Bool
  | string a, string b => a == b
  | integer a, integer b => a == b
  | float a, float b => sameFloat a b
  | boolean a, boolean b => a == b
  | datetime a, datetime b => a == b
  | array as, array bs => sameItems as bs
  | table as, table bs => sameRows as bs
  | _, _ => false

def sameItems : List Toml → List Toml → Bool
  | [], [] => true
  | a :: as, b :: bs => same a b && sameItems as bs
  | _, _ => false

def sameRows : List (Str × Toml) → List (Str × Toml) → Bool
  | [], [] => true
  | (k, a) :: as, (l, b) :: bs => k == l && same a b && sameRows as bs
  | _, _ => false

end

mutual

/-- `merge_toml`: two tables merge key by key, anything else replaces what it comes over. -/
def merge (base : Toml) : Toml → Toml
  | table upper =>
    match base with
    | table under => table (mergeRows under upper)
    | _ => table upper
  | other => other

/-- The loop of `merge_toml` over the rows of the later table. -/
def mergeRows (under : List (Str × Toml)) : List (Str × Toml) → List (Str × Toml)
  | [] => under
  | (key, value) :: upper =>
    match lookup key under with
    | some held => mergeRows (insertRow key (merge held value) under) upper
    | none => mergeRows (insertRow key value under) upper

end

/-! ### Dotted keys -/

/-- The value behind a path of keys. -/
def along (value : Toml) (path : List Str) : Option Toml := path.foldlM get value

/-- `at_key`: the value at a dotted key. -/
def atKey (value : Toml) (key : Str) : Option Toml := value.along (key.splitOn '.')

/-- `set_key` by the segments of the key: nothing is set in what is no table. -/
def setAlong (entries : List Toml) : List Str → List (Str × Toml) → List (Str × Toml)
  | [], rows => rows
  | [last], rows => insertRow last (array entries) rows
  | segment :: segments, rows =>
    match lookup segment rows with
    | some (table next) => insertRow segment (table (setAlong entries segments next)) rows
    | _ => rows

/-- `set_key`. -/
def setKey (rows : List (Str × Toml)) (key : Str) (entries : List Toml) : List (Str × Toml) :=
  setAlong entries (key.splitOn '.') rows

/-! ### Ordered tables -/

/-- In the tables that keys lead to, the keys ascend. -/
inductive Ordered : Toml → Prop
  | table {rows} (ascending : Ascending rows) (h : ∀ row ∈ rows, Ordered row.2) :
    Ordered (Toml.table rows)
  | other {v} (h : ∀ rows, v ≠ Toml.table rows) : Ordered v

theorem Ordered.ascending {rows : List (Str × Toml)} (h : Ordered (Toml.table rows)) :
    Ascending rows := by
  cases h with
  | table ascending => exact ascending
  | other h => exact absurd rfl (h rows)

theorem Ordered.of_mem {rows : List (Str × Toml)} {row : Str × Toml} (h : Ordered (Toml.table rows))
    (hrow : row ∈ rows) : Ordered row.2 := by
  cases h with
  | table _ h => exact h row hrow
  | other h => exact absurd rfl (h rows)

end Toml

/-- A parsed config file. -/
structure Document where
  rows : List (Str × Toml)
  ordered : (Toml.table rows).Ordered

def Document.value (d : Document) : Toml := .table d.rows

namespace Toml

variable {under upper rows : List (Str × Toml)} {key j : Str} {v w base : Toml} {path : List Str}

/-! ### What a merge holds under a key -/

/-- What a key of a merge holds, by what the two sides hold there. -/
def combined : Option Toml → Option Toml → Option Toml
  | some held, some v => some (merge held v)
  | none, some v => some v
  | held, none => held

@[simp] theorem merge_table_table : merge (table under) (table upper) = table (mergeRows under upper) := by
  rw [merge]

theorem merge_of_not_table (h : ∀ rows, v ≠ table rows) : merge base v = v := by
  cases v with
  | table rows => exact absurd rfl (h rows)
  | _ =>
    rw [merge]
    exact h

theorem merge_table_of_not_table (h : ∀ rows, base ≠ table rows) :
    merge base (table upper) = table upper := by
  cases base with
  | table rows => exact absurd rfl (h rows)
  | _ =>
    rw [merge]
    exact h

theorem mergeRows_cons : mergeRows under ((key, v) :: upper) =
    mergeRows (insertRow key ((combined (lookup key under) (some v)).getD v) under) upper := by
  rw [mergeRows]
  cases lookup key under <;> rfl

theorem ascending_mergeRows (h : Ascending under) : Ascending (mergeRows under upper) := by
  induction upper generalizing under with
  | nil => rwa [mergeRows]
  | cons row upper ih =>
    obtain ⟨key, v⟩ := row
    rw [mergeRows_cons]
    exact ih (ascending_insertRow h)

/-- Each key of a merge is merged by itself. -/
theorem lookup_mergeRows (h : Ascending upper) :
    lookup j (mergeRows under upper) = combined (lookup j under) (lookup j upper) := by
  induction upper generalizing under with
  | nil =>
    rw [mergeRows]
    cases lookup j under <;> rfl
  | cons row upper ih =>
    obtain ⟨key, v⟩ := row
    obtain ⟨hhead, htail⟩ := List.pairwise_cons.mp h
    rw [mergeRows_cons, ih htail, lookup_insertRow, lookup_cons]
    by_cases hj : key = j
    · have hnone : lookup j upper = none := lookup_eq_none fun hmem => (hhead j hmem).ne hj
      rw [if_pos hj, if_pos hj, hnone, hj]
      cases lookup j under <;> rfl
    · rw [if_neg hj, if_neg hj]

def IsTable (v : Toml) : Prop := ∃ rows, v = table rows

theorem get_merge (h : Ascending upper) : (merge (table under) (table upper)).get j =
    combined ((table under).get j) ((table upper).get j) := by
  rw [merge_table_table]
  exact lookup_mergeRows h

theorem Ordered.get (h : v.Ordered) (hj : v.get j = some w) : w.Ordered := by
  cases v with
  | table rows => exact h.of_mem (mem_of_lookup hj)
  | _ => cases hj

/-- What holds of the values on both sides, and of every merge of such, holds of the values of the
merged rows. -/
theorem forall_mem_mergeRows {p : Toml → Prop} (hunder : ∀ row ∈ under, p row.2)
    (hupper : ∀ row ∈ upper, p row.2 ∧ ∀ held, p held → p (merge held row.2)) :
    ∀ row ∈ mergeRows under upper, p row.2 := by
  induction upper generalizing under with
  | nil => rwa [mergeRows]
  | cons row upper ih =>
    obtain ⟨key, v⟩ := row
    obtain ⟨⟨hv, hmerge⟩, hupper⟩ := List.forall_mem_cons.mp hupper
    rw [mergeRows_cons]
    refine ih (fun row hrow => ?_) hupper
    rcases mem_insertRow hrow with rfl | hrow
    · cases hlookup : lookup key under with
      | none => exact hv
      | some held => exact hmerge held (hunder _ (mem_of_lookup hlookup))
    · exact hunder row hrow

theorem Ordered.merge (hbase : base.Ordered) (hv : v.Ordered) : (merge base v).Ordered := by
  induction hv generalizing base with
  | other h =>
    rw [merge_of_not_table h]
    exact .other h
  | @table upper ascending h ih =>
    by_cases htable : base.IsTable
    · obtain ⟨under, rfl⟩ := htable
      rw [merge_table_table]
      refine .table (ascending_mergeRows hbase.ascending) ?_
      exact forall_mem_mergeRows (fun row hrow => hbase.of_mem hrow) fun row hrow =>
        ⟨h row hrow, fun held hheld => ih row hrow hheld⟩
    · rw [merge_table_of_not_table fun rows hrows => htable ⟨rows, hrows⟩]
      exact .table ascending h

/-! ### What a merge holds along a path -/

@[simp] theorem along_nil : v.along [] = some v := rfl

theorem along_cons : v.along (key :: path) = (v.get key).bind fun w => w.along path := rfl

theorem along_append {more : List Str} :
    v.along (path ++ more) = (v.along path).bind fun w => w.along more := List.foldlM_append

theorem isTable_of_get (h : v.get key = some w) : v.IsTable := by
  cases v with
  | table rows => exact ⟨rows, rfl⟩
  | _ => cases h

/-- A value that says nothing at a path: tables on the way, and then a key that is not there. -/
def Silent : List Str → Toml → Prop
  | [], _ => False
  | key :: path, v => ∃ rows, v = table rows ∧ ∀ w, lookup key rows = some w → Silent path w

theorem Silent.along (h : Silent path v) : v.along path = none := by
  induction path generalizing v with
  | nil => cases h
  | cons key path ih =>
    obtain ⟨rows, rfl, h⟩ := h
    rw [along_cons]
    cases hkey : (table rows).get key with
    | none => rfl
    | some w => exact ih (h w hkey)

/-- Where the later value is silent, a merge holds what was there. -/
theorem along_merge_of_silent (h : Silent path v) (hv : v.Ordered) :
    (merge base v).along path = base.along path := by
  induction path generalizing base v with
  | nil => cases h
  | cons key path ih =>
    obtain ⟨upper, rfl, hsilent⟩ := h
    by_cases htable : base.IsTable
    · obtain ⟨under, rfl⟩ := htable
      rw [along_cons, along_cons, get_merge hv.ascending]
      cases hkey : (table upper).get key with
      | none => cases (table under).get key <;> rfl
      | some w =>
        cases (table under).get key with
        | none => exact (hsilent w hkey).along
        | some held => exact ih (hsilent w hkey) (hv.get hkey)
    · have hnone : base.along (key :: path) = none := by
        cases base with
        | table rows => exact absurd ⟨rows, rfl⟩ htable
        | _ => rfl
      rw [merge_table_of_not_table fun rows hrows => htable ⟨rows, hrows⟩, hnone]
      exact @Silent.along _ (key :: path) ⟨upper, rfl, hsilent⟩

/-- What the later value holds at a path, a merge holds there, over what was there before. -/
theorem along_merge (h : v.along path = some w) (hv : v.Ordered) :
    (merge base v).along path = combined (base.along path) (some w) := by
  induction path generalizing base v with
  | nil =>
    cases h
    rfl
  | cons key path ih =>
    rw [along_cons] at h
    obtain ⟨u, hu, hw⟩ := Option.bind_eq_some_iff.mp h
    obtain ⟨upper, rfl⟩ := isTable_of_get hu
    by_cases htable : base.IsTable
    · obtain ⟨under, rfl⟩ := htable
      rw [along_cons, along_cons, get_merge hv.ascending, hu]
      cases (table under).get key with
      | none => exact hw
      | some held => exact ih hw (hv.get hu)
    · have hnone : base.along (key :: path) = none := by
        cases base with
        | table rows => exact absurd ⟨rows, rfl⟩ htable
        | _ => rfl
      rw [merge_table_of_not_table fun rows hrows => htable ⟨rows, hrows⟩, hnone, along_cons, hu]
      exact hw

theorem along_merge_none (hbase : base.along path = none) (h : v.along path = none)
    (hv : v.Ordered) : (merge base v).along path = none := by
  induction path generalizing base v with
  | nil => cases h
  | cons key path ih =>
    by_cases hvt : v.IsTable
    · obtain ⟨upper, rfl⟩ := hvt
      by_cases hbt : base.IsTable
      · obtain ⟨under, rfl⟩ := hbt
        rw [along_cons] at hbase h
        rw [along_cons, get_merge hv.ascending]
        cases hget : (table upper).get key with
        | none => cases hbelow : (table under).get key <;> rw [hbelow] at hbase <;> exact hbase
        | some u =>
          rw [hget] at h
          cases hbelow : (table under).get key with
          | none => exact h
          | some held =>
            rw [hbelow] at hbase
            exact ih hbase h (hv.get hget)
      · rwa [merge_table_of_not_table fun rows hrows => hbt ⟨rows, hrows⟩]
    · rwa [merge_of_not_table fun rows hrows => hvt ⟨rows, hrows⟩]

theorem Silent.merge (hbase : Silent path base) (h : Silent path v) (hv : v.Ordered) :
    Silent path (merge base v) := by
  induction path generalizing base v with
  | nil => cases h
  | cons key path ih =>
    obtain ⟨under, rfl, hunder⟩ := hbase
    obtain ⟨upper, rfl, hupper⟩ := h
    refine ⟨_, merge_table_table, fun w hw => ?_⟩
    rw [lookup_mergeRows hv.ascending] at hw
    cases hu : lookup key under with
    | none =>
      rw [hu] at hw
      cases ho : lookup key upper with
      | none =>
        rw [ho] at hw
        cases hw
      | some v =>
        rw [ho] at hw
        cases hw
        exact hupper _ ho
    | some held =>
      rw [hu] at hw
      cases ho : lookup key upper with
      | none =>
        rw [ho] at hw
        cases hw
        exact hunder _ hu
      | some v =>
        rw [ho] at hw
        cases hw
        exact ih (hunder _ hu) (hupper _ ho) (hv.get ho)

/-! ### Documents -/

end Toml

namespace Document
open Toml

variable {a b : Document} {j key : Str} {w : Toml}

theorem get_value : a.value.get j = lookup j a.rows := rfl

theorem ext_get (h : ∀ j, a.value.get j = b.value.get j) : a = b := by
  have hrows : a.rows = b.rows := eq_of_lookup a.ordered.ascending b.ordered.ascending h
  cases a
  cases b
  cases hrows
  rfl

/-- One document over another. -/
def merge (a b : Document) : Document :=
  ⟨mergeRows a.rows b.rows, merge_table_table ▸ a.ordered.merge b.ordered⟩

theorem value_merge : (a.merge b).value = a.value.merge b.value := merge_table_table.symm

/-- Each key of a merge is merged by itself. -/
theorem get_merge : (a.merge b).value.get j = combined (a.value.get j) (b.value.get j) :=
  lookup_mergeRows b.ordered.ascending

theorem ordered_filter (a : Document) (key : Str) :
    (Toml.table (a.rows.filter fun row => row.1 ≠ key)).Ordered := by
  refine .table ?_ fun row hrow => a.ordered.of_mem (List.mem_of_mem_filter hrow)
  exact List.Pairwise.sublist (List.filter_sublist.map Prod.fst) a.ordered.ascending

def remove (key : Str) (a : Document) : Document := ⟨_, a.ordered_filter key⟩

theorem value_remove : (a.remove key).value = a.value.remove key := rfl

theorem get_remove : (a.remove key).value.get j = if j = key then none else a.value.get j := by
  show lookup j (a.rows.filter fun row => row.1 ≠ key) = _
  rw [get_value]
  convert @lookup_filter_ne Str Toml _ key j a.rows

/-- A key taken out of both sides is taken out of the merge. -/
theorem remove_merge : (a.merge b).remove key = (a.remove key).merge (b.remove key) := by
  refine ext_get fun j => ?_
  rw [get_remove, get_merge, get_merge, get_remove, get_remove]
  split_ifs <;> rfl

/-- A key the later document sets to no table need not be there before. -/
theorem remove_merge_of_set (hkey : b.value.get key = some w) (hw : ¬ w.IsTable) :
    (a.remove key).merge b = a.merge b := by
  refine ext_get fun j => ?_
  rw [get_merge, get_merge, get_remove]
  by_cases hj : j = key
  · rw [if_pos hj, hj, hkey]
    cases a.value.get key with
    | none => rfl
    | some held => exact congrArg some (merge_of_not_table fun rows hrows => hw ⟨rows, hrows⟩).symm
  · rw [if_neg hj]

/-- The last-wins merge of documents, each over those before it. -/
def lastWins : List Document → Document
  | [] => ⟨[], .table List.Pairwise.nil (fun _ h => absurd h List.not_mem_nil)⟩
  | d :: ds => ds.foldl merge d

variable {ds lower higher : List Document} {d d' : Document} {path : List Str}

theorem value_foldl_merge : (ds.foldl merge d).value = (ds.map value).foldl Toml.merge d.value := by
  induction ds generalizing d with
  | nil => rfl
  | cons d' ds ih => rw [List.foldl_cons, ih, value_merge, List.map_cons, List.foldl_cons]

theorem lastWins_concat (h : ds ≠ []) : lastWins (ds ++ [d]) = (lastWins ds).merge d := by
  cases ds with
  | nil => exact absurd rfl h
  | cons first ds => exact List.foldl_append

theorem lastWins_remove (h : ds ≠ []) :
    lastWins (ds.map (remove key)) = (lastWins ds).remove key := by
  induction ds using List.reverseRecOn with
  | nil => exact absurd rfl h
  | append_singleton ds d ih =>
    rcases eq_or_ne ds [] with rfl | hds
    · rfl
    · rw [List.map_append, List.map_singleton, lastWins_concat (by simpa using hds), ih hds,
        lastWins_concat hds, remove_merge]

theorem silent_lastWins (hne : ds ≠ []) (h : ∀ d ∈ ds, Silent path d.value) :
    Silent path (lastWins ds).value := by
  induction ds using List.reverseRecOn with
  | nil => exact absurd rfl hne
  | append_singleton ds d ih =>
    have hd := h d (by simp)
    rcases eq_or_ne ds [] with rfl | hds
    · exact hd
    · rw [lastWins_concat hds, value_merge]
      exact (ih hds fun d hd => h d (by simp [hd])).merge hd d.ordered

theorem get_lastWins_ne_none (hd : d ∈ ds) (h : d.value.get key ≠ none) :
    (lastWins ds).value.get key ≠ none := by
  induction ds using List.reverseRecOn with
  | nil => cases hd
  | append_singleton ds d' ih =>
    rcases eq_or_ne ds [] with rfl | hds
    · obtain rfl := List.mem_singleton.mp hd
      exact h
    · rw [lastWins_concat hds, get_merge]
      rcases List.mem_append.mp hd with hd | hd
      · have hbelow := ih hd
        cases hb : (lastWins ds).value.get key with
        | none => exact absurd hb hbelow
        | some held => cases d'.value.get key <;> simp [combined]
      · obtain rfl := List.mem_singleton.mp hd
        cases hb : d.value.get key with
        | none => exact absurd hb h
        | some v => cases (lastWins ds).value.get key <;> simp [combined]

theorem along_lastWins_none {path : List Str} (hpath : path ≠ [])
    (h : ∀ d ∈ ds, d.value.along path = none) : (lastWins ds).value.along path = none := by
  induction ds using List.reverseRecOn with
  | nil =>
    obtain ⟨first, path, rfl⟩ := List.exists_cons_of_ne_nil hpath
    rfl
  | append_singleton ds d ih =>
    rcases eq_or_ne ds [] with rfl | hds
    · exact h d (by simp)
    · rw [lastWins_concat hds, value_merge]
      exact along_merge_none (ih fun d hd => h d (by simp [hd])) (h d (by simp)) d.ordered

/-- What a document sets at a path is held there, where those over it are silent. -/
theorem along_lastWins (hd : d.value.along path = some w) (hw : ¬ w.IsTable)
    (h : ∀ d' ∈ higher, Silent path d'.value) :
    (lastWins (lower ++ d :: higher)).value.along path = some w := by
  induction higher using List.reverseRecOn with
  | nil =>
    rcases eq_or_ne lower [] with rfl | hlower
    · exact hd
    · rw [lastWins_concat hlower, value_merge, along_merge hd d.ordered]
      cases (lastWins lower).value.along path with
      | none => rfl
      | some held => exact congrArg some (merge_of_not_table fun rows hrows => hw ⟨rows, hrows⟩)
  | append_singleton higher d' ih =>
    have hsplit : lower ++ d :: (higher ++ [d']) = (lower ++ d :: higher) ++ [d'] := by simp
    rw [hsplit, lastWins_concat (by simp), value_merge,
      along_merge_of_silent (h d' (by simp)) d'.ordered]
    exact ih fun d'' hd'' => h d'' (by simp [hd''])

end Document

namespace Toml

variable {rows : List (Str × Toml)} {path : List Str}

/-! ### A path that is set -/

/-- Where one path is set, what stands at another stays, but for the tables on the way. -/
theorem along_setAlong {entries : List Toml} {segments : List Str} (hpath : ¬ segments <+: path)
    (hway : path <+: segments → ∀ w, (table rows).along path = some w → ¬ w.IsTable) :
    (table (setAlong entries segments rows)).along path = (table rows).along path := by
  induction segments generalizing rows path with
  | nil => exact absurd List.nil_prefix hpath
  | cons segment segments ih =>
    cases path with
    | nil => exact absurd ⟨rows, rfl⟩ (hway List.nil_prefix _ rfl)
    | cons p path =>
      have hother : ∀ v, segment ≠ p → (table (insertRow segment v rows)).along (p :: path) =
          (table rows).along (p :: path) := by
        intro v hne
        rw [along_cons, get, lookup_insertRow, if_neg hne]
        rfl
      cases segments with
      | nil =>
        refine hother _ fun he => hpath ?_
        rw [he]
        exact List.cons_prefix_cons.mpr ⟨rfl, List.nil_prefix⟩
      | cons next segments =>
        rw [setAlong]
        · by_cases hs : segment = p
          · subst hs
            cases hlookup : lookup segment rows with
            | none => rfl
            | some u =>
              cases u with
              | table inner =>
                have hget : (table rows).get segment = some (table inner) := hlookup
                show (table (insertRow segment _ rows)).along (segment :: path) = _
                rw [along_cons, along_cons, get, lookup_insertRow, if_pos rfl, hget]
                refine ih (fun hpre => hpath ?_) fun hpre w hw => ?_
                · exact List.cons_prefix_cons.mpr ⟨rfl, hpre⟩
                · refine hway (List.cons_prefix_cons.mpr ⟨rfl, hpre⟩) w ?_
                  rw [along_cons, hget]
                  exact hw
              | _ => rfl
          · cases lookup segment rows with
            | none => rfl
            | some u =>
              cases u with
              | table inner => exact hother _ hs
              | _ => rfl
        · exact fun h => by cases h

end Toml

end Boot2Deb.Config
