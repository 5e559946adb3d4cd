import Mathlib
import Boot2Deb.Rust.Lines
import Boot2Deb.Lib.TreeMap

/-!
# Kernel config fragments

A `.config` or a fragment is read line by line into a map of symbols, and fragments are merged in
order. Within a file and across files the last assignment of a symbol wins, so a merge is the
reading of the texts joined by newlines, and the origin of a symbol is the last fragment that
mentions it: `merge_exact`.
-/

namespace Boot2Deb.Core.Kconfig

open Rust Std

/-- The value of a symbol: disabled, or the text behind the `=`. -/
inductive Value where
  | notSet
  | set (text : Str)
deriving DecidableEq

/-- A symbol name a line may hold behind `CONFIG_`. -/
def isName (s : Str) : Bool := !s.isEmpty && !s.any isWhitespace

/-- What one line of a config sets. -/
def assignment (line : Str) : Option (Str × Value) :=
  let line := trim line
  match stripPrefix line "# CONFIG_".toList with
  | some rest =>
    (stripSuffix rest " is not set".toList).bind fun sym =>
      let sym := trim sym
      if isName sym then some ("CONFIG_".toList ++ sym, .notSet) else none
  | none =>
    if line.isEmpty || line.head? = some '#' then none
    else (splitOnce line '=').bind fun (sym, val) =>
      let sym := trim sym
      (stripPrefix sym "CONFIG_".toList).bind fun stripped =>
        if isName stripped then some (sym, .set (trim val)) else none

/-- What the lines of a text set, in order. -/
def assignments (text : Str) : List (Str × Value) := (lines text).filterMap assignment

@[ext] structure KernelConfig where
  entries : ExtTreeMap Str Value compare

def KernelConfig.parse (text : Str) : KernelConfig :=
  ⟨(assignments text).foldl (fun entries a => entries.insert a.1 a.2) ∅⟩

/-- An absent symbol reads as disabled. -/
def KernelConfig.get (c : KernelConfig) (symbol : Str) : Value := c.entries[symbol]?.getD .notSet

/-- Fragments merged in order, with the fragment that last set each symbol. -/
structure FragmentSet where
  config : KernelConfig
  origin : ExtTreeMap Str Str compare

/-- One symbol a fragment records. -/
def FragmentSet.record (name : Str) (set : FragmentSet) (row : Str × Value) : FragmentSet :=
  ⟨⟨set.config.entries.insert row.1 row.2⟩, set.origin.insert row.1 name⟩

/-- One fragment, its symbols in the order of their names. -/
def FragmentSet.add (set : FragmentSet) (fragment : Str × Str) : FragmentSet :=
  (KernelConfig.parse fragment.2).entries.toList.foldl (record fragment.1) set

def FragmentSet.merge (fragments : List (Str × Str)) : FragmentSet :=
  fragments.foldl add ⟨⟨∅⟩, ∅⟩

structure Diff where
  symbol : Str
  left : Value
  right : Value

/-- One symbol of two configs, if they differ on it. -/
def diffAt (left right : KernelConfig) (symbol : Str) : Option Diff :=
  if left.get symbol ≠ right.get symbol then some ⟨symbol, left.get symbol, right.get symbol⟩
  else none

/-- The symbols of both configs, sorted. -/
def symbols (left right : KernelConfig) : List Str :=
  (ExtTreeSet.ofList (left.entries.keys ++ right.entries.keys) compare).toList

def diff (left right : KernelConfig) : List Diff := (symbols left right).filterMap (diffAt left right)

/-! ### The last assignment -/

/-- The value of the last row of a symbol. -/
def lastValue (rows : List (Str × Value)) (symbol : Str) : Option Value :=
  (firstWith Prod.fst rows.reverse symbol).map Prod.snd

theorem lastValue_append (rows rows' : List (Str × Value)) (symbol : Str) :
    lastValue (rows ++ rows') symbol = (lastValue rows' symbol).or (lastValue rows symbol) := by
  unfold lastValue
  rw [List.reverse_append, firstWith_append, Option.map_or]

theorem getElem?_parse (text symbol : Str) :
    (KernelConfig.parse text).entries[symbol]? = lastValue (assignments text) symbol := by
  have hfold := @getElem?_foldl_insert_map Str Value compare _ _ _ _ Prod.fst Prod.snd
    (assignments text) ∅ symbol
  rw [ExtTreeMap.getElem?_empty, Option.or_none] at hfold
  exact hfold

theorem lastValue_eq_none {rows : List (Str × Value)} {symbol : Str} :
    lastValue rows symbol = none ↔ ∀ row ∈ rows, row.1 ≠ symbol := by
  simp [lastValue, firstWith_eq_none]

variable {set : FragmentSet} {name symbol : Str}

theorem config_foldl_record (rows : List (Str × Value)) :
    (rows.foldl (FragmentSet.record name) set).config.entries =
      rows.foldl (fun entries row => entries.insert row.1 row.2) set.config.entries := by
  induction rows generalizing set with
  | nil => rfl
  | cons row rows ih => exact ih

theorem origin_foldl_record (rows : List (Str × Value)) :
    (rows.foldl (FragmentSet.record name) set).origin =
      rows.foldl (fun origin row => origin.insert row.1 name) set.origin := by
  induction rows generalizing set with
  | nil => rfl
  | cons row rows ih => exact ih

/-- A row of a map's list is the entry of its key, and the only one. -/
theorem firstWith_reverse_toList (m : ExtTreeMap Str Value compare) (k : Str) :
    (firstWith Prod.fst m.toList.reverse k).map Prod.snd = m[k]? := by
  have hnodup : (m.toList.reverse.map Prod.fst).Nodup := by
    rw [List.map_reverse, List.nodup_reverse]
    refine List.pairwise_map.mpr (ExtTreeMap.distinct_keys_toList.imp fun hne he => hne ?_)
    rw [he]
    exact ReflCmp.compare_self
  ext v
  rw [Option.map_eq_some_iff]
  constructor
  · rintro ⟨row, hrow, rfl⟩
    obtain ⟨hmem, rfl⟩ := mem_of_firstWith hrow
    exact ExtTreeMap.mem_toList_iff_getElem?_eq_some.mp (List.mem_reverse.mp hmem)
  · intro hv
    have hmem := ExtTreeMap.mem_toList_iff_getElem?_eq_some.mpr hv
    exact ⟨(k, v), (firstWith_eq_some_iff hnodup).mpr ⟨List.mem_reverse.mpr hmem, rfl⟩, rfl⟩

theorem config_add (fragment : Str × Str) : (set.add fragment).config.entries[symbol]? =
    (lastValue (assignments fragment.2) symbol).or set.config.entries[symbol]? := by
  unfold FragmentSet.add
  have hfold := @getElem?_foldl_insert_map Str Value compare _ _ _ _ Prod.fst Prod.snd
    (KernelConfig.parse fragment.2).entries.toList set.config.entries symbol
  rw [config_foldl_record, hfold, firstWith_reverse_toList, getElem?_parse]

/-- A fragment mentions a symbol: one of its lines sets it. -/
def mentions (symbol : Str) (fragment : Str × Str) : Bool :=
  (assignments fragment.2).any fun row => row.1 = symbol

theorem lastValue_isSome (symbol : Str) (fragment : Str × Str) :
    (lastValue (assignments fragment.2) symbol).isSome = mentions symbol fragment := by
  rw [Bool.eq_iff_iff, mentions, Option.isSome_iff_ne_none, Ne, lastValue_eq_none]
  simp

theorem origin_add (fragment : Str × Str) : (set.add fragment).origin[symbol]? =
    if mentions symbol fragment then some fragment.1 else set.origin[symbol]? := by
  unfold FragmentSet.add
  have hfold := @getElem?_foldl_insert_map Str Str compare _ _ _ (Str × Value) Prod.fst
    (fun _ => fragment.1) (KernelConfig.parse fragment.2).entries.toList set.origin symbol
  have hrow := firstWith_reverse_toList (KernelConfig.parse fragment.2).entries symbol
  rw [getElem?_parse] at hrow
  rw [origin_foldl_record, hfold, ← lastValue_isSome, ← hrow]
  cases firstWith Prod.fst (KernelConfig.parse fragment.2).entries.toList.reverse symbol <;> rfl

theorem merge_concat (fragments : List (Str × Str)) (fragment : Str × Str) :
    FragmentSet.merge (fragments ++ [fragment]) = (FragmentSet.merge fragments).add fragment := by
  rw [FragmentSet.merge, List.foldl_append]
  rfl

theorem config_merge (fragments : List (Str × Str)) (symbol : Str) :
    (FragmentSet.merge fragments).config.entries[symbol]? =
      lastValue (fragments.flatMap fun f => assignments f.2) symbol := by
  induction fragments using List.reverseRecOn with
  | nil => exact ExtTreeMap.getElem?_empty
  | append_singleton fragments fragment ih =>
    rw [merge_concat, config_add, ih, List.flatMap_append, lastValue_append, List.flatMap_singleton]

theorem origin_merge (fragments : List (Str × Str)) (symbol : Str) :
    (FragmentSet.merge fragments).origin[symbol]? =
      (fragments.reverse.find? (mentions symbol)).map Prod.fst := by
  induction fragments using List.reverseRecOn with
  | nil => exact ExtTreeMap.getElem?_empty
  | append_singleton fragments fragment ih =>
    rw [merge_concat, origin_add, ih, List.reverse_concat, List.find?_cons]
    cases mentions symbol fragment <;> rfl

/-! ### Texts joined by newlines -/

theorem assignment_trim {l l' : Str} (h : trim l = trim l') : assignment l = assignment l' := by
  unfold assignment
  rw [h]

theorem assignment_nil : assignment [] = none := rfl

theorem trim_stripEnding_newline (l : Str) : trim (stripEnding (l ++ ['\n'])) = trim l := by
  rw [stripEnding_ended]
  by_cases h : ['\r'] <:+ l
  · obtain ⟨body, rfl⟩ := h
    rw [stripSuffix_concat, Option.getD_some]
    refine (trim_append_right fun c hc => ?_).symm
    obtain rfl := List.mem_singleton.mp hc
    rfl
  · rw [stripSuffix_eq_none h, Option.getD_none]

theorem assignments_ended {l : Str} (hl : Ended l) (s : Str) :
    assignments (l ++ s) = (assignment (stripEnding l)).toList ++ assignments s := by
  unfold assignments lines
  rw [rawLines_ended hl, List.map_cons]
  cases h : assignment (stripEnding l) <;> simp [h]

/-- A newline behind a text ends its last line, and begins the next text on a new one. -/
theorem assignments_newline (text next : Str) :
    assignments (text ++ '\n' :: next) = assignments text ++ assignments next := by
  induction text using lines_induction with
  | nil =>
    unfold assignments
    have hline : lines ('\n' :: next) = [] :: lines next := rfl
    rw [List.nil_append, hline, List.filterMap_cons_none assignment_nil]
    rfl
  | last l hne hnot =>
    have hended : rawLines (l ++ '\n' :: next) = (l ++ ['\n']) :: rawLines next := by
      rw [List.append_cons]
      exact rawLines_ended ⟨l, hnot, rfl⟩ next
    unfold assignments lines
    rw [hended, rawLines_of_not_mem hne hnot]
    simp only [List.map_cons, List.map_nil, List.filterMap_cons, List.filterMap_nil,
      assignment_trim (trim_stripEnding_newline l), stripEnding_of_not_mem hnot]
    cases assignment l <;> rfl
  | ended l s hl ih =>
    rw [List.append_assoc, assignments_ended hl, assignments_ended hl, ih, List.append_assoc]

theorem assignments_join (texts : List Str) :
    assignments (join ['\n'] texts) = texts.flatMap assignments := by
  induction texts with
  | nil => rfl
  | cons text texts ih =>
    cases texts with
    | nil => simp [join]
    | cons next texts =>
      have hjoin : join ['\n'] (text :: next :: texts) =
          text ++ '\n' :: join ['\n'] (next :: texts) := by
        rw [join, List.intercalate_cons_cons, List.append_assoc]
        rfl
      rw [hjoin, assignments_newline, ih]
      rfl

/-! ### Comparing two configs -/

theorem diffAt_eq_some {l r : KernelConfig} {d : Diff} :
    diffAt l r symbol = some d ↔
      l.get symbol ≠ r.get symbol ∧ d = ⟨symbol, l.get symbol, r.get symbol⟩ := by
  unfold diffAt
  by_cases h : l.get symbol = r.get symbol
  · simp [h]
  · simp [h, eq_comm]

theorem mem_symbols {l r : KernelConfig} :
    symbol ∈ symbols l r ↔ symbol ∈ l.entries ∨ symbol ∈ r.entries := by
  unfold symbols
  rw [ExtTreeSet.mem_toList, ExtTreeSet.mem_ofList]
  simp

theorem symbols_comm (l r : KernelConfig) : symbols l r = symbols r l := by
  unfold symbols
  congr 1
  refine ExtTreeSet.ext_mem fun s => ?_
  simp [ExtTreeSet.mem_ofList, or_comm]

/-- A symbol neither config records reads alike in both. -/
theorem mem_symbols_of_ne {l r : KernelConfig} (h : l.get symbol ≠ r.get symbol) :
    symbol ∈ symbols l r := by
  rw [mem_symbols]
  by_contra hno
  rw [not_or] at hno
  refine h ?_
  unfold KernelConfig.get
  rw [ExtTreeMap.getElem?_eq_none hno.1, ExtTreeMap.getElem?_eq_none hno.2]

theorem diff_eq_nil_iff {l r : KernelConfig} :
    diff l r = [] ↔ ∀ symbol, l.get symbol = r.get symbol := by
  unfold diff
  rw [List.filterMap_eq_nil_iff]
  constructor
  · intro h symbol
    by_contra hne
    have hnone := h symbol (mem_symbols_of_ne hne)
    rw [diffAt, if_pos hne] at hnone
    cases hnone
  · intro h symbol _
    rw [diffAt, if_neg (not_not.mpr (h symbol))]

/-- The other side of each row. -/
def Diff.swap (d : Diff) : Diff := ⟨d.symbol, d.right, d.left⟩

theorem diff_swap (l r : KernelConfig) : diff r l = (diff l r).map Diff.swap := by
  unfold diff
  rw [symbols_comm, List.map_filterMap]
  refine List.filterMap_congr fun symbol _ => ?_
  unfold diffAt
  by_cases h : l.get symbol = r.get symbol
  · rw [if_neg (not_not.mpr h), if_neg (not_not.mpr h.symm)]
    rfl
  · rw [if_pos h, if_pos (Ne.symm h)]
    rfl

theorem diff_sorted (l r : KernelConfig) :
    (diff l r).Pairwise fun d e => compare d.symbol e.symbol = .lt := by
  unfold diff
  rw [List.pairwise_filterMap]
  refine ExtTreeSet.ordered_toList.imp fun hlt d hd e he => ?_
  obtain ⟨-, rfl⟩ := diffAt_eq_some.mp hd
  obtain ⟨-, rfl⟩ := diffAt_eq_some.mp he
  exact hlt

/-- A merge reads as the texts joined by newlines, of each symbol the last line that sets it; a
symbol's origin is the last fragment that mentions it; and two configs differ in no row exactly if
they give every symbol one value, in sorted rows that swap with the sides. -/
theorem merge_exact (fragments : List (Str × Str)) (l r : KernelConfig) :
    (FragmentSet.merge fragments).config =
        KernelConfig.parse (join ['\n'] (fragments.map Prod.snd)) ∧
      (∀ text symbol, (KernelConfig.parse text).entries[symbol]? =
        lastValue (assignments text) symbol) ∧
      (∀ symbol, (FragmentSet.merge fragments).origin[symbol]? =
        (fragments.reverse.find? (mentions symbol)).map Prod.fst) ∧
      (diff l r = [] ↔ ∀ symbol, l.get symbol = r.get symbol) ∧
      ((diff l r).Pairwise fun d e => compare d.symbol e.symbol = .lt) ∧
      diff r l = (diff l r).map Diff.swap := by
  refine ⟨?merge, getElem?_parse, origin_merge fragments, diff_eq_nil_iff, diff_sorted l r,
    diff_swap l r⟩
  case merge =>
    refine KernelConfig.ext (ExtTreeMap.ext_getElem? fun symbol => ?_)
    rw [config_merge, getElem?_parse, assignments_join, List.flatMap_map]

end Boot2Deb.Core.Kconfig
