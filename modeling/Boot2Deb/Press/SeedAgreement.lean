import Boot2Deb.Press.Seed

/-!
# Where the board reads the seed as the tool does

Each reader takes a list of entries out of a text and keeps the last of a key, or all keys of the
account. The readings agree exactly where these entries do (`hook_agrees_iff`), and they do where
every line is written plainly.
-/

namespace Boot2Deb.Press
open Rust Shell

/-- The keys of a seed. -/
inductive SeedKey where
  | hostname | authorizedKey | wifiSsid | wifiPsk | staticIp
deriving DecidableEq

namespace SeedKey

/-- What a line that sets the key starts with. -/
def spelling : SeedKey → Str
  | hostname => "hostname=".toList
  | authorizedKey => "authorized_key=".toList
  | wifiSsid => "wifi_ssid=".toList
  | wifiPsk => "wifi_psk=".toList
  | staticIp => "static_ip=".toList

def all : List SeedKey := [hostname, authorizedKey, wifiSsid, wifiPsk, staticIp]

/-- The key a line sets and the text behind it. -/
def entryOf (line : Str) : Option (SeedKey × Str) :=
  if line.isEmpty || line.head? = some '#' then none
  else all.findSome? fun key => (stripPrefix line key.spelling).map (key, ·)

/-- The first key that `f` answers for. -/
theorem findSome_all (f : SeedKey → Option Str) :
    all.findSome? (fun key => (f key).map (key, ·)) =
      match f hostname with
      | some v => some (hostname, v)
      | none => match f authorizedKey with
        | some v => some (authorizedKey, v)
        | none => match f wifiSsid with
          | some v => some (wifiSsid, v)
          | none => match f wifiPsk with
            | some v => some (wifiPsk, v)
            | none => (f staticIp).map (staticIp, ·) := by
  unfold all
  rw [List.findSome?_cons, List.findSome?_cons, List.findSome?_cons, List.findSome?_cons,
    List.findSome?_cons, List.findSome?_nil]
  cases f hostname with
  | some v => rfl
  | none =>
    cases f authorizedKey with
    | some v => rfl
    | none =>
      cases f wifiSsid with
      | some v => rfl
      | none =>
        cases f wifiPsk with
        | some v => rfl
        | none => cases f staticIp <;> rfl

end SeedKey

/-- The entry the tool takes from a line. -/
def toolEntry (line : Str) : Option (SeedKey × Str) :=
  ((SeedKey.entryOf (trim line)).map fun e => (e.1, trim e.2)).filter fun e => !e.2.isEmpty

/-- The entry the hook takes from a line. -/
def hookEntry (raw : Str) : Option (SeedKey × Str) := SeedKey.entryOf (SeedVars.hookLine raw)

/-- The value of the last entry of a key. -/
def lastOf (key : SeedKey) (entries : List (SeedKey × Str)) : Option Str :=
  ((entries.filter (·.1 = key)).getLast?).map Prod.snd

/-- The values of a key, in order. -/
def allOf (key : SeedKey) (entries : List (SeedKey × Str)) : List Str :=
  (entries.filter (·.1 = key)).map Prod.snd

variable {key : SeedKey} {entries : List (SeedKey × Str)} {entry : SeedKey × Str} {line raw text : Str}

theorem lastOf_concat :
    lastOf key (entries ++ [entry]) = if entry.1 = key then some entry.2 else lastOf key entries := by
  unfold lastOf
  rw [List.filter_append]
  by_cases h : entry.1 = key
  · rw [if_pos h, List.filter_cons_of_pos (by simpa using h), List.filter_nil,
      List.getLast?_concat, Option.map_some]
  · rw [if_neg h, List.filter_cons_of_neg (by simpa using h), List.filter_nil, List.append_nil]

theorem allOf_concat :
    allOf key (entries ++ [entry]) =
      allOf key entries ++ if entry.1 = key then [entry.2] else [] := by
  unfold allOf
  rw [List.filter_append, List.map_append]
  by_cases h : entry.1 = key
  · rw [if_pos h, List.filter_cons_of_pos (by simpa using h)]
    rfl
  · rw [if_neg h, List.filter_cons_of_neg (by simpa using h)]
    rfl

/-! ### The two readers by their entries -/

namespace SeedKeys

def add (keys : SeedKeys) (entry : SeedKey × Str) : SeedKeys :=
  match entry.1 with
  | .hostname => { keys with hostname := some entry.2 }
  | .authorizedKey => { keys with authorizedKeys := keys.authorizedKeys ++ [entry.2] }
  | .wifiSsid => { keys with wifiSsid := some entry.2 }
  | .wifiPsk => { keys with wifiPsk := some entry.2 }
  | .staticIp => { keys with staticIp := some entry.2 }

theorem parseLine_eq (keys : SeedKeys) (line : Str) :
    keys.parseLine line = (toolEntry line).elim keys keys.add := by
  have hkeep : ∀ key v, (((some (key, v)).map fun e : SeedKey × Str => (e.1, trim e.2)).filter
      fun e => !e.2.isEmpty).elim keys keys.add =
        if (trim v).isEmpty then keys else keys.add (key, trim v) := by
    intro key v
    cases hv : (trim v).isEmpty <;> simp [Option.filter, hv]
  unfold parseLine toolEntry SeedKey.entryOf
  rw [SeedKey.findSome_all fun key => stripPrefix (trim line) key.spelling]
  unfold SeedKey.spelling
  dsimp only
  split_ifs with hskip
  · rfl
  · generalize stripPrefix (trim line) "hostname=".toList = hostname
    generalize stripPrefix (trim line) "authorized_key=".toList = authorizedKey
    generalize stripPrefix (trim line) "wifi_ssid=".toList = wifiSsid
    generalize stripPrefix (trim line) "wifi_psk=".toList = wifiPsk
    generalize stripPrefix (trim line) "static_ip=".toList = staticIp
    cases hostname with
    | some v => exact (hkeep .hostname v).symm
    | none =>
      cases authorizedKey with
      | some v => exact (hkeep .authorizedKey v).symm
      | none =>
        cases wifiSsid with
        | some v => exact (hkeep .wifiSsid v).symm
        | none =>
          cases wifiPsk with
          | some v => exact (hkeep .wifiPsk v).symm
          | none =>
            cases staticIp with
            | some v => exact (hkeep .staticIp v).symm
            | none => rfl

theorem foldl_add (entries : List (SeedKey × Str)) :
    entries.foldl add empty = ⟨lastOf .hostname entries, allOf .authorizedKey entries,
      lastOf .wifiSsid entries, lastOf .wifiPsk entries, lastOf .staticIp entries⟩ := by
  induction entries using List.reverseRecOn with
  | nil => rfl
  | append_singleton entries entry ih =>
    obtain ⟨key, value⟩ := entry
    rw [List.foldl_concat, ih]
    cases key <;> simp [add, lastOf_concat, allOf_concat]

theorem trim_stripEnding (h : IsRaw raw) : trim (stripEnding raw) = trim raw := by
  obtain ⟨body, hbody, rfl | ⟨rfl, -⟩⟩ := h
  · have hnl : trim (body ++ ['\n']) = trim body :=
      trim_append_right fun c hc => by rw [List.mem_singleton.mp hc]; rfl
    rw [hnl]
    rcases stripEnding_ended_cases body with ⟨he, -⟩ | ⟨body', rfl, he⟩
    · rw [he]
    · rw [he]
      exact (trim_append_right fun c hc => by rw [List.mem_singleton.mp hc]; rfl).symm
  · rw [stripEnding_of_not_mem hbody]

/-- What the tool reads: the entries of the lines, the last of a key kept. -/
theorem parse_eq (text : Str) : parse text = ((rawLines text).filterMap toolEntry).foldl add empty := by
  have hfold : ∀ (ls : List Str) keys, ls.foldl parseLine keys = (ls.filterMap toolEntry).foldl add keys := by
    intro ls
    induction ls with
    | nil => exact fun _ => rfl
    | cons line ls ih =>
      intro keys
      rw [List.foldl_cons, ih, parseLine_eq]
      cases h : toolEntry line with
      | none => rw [List.filterMap_cons_none h]; rfl
      | some entry => rw [List.filterMap_cons_some h]; rfl
  unfold parse
  rw [hfold, lines, List.filterMap_map]
  congr 1
  refine List.filterMap_congr fun raw hraw => ?_
  show toolEntry (stripEnding raw) = toolEntry raw
  unfold toolEntry
  rw [trim_stripEnding (isRaw_of_mem hraw)]

end SeedKeys

namespace SeedVars

def set (vars : SeedVars) (entry : SeedKey × Str) : SeedVars :=
  match entry.1 with
  | .hostname => { vars with hostname := entry.2 }
  | .authorizedKey => { vars with keys := vars.keys ++ entry.2 ++ ['\n'] }
  | .wifiSsid => { vars with wifiSsid := entry.2 }
  | .wifiPsk => { vars with wifiPsk := entry.2 }
  | .staticIp => { vars with staticIp := entry.2 }

theorem assign_eq (vars : SeedVars) (line : Str) :
    vars.assign line = (SeedKey.entryOf line).elim vars vars.set := by
  unfold assign SeedKey.entryOf
  rw [SeedKey.findSome_all fun key => stripPrefix line key.spelling]
  unfold SeedKey.spelling
  dsimp only
  split_ifs with hskip
  · rfl
  · generalize stripPrefix line "hostname=".toList = hostname
    generalize stripPrefix line "authorized_key=".toList = authorizedKey
    generalize stripPrefix line "wifi_ssid=".toList = wifiSsid
    generalize stripPrefix line "wifi_psk=".toList = wifiPsk
    generalize stripPrefix line "static_ip=".toList = staticIp
    cases hostname with
    | some v => rfl
    | none =>
      cases authorizedKey with
      | some v => rfl
      | none =>
        cases wifiSsid with
        | some v => rfl
        | none =>
          cases wifiPsk with
          | some v => rfl
          | none => cases staticIp <;> rfl

theorem foldl_set (entries : List (SeedKey × Str)) :
    entries.foldl set unset = ⟨(lastOf .hostname entries).getD [], unlines (allOf .authorizedKey entries),
      (lastOf .wifiSsid entries).getD [], (lastOf .wifiPsk entries).getD [],
      (lastOf .staticIp entries).getD []⟩ := by
  induction entries using List.reverseRecOn with
  | nil => rfl
  | append_singleton entries entry ih =>
    obtain ⟨key, value⟩ := entry
    rw [List.foldl_concat, ih]
    cases key <;> simp [set, lastOf_concat, allOf_concat, unlines_append, unlines_cons]

theorem entryOf_nil : SeedKey.entryOf [] = none := rfl

/-- What the hook reads. A last line that is left empty says nothing. -/
theorem read_eq (text : Str) :
    read text = ((rawLines text).filterMap hookEntry).foldl set unset := by
  have hfold : ∀ (ls : List Str) vars,
      ls.foldl assign vars = (ls.filterMap SeedKey.entryOf).foldl set vars := by
    intro ls
    induction ls with
    | nil => exact fun _ => rfl
    | cons line ls ih =>
      intro vars
      rw [List.foldl_cons, ih, assign_eq]
      cases h : SeedKey.entryOf line with
      | none => rw [List.filterMap_cons_none h]; rfl
      | some entry => rw [List.filterMap_cons_some h]; rfl
  unfold read readLines
  rw [hfold, List.map_map, List.filterMap_map, List.filterMap_filter]
  congr 1
  refine List.filterMap_congr fun raw _ => ?_
  split_ifs with hkept
  · rfl
  · have hempty : trimBlanks (lineText raw) = [] := by
      by_contra hne
      exact hkept (by simp [hne])
    show none = SeedKey.entryOf (hookLine raw)
    unfold hookLine
    rw [hempty]
    rfl

/-- What the hook applies, by the entries it takes. -/
theorem applied_eq (entries : List (SeedKey × Str)) (h : ∀ e ∈ entries, '\n' ∉ e.2 ∧ '\x00' ∉ e.2) :
    (entries.foldl set unset).applied = ⟨(lastOf .hostname entries).bind nonempty,
      (allOf .authorizedKey entries).filter (!·.isEmpty), (lastOf .wifiSsid entries).bind nonempty,
      (lastOf .wifiPsk entries).bind nonempty,
      (lastOf .staticIp entries).bind fun v => nonempty (deleteBlanks v)⟩ := by
  have hkeys : ∀ v ∈ allOf .authorizedKey entries, '\n' ∉ v ∧ '\x00' ∉ v := by
    intro v hv
    obtain ⟨e, he, rfl⟩ := List.mem_map.mp hv
    exact h e (List.mem_of_mem_filter he)
  have hlast : ∀ (f : Str → Str) (_ : f [] = []) (o : Option Str),
      nonempty (f (o.getD [])) = o.bind fun v => nonempty (f v) := by
    intro f hf o
    cases o with
    | none =>
      rw [Option.getD_none, hf]
      rfl
    | some v => rfl
  rw [foldl_set]
  unfold applied
  have hsome : ∀ o : Option Str, nonempty (o.getD []) = o.bind nonempty := hlast id rfl
  rw [readLines_unlines hkeys, hlast deleteBlanks rfl, hsome, hsome, hsome]

end SeedVars

/-! ### Agreement -/

theorem eq_append_of_entryOf (h : SeedKey.entryOf line = some entry) :
    line = entry.1.spelling ++ entry.2 := by
  unfold SeedKey.entryOf at h
  split_ifs at h
  obtain ⟨key, -, hkey⟩ := List.exists_of_findSome?_eq_some h
  obtain ⟨v, hv, rfl⟩ := Option.map_eq_some_iff.mp hkey
  exact stripPrefix_eq_some.mp hv

/-- A value the hook takes is on one line. -/
theorem hookEntry_chars (hraw : raw ∈ rawLines text) (h : hookEntry raw = some entry) :
    '\n' ∉ entry.2 ∧ '\x00' ∉ entry.2 := by
  have hmem : ∀ c ∈ entry.2, c ∈ lineText raw := by
    intro c hc
    have hline : c ∈ SeedVars.hookLine raw := by
      rw [eq_append_of_entryOf h]
      exact List.mem_append_right _ hc
    exact mem_of_mem_trimBlanks (mem_of_mem_dropSuffix hline)
  have hisRaw := isRaw_of_mem hraw
  exact ⟨fun hc => not_mem_lineText hisRaw (Or.inl rfl) (hmem _ hc),
    fun hc => not_mem_lineText hisRaw (Or.inr rfl) (hmem _ hc)⟩

/-- The last line the hook takes for a key holds what the last line with a value for the tool does,
an empty value counting as none; the keys of the account are the same line by line. -/
structure Alike (hook tool : List (SeedKey × Str)) : Prop where
  hostname : (lastOf .hostname hook).bind nonempty = lastOf .hostname tool
  keys : (allOf .authorizedKey hook).filter (!·.isEmpty) = allOf .authorizedKey tool
  wifiSsid : (lastOf .wifiSsid hook).bind nonempty = lastOf .wifiSsid tool
  wifiPsk : (lastOf .wifiPsk hook).bind nonempty = lastOf .wifiPsk tool
  staticIp : ((lastOf .staticIp hook).bind fun v => nonempty (deleteBlanks v)) =
    lastOf .staticIp tool

/-- A line both readers trim to one text, whose value is there, has no whitespace in front, and no
blank where it is an address. -/
structure PlainLine (raw : Str) : Prop where
  framed : SeedVars.hookLine raw = trim raw
  value : ∀ key v, SeedKey.entryOf (trim raw) = some (key, v) →
    v ≠ [] ∧ trim v = v ∧ (key = .staticIp → deleteBlanks v = v)

theorem PlainLine.entry_eq (h : PlainLine raw) : hookEntry raw = toolEntry raw := by
  unfold hookEntry toolEntry
  rw [h.framed]
  cases he : SeedKey.entryOf (trim raw) with
  | none => rfl
  | some e =>
    obtain ⟨hne, htrim, -⟩ := h.value e.1 e.2 he
    simp [Option.filter, htrim, hne]

theorem PlainLine.value_of_toolEntry (h : PlainLine raw) (he : toolEntry raw = some entry) :
    entry.2 ≠ [] ∧ (entry.1 = .staticIp → deleteBlanks entry.2 = entry.2) := by
  rw [← h.entry_eq] at he
  unfold hookEntry at he
  rw [h.framed] at he
  obtain ⟨hne, -, hblank⟩ := h.value entry.1 entry.2 he
  exact ⟨hne, hblank⟩

/-- Entries whose values are there are kept by both readers. -/
theorem Alike.refl (h : ∀ e ∈ entries, e.2 ≠ [] ∧ (e.1 = .staticIp → deleteBlanks e.2 = e.2)) :
    Alike entries entries := by
  have hlast : ∀ key v, lastOf key entries = some v → (key, v) ∈ entries := by
    intro key v hv
    obtain ⟨e, he, rfl⟩ := Option.map_eq_some_iff.mp hv
    obtain ⟨hmem, hkey⟩ := List.mem_filter.mp (List.mem_of_getLast? he)
    obtain rfl := of_decide_eq_true hkey
    exact hmem
  have hkeep : ∀ key, (lastOf key entries).bind nonempty = lastOf key entries := by
    intro key
    cases hv : lastOf key entries with
    | none => rfl
    | some v => exact nonempty_of_ne (h _ (hlast key v hv)).1
  refine ⟨hkeep .hostname, ?keys, hkeep .wifiSsid, hkeep .wifiPsk, ?address⟩
  case keys =>
    refine List.filter_eq_self.mpr fun v hv => ?_
    obtain ⟨e, he, rfl⟩ := List.mem_map.mp hv
    simpa using (h e (List.mem_of_mem_filter he)).1
  case address =>
    cases hv : lastOf .staticIp entries with
    | none => rfl
    | some v =>
      obtain ⟨hne, hblank⟩ := h _ (hlast .staticIp v hv)
      show nonempty (deleteBlanks v) = some v
      rw [hblank rfl]
      exact nonempty_of_ne hne

/-- The board reads what the tool reads exactly where the deciding lines hold the same, and does so
for every text of plain lines. -/
theorem hook_agrees_iff (text : Str) :
    ((SeedVars.read text).applied = SeedKeys.parse text ↔
      Alike ((rawLines text).filterMap hookEntry) ((rawLines text).filterMap toolEntry)) ∧
    ((∀ raw ∈ rawLines text, PlainLine raw) →
      (SeedVars.read text).applied = SeedKeys.parse text) := by
  have hiff : (SeedVars.read text).applied = SeedKeys.parse text ↔
      Alike ((rawLines text).filterMap hookEntry) ((rawLines text).filterMap toolEntry) := by
    have hchars : ∀ e ∈ (rawLines text).filterMap hookEntry, '\n' ∉ e.2 ∧ '\x00' ∉ e.2 := by
      intro e he
      obtain ⟨raw, hraw, hentry⟩ := List.mem_filterMap.mp he
      exact hookEntry_chars hraw hentry
    rw [SeedVars.read_eq, SeedVars.applied_eq _ hchars, SeedKeys.parse_eq, SeedKeys.foldl_add,
      SeedKeys.mk.injEq]
    constructor
    · rintro ⟨hhost, hkeys, hssid, hpsk, hip⟩
      exact ⟨hhost, hkeys, hssid, hpsk, hip⟩
    · rintro ⟨hhost, hkeys, hssid, hpsk, hip⟩
      exact ⟨hhost, hkeys, hssid, hpsk, hip⟩
  refine ⟨hiff, fun hplain => hiff.mpr ?_⟩
  have hentries : (rawLines text).filterMap hookEntry = (rawLines text).filterMap toolEntry :=
    List.filterMap_congr fun raw hraw => (hplain raw hraw).entry_eq
  rw [hentries]
  refine Alike.refl fun e he => ?_
  obtain ⟨raw, hraw, hentry⟩ := List.mem_filterMap.mp he
  exact (hplain raw hraw).value_of_toolEntry hentry

/-- A seed of plain lines, with blanks around them and the line endings of another system. -/
def plainSeed : Str := "# my card\r\n  hostname=rk1-05\r\n\tstatic_ip=10.0.0.9/24\n".toList

theorem hook_agrees_plainSeed :
    (SeedVars.read plainSeed).applied = SeedKeys.parse plainSeed := by
  have hlines : ∀ raw ∈ rawLines plainSeed, SeedVars.hookLine raw = trim raw ∧
      ∀ e ∈ SeedKey.entryOf (trim raw),
        e.2 ≠ [] ∧ trim e.2 = e.2 ∧ (e.1 = .staticIp → deleteBlanks e.2 = e.2) := by
    decide +kernel
  refine (hook_agrees_iff plainSeed).2 fun raw hraw => ?_
  obtain ⟨hframed, hvalue⟩ := hlines raw hraw
  exact ⟨hframed, fun key v he => hvalue (key, v) he⟩

/-- A blank behind the equals sign or in front of a carriage return is part of the board's value. -/
theorem hand_edited_hostname :
    (SeedKeys.parse "hostname= rk1-05 \r\n".toList).hostname = some "rk1-05".toList ∧
      (SeedVars.read "hostname= rk1-05 \r\n".toList).applied.hostname = some " rk1-05 ".toList := by
  decide +kernel

end Boot2Deb.Press
