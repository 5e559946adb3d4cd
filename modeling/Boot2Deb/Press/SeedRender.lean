import Boot2Deb.Core.Authkeys
import Boot2Deb.Core.Values
import Boot2Deb.Press.SeedAgreement

/-!
# Rendering a seed (`engine/src/press/seed.rs`)

`render` writes every value as it is. What the checks of the values let through is on one line and
has no blanks at its ends, so a line holds the entry it was written for: `seed_round_trip`.
-/

namespace Boot2Deb.Press
open Rust Boot2Deb.Core

/-- What someone who finds the card reads first. -/
def headerLines : List Str :=
  ["# boot2deb per-unit seed. Applied once at first boot; edit freely.".toList,
    "# Keys: hostname=<name>   authorized_key=<ssh public key line>".toList,
    "#       wifi_ssid=<network name>   wifi_psk=<passphrase; omit for an open network>".toList,
    "#       static_ip=<address/prefix[,gateway[,dns...]]; omit for DHCP>".toList,
    "# A missing or empty file personalizes nothing.".toList]

/-- The line of one value. -/
def pushLine (key : SeedKey) (value : Str) : Str := key.spelling ++ value ++ ['\n']

namespace SeedKeys

/-- `render`. -/
def render (keys : SeedKeys) : Str :=
  unlines headerLines ++ keys.hostname.elim [] (pushLine .hostname) ++
    keys.authorizedKeys.flatMap (pushLine .authorizedKey) ++
    keys.wifiSsid.elim [] (pushLine .wifiSsid) ++ keys.wifiPsk.elim [] (pushLine .wifiPsk) ++
    keys.staticIp.elim [] (pushLine .staticIp)

/-- The entries of a seed, in the order they are written. -/
def entries (keys : SeedKeys) : List (SeedKey × Str) :=
  keys.hostname.toList.map (.hostname, ·) ++ keys.authorizedKeys.map (.authorizedKey, ·) ++
    keys.wifiSsid.toList.map (.wifiSsid, ·) ++ keys.wifiPsk.toList.map (.wifiPsk, ·) ++
    keys.staticIp.toList.map (.staticIp, ·)

/-- Every value passes its own check. -/
structure Validated (keys : SeedKeys) : Prop where
  hostname : ∀ v ∈ keys.hostname, Hostname.check v = .ok ()
  authorizedKeys : ∀ v ∈ keys.authorizedKeys, Authkeys.checkAuthorizedKey v = .ok ()
  wifiSsid : ∀ v ∈ keys.wifiSsid, Wifi.checkSsid v = .ok ()
  wifiPsk : ∀ v ∈ keys.wifiPsk, Wifi.checkPsk v = .ok ()
  staticIp : ∀ v ∈ keys.staticIp, StaticIp.check v = .ok ()

end SeedKeys

/-! ### A line and its entry -/

variable {key key' : SeedKey} {value : Str}

theorem authorizedKey_onOneLine (h : Authkeys.checkAuthorizedKey value = .ok ()) :
    OnOneLine value := by
  obtain ⟨-, hnewline, -, htrim, keyType, blob, comment, -, -, hentry, -, -⟩ :=
    Authkeys.checkAuthorizedKey_eq_ok.mp h
  refine ⟨?_, hnewline, htrim⟩
  rintro rfl
  exact absurd hentry (by cases keyType <;> simp [Authkeys.entryText])

theorem SeedKeys.Validated.onOneLine {keys : SeedKeys} (h : keys.Validated) :
    ∀ e ∈ keys.entries, OnOneLine e.2 := by
  intro e he
  simp only [entries, List.mem_append, List.mem_map, Option.mem_toList] at he
  rcases he with (((⟨v, hv, rfl⟩ | ⟨v, hv, rfl⟩) | ⟨v, hv, rfl⟩) | ⟨v, hv, rfl⟩) | ⟨v, hv, rfl⟩
  · exact Hostname.onOneLine (h.hostname v hv)
  · exact authorizedKey_onOneLine (h.authorizedKeys v hv)
  · exact Wifi.ssid_onOneLine (h.wifiSsid v hv)
  · exact Wifi.psk_onOneLine (h.wifiPsk v hv)
  · exact (StaticIp.onOneLine (h.staticIp v hv)).1

/-- No key is spelled as the start of another. -/
theorem spelling_apart (hne : key ≠ key') : ¬key.spelling <+: key'.spelling := by
  revert hne
  cases key <;> cases key' <;> decide

theorem stripPrefix_spelling (key key' : SeedKey) (value : Str) :
    stripPrefix (key.spelling ++ value) key'.spelling = if key' = key then some value else none := by
  split_ifs with h
  · rw [h, stripPrefix_eq_some.mpr rfl]
  · cases hs : stripPrefix (key.spelling ++ value) key'.spelling with
    | none => rfl
    | some rest =>
      have hpre : key'.spelling <+: key.spelling ++ value :=
        ⟨rest, (stripPrefix_eq_some.mp hs).symm⟩
      rcases List.prefix_or_prefix_of_prefix hpre (List.prefix_append key.spelling value) with h' | h'
      · exact absurd h' (spelling_apart h)
      · exact absurd h' (spelling_apart (Ne.symm h))

/-- A line that spells a key sets that key, to all that follows. -/
theorem entryOf_spelling (key : SeedKey) (value : Str) :
    SeedKey.entryOf (key.spelling ++ value) = some (key, value) := by
  have hhead : ((key.spelling ++ value).isEmpty || (key.spelling ++ value).head? = some '#') = false := by
    cases key <;> rfl
  rw [SeedKey.entryOf, hhead, if_neg Bool.false_ne_true]
  simp only [stripPrefix_spelling]
  cases key <;> rfl

theorem spelling_head (key : SeedKey) :
    ∃ c t, key.spelling = c :: t ∧ isWhitespace c = false := by
  cases key <;> exact ⟨_, _, rfl, by decide⟩

theorem last_ink (h : OnOneLine value) :
    ∃ d, value.getLast? = some d ∧ isWhitespace d = false := by
  have hend : trimEnd value = value := by
    rw [← h.trimmed]
    exact trimEnd_trimEnd
  have hlast := List.rdropWhile_eq_self_iff.mp hend h.ne_nil
  exact ⟨_, List.getLast?_eq_some_getLast h.ne_nil, by simpa using hlast⟩

/-- A line of a value that is on one line is that line. -/
theorem trim_line (h : OnOneLine value) : trim (key.spelling ++ value) = key.spelling ++ value := by
  obtain ⟨c, t, hspelling, hc⟩ := spelling_head key
  obtain ⟨d, hd, hink⟩ := last_ink h
  exact trim_eq_self hc hink (by rw [hspelling]; rfl)
    (by rw [List.getLast?_append_of_ne_nil _ h.ne_nil, hd])

theorem toolEntry_spelling (h : OnOneLine value) :
    toolEntry (key.spelling ++ value) = some (key, value) := by
  rw [toolEntry, trim_line h, entryOf_spelling, Option.map_some, h.trimmed, Option.filter_some]
  simp [h.ne_nil]

theorem toolEntry_pushLine (h : OnOneLine value) : toolEntry (pushLine key value) = some (key, value) := by
  have hbreak : trim (pushLine key value) = trim (key.spelling ++ value) :=
    trim_append_right fun c hc => by rw [List.mem_singleton.mp hc]; rfl
  have hentry := @toolEntry_spelling key _ h
  rw [toolEntry] at hentry ⊢
  rw [hbreak, hentry]

theorem ended_pushLine (h : OnOneLine value) : Ended (pushLine key value) := by
  refine ⟨key.spelling ++ value, ?_, rfl⟩
  rw [List.mem_append, not_or]
  exact ⟨by cases key <;> decide, h.newline⟩

/-! ### The round trip -/

variable {keys : SeedKeys}

namespace SeedKeys

theorem flatMap_toList (f : Str → Str) (o : Option Str) : o.elim [] f = o.toList.flatMap f := by
  cases o <;> simp

theorem render_eq (keys : SeedKeys) :
    keys.render = unlines headerLines ++ keys.entries.flatMap fun e => pushLine e.1 e.2 := by
  simp only [render, entries, flatMap_toList, List.flatMap_append, List.flatMap_map,
    List.append_assoc]

theorem rawLines_entries {entries : List (SeedKey × Str)} (h : ∀ e ∈ entries, OnOneLine e.2) :
    rawLines (entries.flatMap fun e => pushLine e.1 e.2) = entries.map fun e => pushLine e.1 e.2 := by
  induction entries with
  | nil => rfl
  | cons e entries ih =>
    obtain ⟨he, hentries⟩ := List.forall_mem_cons.mp h
    rw [List.flatMap_cons, rawLines_ended (ended_pushLine he), ih hentries, List.map_cons]

/-- The header says nothing, every line the entry it was written for. -/
theorem toolEntries_render (h : ∀ e ∈ keys.entries, OnOneLine e.2) :
    (rawLines keys.render).filterMap toolEntry = keys.entries := by
  have hheader : (rawLines (unlines headerLines)).filterMap toolEntry = [] := by decide +kernel
  have hentries : ∀ entries : List (SeedKey × Str), (∀ e ∈ entries, OnOneLine e.2) →
      (entries.map fun e => pushLine e.1 e.2).filterMap toolEntry = entries := by
    intro entries hall
    induction entries with
    | nil => rfl
    | cons e entries ih =>
      obtain ⟨he, hrest⟩ := List.forall_mem_cons.mp hall
      rw [List.map_cons, List.filterMap_cons_some (toolEntry_pushLine he), ih hrest]
  rw [render_eq, rawLines_append (unlines_closed headerLines), List.filterMap_append, hheader,
    rawLines_entries h, hentries _ h, List.nil_append]

theorem foldl_entries (keys : SeedKeys) : keys.entries.foldl add empty = keys := by
  obtain ⟨hostname, authorizedKeys, wifiSsid, wifiPsk, staticIp⟩ := keys
  rw [foldl_add]
  cases hostname <;> cases wifiSsid <;> cases wifiPsk <;> cases staticIp <;>
    simp [entries, lastOf, allOf, List.filter_append, List.filter_map, Function.comp_def]

end SeedKeys

/-- The line of an entry ends where its value does, and sets its key to the value whatever is set
already. -/
structure ReadAlone (e : SeedKey × Str) : Prop where
  oneLine : ∀ rest, lines (pushLine e.1 e.2 ++ rest) = (e.1.spelling ++ e.2) :: lines rest
  ownKey : ∀ keys : SeedKeys, keys.parseLine (e.1.spelling ++ e.2) = keys.add e

theorem readAlone (h : OnOneLine value) : ReadAlone (key, value) where
  oneLine rest := by
    obtain ⟨d, hd, hink⟩ := last_ink h
    have hstrip : stripEnding (pushLine key value) = key.spelling ++ value := by
      rcases stripEnding_ended_cases (key.spelling ++ value) with ⟨heq, -⟩ | ⟨body, hbody, -⟩
      · exact heq
      · have hlast := congrArg List.getLast? hbody
        rw [List.getLast?_append_of_ne_nil _ h.ne_nil, hd, List.getLast?_concat] at hlast
        rw [Option.some.inj hlast] at hink
        exact absurd hink (by decide)
    rw [lines, rawLines_ended (ended_pushLine h), List.map_cons, hstrip, lines]
  ownKey keys := by
    rw [SeedKeys.parseLine_eq, toolEntry_spelling h]
    rfl

/-- What is rendered of checked values is read back, every line as the entry it was written for. -/
theorem seed_round_trip (h : keys.Validated) :
    SeedKeys.parse keys.render = keys ∧ ∀ e ∈ keys.entries, ReadAlone e := by
  refine ⟨?_, fun e he => readAlone (h.onOneLine e he)⟩
  rw [SeedKeys.parse_eq, SeedKeys.toolEntries_render h.onOneLine, SeedKeys.foldl_entries]

/-- A card with every key set, its passphrase with a comment sign and an equals sign. -/
def cardKeys : SeedKeys where
  hostname := some "rk1-03".toList
  authorizedKeys := [Authkeys.wholeEntry, Authkeys.wholeEntry ++ " # op@laptop".toList]
  wifiSsid := some "# lab net".toList
  wifiPsk := some "hostname= #22".toList
  staticIp := some "192.168.1.50/24,192.168.1.1,1.1.1.1".toList

theorem seed_round_trip_card :
    SeedKeys.parse cardKeys.render = cardKeys ∧ ∀ e ∈ cardKeys.entries, ReadAlone e :=
  seed_round_trip
    { hostname := by decide +kernel
      authorizedKeys := by decide +kernel
      wifiSsid := by decide +kernel
      wifiPsk := by decide +kernel
      staticIp := by decide +kernel }

end Boot2Deb.Press
