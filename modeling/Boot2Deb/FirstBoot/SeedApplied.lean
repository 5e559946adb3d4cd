import Boot2Deb.FirstBoot.SeedRuns
import Boot2Deb.FirstBoot.Service

/-!
# What the seed makes of a board

Each script of the hook keeps to its own files and absorbs a run of its own that ended early, so the
hook does. What a whole run leaves is read off the writes: `Personalized`.
-/

namespace Boot2Deb.FirstBoot
open Rust Shell Press Boot2Deb.Core
open Resume (Within Keeps Absorbs Intact Writes)

variable {boot : SeedBoot} {vars : SeedVars} {keys : SeedKeys} {files old new : BoardFiles}
  {uuid : Str} {f : BoardFile}

/-- The files the hook appends to end in a newline, as programs write them. -/
def Tidy (f : BoardFile) (content : Option Str) : Prop :=
  f = .authorizedKeys ∨ f = .dhcpcdConf → Closed (content.getD [])

namespace SeedBoot

/-- A later boot of the board draws another identifier. -/
def again (boot : SeedBoot) (uuid : Str) : SeedBoot := { boot with uuid := uuid }

/-! ### Each script keeps to its files -/

theorem within_hostname :
    Within seedWrites {.hostname, .hosts} (boot.hostnameScript vars) where
  reads _ _ _ := rfl
  writes s e he := by
    unfold hostnameScript at he
    split_ifs at he
    · cases he
    · rcases List.mem_cons.mp he with rfl | he
      · exact .inl rfl
      · obtain rfl := List.mem_singleton.mp he
        exact .inr rfl

theorem target_keyWrites {file : Str} {names : List Str} {e : SeedWrite}
    (he : e ∈ keyWrites file names) : ∃ key, e = .append .authorizedKeys (key ++ ['\n']) := by
  induction names generalizing file with
  | nil => cases he
  | cons key names ih =>
    unfold keyWrites at he
    split_ifs at he
    · exact ih he
    · rcases List.mem_cons.mp he with rfl | he
      · exact ⟨key, rfl⟩
      · exact ih he

theorem within_keys : Within seedWrites {.authorizedKeys} (boot.keysScript vars) where
  reads s t h := by
    unfold keysScript
    rw [h _ rfl]
  writes s e he := by
    unfold keysScript at he
    split_ifs at he
    · cases he
    · rcases List.mem_cons.mp he with rfl | he
      · rfl
      · obtain ⟨key, rfl⟩ := target_keyWrites he
        rfl

theorem target_writeProfile {body : List Str} {e : SeedWrite} (he : e ∈ writeProfile f body) :
    seedWrites.target e = f := by
  rcases List.mem_cons.mp he with rfl | he
  · rfl
  · obtain ⟨line, -, rfl⟩ := List.mem_map.mp he
    rfl

theorem within_wifi : Within seedWrites {.wifiProfile} (boot.wifiScript vars) where
  reads _ _ _ := rfl
  writes s e he := by
    unfold wifiScript at he
    split_ifs at he
    · cases he
    · exact target_writeProfile he

theorem within_static :
    Within seedWrites {.wiredProfile, .dhcpcdConf} (boot.staticScript vars) where
  reads s t h := by
    unfold staticScript
    rw [h .dhcpcdConf (.inr rfl)]
  writes s e he := by
    unfold staticScript at he
    dsimp only at he
    split_ifs at he
    · cases he
    · exact .inl (target_writeProfile he)
    · split at he
      · cases he
      · split_ifs at he
        · cases he
        · split at he
          · cases he
          · obtain ⟨line, -, rfl⟩ := List.mem_map.mp he
            exact .inr rfl

/-! ### What they keep of them -/

theorem tidy_append {b : Option Str} {line : Str} (h : Tidy f b) :
    Tidy f (some (b.getD [] ++ (line ++ ['\n']))) :=
  fun hf => (h hf).append (closed_concat line)

theorem keeps_keys : Keeps seedWrites Tidy (boot.keysScript vars) := by
  refine Resume.keeps_of_edit fun s e he b hb => ?_
  unfold keysScript at he
  split_ifs at he
  · cases he
  · rcases List.mem_cons.mp he with rfl | he
    · exact hb
    · obtain ⟨key, rfl⟩ := target_keyWrites he
      exact tidy_append hb

theorem keeps_of_within {F : Set BoardFile} {p : SeedScript} (h : Within seedWrites F p)
    (hkeys : .authorizedKeys ∉ F) (hconf : .dhcpcdConf ∉ F) : Keeps seedWrites Tidy p := by
  refine Resume.keeps_of_edit fun s e he b _ htarget => ?_
  have hmem := h.writes s e he
  rcases htarget with htarget | htarget
  · exact absurd (htarget ▸ hmem) hkeys
  · exact absurd (htarget ▸ hmem) hconf

/-! ### What they absorb -/

variable {D : Set BoardFile}

theorem absorbs_hostname (h : '\n' ∉ vars.hostname) : Absorbs seedWrites Tidy D
    (boot.hostnameScript vars) ((boot.again uuid).hostnameScript vars) := by
  intro s n _ _
  have hscript : (boot.again uuid).hostnameScript vars = boot.hostnameScript vars := rfl
  rw [hscript]
  unfold Writes.run Writes.cut
  by_cases hskip : (vars.hostname.isEmpty || !boot.accepts vars.hostname) = true
  · have hnone : boot.hostnameScript vars = fun _ => [] := by
      unfold hostnameScript
      rw [if_pos hskip]
    rw [hnone, List.take_nil]
    rfl
  · have hboth : boot.hostnameScript vars =
        fun _ => [.set .hostname vars.hostname, .rewriteHosts vars.hostname] := by
      unfold hostnameScript
      rw [if_neg hskip]
    rw [hboth]
    dsimp only
    have hidem : ∀ content : Option Str, (content.map (rewriteHosts vars.hostname)).map
        (rewriteHosts vars.hostname) = content.map (rewriteHosts vars.hostname) := by
      intro content
      cases content with
      | none => rfl
      | some text => exact congrArg some (rewriteHosts_rewriteHosts h text)
    cases n with
    | zero => rfl
    | succ n =>
      cases n with
      | zero =>
        funext g
        cases g <;> rfl
      | succ n =>
        rw [List.take_of_length_le (by simp)]
        funext g
        cases g with
        | hosts => exact hidem (s .hosts)
        | _ => rfl

/-- The keys a loop works on are lines. -/
theorem newline_not_mem_keyLines {text key : Str}
    (h : key ∈ ((rawLines text).filter (·.getLast? = some '\n')).map lineText) : '\n' ∉ key := by
  obtain ⟨raw, hraw, rfl⟩ := List.mem_map.mp h
  exact not_mem_lineText (isRaw_of_mem (List.mem_of_mem_filter hraw)) (.inl rfl)

/-- The file behind the loop, and behind a part of it. -/
theorem exec_keys {file : Str} {names : List Str} (hfile : Closed file)
    (hnames : ∀ k ∈ names, '\n' ∉ k) (hcontent : (files .authorizedKeys).getD [] = file) (n : ℕ) :
    seedWrites.exec files ((SeedWrite.touch .authorizedKeys :: keyWrites file names).take (n + 1)) =
      Function.update files .authorizedKeys
        (some (file ++ unlines ((missing (grepLines file) names).take n))) := by
  rw [List.take_succ_cons, keyWrites_eq hfile hnames, ← List.map_take]
  show seedWrites.exec (Function.update files .authorizedKeys
    (some ((files .authorizedKeys).getD []))) _ = _
  rw [hcontent, exec_appends]

theorem absorbs_keys : Absorbs seedWrites Tidy D (boot.keysScript vars)
    ((boot.again uuid).keysScript vars) := by
  intro s n hs _
  have hscript : (boot.again uuid).keysScript vars = boot.keysScript vars := rfl
  rw [hscript]
  unfold Writes.run Writes.cut
  by_cases hskip : (vars.keys.isEmpty || !boot.account) = true
  · have hnone : boot.keysScript vars = fun _ => [] := by
      unfold keysScript
      simp only [if_pos hskip]
    rw [hnone, List.take_nil]
    rfl
  · set names := ((rawLines vars.keys).filter (·.getLast? = some '\n')).map lineText with hnames
    have hlines : ∀ k ∈ names, '\n' ∉ k := fun k => newline_not_mem_keyLines
    have hloop : boot.keysScript vars = fun files => .touch .authorizedKeys ::
        keyWrites ((files .authorizedKeys).getD []) names := by
      unfold keysScript
      simp only [if_neg hskip]
      rfl
    rw [hloop]
    dsimp only
    set file := (s .authorizedKeys).getD [] with hfile
    have hclosed : Closed file := hs .authorizedKeys (.inl rfl)
    have hwhole : ∀ files : BoardFiles, ∀ file', Closed file' →
        (files .authorizedKeys).getD [] = file' →
        seedWrites.exec files (.touch .authorizedKeys :: keyWrites file' names) =
          Function.update files .authorizedKeys
            (some (file' ++ unlines (missing (grepLines file') names))) := by
      intro files file' hclosed' hcontent
      have htake := exec_keys hclosed' hlines hcontent
        (max (keyWrites file' names).length (missing (grepLines file') names).length)
      rwa [List.take_of_length_le (by simp), List.take_of_length_le (le_max_right _ _)] at htake
    cases n with
    | zero => rfl
    | succ n =>
      rw [exec_keys hclosed hlines hfile.symm n, Function.update_self, Option.getD_some]
      set added := (missing (grepLines file) names).take n with hadded
      have hnoNewline : ∀ k ∈ added, '\n' ∉ k := fun k hk =>
        hlines k (mem_of_mem_missing (List.mem_of_mem_take hk))
      have hclosed' : Closed (file ++ unlines added) := hclosed.append (unlines_closed added)
      have hcontent : (Function.update s .authorizedKeys (some (file ++ unlines added))
          .authorizedKeys).getD [] = file ++ unlines added := by
        rw [Function.update_self]
        rfl
      rw [hwhole _ _ hclosed' hcontent, hwhole s file hclosed rfl, Function.update_idem,
        grepLines_unlines hclosed hnoNewline, hadded, missing_resume, List.append_assoc,
        ← unlines_append, List.take_append_drop]

theorem absorbs_wifi : Absorbs seedWrites Tidy D (boot.wifiScript vars)
    ((boot.again uuid).wifiScript vars) := by
  intro s n _ _
  have hrest : ∀ g, g ≠ BoardFile.wifiProfile →
      seedWrites.cut ((boot.again uuid).wifiScript vars) n s g = s g :=
    fun g hg => within_wifi.cut_outside hg
  unfold Writes.run
  by_cases hskip : (vars.wifiSsid.isEmpty || !boot.networkManager) = true
  · have hnone : ∀ boot' : SeedBoot, boot'.networkManager = boot.networkManager →
        boot'.wifiScript vars = fun _ => [] := by
      intro boot' hsame
      unfold wifiScript
      rw [hsame, if_pos hskip]
    rw [hnone boot rfl]
    unfold Writes.cut
    rw [hnone (boot.again uuid) rfl, List.take_nil]
    rfl
  · have hsome : ∀ files, boot.wifiScript vars files = writeProfile .wifiProfile
        (wifiProfile vars.wifiSsid vars.wifiPsk (deleteBlanks vars.staticIp) boot.uuid) := by
      intro files
      unfold wifiScript
      rw [if_neg hskip]
    rw [hsome, hsome]
    exact writeProfile_absorbs hrest

/-- The stanza starts with the line a later run looks for. -/
theorem hasLine_marker {conf staticIp wired : Str} (hconf : Closed conf) :
    hasLine dhcpcdMarker (conf ++ unlines (dhcpcdStanza staticIp wired)) = true := by
  obtain ⟨rest, hstanza⟩ : ∃ rest, dhcpcdStanza staticIp wired = dhcpcdMarker :: rest := ⟨_, rfl⟩
  have htext : conf ++ unlines (dhcpcdStanza staticIp wired) =
      (conf ++ (dhcpcdMarker ++ ['\n'])) ++ unlines rest := by
    rw [hstanza, unlines_cons, List.append_assoc, List.append_assoc]
    rfl
  have hclosed : Closed (conf ++ (dhcpcdMarker ++ ['\n'])) := hconf.append (closed_concat _)
  have hmarker : dhcpcdMarker ∈ grepLines (conf ++ (dhcpcdMarker ++ ['\n'])) := by
    rw [grepLines_append hconf (by decide)]
    exact List.mem_append_right _ (List.mem_singleton_self _)
  have hlines : dhcpcdMarker ∈ grepLines (conf ++ unlines (dhcpcdStanza staticIp wired)) := by
    rw [htext]
    unfold grepLines at hmarker ⊢
    rw [rawLines_append hclosed, List.map_append]
    exact List.mem_append_left _ hmarker
  exact List.contains_iff_mem.mpr hlines

/-- The script where the address is left to `dhcpcd`. -/
theorem staticScript_dhcpcd (hskip : ((deleteBlanks vars.staticIp).isEmpty ||
      !vars.wifiSsid.isEmpty) = false) (hnm : boot.networkManager = false) (files : BoardFiles) :
    boot.staticScript vars files = [] ∨ ∃ conf wired, files .dhcpcdConf = some conf ∧
      boot.staticScript vars files =
        (dhcpcdStanza (deleteBlanks vars.staticIp) wired).map fun line =>
          .append .dhcpcdConf (line ++ ['\n']) := by
  unfold staticScript
  dsimp only
  rw [hskip, hnm, if_neg Bool.false_ne_true, if_neg Bool.false_ne_true]
  cases files .dhcpcdConf with
  | none => exact .inl rfl
  | some conf =>
    dsimp only
    split_ifs
    · exact .inl rfl
    · cases boot.wired with
      | none => exact .inl rfl
      | some wired => exact .inr ⟨conf, wired, rfl, rfl⟩

theorem staticScript_marked (hskip : ((deleteBlanks vars.staticIp).isEmpty ||
      !vars.wifiSsid.isEmpty) = false) (hnm : boot.networkManager = false) {conf : Str}
    (hconf : files .dhcpcdConf = some conf) (hmarked : hasLine dhcpcdMarker conf = true) :
    boot.staticScript vars files = [] := by
  unfold staticScript
  dsimp only
  rw [hskip, hnm, if_neg Bool.false_ne_true, if_neg Bool.false_ne_true, hconf]
  exact if_pos hmarked

theorem exec_stanza {conf staticIp wired : Str} (hconf : files .dhcpcdConf = some conf) :
    seedWrites.exec files ((dhcpcdStanza staticIp wired).map fun line =>
      .append .dhcpcdConf (line ++ ['\n'])) =
      Function.update files .dhcpcdConf (some (conf ++ unlines (dhcpcdStanza staticIp wired))) := by
  have happends := @exec_appends files .dhcpcdConf conf (dhcpcdStanza staticIp wired)
  rwa [← hconf, Function.update_eq_self] at happends

theorem absorbs_static : Absorbs seedWrites Tidy {.dhcpcdConf} (boot.staticScript vars)
    ((boot.again uuid).staticScript vars) := by
  intro s n hs hintact
  cases hskip : (deleteBlanks vars.staticIp).isEmpty || !vars.wifiSsid.isEmpty with
  | true =>
    have hnone : ∀ boot' : SeedBoot, boot'.staticScript vars = fun _ => [] := by
      intro boot'
      funext files
      exact if_pos hskip
    unfold Writes.run Writes.cut
    rw [hnone, hnone, List.take_nil]
    rfl
  | false =>
    cases hnm : boot.networkManager with
    | true =>
      have hsome : ∀ boot' : SeedBoot, boot'.networkManager = true → ∀ files,
          boot'.staticScript vars files = writeProfile .wiredProfile
            (wiredProfile (deleteBlanks vars.staticIp) boot'.uuid) := by
        intro boot' hnm' files
        unfold staticScript
        dsimp only
        rw [hskip, hnm', if_neg Bool.false_ne_true, if_pos rfl]
      have hrest : ∀ g, g ≠ BoardFile.wiredProfile →
          seedWrites.cut ((boot.again uuid).staticScript vars) n s g = s g := by
        intro g hg
        unfold Writes.cut
        rw [hsome (boot.again uuid) hnm]
        exact Resume.exec_outside (F := {.wiredProfile})
          (fun e he => target_writeProfile (List.mem_of_mem_take he)) hg
      unfold Writes.run
      rw [hsome boot hnm, hsome boot hnm]
      exact writeProfile_absorbs hrest
    | false =>
      have hscript : (boot.again uuid).staticScript vars = boot.staticScript vars := by
        funext files
        unfold staticScript
        dsimp only
        have hnm' : (boot.again uuid).networkManager = false := hnm
        rw [hnm, hnm', if_neg Bool.false_ne_true, if_neg Bool.false_ne_true]
        rfl
      rw [hscript] at hintact ⊢
      rcases @staticScript_dhcpcd _ _ hskip hnm s with hnone | ⟨conf, wired, hconf, hstanza⟩
      · have hcut : seedWrites.cut (boot.staticScript vars) n s = s := by
          unfold Writes.cut
          rw [hnone, List.take_nil]
          rfl
        rw [hcut]
      · have hother : ∀ m g, g ≠ BoardFile.dhcpcdConf →
            seedWrites.cut (boot.staticScript vars) m s g = s g := by
          intro m g hg
          unfold Writes.cut
          rw [hstanza]
          refine Resume.exec_outside (F := {.dhcpcdConf}) (fun e he => ?_) hg
          obtain ⟨line, -, rfl⟩ := List.mem_map.mp (List.mem_of_mem_take he)
          rfl
        have hrun : seedWrites.run (boot.staticScript vars) s = Function.update s .dhcpcdConf
            (some (conf ++ unlines (dhcpcdStanza (deleteBlanks vars.staticIp) wired))) := by
          unfold Writes.run
          rw [hstanza, exec_stanza hconf]
        rcases hintact .dhcpcdConf rfl with hsame | hwhole
        · have hcut : seedWrites.cut (boot.staticScript vars) n s = s := by
            funext g
            by_cases hg : g = .dhcpcdConf
            · rw [hg, hsame]
            · exact hother n g hg
          rw [hcut]
        · have hcut : seedWrites.cut (boot.staticScript vars) n s =
              seedWrites.run (boot.staticScript vars) s := by
            funext g
            by_cases hg : g = .dhcpcdConf
            · rw [hg, hwhole]
            · rw [hother n g hg, Writes.run_eq_cut, hother _ g hg]
          have hclosed : Closed conf := by
            have hok := hs .dhcpcdConf (.inr rfl)
            rwa [hconf] at hok
          have hdone : boot.staticScript vars (seedWrites.run (boot.staticScript vars) s) = [] := by
            have hnew : seedWrites.run (boot.staticScript vars) s .dhcpcdConf =
                some (conf ++ unlines (dhcpcdStanza (deleteBlanks vars.staticIp) wired)) := by
              rw [hrun, Function.update_self]
            exact staticScript_marked hskip hnm hnew (hasLine_marker hclosed)
          rw [hcut]
          show seedWrites.exec _ (boot.staticScript vars _) = _
          rw [hdone]
          rfl

/-! ### The hook -/

theorem keeps_static : Keeps seedWrites Tidy (boot.staticScript vars) := by
  refine Resume.keeps_of_edit fun s e he b hb htarget => ?_
  unfold staticScript at he
  dsimp only at he
  split_ifs at he
  · cases he
  · have hwired := target_writeProfile he
    rw [hwired] at htarget
    rcases htarget with htarget | htarget <;> cases htarget
  · split at he
    · cases he
    · split_ifs at he
      · cases he
      · split at he
        · cases he
        · obtain ⟨line, -, rfl⟩ := List.mem_map.mp he
          exact tidy_append hb (.inr rfl)

theorem keeps_applyVars : Keeps seedWrites Tidy (boot.applyVars vars) := by
  have hhostname : Keeps seedWrites Tidy (boot.hostnameScript vars) :=
    keeps_of_within within_hostname (by simp) (by simp)
  have hwifi : Keeps seedWrites Tidy (boot.wifiScript vars) :=
    keeps_of_within within_wifi (by simp) (by simp)
  exact hhostname.andThen (keeps_keys.andThen (hwifi.andThen keeps_static))

theorem absorbs_applyVars (h : '\n' ∉ vars.hostname) : Absorbs seedWrites Tidy {.dhcpcdConf}
    (boot.applyVars vars) ((boot.again uuid).applyVars vars) := by
  have hconnection : Absorbs seedWrites Tidy {.dhcpcdConf}
      (seedWrites.andThen (boot.wifiScript vars) (boot.staticScript vars))
      (seedWrites.andThen ((boot.again uuid).wifiScript vars) ((boot.again uuid).staticScript vars)) :=
    absorbs_wifi.andThen absorbs_static (keeps_of_within within_wifi (by simp) (by simp))
      within_wifi within_wifi within_static (by simp)
  have hrest := (@absorbs_keys boot vars uuid {.dhcpcdConf}).andThen hconnection keeps_keys
    within_keys within_keys (within_wifi.andThen within_static) (by simp)
  exact (absorbs_hostname h).andThen hrest (keeps_of_within within_hostname (by simp) (by simp))
    within_hostname within_hostname (within_keys.andThen (within_wifi.andThen within_static))
    (by simp)

end SeedBoot

/-! ### What the hook reads -/

/-- The variables that hold a seed. -/
def seedVars (keys : SeedKeys) : SeedVars where
  hostname := keys.hostname.getD []
  keys := unlines keys.authorizedKeys
  wifiSsid := keys.wifiSsid.getD []
  wifiPsk := keys.wifiPsk.getD []
  staticIp := keys.staticIp.getD []

/-- A text without blanks at its ends is not trimmed. -/
theorem trimBlanks_eq_self {c d : Char} {text : Str} (hhead : text.head? = some c)
    (hc : isBlank c = false) (hlast : text.getLast? = some d) (hd : isBlank d = false) :
    trimBlanks text = text := by
  unfold trimBlanks
  cases text with
  | nil => rfl
  | cons c' text =>
    obtain rfl := Option.some.inj hhead
    rw [List.dropWhile_cons_of_neg (by simp [hc])]
    refine List.rdropWhile_eq_self_iff.mpr fun hne => ?_
    rw [List.getLast?_eq_some_getLast hne] at hlast
    rw [Option.some.inj hlast, hd]
    exact Bool.false_ne_true

theorem isBlank_of_ink {c : Char} (h : isWhitespace c = false) : isBlank c = false := by
  by_contra hne
  rw [Bool.not_eq_false] at hne
  rw [isWhitespace_of_isBlank hne] at h
  cases h

/-- The hook takes from a rendered line the entry it was written for. -/
theorem hookEntry_pushLine {key : SeedKey} {value : Str} (h : OnOneLine value)
    (hnul : '\x00' ∉ value) : hookEntry (pushLine key value) = some (key, value) := by
  obtain ⟨c, t, hspelling, hc⟩ := spelling_head key
  obtain ⟨d, hd, hink⟩ := last_ink h
  have hlast : (key.spelling ++ value).getLast? = some d := by
    rw [List.getLast?_append_of_ne_nil _ h.ne_nil, hd]
  have hnul' : '\x00' ∉ key.spelling ++ value := by
    rw [List.mem_append, not_or]
    exact ⟨by cases key <;> decide, hnul⟩
  have htext : lineText (pushLine key value) = key.spelling ++ value := by
    unfold lineText pushLine
    rw [dropSuffix_concat]
    exact filter_nul hnul'
  have hcr : dropSuffix (key.spelling ++ value) ['\r'] = key.spelling ++ value := by
    unfold dropSuffix
    rw [stripSuffix_eq_none]
    · rfl
    · rintro ⟨front, hfront⟩
      rw [← hfront, List.getLast?_concat] at hlast
      rw [← Option.some.inj hlast] at hink
      exact absurd hink (by decide)
  unfold hookEntry SeedVars.hookLine
  rw [htext, trimBlanks_eq_self (by rw [hspelling]; rfl) (isBlank_of_ink hc) hlast
    (isBlank_of_ink hink), hcr]
  exact entryOf_spelling key value

/-- The values of a seed have no NUL, which a shell cannot hold. -/
def NulFree (keys : SeedKeys) : Prop := ∀ e ∈ keys.entries, '\x00' ∉ e.2

theorem read_render (h : keys.Validated) (hnul : NulFree keys) :
    SeedVars.read keys.render = seedVars keys := by
  have hheader : (rawLines (unlines headerLines)).filterMap hookEntry = [] := by decide +kernel
  have hentries : ∀ entries : List (SeedKey × Str),
      (∀ e ∈ entries, OnOneLine e.2 ∧ '\x00' ∉ e.2) →
      (entries.map fun e => pushLine e.1 e.2).filterMap hookEntry = entries := by
    intro entries hall
    induction entries with
    | nil => rfl
    | cons e entries ih =>
      obtain ⟨⟨hline, hfree⟩, hrest⟩ := List.forall_mem_cons.mp hall
      rw [List.map_cons, List.filterMap_cons_some (hookEntry_pushLine hline hfree), ih hrest]
  rw [SeedVars.read_eq, SeedKeys.render_eq, rawLines_append (unlines_closed headerLines),
    List.filterMap_append, hheader, SeedKeys.rawLines_entries h.onOneLine, List.nil_append,
    hentries _ fun e he => ⟨h.onOneLine e he, hnul e he⟩, SeedVars.foldl_set]
  obtain ⟨hostname, authorizedKeys, wifiSsid, wifiPsk, staticIp⟩ := keys
  unfold seedVars
  cases hostname <;> cases wifiSsid <;> cases wifiPsk <;> cases staticIp <;>
    simp [SeedKeys.entries, lastOf, allOf, List.filter_append, List.filter_map, Function.comp_def]

/-! ### What the hook leaves -/

/-- What a seed asks of a board, and the board's files behind it: what the seed names is there, what
it does not name is as it was. -/
structure Personalized (keys : SeedKeys) (boot : SeedBoot) (old new : BoardFiles) : Prop where
  hostname : new .hostname = (keys.hostname.filter boot.accepts).or (old .hostname)
  hosts : new .hosts = (keys.hostname.filter boot.accepts).elim (old .hosts) fun name =>
    (old .hosts).map (rewriteHosts name)
  /-- The keys that were not there, each once, behind those that were. -/
  account : boot.account = true → grepLines ((new .authorizedKeys).getD []) =
    grepLines ((old .authorizedKeys).getD []) ++
      (firsts id keys.authorizedKeys).filter (· ∉ grepLines ((old .authorizedKeys).getD []))
  noAccount : boot.account = false → new .authorizedKeys = old .authorizedKeys
  wifi : new .wifiProfile = (keys.wifiSsid.filter fun _ => boot.networkManager).elim
    (old .wifiProfile) fun ssid => some (unlines (wifiProfile ssid (keys.wifiPsk.getD [])
      (keys.staticIp.getD []) boot.uuid))
  /-- An address rides on the Wi-Fi network where there is one. -/
  wired : new .wiredProfile = (keys.staticIp.filter fun _ => boot.networkManager &&
    keys.wifiSsid.isNone).elim (old .wiredProfile) fun ip => some (unlines (wiredProfile ip boot.uuid))
  dhcpcd : new .dhcpcdConf = (keys.staticIp.filter fun _ => !boot.networkManager &&
    keys.wifiSsid.isNone).elim (old .dhcpcdConf) fun ip => (old .dhcpcdConf).map fun conf =>
      if hasLine dhcpcdMarker conf then conf
      else boot.wired.elim conf fun wired => conf ++ unlines (dhcpcdStanza ip wired)

section Files
variable (boot vars old)

theorem run_hostname (hf : f = .hostname ∨ f = .hosts) :
    seedWrites.run (boot.applyVars vars) old f = seedWrites.run (boot.hostnameScript vars) old f := by
  refine Resume.run_andThen_left (SeedBoot.within_keys.andThen
    (SeedBoot.within_wifi.andThen SeedBoot.within_static)) ?_
  rcases hf with rfl | rfl <;> simp

theorem run_keys : seedWrites.run (boot.applyVars vars) old .authorizedKeys =
    seedWrites.run (boot.keysScript vars) old .authorizedKeys := by
  refine (Resume.run_andThen_right SeedBoot.within_hostname (SeedBoot.within_keys.andThen
    (SeedBoot.within_wifi.andThen SeedBoot.within_static)) (by simp) (by simp)).trans ?_
  exact Resume.run_andThen_left (SeedBoot.within_wifi.andThen SeedBoot.within_static) (by simp)

theorem run_connection (hf : f = .wifiProfile ∨ f = .wiredProfile ∨ f = .dhcpcdConf) :
    seedWrites.run (boot.applyVars vars) old f =
      seedWrites.run (seedWrites.andThen (boot.wifiScript vars) (boot.staticScript vars)) old f := by
  have hin : f ∈ ({.wifiProfile} ∪ {.wiredProfile, .dhcpcdConf} : Set BoardFile) := by
    rcases hf with rfl | rfl | rfl <;> simp
  refine (Resume.run_andThen_right SeedBoot.within_hostname (SeedBoot.within_keys.andThen
    (SeedBoot.within_wifi.andThen SeedBoot.within_static)) (by simp) (.inr hin)).trans ?_
  exact Resume.run_andThen_right SeedBoot.within_keys
    (SeedBoot.within_wifi.andThen SeedBoot.within_static) (by simp) hin

theorem run_wifi : seedWrites.run (boot.applyVars vars) old .wifiProfile =
    seedWrites.run (boot.wifiScript vars) old .wifiProfile := by
  rw [run_connection boot vars old (.inl rfl)]
  exact Resume.run_andThen_left SeedBoot.within_static (by simp)

theorem run_static (hf : f = .wiredProfile ∨ f = .dhcpcdConf) :
    seedWrites.run (boot.applyVars vars) old f = seedWrites.run (boot.staticScript vars) old f := by
  rw [run_connection boot vars old (.inr hf)]
  refine Resume.run_andThen_right SeedBoot.within_wifi SeedBoot.within_static (by simp) ?_
  rcases hf with rfl | rfl <;> simp

end Files

theorem isEmpty_getD {o : Option Str} (ho : ∀ v ∈ o, OnOneLine v) :
    (o.getD []).isEmpty = o.isNone := by
  cases o with
  | none => rfl
  | some v => simpa using (ho v rfl).ne_nil

/-- The loop takes up the keys that were written out. -/
theorem keyLines_unlines {names : List Str} (h : ∀ k ∈ names, '\n' ∉ k ∧ '\x00' ∉ k) :
    ((rawLines (unlines names)).filter (·.getLast? = some '\n')).map lineText = names := by
  induction names with
  | nil => rfl
  | cons name names ih =>
    obtain ⟨⟨hline, hnul⟩, hrest⟩ := List.forall_mem_cons.mp h
    have hraw : rawLines (unlines (name :: names)) = (name ++ ['\n']) :: rawLines (unlines names) := by
      have hcons : unlines (name :: names) = (name ++ ['\n']) ++ unlines names := by
        rw [unlines_cons, List.append_assoc]
        rfl
      rw [hcons]
      exact rawLines_ended ⟨name, hline, rfl⟩ _
    have htext : lineText (name ++ ['\n']) = name := by
      unfold lineText
      rw [dropSuffix_concat]
      exact filter_nul hnul
    rw [hraw, List.filter_cons_of_pos (by simp), List.map_cons, ih hrest, htext]

section Left
variable (hkeys : keys.Validated) (hnul : NulFree keys)
include hkeys

theorem deleteBlanks_staticIp : deleteBlanks (keys.staticIp.getD []) = keys.staticIp.getD [] := by
  cases hip : keys.staticIp with
  | none => rfl
  | some ip =>
    obtain ⟨-, hsolid⟩ := StaticIp.onOneLine (hkeys.staticIp ip hip)
    refine List.filter_eq_self.mpr fun c hc => ?_
    rw [isBlank_of_ink (hsolid c hc)]
    rfl

theorem run_hostname_eq :
    seedWrites.run (boot.hostnameScript (seedVars keys)) old =
      (keys.hostname.filter boot.accepts).elim old fun name =>
        Function.update (Function.update old .hostname (some name)) .hosts
          ((old .hosts).map (rewriteHosts name)) := by
  have hempty := isEmpty_getD fun v hv => Hostname.onOneLine (hkeys.hostname v hv)
  unfold Writes.run SeedBoot.hostnameScript seedVars
  dsimp only
  rw [hempty]
  cases hname : keys.hostname with
  | none => rfl
  | some name =>
    rw [Option.isNone_some, Bool.false_or, Option.getD_some, Option.filter_some]
    cases boot.accepts name with
    | false => rfl
    | true =>
      show seedWrites.apply (seedWrites.apply old (.set .hostname name)) (.rewriteHosts name) = _
      funext f
      cases f <;> rfl

include hnul in
theorem run_keys_eq (hold : Closed ((old .authorizedKeys).getD [])) :
    (boot.account = true → grepLines ((seedWrites.run (boot.keysScript (seedVars keys)) old
        .authorizedKeys).getD []) = grepLines ((old .authorizedKeys).getD []) ++
      (firsts id keys.authorizedKeys).filter (· ∉ grepLines ((old .authorizedKeys).getD []))) ∧
    (boot.account = false → seedWrites.run (boot.keysScript (seedVars keys)) old .authorizedKeys =
      old .authorizedKeys) := by
  have hentry : ∀ k ∈ keys.authorizedKeys, (SeedKey.authorizedKey, k) ∈ keys.entries := by
    intro k hk
    unfold SeedKeys.entries
    simp [hk]
  have hline : ∀ k ∈ keys.authorizedKeys, OnOneLine k ∧ '\x00' ∉ k := fun k hk =>
    ⟨hkeys.onOneLine _ (hentry k hk), hnul _ (hentry k hk)⟩
  have hloop := keyLines_unlines fun k hk => ⟨(hline k hk).1.newline, (hline k hk).2⟩
  unfold Writes.run SeedBoot.keysScript seedVars
  dsimp only
  rw [hloop]
  constructor
  · intro haccount
    rw [haccount, Bool.not_true, Bool.or_false]
    by_cases hnone : keys.authorizedKeys = []
    · rw [hnone]
      exact (List.append_nil _).symm
    · have hne : (unlines keys.authorizedKeys).isEmpty = false := by
        rw [unlines_eq_join hnone]
        simp
      rw [hne, if_neg Bool.false_ne_true]
      have hnotNil : [] ∉ keys.authorizedKeys := fun hmem => (hline [] hmem).1.ne_nil rfl
      have hmissing : ∀ k ∈ missing (grepLines ((old .authorizedKeys).getD [])) keys.authorizedKeys,
          '\n' ∉ k := fun k hk => (hline k (mem_of_mem_missing hk)).1.newline
      have htake := SeedBoot.exec_keys hold (fun k hk => (hline k hk).1.newline) rfl
        (max (SeedBoot.keyWrites ((old .authorizedKeys).getD []) keys.authorizedKeys).length
          (missing (grepLines ((old .authorizedKeys).getD [])) keys.authorizedKeys).length)
      rw [List.take_of_length_le (by simp), List.take_of_length_le (le_max_right _ _)] at htake
      rw [htake, Function.update_self, Option.getD_some, grepLines_unlines hold hmissing,
        missing_eq hnotNil]
  · intro haccount
    rw [haccount, Bool.not_false, Bool.or_true]
    rfl

theorem run_wifi_eq :
    seedWrites.run (boot.wifiScript (seedVars keys)) old .wifiProfile =
      (keys.wifiSsid.filter fun _ => boot.networkManager).elim (old .wifiProfile) fun ssid =>
        some (unlines (wifiProfile ssid (keys.wifiPsk.getD []) (keys.staticIp.getD [])
          boot.uuid)) := by
  have hempty := isEmpty_getD fun v hv => Wifi.ssid_onOneLine (hkeys.wifiSsid v hv)
  unfold Writes.run SeedBoot.wifiScript seedVars
  dsimp only
  rw [hempty, deleteBlanks_staticIp hkeys]
  cases hssid : keys.wifiSsid with
  | none => rfl
  | some ssid =>
    rw [Option.isNone_some, Bool.false_or, Option.getD_some, Option.filter_some]
    cases boot.networkManager with
    | false => rfl
    | true =>
      rw [Bool.not_true, if_neg Bool.false_ne_true, exec_writeProfile, Function.update_self]
      rfl

theorem run_static_eq :
    seedWrites.run (boot.staticScript (seedVars keys)) old =
      (keys.staticIp.filter fun _ => keys.wifiSsid.isNone).elim old fun ip =>
        if boot.networkManager then
          Function.update old .wiredProfile (some (unlines (wiredProfile ip boot.uuid)))
        else Function.update old .dhcpcdConf ((old .dhcpcdConf).map fun conf =>
          if hasLine dhcpcdMarker conf then conf
          else boot.wired.elim conf fun wired => conf ++ unlines (dhcpcdStanza ip wired)) := by
  have hempty := isEmpty_getD fun v hv => Wifi.ssid_onOneLine (hkeys.wifiSsid v hv)
  have hemptyIp := isEmpty_getD fun v hv => (StaticIp.onOneLine (hkeys.staticIp v hv)).1
  unfold Writes.run SeedBoot.staticScript seedVars
  dsimp only
  rw [deleteBlanks_staticIp hkeys, hempty, hemptyIp]
  cases hip : keys.staticIp with
  | none => rfl
  | some ip =>
    rw [Option.isNone_some, Bool.false_or, Option.getD_some, Option.filter_some]
    cases keys.wifiSsid.isNone with
    | false => rfl
    | true =>
      rw [Bool.not_true, if_neg Bool.false_ne_true, if_pos rfl, Option.elim_some]
      cases boot.networkManager with
      | true => rw [if_pos rfl, if_pos rfl, exec_writeProfile]
      | false =>
        rw [if_neg Bool.false_ne_true, if_neg Bool.false_ne_true]
        have hstay : ∀ content, old .dhcpcdConf = content →
            Function.update old .dhcpcdConf content = old := by
          rintro content rfl
          exact Function.update_eq_self _ _
        cases hconf : old .dhcpcdConf with
        | none => exact (hstay none hconf).symm
        | some conf =>
          dsimp only
          rw [Option.map_some]
          by_cases hmarked : hasLine dhcpcdMarker conf = true
          · rw [if_pos hmarked, if_pos hmarked]
            exact (hstay _ hconf).symm
          · rw [if_neg hmarked, if_neg hmarked]
            cases boot.wired with
            | none => exact (hstay _ hconf).symm
            | some wired => exact SeedBoot.exec_stanza hconf

include hnul in
/-- A whole run of the hook personalizes the board. -/
theorem personalized_run (hseed : boot.seed = some (some keys.render))
    (hold : ∀ f, Tidy f (old f)) :
    Personalized keys boot old (seedWrites.run boot.hook old) := by
  have hhook : boot.hook = boot.applyVars (seedVars keys) := by
    unfold SeedBoot.hook
    rw [hseed]
    show boot.applyVars (SeedVars.read keys.render) = _
    rw [read_render hkeys hnul]
  have hlist := @run_keys_eq boot keys old hkeys hnul (hold .authorizedKeys (.inl rfl))
  rw [hhook]
  constructor
  case hostname =>
    rw [run_hostname boot _ old (.inl rfl), run_hostname_eq hkeys]
    cases keys.hostname.filter boot.accepts <;> rfl
  case hosts =>
    rw [run_hostname boot _ old (.inr rfl), run_hostname_eq hkeys]
    cases keys.hostname.filter boot.accepts <;> rfl
  case account =>
    rw [run_keys]
    exact hlist.1
  case noAccount =>
    rw [run_keys]
    exact hlist.2
  case wifi => rw [run_wifi, run_wifi_eq hkeys]
  case wired =>
    rw [run_static boot _ old (.inl rfl), run_static_eq hkeys]
    cases keys.staticIp with
    | none => rfl
    | some ip =>
      rw [Option.filter_some, Option.filter_some]
      cases keys.wifiSsid.isNone <;> cases boot.networkManager <;> rfl
  case dhcpcd =>
    rw [run_static boot _ old (.inr rfl), run_static_eq hkeys]
    cases keys.staticIp with
    | none => rfl
    | some ip =>
      rw [Option.filter_some, Option.filter_some]
      cases keys.wifiSsid.isNone <;> cases boot.networkManager <;> rfl

end Left

/-! ### The hook in the service -/

/-- What the seed hook meets on a boot: the identifier it draws, and behind how many of its writes
the power goes, if it does. -/
structure SeedRun where
  uuid : Str
  cut : Option ℕ
deriving DecidableEq, Repr

variable {ρ ω : Type*}

/-- `10-seed` on a board with other parts `ρ`. It never fails. -/
def seedHook (boot : SeedBoot) : Hook (BoardFiles × ρ) (SeedRun × ω) where
  name := "10-seed".toList
  executable := true
  run w b := match w.1.cut with
    | none => ((seedWrites.run (boot.again w.1.uuid).hook b.1, b.2), .finished)
    | some n => ((seedWrites.cut (boot.again w.1.uuid).hook n b.1, b.2), .lost)

section
variable {w : SeedRun × ω} {b : BoardFiles × ρ} {n : ℕ}

theorem seedHook_whole (h : w.1.cut = none) : (seedHook boot).run w b =
    ((seedWrites.run (boot.again w.1.uuid).hook b.1, b.2), .finished) := by
  unfold seedHook
  dsimp only
  rw [h]

theorem seedHook_cut (h : w.1.cut = some n) : (seedHook boot).run w b =
    ((seedWrites.cut (boot.again w.1.uuid).hook n b.1, b.2), .lost) := by
  unfold seedHook
  dsimp only
  rw [h]

end

/-- A part of the script that leaves the files of the seed alone. -/
def LeavesFiles (stage : Stage (BoardFiles × ρ) (SeedRun × ω)) : Prop :=
  ∀ w b, (stage w b).1.1 = b.1

/-- A service with the seed hook among hooks that leave its files alone. -/
structure SeedService (boot : SeedBoot) (service : Service (BoardFiles × ρ) (SeedRun × ω)) where
  before : List (Hook (BoardFiles × ρ) (SeedRun × ω))
  after : List (Hook (BoardFiles × ρ) (SeedRun × ω))
  hooks : service.hooks = before ++ seedHook boot :: after
  grow : LeavesFiles service.grow
  others : ∀ hook ∈ before ++ after, LeavesFiles hook.run

/-- The power does not go inside the stanza of `dhcpcd.conf`. -/
def StanzaIntact (boot : SeedBoot) (b : Stamped (BoardFiles × ρ)) (w : SeedRun × ω) : Prop :=
  b.2 = false → ∀ n, w.1.cut = some n →
    Intact seedWrites {.dhcpcdConf} (boot.again w.1.uuid).hook n b.1.1

variable {service : Service (BoardFiles × ρ) (SeedRun × ω)}

theorem LeavesFiles.stage {hook : Hook (BoardFiles × ρ) (SeedRun × ω)} (h : LeavesFiles hook.run) :
    LeavesFiles hook.stage := by
  intro w b
  unfold Hook.stage
  split_ifs
  · exact h w b
  · rfl

theorem leavesFiles_inOrder {stages : List (Stage (BoardFiles × ρ) (SeedRun × ω))}
    (h : ∀ stage ∈ stages, LeavesFiles stage) : LeavesFiles (inOrder stages) := fun w b =>
  @inOrder_keeps _ _ stages b w (fun c => c.1 = b.1)
    (fun stage hstage c hc => (h stage hstage w c).trans hc) rfl

namespace SeedService

/-- The files behind a boot are those behind the hook, as far as it came, and with the stamp it came
to its end. -/
theorem script_cases (hservice : SeedService boot service) (w : SeedRun × ω)
    (b : BoardFiles × ρ) :
    (service.script w b).2 ≠ .finished ∧ (service.script w b).1.1 = b.1 ∨
    (∃ n, w.1.cut = some n) ∧ (service.script w b).2 ≠ .finished ∧
      (∀ n, w.1.cut = some n →
        (service.script w b).1.1 = seedWrites.cut (boot.again w.1.uuid).hook n b.1) ∨
    (service.script w b).1.1 = seedWrites.run (boot.again w.1.uuid).hook b.1 := by
  set front := service.grow :: hservice.before.map Hook.stage with hfront
  set back := hservice.after.map Hook.stage ++
    [fun w s => (s, service.stamp w)] with hback
  have hscript : service.script = inOrder (front ++ (seedHook boot).stage :: back) := by
    unfold Service.script
    rw [hservice.hooks, List.map_append, List.map_cons, hfront, hback]
    simp
  have hothers : ∀ hooks : List (Hook (BoardFiles × ρ) (SeedRun × ω)),
      (∀ hook ∈ hooks, hook ∈ hservice.before ++ hservice.after) →
      ∀ stage ∈ hooks.map Hook.stage, LeavesFiles stage := by
    intro hooks hsub stage hstage
    obtain ⟨hook, hhook, rfl⟩ := List.mem_map.mp hstage
    exact (hservice.others hook (hsub hook hhook)).stage
  have hfrontLeaves : LeavesFiles (inOrder front) := leavesFiles_inOrder
    (List.forall_mem_cons.mpr ⟨hservice.grow,
      hothers _ fun hook hhook => List.mem_append_left _ hhook⟩)
  have hbackLeaves : LeavesFiles (inOrder back) := by
    refine leavesFiles_inOrder fun stage hstage => ?_
    rcases List.mem_append.mp hstage with hstage | hstage
    · exact hothers _ (fun hook hhook => List.mem_append_right _ hhook) stage hstage
    · obtain rfl := List.mem_singleton.mp hstage
      exact fun w b => rfl
  have hseed : (seedHook boot : Hook (BoardFiles × ρ) (SeedRun × ω)).stage =
      (seedHook boot).run := by
    funext w b
    exact if_pos rfl
  rw [hscript, hseed]
  rcases @inOrder_append_cases _ _ (seedHook boot).run front back w b with
    ⟨hend, heq⟩ | ⟨hend, heq⟩ | ⟨hend, heq⟩
  · rw [heq]
    exact .inl ⟨hend, hfrontLeaves w b⟩
  · rw [heq]
    refine .inr (.inl ?_)
    cases hcut : w.1.cut with
    | none =>
      rw [seedHook_whole hcut] at hend
      exact absurd rfl hend
    | some n =>
      refine ⟨⟨n, rfl⟩, hend, fun m hm => ?_⟩
      obtain rfl := Option.some.inj hm
      rw [seedHook_cut hcut, hfrontLeaves w b]
  · rw [heq]
    refine .inr (.inr ?_)
    rw [hbackLeaves]
    cases hcut : w.1.cut with
    | none => rw [seedHook_whole hcut, hfrontLeaves w b]
    | some n =>
      rw [seedHook_cut hcut] at hend
      cases hend

end SeedService

/-- A board on the way: a whole run of the hook leaves what it would have left at first, and with
the stamp it has been there. -/
structure Underway (boot : SeedBoot) (files : BoardFiles) (ws : List (SeedRun × ω))
    (b : Stamped (BoardFiles × ρ)) : Prop where
  tidy : ∀ f, Tidy f (b.1.1 f)
  pending : ∀ uuid, seedWrites.run (boot.again uuid).hook b.1.1 =
    seedWrites.run (boot.again uuid).hook files
  stamped : b.2 = true → ∃ w ∈ ws, b.1.1 = seedWrites.run (boot.again w.1.uuid).hook files

section
variable {ws : List (SeedRun × ω)} {b : Stamped (BoardFiles × ρ)} {w : SeedRun × ω}

/-- One boot keeps the board on the way. -/
theorem Underway.step (hservice : SeedService boot service)
    (hname : ∀ text, boot.seed = some text → '\n' ∉ (SeedVars.read (text.getD [])).hostname)
    (hw : w ∈ ws) (h : Underway boot files ws b) (hintact : StanzaIntact boot b w) :
    Underway boot files ws (service.boot b w) := by
  obtain ⟨board, stamped⟩ := b
  cases stamped with
  | true => exact h
  | false =>
    have habsorbs : ∀ uuid uuid', Absorbs seedWrites Tidy {.dhcpcdConf} (boot.again uuid).hook
        (boot.again uuid').hook := by
      intro uuid uuid'
      unfold SeedBoot.hook
      cases hseed : boot.seed with
      | none =>
        have hsame : ∀ u, (boot.again u).seed = none := fun u => hseed
        rw [hsame, hsame]
        intro s n _ _
        unfold Writes.cut
        rw [List.take_nil]
        rfl
      | some text =>
        have hsame : ∀ u, (boot.again u).seed = some text := fun u => hseed
        rw [hsame, hsame]
        exact @SeedBoot.absorbs_applyVars (boot.again uuid) _ uuid' (hname text hseed)
    have hkeeps : ∀ uuid, Keeps seedWrites Tidy (boot.again uuid).hook := by
      intro uuid
      unfold SeedBoot.hook
      cases (boot.again uuid).seed with
      | none => exact fun s n hs => by rw [Writes.cut, List.take_nil]; exact hs
      | some text => exact SeedBoot.keeps_applyVars
    rw [Service.boot_unstamped]
    rcases hservice.script_cases w board with ⟨hend, hfiles⟩ | ⟨⟨n, hcut⟩, hend, hfiles⟩ | hfiles
    · refine ⟨?_, ?_, fun hdone => absurd (of_decide_eq_true hdone) hend⟩
      · rw [hfiles]
        exact h.tidy
      · rw [hfiles]
        exact h.pending
    · refine ⟨?_, fun uuid => ?_, fun hdone => absurd (of_decide_eq_true hdone) hend⟩
      · rw [hfiles n hcut]
        exact hkeeps _ _ n h.tidy
      · rw [hfiles n hcut]
        exact (habsorbs uuid w.1.uuid _ n h.tidy (hintact rfl n hcut)).trans (h.pending uuid)
    · refine ⟨?_, fun uuid => ?_, fun _ => ⟨w, hw, ?_⟩⟩
      · rw [hfiles]
        exact (hkeeps _).run h.tidy
      · rw [hfiles]
        exact ((habsorbs uuid w.1.uuid).run h.tidy).trans (h.pending uuid)
      · rw [hfiles]
        exact h.pending _

end

/-! ### Two boards -/

/-- A board with NetworkManager that finds a card. -/
def cardBoot : SeedBoot where
  seed := some (some cardKeys.render)
  accepts name := name.all fun c => c.isAlphanum || c = '-'
  account := true
  networkManager := true
  interfaces := [("eth0".toList, false), ("lo".toList, false)]
  uuid := []

def cardFiles : BoardFiles
  | .hosts => some "127.0.0.1\tlocalhost\n127.0.1.1\tdebian\n".toList
  | .authorizedKeys => some (Authkeys.wholeEntry ++ ['\n'])
  | _ => none

/-- Its service has no other hooks. -/
def cardService : Service (BoardFiles × Unit) (SeedRun × Unit) where
  grow _ b := (b, .finished)
  hooks := [seedHook cardBoot]
  sorted := List.pairwise_singleton _ _
  stamp _ := .finished

/-- The power goes behind the fifth write, and the next boot goes through. -/
def cardRuns : List (SeedRun × Unit) :=
  [(⟨"1c".toList, some 5⟩, ()), (⟨"7e".toList, none⟩, ())]

/-- A board with `dhcpcd`, and a seed of nothing but an address. -/
def dhcpcdBoot : SeedBoot :=
  { cardBoot with
    seed := some (some "static_ip=10.0.0.9/24\n".toList)
    networkManager := false }

def dhcpcdFiles : BoardFiles
  | .dhcpcdConf => some "persistent\n".toList
  | _ => none

/-- Power that goes behind the first line of the stanza leaves it at that: the line that marks the
address as set is there, and no later run adds the address. -/
theorem torn_stanza :
    seedWrites.run dhcpcdBoot.hook (seedWrites.cut dhcpcdBoot.hook 1 dhcpcdFiles) .dhcpcdConf =
      some "persistent\n# boot2deb seed static ip\n".toList ∧
    seedWrites.run dhcpcdBoot.hook dhcpcdFiles .dhcpcdConf =
      some ("persistent\n# boot2deb seed static ip\ninterface eth0\n".toList ++
        "static ip_address=10.0.0.9/24\n".toList) := by
  decide +kernel

end Boot2Deb.FirstBoot
