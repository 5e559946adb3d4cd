import Boot2Deb.Selftest.Expect
import Boot2Deb.Selftest.Runner

/-!
# The runner runs what the layers authored

Every line of a rendered group is read back as the kind and the arguments it was rendered from,
unless they hold a NUL (`calls_render`). What a check then reports is what its kind documents,
unless the shell changes the words of a `driver-bound` or the log and `grep` do not answer for a
`no-dmesg-match` (`checked_iff`).
-/

namespace Boot2Deb.Selftest
open Rust Std

/-! ### What the kinds document -/

namespace System
variable (sys : System)

/-- A path exists, or a name the pattern matches. -/
def Present (w : Word) : Prop := ∃ p, (p = w.text ∨ p ∈ sys.glob w) ∧ sys.pathExists p

/-- The kernel log, where it can be read. -/
def kernelLog : Option Str :=
  if sys.dmesgFile.isEmpty then sys.dmesg else sys.readFile sys.dmesgFile

/-- What an expectation documents, evaluated of the system. -/
def Holds : Expectation → Prop
  | .file path | .devnode path => sys.Present [.quoted sys.root, .plain path]
  | .dtb path => ∃ layout ∈ sys.dtbLayouts path, sys.Present layout
  | .firmware path => ∃ name ∈ sys.firmwareNames path, sys.Present name
  | .driverBound device driver => sys.Present (sys.driverLink device driver)
  | .soundCard name => ∃ text, sys.readFile sys.cards = some text ∧ name <:+: text
  | .noDmesgMatch pattern =>
    ∃ log re, sys.kernelLog = some log ∧ sys.ere pattern = some re ∧ re log = false

end System

/-- The words an expectation is about. -/
def Expectation.words : Expectation → List Str
  | .driverBound device driver => [device, driver]
  | e => [e.args]

/-- One run of a check is the run of the expectation. -/
structure RunsAsAuthored (sys : System) (e : Expectation) (ran : System.Ran) : Prop where
  kind : ran.kind = e.kind
  args : ran.args = e.args
  words : sys.mode = .hardware → ran.words = e.words
  holds : sys.mode = .hardware → ran.report.verdict = .ok → sys.Holds e

/-- The files the groups render to. -/
def install (groups : List ExpectationGroup) : ExtTreeMap Str Str compare :=
  groups.foldl (fun dir g => dir.insert g.fileName g.render) ∅

/-- Every expectation is run once, in the order of its file and as authored, and reported ok only
where what it documents holds. -/
def CheckedAsAuthored (sys : System) (groups : List ExpectationGroup) : Prop :=
  ∃ files, sys.selftest (install groups) = .ok files ∧ (files.map Prod.fst).Nodup ∧
    ∀ g ∈ groups, ∃ runs, (g.fileName, runs) ∈ files ∧
      List.Forall₂ (RunsAsAuthored sys) g.expect runs

/-! ### Where a check answers for its expectation -/

/-- The words of a `driver-bound` come out of `set --` as they were written. -/
def KeepsWords (sys : System) (device driver : Str) : Prop :=
  (sys.expand [.plain device] ++ sys.expand [.plain driver]).take 2 = [device, driver]

/-- The log and `grep` answer for a pattern: `grep` takes it, the log can be read and what the
substitution drops of it hides no match. An unreadable `dmesg` is a skip; an unreadable file is
taken for one empty line. -/
def LogAnswers (sys : System) (pattern : Str) : Prop :=
  match sys.kernelLog with
  | none => sys.dmesgFile = [] ∨ ∃ re, sys.ere pattern = some re ∧ re ['\n'] = true
  | some log => ∃ re, sys.ere pattern = some re ∧
      (re log = true → re (Shell.substituted log ++ ['\n']) = true)

/-- When the runner checks an expectation as authored. -/
def Answers (sys : System) (e : Expectation) : Prop :=
  '\x00' ∉ e.args ∧ (sys.mode = .hardware → match e with
    | .driverBound device driver => KeepsWords sys device driver
    | .noDmesgMatch pattern => LogAnswers sys pattern
    | _ => True)

/-! ### The lines are read back -/

variable {sys : System} {e : Expectation} {g : ExpectationGroup} {groups : List ExpectationGroup}
variable {kind args s : Str} {w : Word} {ws : List Word}

/-- The call of `run_check` an expectation leads to. -/
def Expectation.call (e : Expectation) : Str × Str :=
  (e.kind, (e.args.filter (· ≠ '\x00')).dropWhile Shell.isBlank)

theorem Expectation.kind_plain (e : Expectation) :
    e.kind.all (fun c => !Shell.isBlank c && c != '\x00' && c != '\n' && c != '#') = true ∧
      e.kind ≠ [] := by
  cases e <;> exact ⟨rfl, List.cons_ne_nil _ _⟩

theorem readCheck_padded {n : ℕ} (hne : kind ≠ []) (hhash : '#' ∉ kind)
    (hblank : ∀ c ∈ kind, Shell.isBlank c = false) :
    readCheck (kind ++ List.replicate n ' ' ++ ' ' :: args) =
      some (kind, args.dropWhile Shell.isBlank) := by
  obtain ⟨c, rest, rfl⟩ := List.exists_cons_of_ne_nil hne
  have hc : c ≠ '#' := fun h => hhash (h ▸ List.mem_cons_self)
  have hpad : ∃ m, (c :: rest) ++ List.replicate n ' ' ++ ' ' :: args =
      (c :: rest) ++ (' ' :: (List.replicate m ' ' ++ args)) := by
    refine ⟨n, ?_⟩
    rw [List.append_assoc, ← List.cons_append, ← List.replicate_succ, List.replicate_succ',
      List.append_assoc]
    rfl
  obtain ⟨m, hpad⟩ := hpad
  have htake : ((c :: rest) ++ (' ' :: (List.replicate m ' ' ++ args))).takeWhile
      (!Shell.isBlank ·) = c :: rest := by
    rw [List.takeWhile_append_of_pos fun d hd => by rw [hblank d hd]; rfl,
      List.takeWhile_cons_of_neg (by simp [Shell.isBlank]), List.append_nil]
  have hspaces : ∀ d ∈ List.replicate m ' ', Shell.isBlank d = true := by
    intro d hd
    obtain rfl := List.eq_of_mem_replicate hd
    rfl
  unfold readCheck
  rw [hpad, if_neg (by simpa using hc)]
  simp only [htake]
  rw [List.drop_left, List.dropWhile_cons_of_pos rfl, List.dropWhile_append_of_pos hspaces]

/-- A rendered line is read back. -/
theorem readCheck_render (h : e.validate = .ok ()) :
    readCheck (e.render.filter (· ≠ '\x00')) = some e.call := by
  obtain ⟨hkind, hne⟩ := e.kind_plain
  rw [List.all_eq_true] at hkind
  have hplain : ∀ c ∈ e.kind, Shell.isBlank c = false ∧ c ≠ '\x00' ∧ c ≠ '#' := by
    intro c hc
    have := hkind c hc
    simp only [Bool.and_eq_true, Bool.not_eq_true', bne_iff_ne] at this
    exact ⟨this.1.1.1, this.1.1.2, this.2⟩
  have hspaces : ∀ n, '\x00' ∉ List.replicate n ' ' := by
    intro n hc
    exact absurd (List.eq_of_mem_replicate hc) (by decide)
  have hrender : e.render.filter (· ≠ '\x00') = e.kind ++
      List.replicate (17 - e.kind.length) ' ' ++ ' ' :: e.args.filter (· ≠ '\x00') := by
    unfold Expectation.render
    rw [renderLine_eq (Expectation.onLine_args h), List.filter_append, List.filter_append,
      Shell.filter_nul fun hc => (hplain _ hc).2.1 rfl, Shell.filter_nul (hspaces _),
      List.filter_cons_of_pos (by decide)]
  rw [hrender, readCheck_padded hne (fun hc => (hplain _ hc).2.2 rfl) fun c hc => (hplain c hc).1]
  rfl

theorem newline_not_mem_render (h : e.validate = .ok ()) : '\n' ∉ e.render := by
  unfold Expectation.render
  rw [renderLine_eq (Expectation.onLine_args h)]
  obtain ⟨hkind, -⟩ := e.kind_plain
  rw [List.all_eq_true] at hkind
  intro hc
  rcases List.mem_append.mp hc with hc | hc
  · rcases List.mem_append.mp hc with hc | hc
    · simpa using hkind _ hc
    · exact absurd (List.eq_of_mem_replicate hc) (by decide)
  · rcases List.mem_cons.mp hc with hc | hc
    · exact absurd hc (by decide)
    · exact (Expectation.onLine_args h).newline hc

theorem validate_of_accepted (h : g.Accepted) (he : e ∈ g.expect) : e.validate = .ok () := by
  obtain ⟨raw, hraw⟩ := h.2 e he
  exact ExpectRaw.validate_of_tryFrom hraw

theorem newline_not_mem_name (h : g.Accepted) : '\n' ∉ g.name := by
  intro hc
  rcases Config.BuildPoint.isAlphanum_or_of_mem h.1 hc with h | h | h | h <;> revert h <;> decide

theorem newline_not_mem_header (h : g.Accepted) : ∀ l ∈ g.header, '\n' ∉ l := by
  intro l hl
  unfold ExpectationGroup.header at hl
  rcases List.mem_cons.mp hl with rfl | hl
  · have hscope : '\n' ∉ g.scope.asStr := by cases g.scope <;> decide
    have h1 : '\n' ∉ "# Expectations declared by the ".toList := by decide
    have h2 : '\n' ∉ " layer '".toList := by decide
    have h3 : '\n' ∉ "'.".toList := by decide
    simp only [List.mem_append, not_or]
    exact ⟨⟨⟨⟨h1, hscope⟩, h2⟩, newline_not_mem_name h⟩, h3⟩
  · obtain rfl := List.mem_singleton.mp hl
    decide

theorem readCheck_hash (s : Str) : readCheck (('#' :: s).filter (· ≠ '\x00')) = none := by
  rw [List.filter_cons_of_pos (by decide)]
  rfl

/-- A rendered group is read back, each expectation once and in order. -/
theorem calls_render (h : g.Accepted) : calls g.render = g.expect.map Expectation.call := by
  have hlines : ∀ l ∈ g.header ++ g.expect.map Expectation.render, '\n' ∉ l := by
    intro l hl
    rcases List.mem_append.mp hl with hl | hl
    · exact newline_not_mem_header h l hl
    · obtain ⟨e, he, rfl⟩ := List.mem_map.mp hl
      exact newline_not_mem_render (validate_of_accepted h he)
  have hheader : (g.header.map (·.filter (· ≠ '\x00'))).filterMap readCheck = [] := by
    unfold ExpectationGroup.header
    rw [List.map_cons, List.map_singleton, List.filterMap_cons, List.filterMap_cons,
      List.filterMap_nil]
    rfl
  unfold calls ExpectationGroup.render
  rw [Shell.readLines_unlines_filter hlines, List.map_append, List.filterMap_append, hheader,
    List.nil_append, List.map_map, List.filterMap_map]
  have hread : ∀ e ∈ g.expect,
      (readCheck ∘ (·.filter (· ≠ '\x00')) ∘ Expectation.render) e = some e.call :=
    fun e he => readCheck_render (validate_of_accepted h he)
  rw [List.filterMap_congr hread]
  exact List.filterMap_eq_map' (f := Expectation.call) ▸ rfl

/-! ### The checks -/

theorem mem_expand {p : Str} (h : p ∈ sys.expand w) : p = w.text ∨ p ∈ sys.glob w := by
  unfold System.expand at h
  split_ifs at h
  · exact Or.inl (List.mem_singleton.mp h)
  · split at h
    · exact Or.inl (List.mem_singleton.mp h)
    · exact Or.inr h

theorem present_of_anyPath (h : sys.anyPath ws = true) : ∃ w ∈ ws, sys.Present w := by
  obtain ⟨p, hp, hexists⟩ := List.any_eq_true.mp h
  obtain ⟨w, hw, hp⟩ := List.mem_flatMap.mp hp
  exact ⟨w, hw, p, mem_expand hp, hexists⟩

theorem IsWord.not_separator (h : IsWord s) : ∀ c ∈ s, (Shell.isBlank c || c = '\n') = false := by
  intro c hc
  have hsolid := h.solid c hc
  rw [Bool.or_eq_false_iff]
  refine ⟨Bool.eq_false_iff.mpr fun hb => ?_, decide_eq_false fun hn => ?_⟩
  · rw [Shell.isWhitespace_of_isBlank hb] at hsolid
    cases hsolid
  · rw [hn] at hsolid
    cases hsolid

theorem fields_of_isWord (h : IsWord s) : Shell.fields s = [s] :=
  Shell.fields_word h.ne_nil h.not_separator

theorem rooted_of_isWord (h : IsWord s) : sys.rooted s = [[.quoted sys.root, .plain s]] := by
  unfold System.rooted
  rw [fields_of_isWord h]
  rfl

theorem setWords_two {device driver : Str} (hdevice : IsWord device) (hdriver : IsWord driver) :
    sys.setWords (device ++ ' ' :: driver) =
      sys.expand [.plain device] ++ sys.expand [.plain driver] := by
  unfold System.setWords
  rw [Shell.fields_append_cons hdevice.ne_nil hdevice.not_separator rfl, fields_of_isWord hdriver,
    List.flatMap_cons, List.flatMap_singleton]

theorem expand_ne_nil : sys.expand w ≠ [] := by
  unfold System.expand
  split_ifs
  · exact List.cons_ne_nil _ _
  · split
    · exact List.cons_ne_nil _ _
    · rename_i hne
      exact hne

theorem dropWhile_isBlank (h : OnLine s) : s.dropWhile Shell.isBlank = s := by
  have hpre : s <+: trimStart s := by
    have := List.rdropWhile_prefix isWhitespace (trimStart s)
    rwa [show (trimStart s).rdropWhile isWhitespace = s from h.trimmed] at this
  have hstart : trimStart s = s :=
    (List.dropWhile_suffix isWhitespace).sublist.antisymm hpre.sublist
  obtain ⟨c, rest, rfl⟩ := List.exists_cons_of_ne_nil h.ne_nil
  refine List.dropWhile_cons_of_neg fun hb => ?_
  have hlen := congrArg List.length hstart
  unfold trimStart at hlen
  rw [List.dropWhile_cons_of_pos (Shell.isWhitespace_of_isBlank hb)] at hlen
  have := (List.dropWhile_suffix (l := rest) isWhitespace).length_le
  rw [List.length_cons] at hlen
  omega

theorem call_eq (h : e.validate = .ok ()) (hnul : '\x00' ∉ e.args) : e.call = (e.kind, e.args) := by
  unfold Expectation.call
  rw [Shell.filter_nul hnul, dropWhile_isBlank (Expectation.onLine_args h)]

/-- A NUL does not reach the check. -/
theorem call_args_ne (hnul : '\x00' ∈ e.args) : e.call.2 ≠ e.args := by
  intro heq
  have hmem : '\x00' ∈ e.call.2 := heq ▸ hnul
  have := (List.mem_filter.mp ((List.dropWhile_suffix _).mem hmem)).2
  simp at this

/-- The check of an expectation. -/
def System.checkOf (sys : System) : Expectation → Outcome ShellError Report
  | .file path => .ok (sys.checkFile path)
  | .dtb path => .ok (sys.checkDtb path)
  | .firmware path => .ok (sys.checkFirmware path)
  | .driverBound device driver => sys.checkDriverBound (device ++ ' ' :: driver)
  | .devnode path => .ok (sys.checkDevnode path)
  | .soundCard name => .ok (sys.checkSoundCard name)
  | .noDmesgMatch pattern => .ok (sys.checkNoDmesgMatch pattern)

theorem runCheck_eq (h : e.args ≠ []) : sys.runCheck e.kind e.args = sys.checkOf e := by
  have hargs : ¬e.args.isEmpty = true := by simpa using h
  unfold System.runCheck
  rw [if_neg fun hc => hargs hc.2]
  generalize hkind : String.ofList e.kind = kind
  cases e <;> obtain rfl := hkind.symm.trans String.ofList_toList <;> rfl

/-- What a run of a check is, where its arguments reach it. -/
theorem exists_ran_iff (h : e.validate = .ok ()) (hnul : '\x00' ∉ e.args) :
    (∃ ran, sys.ran e.call = .ok ran ∧ RunsAsAuthored sys e ran) ↔
      ∃ report, sys.checkOf e = .ok report ∧ (sys.mode = .hardware →
        sys.examined e.kind e.args = e.words ∧ (report.verdict = .ok → sys.Holds e)) := by
  rw [call_eq h hnul]
  constructor
  · rintro ⟨ran, hran, hauth⟩
    obtain ⟨report, hreport, hran⟩ := Outcome.bind_eq_ok.mp hran
    rw [runCheck_eq (Expectation.onLine_args h).ne_nil] at hreport
    obtain rfl := Outcome.ok.inj hran
    exact ⟨report, hreport, fun hm => ⟨hauth.words hm, hauth.holds hm⟩⟩
  · rintro ⟨report, hreport, hauth⟩
    refine ⟨⟨e.kind, e.args, sys.examined e.kind e.args, report⟩, ?_, rfl, rfl,
      fun hm => (hauth hm).1, fun hm => (hauth hm).2⟩
    unfold System.ran
    rw [runCheck_eq (Expectation.onLine_args h).ne_nil, hreport]
    rfl

theorem examined_eq (h : e.kind ≠ "driver-bound".toList) :
    sys.examined e.kind e.args = [e.args] := by
  unfold System.examined
  rw [if_neg fun hc => h hc.1]

/-- A check that does not look at the words of a `driver-bound` or at the log answers. -/
theorem plain_answers {report : Report} (hreport : sys.checkOf e = .ok report)
    (hkind : e.kind ≠ "driver-bound".toList) (hwords : e.words = [e.args])
    (hholds : sys.mode = .hardware → report.verdict = .ok → sys.Holds e) :
    ∃ report, sys.checkOf e = .ok report ∧ (sys.mode = .hardware →
      sys.examined e.kind e.args = e.words ∧ (report.verdict = .ok → sys.Holds e)) :=
  ⟨report, hreport, fun hm => ⟨(examined_eq hkind).trans hwords.symm, hholds hm⟩⟩

theorem checkFile_holds {path : Str} (hw : IsWord path) (h : (sys.checkFile path).verdict = .ok) :
    sys.Present [.quoted sys.root, .plain path] := by
  unfold System.checkFile at h
  split_ifs at h with hany
  rw [rooted_of_isWord hw] at hany
  obtain ⟨w, hmem, hpresent⟩ := present_of_anyPath hany
  exact List.mem_singleton.mp hmem ▸ hpresent

theorem checkDevnode_holds {path : Str} (hw : IsWord path) (hm : sys.mode = .hardware)
    (h : (sys.checkDevnode path).verdict = .ok) :
    sys.Present [.quoted sys.root, .plain path] := by
  unfold System.checkDevnode at h
  simp only [hm] at h
  split_ifs at h with hany
  rw [rooted_of_isWord hw] at hany
  obtain ⟨w, hmem, hpresent⟩ := present_of_anyPath hany
  exact List.mem_singleton.mp hmem ▸ hpresent

theorem checkSoundCard_holds {name : Str} (hm : sys.mode = .hardware)
    (h : (sys.checkSoundCard name).verdict = .ok) : sys.Holds (.soundCard name) := by
  unfold System.checkSoundCard at h
  simp only [hm] at h
  cases hcards : sys.readFile sys.cards with
  | none =>
    rw [hcards] at h
    cases h
  | some text =>
    rw [hcards] at h
    dsimp only at h
    split_ifs at h with hin
    exact ⟨text, hcards, hin⟩

/-- The words `set --` leaves of a `driver-bound` on the board. -/
theorem exists_setWords {device driver : Str} (hdevice : IsWord device) (hdriver : IsWord driver) :
    ∃ d v rest, sys.setWords (device ++ ' ' :: driver) = d :: v :: rest := by
  rw [setWords_two hdevice hdriver]
  obtain ⟨d, ds, hd⟩ := List.exists_cons_of_ne_nil (@expand_ne_nil sys [.plain device])
  obtain ⟨v, vs, hv⟩ := List.exists_cons_of_ne_nil (@expand_ne_nil sys [.plain driver])
  rw [hd, hv]
  cases ds with
  | nil => exact ⟨d, v, vs, rfl⟩
  | cons x ds => exact ⟨d, x, ds ++ v :: vs, rfl⟩

/-- A `driver-bound` is checked as authored where its words come out as they were written. -/
theorem driverBound_answers_iff {device driver : Str} (hdevice : IsWord device)
    (hdriver : IsWord driver) (hm : sys.mode = .hardware) :
    (∃ report, sys.checkDriverBound (device ++ ' ' :: driver) = .ok report ∧
      (sys.setWords (device ++ ' ' :: driver)).take 2 = [device, driver] ∧
        (report.verdict = .ok → sys.Present (sys.driverLink device driver))) ↔
      KeepsWords sys device driver := by
  obtain ⟨d, v, rest, hset⟩ := @exists_setWords sys _ _ hdevice hdriver
  have hkeeps : KeepsWords sys device driver ↔ [d, v] = [device, driver] := by
    unfold KeepsWords
    rw [← setWords_two hdevice hdriver, hset]
    rfl
  rw [hkeeps, hset]
  constructor
  · rintro ⟨_, -, hwords, -⟩
    exact hwords
  · intro hwords
    obtain ⟨rfl, hv⟩ := List.cons.inj hwords
    obtain ⟨rfl, -⟩ := List.cons.inj hv
    unfold System.checkDriverBound
    rw [hset]
    simp only [hm]
    refine ⟨_, rfl, rfl, fun hok => ?_⟩
    split_ifs at hok with hany
    obtain ⟨w, hmem, hpresent⟩ := present_of_anyPath hany
    exact List.mem_singleton.mp hmem ▸ hpresent

theorem grep_eq_true {re : Option (Str → Bool)} {text : Str} :
    System.grep re text = true ↔ ∃ f, re = some f ∧ f text = true := by
  cases re <;> simp [System.grep]

/-- A `no-dmesg-match` is reported ok only rightly where the log and `grep` answer. -/
theorem noDmesgMatch_answers_iff {pattern : Str} (hm : sys.mode = .hardware) :
    ((sys.checkNoDmesgMatch pattern).verdict = .ok → sys.Holds (.noDmesgMatch pattern)) ↔
      LogAnswers sys pattern := by
  have hverdict : ∀ log, sys.log = some log → ((sys.checkNoDmesgMatch pattern).verdict = .ok ↔
      System.grep (sys.ere pattern) (log ++ ['\n']) = false) := by
    intro log hlog
    unfold System.checkNoDmesgMatch
    simp only [hm, hlog]
    split_ifs with hgrep
    · simp [hgrep]
    · simpa using hgrep
  unfold LogAnswers System.Holds
  cases hk : sys.kernelLog with
  | none =>
    have hnot : ¬∃ log re, (none : Option Str) = some log ∧ sys.ere pattern = some re ∧
        re log = false := fun ⟨_, _, h, _⟩ => nomatch h
    simp only [hnot, imp_false]
    unfold System.kernelLog at hk
    by_cases hfile : sys.dmesgFile = []
    · rw [if_pos (by simpa using hfile)] at hk
      refine iff_of_true ?_ (Or.inl hfile)
      unfold System.checkNoDmesgMatch System.log
      rw [if_pos (by simpa using hfile), hk]
      simp [hm]
    · have hempty : ¬sys.dmesgFile.isEmpty = true := by simpa using hfile
      rw [if_neg hempty] at hk
      have hlog : sys.log = some [] := by
        unfold System.log
        rw [if_neg hempty, hk]
        rfl
      rw [hverdict [] hlog, Bool.not_eq_false, grep_eq_true, List.nil_append,
        or_iff_right hfile]
  | some log =>
    have hlog : sys.log = some (Shell.substituted log) := by
      unfold System.kernelLog at hk
      unfold System.log
      split_ifs at hk ⊢
      · rw [hk]
        rfl
      · rw [hk]
        rfl
    rw [hverdict _ hlog]
    cases hre : sys.ere pattern with
    | none => simp [System.grep, hre]
    | some re =>
      simp only [System.grep, Option.any_some, Option.some.injEq, exists_eq_left', hre]
      cases hin : re log with
      | false => simp [hin]
      | true => simp [hin]

/-- When the run of one expectation is as authored. -/
theorem exists_ran_iff_answers (h : e.validate = .ok ()) :
    (∃ ran, sys.ran e.call = .ok ran ∧ RunsAsAuthored sys e ran) ↔ Answers sys e := by
  by_cases hnul : '\x00' ∈ e.args
  · refine iff_of_false ?_ fun hans => hans.1 hnul
    rintro ⟨ran, hran, hauth⟩
    obtain ⟨report, -, hran⟩ := Outcome.bind_eq_ok.mp hran
    obtain rfl := Outcome.ok.inj hran
    exact call_args_ne hnul hauth.args
  rw [exists_ran_iff h hnul]
  unfold Answers
  rw [and_iff_right hnul]
  cases e with
  | file path =>
    refine iff_of_true (plain_answers rfl (show "file".toList ≠ _ by decide) rfl fun _ => ?_) fun _ => trivial
    exact checkFile_holds (Expectation.isWord_of_path h (Or.inl rfl))
  | dtb path =>
    refine iff_of_true (plain_answers rfl (show "dtb".toList ≠ _ by decide) rfl fun _ hok => ?_) fun _ => trivial
    unfold System.checkDtb at hok
    split_ifs at hok with hany
    exact present_of_anyPath hany
  | firmware path =>
    refine iff_of_true (plain_answers rfl (show "firmware".toList ≠ _ by decide) rfl fun _ hok => ?_) fun _ => trivial
    unfold System.checkFirmware at hok
    split_ifs at hok with hany
    exact present_of_anyPath hany
  | driverBound device driver =>
    obtain ⟨hdevice, hdriver⟩ := Expectation.isWord_of_driverBound h
    cases hm : sys.mode with
    | userland =>
      have hna : sys.checkOf (.driverBound device driver) =
          .ok ⟨.na, "driver-bound".toList, device ++ ' ' :: driver, []⟩ := by
        unfold System.checkOf System.checkDriverBound
        rw [hm]
      exact iff_of_true ⟨_, hna, fun h => nomatch h⟩ fun h => nomatch h
    | hardware =>
      simp only [true_implies]
      rw [← driverBound_answers_iff hdevice hdriver hm]
      unfold System.examined
      rw [if_pos ⟨rfl, hm⟩]
      rfl
  | devnode path =>
    refine iff_of_true (plain_answers rfl (show "devnode".toList ≠ _ by decide) rfl fun hm => ?_) fun _ => trivial
    exact checkDevnode_holds
      (Expectation.isWord_of_path h (Or.inr (Or.inr (Or.inr rfl)))) hm
  | soundCard name =>
    refine iff_of_true (plain_answers rfl (show "sound-card".toList ≠ _ by decide) rfl fun hm => ?_) fun _ => trivial
    exact checkSoundCard_holds hm
  | noDmesgMatch pattern =>
    constructor
    · rintro ⟨report, hreport, hauth⟩ hm
      obtain rfl := Outcome.ok.inj hreport
      exact (noDmesgMatch_answers_iff hm).mp (hauth hm).2
    · intro hans
      exact plain_answers rfl (show "no-dmesg-match".toList ≠ _ by decide) rfl fun hm =>
        (noDmesgMatch_answers_iff hm).mpr (hans hm)

/-! ### The files -/

/-- The first two letters tell the scopes apart. -/
theorem asStr_append_inj {a b : ExpectScope} {x y : Str}
    (h : a.asStr ++ '-' :: x = b.asStr ++ '-' :: y) : a = b ∧ x = y := by
  have hlen : ∀ scope : ExpectScope, 2 ≤ scope.asStr.length := by
    intro scope
    cases scope <;> decide
  have htake := congrArg (List.take 2) h
  rw [List.take_append_of_le_length (hlen a), List.take_append_of_le_length (hlen b)] at htake
  have hscope : a = b := by
    cases a <;> cases b <;> first | rfl | exact absurd htake (by decide)
  subst hscope
  exact ⟨rfl, (List.cons.inj (List.append_cancel_left h)).2⟩

/-- Groups of distinct layers have files of their own. -/
theorem fileName_inj {g g' : ExpectationGroup} (h : g.fileName = g'.fileName) :
    (g.scope, g.name) = (g'.scope, g'.name) := by
  obtain ⟨hscope, hname⟩ := asStr_append_inj (List.append_cancel_right h)
  rw [hscope, hname]

theorem nodup_fileName (h : (groups.map fun g => (g.scope, g.name)).Nodup) :
    (groups.map ExpectationGroup.fileName).Nodup := by
  unfold List.Nodup at h ⊢
  rw [List.pairwise_map] at h ⊢
  exact h.imp fun hne heq => hne (fileName_inj heq)

/-- A file of the directory is the rendering of one group. -/
theorem install_eq_some (h : (groups.map fun g => (g.scope, g.name)).Nodup) {name text : Str} :
    (install groups)[name]? = some text ↔ ∃ g ∈ groups, g.fileName = name ∧ g.render = text := by
  have hrev : (groups.reverse.map ExpectationGroup.fileName).Nodup :=
    ((groups.reverse_perm.map _).nodup_iff).mpr (nodup_fileName h)
  unfold install
  rw [@getElem?_foldl_insert_map _ _ _ _ _ _ _ ExpectationGroup.fileName ExpectationGroup.render,
    ExtTreeMap.getElem?_empty, Option.or_none, Option.map_eq_some_iff]
  refine exists_congr fun g => ?_
  rw [firstWith_eq_some_iff hrev, List.mem_reverse, and_assoc]

theorem isChecks_fileName (g : ExpectationGroup) : System.isChecks g.fileName = true := by
  unfold System.isChecks
  rw [Bool.and_eq_true]
  refine ⟨decide_eq_true (List.suffix_append _ _), ?_⟩
  have hhead : g.fileName.head? = g.scope.asStr.head? := by
    unfold ExpectationGroup.fileName
    cases g.scope <;> rfl
  rw [hhead]
  cases g.scope <;> rfl

/-- The files the loop takes up. -/
theorem mem_taken (h : (groups.map fun g => (g.scope, g.name)).Nodup) {file : Str × Str} :
    file ∈ (install groups).toList.filter (fun file => System.isChecks file.1) ↔
      ∃ g ∈ groups, (g.fileName, g.render) = file := by
  rw [List.mem_filter, ExtTreeMap.mem_toList_iff_getElem?_eq_some, install_eq_some h]
  constructor
  · rintro ⟨⟨g, hg, hname, htext⟩, -⟩
    exact ⟨g, hg, Prod.ext hname htext⟩
  · rintro ⟨g, hg, rfl⟩
    exact ⟨⟨g, hg, rfl, rfl⟩, isChecks_fileName g⟩

theorem nodup_selftest {dir : ExtTreeMap Str Str compare} {files : List (Str × List System.Ran)}
    (h : sys.selftest dir = .ok files) : (files.map Prod.fst).Nodup := by
  have hnames : List.Forall₂ (fun (file : Str × Str) (run : Str × List System.Ran) =>
      file.1 = run.1) (dir.toList.filter fun file => System.isChecks file.1) files := by
    refine (Outcome.forall₂_of_mapM h).imp fun file run hrun => ?_
    obtain ⟨runs, -, hrun⟩ := Outcome.bind_eq_ok.mp hrun
    rw [← Outcome.ok.inj hrun]
  have heq : (dir.toList.filter fun file => System.isChecks file.1).map Prod.fst =
      files.map Prod.fst := by
    rw [← List.forall₂_eq_eq_eq, List.forall₂_map_left_iff, List.forall₂_map_right_iff]
    exact hnames
  have hkeys : (dir.toList.map Prod.fst).Nodup := by
    unfold List.Nodup
    rw [List.pairwise_map]
    exact dir.distinct_keys_toList.imp fun hne heq => hne (by rw [heq]; exact ReflCmp.compare_self)
  rw [← heq]
  exact (List.filter_sublist.map Prod.fst).nodup hkeys

/-- The runs of a group's file. -/
theorem runFile_answers (hacc : g.Accepted) :
    (∃ runs, sys.runFile g.render = .ok runs ∧
      List.Forall₂ (RunsAsAuthored sys) g.expect runs) ↔ ∀ e ∈ g.expect, Answers sys e := by
  have hmap : sys.runFile g.render = Outcome.mapM (fun e => sys.ran e.call) g.expect := by
    unfold System.runFile
    rw [calls_render hacc]
    induction g.expect with
    | nil => rfl
    | cons e es ih => rw [List.map_cons, Outcome.mapM, Outcome.mapM, ih]
  rw [hmap, Outcome.exists_mapM_forall₂]
  exact forall₂_congr fun e he => exists_ran_iff_answers (validate_of_accepted hacc he)

theorem answers_of_checked (hacc : ∀ g ∈ groups, g.Accepted)
    (hlayers : (groups.map fun g => (g.scope, g.name)).Nodup) (h : CheckedAsAuthored sys groups) :
    ∀ g ∈ groups, ∀ e ∈ g.expect, Answers sys e := by
  obtain ⟨files, hfiles, -, hruns⟩ := h
  intro g hg
  obtain ⟨runs, hmem, hauth⟩ := hruns g hg
  obtain ⟨file, hfile, hrun⟩ := (Outcome.mapM_eq_ok hfiles).2 _ hmem
  obtain ⟨g', hg', rfl⟩ := (mem_taken hlayers).mp hfile
  obtain ⟨runs', hrun', hok⟩ := Outcome.bind_eq_ok.mp hrun
  obtain ⟨hname, rfl⟩ := Prod.mk.inj (Outcome.ok.inj hok)
  obtain rfl := List.inj_on_of_nodup_map (nodup_fileName hlayers) hg' hg hname
  exact (runFile_answers (hacc g' hg')).mp ⟨runs', hrun', hauth⟩

theorem checked_of_answers (hacc : ∀ g ∈ groups, g.Accepted)
    (hlayers : (groups.map fun g => (g.scope, g.name)).Nodup)
    (h : ∀ g ∈ groups, ∀ e ∈ g.expect, Answers sys e) : CheckedAsAuthored sys groups := by
  have hruns : ∀ file ∈ (install groups).toList.filter (fun file => System.isChecks file.1),
      ∃ run, (do .ok (file.1, ← sys.runFile file.2)) = Outcome.ok run ∧ True := by
    intro file hfile
    obtain ⟨g, hg, rfl⟩ := (mem_taken hlayers).mp hfile
    obtain ⟨runs, hok, -⟩ := (runFile_answers (hacc g hg)).mpr (h g hg)
    exact ⟨(g.fileName, runs), by rw [hok]; rfl, trivial⟩
  obtain ⟨files, hfiles, -⟩ := Outcome.exists_mapM_forall₂.mpr hruns
  refine ⟨files, hfiles, nodup_selftest hfiles, fun g hg => ?_⟩
  obtain ⟨runs, hok, hauth⟩ := (runFile_answers (hacc g hg)).mpr (h g hg)
  obtain ⟨run, hrun, hrun'⟩ :=
    (Outcome.mapM_eq_ok hfiles).1 _ ((mem_taken hlayers).mpr ⟨g, hg, rfl⟩)
  rw [hok] at hrun'
  obtain rfl := Outcome.ok.inj hrun'
  exact ⟨runs, hrun, hauth⟩

/-- **The board runs what the layers authored.** Every expectation of the groups is run once, in
order and as authored, and reported ok only where what it documents was evaluated and holds, exactly
where the runner answers for each of them. -/
theorem checkedAsAuthored_iff (sys : System) (groups : List ExpectationGroup)
    (hacc : ∀ g ∈ groups, g.Accepted)
    (hlayers : (groups.map fun g => (g.scope, g.name)).Nodup) :
    CheckedAsAuthored sys groups ↔ ∀ g ∈ groups, ∀ e ∈ g.expect, Answers sys e :=
  ⟨answers_of_checked hacc hlayers, checked_of_answers hacc hlayers⟩

/-- A board whose `grep` refuses an open bracket, with one line in its log. -/
def plainBoard : System where
  mode := .hardware
  root := []
  unamer := "7.1.6-1-arm64".toList
  dmesgFile := []
  glob _ := []
  pathExists _ := true
  isDir _ := true
  readFile _ := none
  dmesg := some "usb 1-1: new device\n".toList
  ere pattern := if pattern = ['('] then none else some fun text => decide (pattern <:+: text)
  bre _ := none
  lister := none

/-- What the SoC layer has to say about the log. -/
def socGroup (pattern : Str) : ExpectationGroup :=
  ⟨.soc, "rk3588".toList, [.noDmesgMatch pattern]⟩

theorem accepted_socGroup {pattern : Str}
    (h : (⟨"no-dmesg-match", none, none, none, none, some pattern⟩ : ExpectRaw).tryFrom =
      .ok (.noDmesgMatch pattern)) : (socGroup pattern).Accepted :=
  ⟨rfl, fun _ he => ⟨_, List.mem_singleton.mp he ▸ h⟩⟩

/-- A log a pattern is not found in is reported ok. -/
theorem checkedAsAuthored_serror : CheckedAsAuthored plainBoard [socGroup "SError".toList] := by
  have hacc : (socGroup "SError".toList).Accepted := accepted_socGroup (by decide)
  refine (checkedAsAuthored_iff _ _ (List.forall_mem_singleton.mpr hacc) (by decide)).mpr ?_
  refine List.forall_mem_singleton.mpr (List.forall_mem_singleton.mpr ⟨by decide, fun _ => ?_⟩)
  exact ⟨_, rfl, by decide⟩

/-- A pattern `grep` refuses is reported ok. -/
theorem refused_pattern_is_ok :
    ¬∀ (sys : System) (groups : List ExpectationGroup), (∀ g ∈ groups, g.Accepted) →
      (groups.map fun g => (g.scope, g.name)).Nodup → CheckedAsAuthored sys groups := by
  intro h
  have hacc : (socGroup ['(']).Accepted := accepted_socGroup (by decide)
  have hall := List.forall_mem_singleton.mpr hacc
  have hans := answers_of_checked hall (by decide) (h plainBoard [socGroup ['(']] hall (by decide))
  obtain ⟨re, hre, -⟩ :=
    (hans _ List.mem_cons_self (.noDmesgMatch ['(']) List.mem_cons_self).2 rfl
  cases hre

end Boot2Deb.Selftest
