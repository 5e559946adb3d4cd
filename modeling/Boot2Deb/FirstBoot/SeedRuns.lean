import Boot2Deb.FirstBoot.SeedHook

/-!
# The seed over boots that ended early

The hook is run from its start on every boot until one comes to its end, and the power may go behind
any of its writes. Its first whole run leaves what it would have left at once
(`seed_applied`): the name is set, every key is added once behind those that were there, and the
connection has its profile. `dhcpcd.conf` alone can be left by halves for good (`torn_stanza`).
-/

namespace Boot2Deb.FirstBoot
open Rust Shell Press
open Resume (Within Keeps Absorbs Intact)

variable {boot : SeedBoot} {vars : SeedVars} {keys : SeedKeys} {files old new : BoardFiles}
  {name key text file : Str} {names have_ : List Str} {f : BoardFile} {body : List Str} {n : ℕ}

/-! ### `/etc/hosts` -/

theorem dropSuffix_concat (s : Str) : dropSuffix (s ++ ['\n']) ['\n'] = s := by
  unfold dropSuffix
  rw [stripSuffix_concat]
  rfl

theorem dropSuffix_of_not_mem (h : '\n' ∉ text) : dropSuffix text ['\n'] = text := by
  unfold dropSuffix
  rw [stripSuffix_eq_none fun hsuffix => h (hsuffix.subset (List.mem_singleton_self _))]
  rfl

theorem isAlias_aliasLine (name : Str) : isAlias (aliasLine name) = true := by
  unfold isAlias aliasLine
  have hstrip : stripPrefix ("127.0.1.1\t".toList ++ name) "127.0.1.1".toList = some ('\t' :: name) :=
    stripPrefix_eq_some.mpr rfl
  rw [hstrip]
  rfl

theorem newline_not_mem_aliasLine (h : '\n' ∉ name) : '\n' ∉ aliasLine name := by
  unfold aliasLine
  rw [List.mem_append, not_or]
  exact ⟨by decide, h⟩

theorem rewriteLine_ended {line : Str} (h : '\n' ∉ name) (hline : Ended line) :
    Ended (rewriteLine name line) := by
  obtain ⟨body, hbody, rfl⟩ := hline
  unfold rewriteLine
  split_ifs with halias hlast
  · exact ⟨aliasLine name, newline_not_mem_aliasLine h, rfl⟩
  · exact absurd List.getLast?_concat hlast
  · exact ⟨body, hbody, rfl⟩

theorem rewriteLine_last {line : Str} (hline : '\n' ∉ line) :
    rewriteLine name line = if isAlias line then aliasLine name else line := by
  unfold rewriteLine
  rw [dropSuffix_of_not_mem hline]
  split_ifs with halias hlast
  · exact absurd (List.mem_of_getLast? hlast) hline
  · exact List.append_nil _
  · rfl

theorem rawLines_rewriteHosts (h : '\n' ∉ name) (text : Str) :
    rawLines (rewriteHosts name text) = (rawLines text).map (rewriteLine name) := by
  unfold rewriteHosts
  induction text using lines_induction with
  | nil => rfl
  | last s hne hnot =>
    rw [rawLines_of_not_mem hne hnot, List.flatMap_singleton, List.map_singleton,
      rewriteLine_last hnot]
    split_ifs
    · refine rawLines_of_not_mem ?_ (newline_not_mem_aliasLine h)
      exact List.append_ne_nil_of_left_ne_nil (by decide) _
    · exact rawLines_of_not_mem hne hnot
  | ended l s hl ih =>
    rw [rawLines_ended hl, List.flatMap_cons, List.map_cons, rawLines_ended (rewriteLine_ended h hl),
      ih]

theorem rewriteLine_rewriteLine (h : '\n' ∉ name) {line : Str} (hline : IsRaw line) :
    rewriteLine name (rewriteLine name line) = rewriteLine name line := by
  obtain ⟨body, hbody, rfl | ⟨rfl, hne⟩⟩ := hline
  · by_cases halias : isAlias body = true
    · have hfirst : rewriteLine name (body ++ ['\n']) = aliasLine name ++ ['\n'] := by
        unfold rewriteLine
        rw [dropSuffix_concat, if_pos halias, if_pos List.getLast?_concat]
      rw [hfirst]
      unfold rewriteLine
      rw [dropSuffix_concat, if_pos (isAlias_aliasLine name), if_pos List.getLast?_concat]
    · have hfirst : rewriteLine name (body ++ ['\n']) = body ++ ['\n'] := by
        unfold rewriteLine
        rw [dropSuffix_concat, if_neg halias]
      rw [hfirst, hfirst]
  · rw [rewriteLine_last hbody]
    split_ifs with halias
    · rw [rewriteLine_last (newline_not_mem_aliasLine h), if_pos (isAlias_aliasLine name)]
    · rw [rewriteLine_last hbody, if_neg halias]

/-- A second time changes nothing. -/
theorem rewriteHosts_rewriteHosts (h : '\n' ∉ name) (text : Str) :
    rewriteHosts name (rewriteHosts name text) = rewriteHosts name text := by
  have hlines : rewriteHosts name (rewriteHosts name text) =
      (rawLines (rewriteHosts name text)).flatMap (rewriteLine name) := rfl
  rw [hlines, rawLines_rewriteHosts h, List.flatMap_map]
  unfold rewriteHosts
  rw [List.flatMap_def, List.flatMap_def]
  refine congrArg _ (List.map_congr_left fun line hline => ?_)
  exact rewriteLine_rewriteLine h (isRaw_of_mem hline)

/-! ### Keys -/

theorem grepLines_append (hfile : Closed file) (hkey : '\n' ∉ key) :
    grepLines (file ++ (key ++ ['\n'])) = grepLines file ++ [key] := by
  unfold grepLines
  have hraw : rawLines (key ++ ['\n']) = [key ++ ['\n']] := by
    have hended := rawLines_ended ⟨key, hkey, rfl⟩ []
    rwa [List.append_nil] at hended
  rw [rawLines_append hfile, List.map_append, hraw, List.map_singleton, dropSuffix_concat]

/-- The keys that are not there yet, each once. -/
def missing : List Str → List Str → List Str
  | _, [] => []
  | have_, key :: keys =>
    if key.isEmpty || have_.contains key then missing have_ keys
    else key :: missing (have_ ++ [key]) keys

theorem missing_cons_of_mem (h : key = [] ∨ key ∈ have_) :
    missing have_ (key :: names) = missing have_ names := by
  rw [missing, if_pos (by simpa using h)]

theorem missing_cons_of_not_mem (hne : key ≠ []) (h : key ∉ have_) :
    missing have_ (key :: names) = key :: missing (have_ ++ [key]) names := by
  rw [missing, if_neg (by simp [hne, h])]

theorem mem_of_mem_missing (h : key ∈ missing have_ names) : key ∈ names := by
  induction names generalizing have_ with
  | nil => cases h
  | cons first names ih =>
    unfold missing at h
    split_ifs at h
    · exact List.mem_cons_of_mem _ (ih h)
    · rcases List.mem_cons.mp h with rfl | h
      · exact List.mem_cons_self
      · exact List.mem_cons_of_mem _ (ih h)

/-- Where some of them were added, the others are left. -/
theorem missing_resume (n : ℕ) : missing (have_ ++ (missing have_ names).take n) names =
    (missing have_ names).drop n := by
  induction names generalizing have_ n with
  | nil => simp [missing]
  | cons key names ih =>
    by_cases h : key = [] ∨ key ∈ have_
    · rw [missing_cons_of_mem h, missing_cons_of_mem (h.imp_right (List.mem_append_left _)), ih]
    · obtain ⟨hne, hmem⟩ := not_or.mp h
      rw [missing_cons_of_not_mem hne hmem]
      cases n with
      | zero => rw [List.take_zero, List.append_nil, missing_cons_of_not_mem hne hmem, List.drop_zero]
      | succ n =>
        have hthere : key = [] ∨ key ∈ have_ ++ key :: (missing (have_ ++ [key]) names).take n :=
          .inr (List.mem_append_right _ List.mem_cons_self)
        rw [List.take_succ_cons, missing_cons_of_mem hthere, List.append_cons, ih,
          List.drop_succ_cons]

/-- They are the keys in their order, without repetition, less those that are there. -/
theorem missing_eq (h : [] ∉ names) :
    missing have_ names = (firsts id names).filter (· ∉ have_) := by
  induction names generalizing have_ with
  | nil => rfl
  | cons key names ih =>
    obtain ⟨hne, hnames⟩ := not_or.mp (List.mem_cons.not.mp h)
    rw [firsts]
    by_cases hmem : key ∈ have_
    · rw [missing_cons_of_mem (.inr hmem), ih hnames, List.filter_cons_of_neg (by simpa using hmem),
        List.filter_filter]
      refine List.filter_congr fun k _ => ?_
      by_cases hk : k = key
      · simp [hk, hmem]
      · simp [hk]
    · rw [missing_cons_of_not_mem (Ne.symm hne) hmem, ih hnames,
        List.filter_cons_of_pos (by simpa using hmem), List.filter_filter]
      refine congrArg _ (List.filter_congr fun k _ => ?_)
      simp [List.mem_append, not_or]

theorem keyWrites_eq (hfile : Closed file) (hnames : ∀ k ∈ names, '\n' ∉ k) :
    SeedBoot.keyWrites file names =
      (missing (grepLines file) names).map fun k => .append .authorizedKeys (k ++ ['\n']) := by
  induction names generalizing file with
  | nil => rfl
  | cons key names ih =>
    obtain ⟨hkey, hnames⟩ := List.forall_mem_cons.mp hnames
    unfold SeedBoot.keyWrites missing hasLine
    split_ifs
    · exact ih hfile hnames
    · rw [List.map_cons, ← grepLines_append hfile hkey,
        ih (hfile.append (closed_concat _)) hnames]

theorem grepLines_unlines (hfile : Closed file) (hnames : ∀ k ∈ names, '\n' ∉ k) :
    grepLines (file ++ unlines names) = grepLines file ++ names := by
  induction names generalizing file with
  | nil => rw [unlines_nil, List.append_nil, List.append_nil]
  | cons key names ih =>
    obtain ⟨hkey, hnames⟩ := List.forall_mem_cons.mp hnames
    have hcons : file ++ unlines (key :: names) = (file ++ (key ++ ['\n'])) ++ unlines names := by
      rw [unlines_cons, List.append_assoc, List.append_assoc]
      rfl
    rw [hcons, ih (hfile.append (closed_concat _)) hnames, grepLines_append hfile hkey,
      List.append_assoc, List.singleton_append]

/-! ### What is written to one file -/

theorem exec_appends (content : Str) (body : List Str) :
    seedWrites.exec (Function.update files f (some content))
        (body.map fun line => .append f (line ++ ['\n'])) =
      Function.update files f (some (content ++ unlines body)) := by
  induction body generalizing content with
  | nil => rw [unlines_nil, List.append_nil]; rfl
  | cons line body ih =>
    have hline : seedWrites.apply (Function.update files f (some content))
        (.append f (line ++ ['\n'])) = Function.update files f (some (content ++ (line ++ ['\n']))) := by
      unfold Resume.Writes.apply
      show Function.update (Function.update files f (some content)) f
        (some ((Function.update files f (some content) f).getD [] ++ (line ++ ['\n']))) = _
      rw [Function.update_self, Function.update_idem]
      rfl
    rw [List.map_cons]
    show seedWrites.exec (seedWrites.apply _ _) _ = _
    rw [hline, ih, unlines_cons, List.append_assoc, List.append_assoc]
    rfl

theorem exec_writeProfile (files : BoardFiles) (f : BoardFile) (body : List Str) :
    seedWrites.exec files (writeProfile f body) = Function.update files f (some (unlines body)) := by
  show seedWrites.exec (Function.update files f (some [])) _ = _
  rw [exec_appends, List.nil_append]

/-- Where nothing but one file was written, writing it whole leaves what it would have left. -/
theorem writeProfile_absorbs (hsame : ∀ g, g ≠ f → new g = old g) :
    seedWrites.exec new (writeProfile f body) = seedWrites.exec old (writeProfile f body) := by
  rw [exec_writeProfile, exec_writeProfile]
  funext g
  by_cases hg : g = f
  · rw [hg, Function.update_self, Function.update_self]
  · rw [Function.update_of_ne hg, Function.update_of_ne hg, hsame g hg]

end Boot2Deb.FirstBoot
