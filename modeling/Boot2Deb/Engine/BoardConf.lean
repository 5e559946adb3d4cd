import Boot2Deb.Config.BootValues
import Boot2Deb.Lib.Quoting
import Boot2Deb.Rust.Pattern

/-!
# The boot parameters of a board (`engine/src/rootfs/mod.rs`)

The `board.conf` the scripts on a board source, and the command line `depthchargectl` splits into
words. The values are embedded as they are.
-/

namespace Boot2Deb.Engine.BootConfig
open Rust Shell Config

/-! ### The generated files -/

/-- `kernel_dtb.rsplit('/').next()`. -/
def lastComponent (kernelDtb : Str) : Str := ((kernelDtb.splitOn '/').getLast?).getD kernelDtb

/-- The arguments a board boots with. -/
def bootArguments (kernelCmdline : Str) : Str :=
  let args := "rootwait ".toList ++ CONSOLE_LOGLEVEL_ARG
  if kernelCmdline.isEmpty then args else args ++ ' ' :: kernelCmdline

/-- A double-quoted assignment. -/
def assignment (name value : Str) : Str := name ++ '=' :: '"' :: (value ++ ['"'])

/-- `board_conf`. -/
def boardConf (kernelDtb kernelCmdline : Str) : Str := unlines [
  '#' :: " Generated by boot2deb -- board boot parameters. Do not edit.".toList,
  '#' :: " Sourced by /etc/kernel/\x7bpostinst,postrm\x7d.d hooks and /boot/mk_extlinux.".toList,
  assignment "DTB_PATH".toList kernelDtb,
  assignment "DTB_NAME".toList (lastComponent kernelDtb),
  assignment "EXTL_CMD_LINE".toList (bootArguments kernelCmdline)]

/-- `/etc/kernel/cmdline`. -/
def kernelCmdlineFile (cmdline : Str) : Str := cmdline ++ ['\n']

variable {dtb args : Str}

/-! ### The sourced file -/

theorem exists_front_of_join {sep last : Str} {pieces : List Str} (h : pieces.getLast? = some last) :
    ∃ front, join sep pieces = front ++ last := by
  induction pieces with
  | nil => exact nomatch h
  | cons piece pieces ih =>
    cases pieces with
    | nil =>
      obtain rfl := Option.some.inj h
      exact ⟨[], by simp [join, List.intercalate]⟩
    | cons next pieces =>
      rw [List.getLast?_cons_cons] at h
      obtain ⟨front, hfront⟩ := ih h
      refine ⟨piece ++ (sep ++ front), ?_⟩
      rw [join_cons sep piece (List.cons_ne_nil _ _), hfront]
      simp

theorem suffix_lastComponent (s : Str) : ∃ front, s = front ++ lastComponent s := by
  obtain ⟨last, hlast⟩ := Option.isSome_iff_exists.mp
    (List.getLast?_isSome.mpr (List.splitOn_ne_nil '/' s))
  obtain ⟨front, hfront⟩ := @exists_front_of_join ['/'] _ _ hlast
  refine ⟨front, ?_⟩
  rw [lastComponent, hlast, Option.getD_some, ← hfront, join, List.intercalate_splitOn]

theorem boardConf_eq (dtb args : Str) : boardConf dtb args =
    '#' :: (" Generated by boot2deb -- board boot parameters. Do not edit.".toList ++ '\n' :: '#' ::
      (" Sourced by /etc/kernel/\x7bpostinst,postrm\x7d.d hooks and /boot/mk_extlinux.".toList ++
      '\n' :: ("DTB_PATH".toList ++ '=' :: '"' :: (dtb ++ '"' :: ('\n' :: ("DTB_NAME".toList ++ ['=']) ++
      '"' :: (lastComponent dtb ++ '"' :: '\n' :: ("EXTL_CMD_LINE".toList ++ '=' :: '"' ::
      (bootArguments args ++ '"' :: '\n' :: [])))))))) := by
  have hline : ∀ name value rest : Str, assignment name value ++ '\n' :: rest =
      name ++ '=' :: '"' :: (value ++ '"' :: '\n' :: rest) := fun _ _ _ => by simp [assignment]
  have hnil : unlines [] = [] := rfl
  rw [boardConf, unlines_cons, unlines_cons, unlines_cons, unlines_cons, unlines_cons, hnil, hline,
    hline, hline]
  simp only [List.cons_append, List.append_assoc, List.nil_append]

/-- The comments of the file are passed over. -/
theorem source_boardConf (dtb args : Str) : ∃ fuel, source (boardConf dtb args) =
    sourceFrom (fuel + 4) ("DTB_PATH".toList ++ '=' :: '"' :: (dtb ++ '"' ::
      ('\n' :: ("DTB_NAME".toList ++ ['=']) ++ '"' :: (lastComponent dtb ++ '"' :: '\n' ::
        ("EXTL_CMD_LINE".toList ++ '=' :: '"' :: (bootArguments args ++ '"' :: '\n' :: [])))))) := by
  obtain ⟨fuel, hfuel⟩ : ∃ fuel, (boardConf dtb args).length + 1 = fuel + 6 := by
    refine Nat.exists_eq_add_of_le' ?_
    rw [boardConf_eq]
    simp only [List.length_append, List.length_cons]
    omega
  refine ⟨fuel, ?_⟩
  rw [source, hfuel, boardConf_eq, sourceFrom_comment (by decide),
    sourceFrom_comment (by decide)]

theorem mem_bootArguments {c : Char} (h : c ∈ bootArguments args) :
    c ∈ "rootwait loglevel=4 ".toList ∨ c ∈ args := by
  have hfixed : "rootwait ".toList ++ CONSOLE_LOGLEVEL_ARG ⊆ "rootwait loglevel=4 ".toList := by
    decide
  rw [bootArguments] at h
  split_ifs at h
  · exact .inl (hfixed h)
  · rcases List.mem_append.mp h with h | h
    · exact .inl (hfixed h)
    · rcases List.mem_cons.mp h with rfl | h
      · exact .inl (by decide)
      · exact .inr h

/-- No argument of a board has a backslash, a newline or a null character. -/
theorem plain_bootArguments (h : Vetted args) : ∀ c ∈ bootArguments args,
    c ≠ '"' ∧ c ≠ '$' ∧ c ≠ '`' ∧ c ≠ '\x00' ∧ c ≠ '\\' ∧ c ≠ '\n' := by
  intro c hc
  rcases mem_bootArguments hc with hc | hc
  · have hall : "rootwait loglevel=4 ".toList.all fun c => c ≠ '"' && c ≠ '$' && c ≠ '`' &&
        c ≠ '\x00' && c ≠ '\\' && c ≠ '\n' := by decide
    have hone := List.all_eq_true.mp hall c hc
    simpa [and_assoc] using hone
  · have hactive := h.inactive c hc
    have hcontrol := h.noControl c hc
    refine ⟨?_, ?_, ?_, ?_, ?_, ?_⟩ <;> rintro rfl
    · exact hactive (by decide)
    · exact hactive (by decide)
    · exact hactive (by decide)
    · exact absurd hcontrol (by decide)
    · exact hactive (by decide)
    · exact absurd hcontrol (by decide)

theorem inert_bootArguments (h : Vetted args) : Inert (bootArguments args) :=
  inert_of_forall fun c hc => by
    obtain ⟨hquote, hdollar, htick, hnul, hslash, -⟩ := plain_bootArguments h c hc
    exact ⟨hquote, hdollar, htick, hnul, hslash⟩

theorem sourced_iff (h : Vetted args) : source (boardConf dtb args) =
    some [("DTB_PATH".toList, dtb), ("DTB_NAME".toList, lastComponent dtb),
      ("EXTL_CMD_LINE".toList, bootArguments args)] ↔ Inert dtb := by
  obtain ⟨fuel, hsource⟩ := source_boardConf dtb args
  rw [hsource, sourceFrom_assign (by decide)]
  constructor
  · intro hread
    split at hread
    · next value rest htext =>
      obtain ⟨rows, -, hrows⟩ := Option.map_eq_some_iff.mp hread
      have hvalue : value = dtb := (Prod.mk.inj (List.cons.inj hrows).1).2
      subst hvalue
      have hlast : ('\n' :: ("DTB_NAME".toList ++ ['='])).getLast? = some '=' := by
        rw [← List.cons_append, List.getLast?_concat]
      rcases readDouble_cases hlast (by decide) htext with hlt | ⟨-, hinert, -⟩ | ⟨hv, hs⟩
      · omega
      · exact hinert
      · rw [hv] at hs
        exact absurd (Option.some.inj hs) (by decide)
    · exact nomatch hread
  · intro hinert
    obtain ⟨front, hfront⟩ := suffix_lastComponent dtb
    have hname : Inert (lastComponent dtb) := (hfront ▸ hinert : Inert (front ++ _)).of_append
    rw [readDouble_inert hinert]
    simp only [List.cons_append, List.append_assoc, List.nil_append]
    rw [sourceFrom_assign (by decide), readDouble_inert hname]
    simp only
    rw [sourceFrom_assign (by decide), readDouble_inert (inert_bootArguments h)]
    rfl

end Boot2Deb.Engine.BootConfig
