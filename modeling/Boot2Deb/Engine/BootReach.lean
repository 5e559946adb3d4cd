import Boot2Deb.Engine.ExtlinuxMenu

/-!
# Boot values that arrive

A board's values reach its boot configuration exactly if nothing in them means something to the
shell, to `echo`, or to the splitter (`reaches_iff`).
-/

namespace Boot2Deb.Engine.BootConfig
open Rust Shell Config

/-- The boot values of a board reach its boot configuration: the sourced file assigns what was
authored and does nothing else, the menu has its device tree and, behind one root, its arguments,
and the words of a signed command line are those of the boot method, the gate and the board. -/
structure Reaches (device : BootDevice) (method : BootMethodLayer) (values : BootValues) :
    Prop where
  sourced : source (boardConf values.kernelDtb values.kernelCmdline) =
    some [("DTB_PATH".toList, device.kernelDtb),
      ("DTB_NAME".toList, lastComponent device.kernelDtb),
      ("EXTL_CMD_LINE".toList, bootArguments device.arguments)]
  menu : method = .rockchipRkbin → ∀ sys : System, ∀ vars,
    source (boardConf values.kernelDtb values.kernelCmdline) = some vars →
    mkExtlinux sys vars = extlinuxConf sys (lastComponent device.kernelDtb)
        (parameters sys (bootArguments device.arguments)) ∧
      (∀ num, ∀ kver ∈ sys.kvers,
        substituted (genMenuItem sys (assigned vars "DTB_NAME".toList []) num kver
            (parameters sys (assigned vars "EXTL_CMD_LINE".toList "rootwait".toList))) =
          menuEntry sys (lastComponent device.kernelDtb) num kver
            (parameters sys (bootArguments device.arguments))) ∧
      splitWhitespace (parameters sys (bootArguments device.arguments)) =
        ("root=".toList ++ sys.rootDev) :: "rw".toList :: "rootwait".toList ::
          CONSOLE_LOGLEVEL_ARG :: splitWhitespace (device.kernelCmdline.getD []) ∧
      (∀ word ∈ splitWhitespace (device.kernelCmdline.getD []), setsRoot word = false)
  words : ∀ cmdline, method = .depthcharge cmdline → ∃ signed, values.signed = some signed ∧
    Shell.words (kernelCmdlineFile signed) = some (splitWhitespace cmdline ++
      CONSOLE_LOGLEVEL_ARG :: splitWhitespace (device.kernelCmdline.getD []))

/-- No character of a value means something to what reads it. -/
structure Plain (device : BootDevice) (method : BootMethodLayer) : Prop where
  shell : Inert device.kernelDtb
  echo : method = .rockchipRkbin → NoEscape (lastComponent device.kernelDtb)
  splitter : ∀ cmdline, method = .depthcharge cmdline → ∀ c ∈ cmdline ++ device.arguments,
    isQuoting c = false ∧ (isWhitespace c = true → isSeparator c = true)

variable {device : BootDevice} {args s : Str}

/-! ### The words of a signed command line -/

theorem splitWhitespace_append {c : Char} (hc : isWhitespace c = true) (s t : Str) :
    splitWhitespace (s ++ c :: t) = splitWhitespace s ++ splitWhitespace t := by
  rw [splitWhitespace, List.splitOnP_append_cons _ _ hc, List.filter_append]
  rfl

theorem splitWhitespace_trimStart (s : Str) : splitWhitespace (trimStart s) = splitWhitespace s := by
  induction s with
  | nil => rfl
  | cons c s ih =>
    rw [trimStart]
    cases hc : isWhitespace c with
    | true =>
      rw [List.dropWhile_cons_of_pos hc]
      have hcons := splitWhitespace_append hc [] s
      rw [List.nil_append] at hcons
      rw [hcons]
      exact ih
    | false => rw [List.dropWhile_cons_of_neg (by simp [hc])]

theorem splitWhitespace_trimEnd (s : Str) : splitWhitespace (trimEnd s) = splitWhitespace s := by
  induction s using List.reverseRecOn with
  | nil => rfl
  | append_singleton s c ih =>
    rw [trimEnd]
    cases hc : isWhitespace c with
    | true =>
      rw [List.rdropWhile_concat_pos _ _ _ hc, splitWhitespace_append hc s []]
      have hnil : splitWhitespace [] = [] := rfl
      rw [hnil, List.append_nil]
      exact ih
    | false => rw [List.rdropWhile_concat_neg _ _ _ (by simp [hc])]

theorem splitWhitespace_arguments (device : BootDevice) :
    splitWhitespace device.arguments = splitWhitespace (device.kernelCmdline.getD []) := by
  rw [BootDevice.arguments, trim, splitWhitespace_trimEnd, splitWhitespace_trimStart]

theorem splitWhitespace_gate : splitWhitespace CONSOLE_LOGLEVEL_ARG = [CONSOLE_LOGLEVEL_ARG] := by
  have hall : CONSOLE_LOGLEVEL_ARG.all (!isWhitespace ·) := by decide +kernel
  have hne : CONSOLE_LOGLEVEL_ARG ≠ [] := by decide
  refine splitWhitespace_word hne fun c hc => ?_
  simpa using List.all_eq_true.mp hall c hc

/-- The words of a signed line, as white space separates them. -/
theorem splitWhitespace_merged (cmdline args : Str) :
    splitWhitespace (kernelCmdlineFile (mergedCmdline cmdline args)) =
      splitWhitespace cmdline ++ CONSOLE_LOGLEVEL_ARG :: splitWhitespace args := by
  have hspace : isWhitespace ' ' = true := by decide
  have hnewline : isWhitespace '\n' = true := by decide
  have hnil : splitWhitespace [] = [] := rfl
  rw [kernelCmdlineFile, splitWhitespace_append hnewline, hnil, List.append_nil, mergedCmdline]
  split_ifs with hempty
  · rw [List.isEmpty_iff.mp hempty, splitWhitespace_append hspace, splitWhitespace_gate, hnil]
  · rw [splitWhitespace_append hspace, splitWhitespace_append hspace, splitWhitespace_gate]
    rfl

theorem mem_kernelCmdlineFile {cmdline : Str} {c : Char} :
    c ∈ kernelCmdlineFile (mergedCmdline cmdline args) →
      c ∈ cmdline ++ args ∨ c ∈ " loglevel=4\n".toList := by
  have hgate : ∀ d ∈ CONSOLE_LOGLEVEL_ARG, d ∈ " loglevel=4\n".toList := fun d hd =>
    (show CONSOLE_LOGLEVEL_ARG ⊆ " loglevel=4\n".toList by decide +kernel) hd
  have hspace : ' ' ∈ " loglevel=4\n".toList := by decide
  have hnewline : '\n' ∈ " loglevel=4\n".toList := by decide +kernel
  intro hc
  rw [kernelCmdlineFile, mergedCmdline] at hc
  split_ifs at hc
  · simp only [List.mem_append, List.mem_cons, List.not_mem_nil, or_false] at hc
    rcases hc with (hc | rfl | hc) | rfl
    · exact .inl (List.mem_append_left _ hc)
    · exact .inr hspace
    · exact .inr (hgate c hc)
    · exact .inr hnewline
  · simp only [List.mem_append, List.mem_cons, List.not_mem_nil, or_false] at hc
    rcases hc with (hc | rfl | hc | rfl | hc) | rfl
    · exact .inl (List.mem_append_left _ hc)
    · exact .inr hspace
    · exact .inr (hgate c hc)
    · exact .inr hspace
    · exact .inl (List.mem_append_right _ hc)
    · exact .inr hnewline

theorem mem_of_mem_values {cmdline : Str} {c : Char} (h : c ∈ cmdline ++ args) :
    c ∈ kernelCmdlineFile (mergedCmdline cmdline args) := by
  rw [kernelCmdlineFile, mergedCmdline]
  rcases List.mem_append.mp h with h | h
  · split_ifs <;> simp [h]
  · have hne : ¬args.isEmpty = true := fun hempty => by
      rw [List.isEmpty_iff.mp hempty] at h
      exact nomatch h
    simp [hne, h]

/-- The splitter gives the words of a signed line exactly if nothing in them is quoted. -/
theorem words_iff (cmdline : Str) :
    Shell.words (kernelCmdlineFile (mergedCmdline cmdline device.arguments)) =
      some (splitWhitespace cmdline ++
        CONSOLE_LOGLEVEL_ARG :: splitWhitespace (device.kernelCmdline.getD [])) ↔
      ∀ c ∈ cmdline ++ device.arguments,
        isQuoting c = false ∧ (isWhitespace c = true → isSeparator c = true) := by
  rw [← splitWhitespace_arguments, ← splitWhitespace_merged, words_eq_splitWhitespace_iff]
  constructor
  · exact fun h c hc => h c (mem_of_mem_values hc)
  · intro h c hc
    rcases mem_kernelCmdlineFile hc with hc | hc
    · exact h c hc
    · have hall : " loglevel=4\n".toList.all fun c =>
          !isQuoting c && (!isWhitespace c || isSeparator c) := by decide +kernel
      have hone := List.all_eq_true.mp hall c hc
      rw [Bool.and_eq_true] at hone
      refine ⟨by simpa using hone.1, fun hwhite => ?_⟩
      simpa [hwhite] using hone.2

/-! ### What arrives -/

theorem not_mem_nul_of_inert (h : Inert s) : '\x00' ∉ s := by
  induction s with
  | nil => exact List.not_mem_nil
  | cons c s ih =>
    obtain ⟨-, -, -, hnul, -, hrest⟩ := h
    rw [List.mem_cons, not_or]
    exact ⟨hnul.symm, ih hrest⟩

theorem inert_lastComponent (h : Inert s) : Inert (lastComponent s) := by
  obtain ⟨front, hfront⟩ := suffix_lastComponent s
  exact (hfront ▸ h : Inert (front ++ lastComponent s)).of_append

/-- The words of the line that boots a kernel: one root, and the board's arguments. -/
theorem splitWhitespace_parameters (sys : System) (args : Str) :
    splitWhitespace (parameters sys (bootArguments args)) =
      ("root=".toList ++ sys.rootDev) :: "rw".toList :: "rootwait".toList ::
        CONSOLE_LOGLEVEL_ARG :: splitWhitespace args := by
  have hspace : isWhitespace ' ' = true := by decide
  have hroot : ∀ c ∈ "root=".toList ++ sys.rootDev, isWhitespace c = false := by
    intro c hc
    rcases List.mem_append.mp hc with hc | hc
    · have hall : "root=".toList.all (!isWhitespace ·) := by decide
      simpa using List.all_eq_true.mp hall c hc
    · exact sys.rootDev_word c hc
  have hargs : splitWhitespace (bootArguments args) =
      "rootwait".toList :: CONSOLE_LOGLEVEL_ARG :: splitWhitespace args := by
    have hfixed : splitWhitespace ("rootwait ".toList ++ CONSOLE_LOGLEVEL_ARG) =
        ["rootwait".toList, CONSOLE_LOGLEVEL_ARG] := by decide +kernel
    have hnil : splitWhitespace [] = [] := rfl
    rw [bootArguments]
    split_ifs with hempty
    · rw [hfixed, List.isEmpty_iff.mp hempty, hnil]
    · rw [splitWhitespace_append hspace, hfixed]
      rfl
  have hshape : parameters sys (bootArguments args) =
      ("root=".toList ++ sys.rootDev) ++ ' ' :: ("rw".toList ++ ' ' :: bootArguments args) := by
    rw [parameters, List.append_assoc]
    rfl
  have hrw : splitWhitespace "rw".toList = ["rw".toList] := by decide +kernel
  rw [hshape, Rust.splitWhitespace_append_cons (by simp) hroot hspace,
    splitWhitespace_append hspace, hrw, hargs]
  rfl

/-- A board with one kernel. -/
def oneKernel : System where
  prettyName := "Debian GNU/Linux 13 (trixie)".toList
  rootDev := "PARTUUID=5f5b4f3c-01".toList
  bootDir := "/boot".toList
  kvers := ["6.18.2-arm64".toList]
  plain := (by decide +kernel : ∀ s ∈ ["Debian GNU/Linux 13 (trixie)".toList,
    "PARTUUID=5f5b4f3c-01".toList, "/boot".toList, "6.18.2-arm64".toList], Bare s)
  rootDev_word c hc := by
    have hall : "PARTUUID=5f5b4f3c-01".toList.all (!isWhitespace ·) := by decide +kernel
    simpa using List.all_eq_true.mp hall c hc

theorem parameters_ne_nil (sys : System) (cmdLine : Str) : parameters sys cmdLine ≠ [] := by
  rw [parameters]
  exact fun h => absurd (List.append_eq_nil_iff.mp h).1 (by decide)

/-- The boot values of a resolved board reach its boot configuration exactly if none of their
characters means something to what reads them. -/
theorem reaches_iff (device : BootDevice) (method : BootMethodLayer) (values : BootValues)
    (h : resolveBootValues device method = .ok values) :
    Reaches device method values ↔ Plain device method := by
  obtain ⟨hvetted, rfl⟩ := resolveBootValues_ok h
  constructor
  · intro hreaches
    have hinert : Inert device.kernelDtb := (sourced_iff hvetted).mp hreaches.sourced
    refine ⟨hinert, ?_, ?_⟩
    · intro hmethod
      have hitem := (hreaches.menu hmethod oneKernel _ hreaches.sourced).2.1 0 _ (.head _)
      have hdtb : assigned [("DTB_PATH".toList, device.kernelDtb),
          ("DTB_NAME".toList, lastComponent device.kernelDtb),
          ("EXTL_CMD_LINE".toList, bootArguments device.arguments)] "DTB_NAME".toList [] =
          lastComponent device.kernelDtb := rfl
      have hcmd : assigned [("DTB_PATH".toList, device.kernelDtb),
          ("DTB_NAME".toList, lastComponent device.kernelDtb),
          ("EXTL_CMD_LINE".toList, bootArguments device.arguments)] "EXTL_CMD_LINE".toList
          "rootwait".toList = bootArguments device.arguments := rfl
      rw [hdtb, hcmd] at hitem
      have hkver : Bare "6.18.2-arm64".toList := @bare_kver oneKernel _ (.head _)
      exact (menuItem_iff hkver (bare_parameters hvetted)
        (parameters_ne_nil _ _) (not_mem_nul_of_inert (inert_lastComponent hinert))).mp hitem
    · rintro cmdline rfl
      obtain ⟨signed, hsigned, hwords⟩ := hreaches.words cmdline rfl
      obtain rfl := Option.some.inj hsigned
      exact (words_iff cmdline).mp hwords
  · intro hplain
    have hsourced := (@sourced_iff device.kernelDtb _ hvetted).mpr hplain.shell
    refine ⟨hsourced, ?_, ?_⟩
    · intro hmethod sys vars hvars
      rw [hsourced] at hvars
      obtain rfl := Option.some.inj hvars
      have hname := hplain.echo hmethod
      have hnul := not_mem_nul_of_inert (inert_lastComponent hplain.shell)
      refine ⟨mkExtlinux_eq (bare_parameters hvetted) (parameters_ne_nil _ _) hnul hname rfl rfl,
        fun num kver hkver => ?_, ?_, ?_⟩
      · exact (menuItem_iff (bare_kver hkver) (bare_parameters hvetted)
          (parameters_ne_nil _ _) hnul).mpr hname
      · rw [splitWhitespace_parameters, splitWhitespace_arguments]
      · rw [← splitWhitespace_arguments]
        exact hvetted.noRoot
    · rintro cmdline rfl
      exact ⟨_, rfl, (words_iff cmdline).mpr (hplain.splitter cmdline rfl)⟩

/-- The boards of one SoC, by their device tree. -/
def rk3588Board (kernelDtb : Str) (kernelCmdline : Option Str) : BootDevice where
  name := "rock-5b".toList
  kernelDtb := kernelDtb
  deviceDts := []
  kernelCmdline := kernelCmdline

theorem rock_reaches : Reaches
    (rk3588Board "rockchip/rk3588-rock-5b.dtb".toList (some " video=HDMI-A-1:d quiet ".toList))
    .rockchipRkbin
    ⟨"rockchip/rk3588-rock-5b.dtb".toList, "video=HDMI-A-1:d quiet".toList, none⟩ :=
  (reaches_iff _ .rockchipRkbin _ (by decide +kernel)).mpr
    ⟨by decide +kernel, fun _ => by decide +kernel, fun _ hmethod => nomatch hmethod⟩

/-- A device tree whose name the shell of the board runs as a command. -/
theorem command_not_assigned : ¬∀ (device : BootDevice) (method : BootMethodLayer)
    (values : BootValues), resolveBootValues device method = .ok values →
    Reaches device method values := by
  intro h
  have hreaches := h (rk3588Board "rockchip/$(reboot).dtb".toList none) .rockchipRkbin
    ⟨"rockchip/$(reboot).dtb".toList, [], none⟩ (by decide +kernel)
  have hinert := (@sourced_iff "rockchip/$(reboot).dtb".toList _ vetted_nil).mp hreaches.sourced
  exact absurd hinert (by decide +kernel)

/-- A depthcharge board whose argument the splitter takes the quotes from. -/
example : Shell.words (kernelCmdlineFile (mergedCmdline "rootwait".toList "fan='low high'".toList)) =
    some ["rootwait".toList, "loglevel=4".toList, "fan=low high".toList] := by decide +kernel

end Boot2Deb.Engine.BootConfig
