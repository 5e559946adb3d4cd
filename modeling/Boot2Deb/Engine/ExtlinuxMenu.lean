import Boot2Deb.Engine.BoardConf

/-!
# The boot menu of a board (`boot-methods/rockchip-rkbin/overlay/boot/mk_extlinux`)

The script that writes the menu u-boot reads, from the variables of `board.conf`. Its text goes
through `echo` twice: an entry is the one that is meant exactly if the name of the device tree has
no escape in it (`menuItem_iff`).
-/

namespace Boot2Deb.Engine.BootConfig
open Rust Shell Config

/-! ### `mk_extlinux` -/

/-- What `mk_extlinux` finds on a board: the name of its release, the device of its root, where the
kernels lie, and the versions that go into the menu, newest first. -/
structure System where
  prettyName : Str
  rootDev : Str
  bootDir : Str
  kvers : List Str
  plain : ∀ s ∈ prettyName :: rootDev :: bootDir :: kvers, ∀ c ∈ s,
    c ≠ '\\' ∧ c ≠ '\n' ∧ c ≠ '\x00'
  rootDev_word : ∀ c ∈ rootDev, isWhitespace c = false

def digits (n : ℕ) : Str := Nat.toDigits 10 n

/-- `gen_menu_header`. -/
def genMenuHeader (verCount : ℕ) : Str :=
  let mpv := if 1 < verCount then 1 else 0
  echo "#".toList ++ echo "# this is an automatically generated file".toList ++
    echo "# edit options at the top of the /boot/mk_extlinux file".toList ++
    echo "# then run /boot/mk_extlinux to rebuild".toList ++ echo "#".toList ++ echo [] ++
    echo "menu title u-boot menu".toList ++ echo ("prompt ".toList ++ digits mpv) ++
    echo "default l0".toList ++ echo ("timeout ".toList ++ digits (3 * 10))

section Menu
variable (sys : System)

/-- `gen_menu_item`, with the board's `DTB_NAME`. -/
def genMenuItem (dtbName : Str) (num : ℕ) (kver prms : Str) : Str :=
  echo ("label l".toList ++ digits num) ++
    echo ("\\tmenu label ".toList ++ (sys.prettyName ++ ' ' :: kver)) ++
    echo ("\\tlinux ".toList ++ (sys.bootDir ++ ("/vmlinuz-".toList ++ kver))) ++
    echo ("\\tinitrd ".toList ++ (sys.bootDir ++ ("/initrd.img-".toList ++ kver))) ++
    echo ("\\tfdt ".toList ++ (sys.bootDir ++ '/' :: (dtbName ++ '-' :: kver))) ++
    echo ("\\tappend ".toList ++ prms)

/-- A variable that was assigned, or its default. -/
def assigned (vars : List (Str × Str)) (name default : Str) : Str :=
  (((vars.filter fun row => row.1 = name).getLast?).map Prod.snd).getD default

/-- What a menu entry passes to the kernel. -/
def parameters (cmdLine : Str) : Str :=
  "root=".toList ++ (sys.rootDev ++ (" rw ".toList ++ cmdLine))

/-- `main`: the text of `/boot/extlinux/extlinux.conf`, under the variables of `board.conf`. -/
def mkExtlinux (vars : List (Str × Str)) : Str :=
  let prms := parameters sys (assigned vars "EXTL_CMD_LINE".toList "rootwait".toList)
  let dtbName := assigned vars "DTB_NAME".toList []
  let config := substituted (genMenuHeader sys.kvers.length) ++ "\\n\\n".toList
  echo (config ++ sys.kvers.zipIdx.flatMap fun (kver, num) =>
    "\\n".toList ++ (substituted (genMenuItem sys dtbName num kver prms) ++ "\\n".toList))

/-! ### What is meant -/

/-- The entry of a kernel, down to its device tree. -/
def menuFront (num : ℕ) (kver : Str) : Str := unlines [
  "label l".toList ++ digits num,
  "\tmenu label ".toList ++ (sys.prettyName ++ ' ' :: kver),
  "\tlinux ".toList ++ (sys.bootDir ++ ("/vmlinuz-".toList ++ kver)),
  "\tinitrd ".toList ++ (sys.bootDir ++ ("/initrd.img-".toList ++ kver))]

/-- The entry of a kernel. -/
def menuEntry (dtbName : Str) (num : ℕ) (kver prms : Str) : Str :=
  menuFront sys num kver ++ ("\tfdt ".toList ++ (sys.bootDir ++ '/' :: (dtbName ++ '-' ::
    (kver ++ ("\n\tappend ".toList ++ prms)))))

/-- The menu. -/
def extlinuxConf (dtbName prms : Str) : Str :=
  substituted (genMenuHeader sys.kvers.length) ++ ("\n\n".toList ++
    ((sys.kvers.zipIdx.flatMap fun (kver, num) =>
      "\n".toList ++ (menuEntry sys dtbName num kver prms ++ "\n".toList)) ++ "\n".toList))

end Menu

variable {sys : System} {args name kver prms s : Str} {num : ℕ}

/-! ### The menu -/

/-- Text that passes through `echo` and the shell as it is. -/
def Bare (s : Str) : Prop := ∀ c ∈ s, c ≠ '\\' ∧ c ≠ '\n' ∧ c ≠ '\x00'

instance : DecidablePred Bare := fun s =>
  List.decidableBAll (fun c => c ≠ '\\' ∧ c ≠ '\n' ∧ c ≠ '\x00') s

theorem bare_append {t : Str} (hs : Bare s) (ht : Bare t) : Bare (s ++ t) :=
  List.forall_mem_append.mpr ⟨hs, ht⟩

theorem bare_cons {c : Char} (hc : c ≠ '\\' ∧ c ≠ '\n' ∧ c ≠ '\x00') (hs : Bare s) :
    Bare (c :: s) := List.forall_mem_cons.mpr ⟨hc, hs⟩

theorem Bare.noEscape (h : Bare s) : NoEscape s :=
  noEscape_of_not_mem fun hmem => (h _ hmem).1 rfl

theorem bare_digits (n : ℕ) : Bare (digits n) := by
  intro c hc
  have hdigit := isDigit_of_mem_toDigits hc
  refine ⟨?_, ?_, ?_⟩ <;> rintro rfl <;> exact absurd hdigit (by decide)

theorem bare_prettyName (sys : System) : Bare sys.prettyName :=
  sys.plain _ (.head _)

theorem bare_rootDev (sys : System) : Bare sys.rootDev := sys.plain _ (.tail _ (.head _))

theorem bare_bootDir (sys : System) : Bare sys.bootDir := sys.plain _ (.tail _ (.tail _ (.head _)))

theorem bare_kver (h : kver ∈ sys.kvers) : Bare kver :=
  sys.plain _ (.tail _ (.tail _ (.tail _ h)))

theorem bare_parameters (h : Vetted args) : Bare (parameters sys (bootArguments args)) := by
  refine bare_append (by decide) (bare_append (bare_rootDev sys)
    (bare_append (by decide) fun c hc => ?_))
  obtain ⟨-, -, -, hnul, hslash, hnewline⟩ := plain_bootArguments h c hc
  exact ⟨hslash, hnewline, hnul⟩

/-- The lines ahead of the device tree. -/
theorem echo_front (hkver : Bare kver) :
    echo ("label l".toList ++ digits num) ++
      echo ("\\tmenu label ".toList ++ (sys.prettyName ++ ' ' :: kver)) ++
      echo ("\\tlinux ".toList ++ (sys.bootDir ++ ("/vmlinuz-".toList ++ kver))) ++
      echo ("\\tinitrd ".toList ++ (sys.bootDir ++ ("/initrd.img-".toList ++ kver))) =
      menuFront sys num kver := by
  have hlabel : Bare ("label l".toList ++ digits num) :=
    bare_append (by decide) (bare_digits num)
  have hmenu : Bare ("menu label ".toList ++ (sys.prettyName ++ ' ' :: kver)) :=
    bare_append (by decide) (bare_append (bare_prettyName sys) (bare_cons (by decide) hkver))
  have hlinux : Bare ("linux ".toList ++ (sys.bootDir ++ ("/vmlinuz-".toList ++ kver))) :=
    bare_append (by decide) (bare_append (bare_bootDir sys)
      (bare_append (by decide) hkver))
  have hinitrd : Bare ("initrd ".toList ++ (sys.bootDir ++ ("/initrd.img-".toList ++ kver))) :=
    bare_append (by decide) (bare_append (bare_bootDir sys)
      (bare_append (by decide) hkver))
  have hsecond : echo ("\\tmenu label ".toList ++ (sys.prettyName ++ ' ' :: kver)) =
      "\tmenu label ".toList ++ (sys.prettyName ++ ' ' :: kver) ++ ['\n'] := echo_tab hmenu.noEscape
  have hthird : echo ("\\tlinux ".toList ++ (sys.bootDir ++ ("/vmlinuz-".toList ++ kver))) =
      "\tlinux ".toList ++ (sys.bootDir ++ ("/vmlinuz-".toList ++ kver)) ++ ['\n'] :=
    echo_tab hlinux.noEscape
  have hfourth : echo ("\\tinitrd ".toList ++ (sys.bootDir ++ ("/initrd.img-".toList ++ kver))) =
      "\tinitrd ".toList ++ (sys.bootDir ++ ("/initrd.img-".toList ++ kver)) ++ ['\n'] :=
    echo_tab hinitrd.noEscape
  rw [menuFront, echo_of_noEscape hlabel.noEscape, hsecond, hthird, hfourth, unlines]
  simp only [List.flatMap_cons, List.flatMap_nil, List.append_nil, List.append_assoc]

/-- The line of the device tree, without its tab. -/
def fdtLine (sys : System) (dtbName kver : Str) : Str :=
  "fdt ".toList ++ (sys.bootDir ++ '/' :: (dtbName ++ '-' :: kver))

theorem noEscape_fdtLine (hkver : Bare kver) : NoEscape (fdtLine sys name kver) ↔ NoEscape name := by
  have hslash : ∀ {t : Str}, Bare t → '\\' ∉ t := fun h hmem => (h _ hmem).1 rfl
  have hfront : '\\' ∉ ['/'] := by decide
  rw [fdtLine, noEscape_append_left (by decide),
    noEscape_append_left (hslash (bare_bootDir sys)), ← List.singleton_append,
    noEscape_append_left hfront,
    noEscape_append_right (by decide) (by decide) (hslash hkver)]

theorem genMenuItem_eq (hkver : Bare kver) (hprms : Bare prms) :
    genMenuItem sys name num kver prms = menuFront sys num kver ++
      (echo ('\\' :: 't' :: fdtLine sys name kver) ++ ("\tappend ".toList ++ (prms ++ ['\n']))) := by
  have happend : echo ("\\tappend ".toList ++ prms) = "\tappend ".toList ++ prms ++ ['\n'] :=
    echo_tab (bare_append (by decide : Bare "append ".toList) hprms).noEscape
  rw [genMenuItem, echo_front hkver, happend, List.append_assoc, List.append_assoc]
  rfl

theorem menuEntry_eq : menuEntry sys name num kver prms = menuFront sys num kver ++
    ('\t' :: fdtLine sys name kver ++ ("\n\tappend ".toList ++ prms)) := by
  have hfdt : '\t' :: fdtLine sys name kver =
      "\tfdt ".toList ++ (sys.bootDir ++ '/' :: (name ++ '-' :: kver)) := rfl
  rw [menuEntry, hfdt]
  simp

/-- What a command substitution makes of a line. -/
theorem substituted_line (hnul : '\x00' ∉ s) (hlast : s.getLast? ≠ some '\n') :
    substituted (s ++ ['\n']) = s := by
  have hall : '\x00' ∉ s ++ ['\n'] := by simp [hnul]
  rw [substituted, filter_nul hall, List.rdropWhile_concat_pos _ _ _ (by decide),
    List.rdropWhile_eq_self_iff]
  intro hne heq
  rw [List.getLast?_eq_some_getLast hne, of_decide_eq_true heq] at hlast
  exact hlast rfl

theorem length_substituted_line (s : Str) : (substituted (s ++ ['\n'])).length ≤ s.length := by
  rw [substituted, List.filter_append]
  have hline : ['\n'].filter (· ≠ '\x00') = ['\n'] := by decide
  rw [hline, List.rdropWhile_concat_pos _ _ _ (by decide)]
  exact (List.rdropWhile_prefix _ _).length_le.trans (List.length_filter_le _ _)

theorem clean_menuFront (hkver : Bare kver) :
    ∀ c ∈ menuFront sys num kver, c ≠ '\\' ∧ c ≠ '\x00' := by
  have hlines : ∀ line ∈ ["label l".toList ++ digits num,
      "\tmenu label ".toList ++ (sys.prettyName ++ ' ' :: kver),
      "\tlinux ".toList ++ (sys.bootDir ++ ("/vmlinuz-".toList ++ kver)),
      "\tinitrd ".toList ++ (sys.bootDir ++ ("/initrd.img-".toList ++ kver))], Bare line := by
    simp only [List.forall_mem_cons]
    refine ⟨?_, ?_, ?_, ?_, fun _ h => absurd h List.not_mem_nil⟩
    · exact bare_append (by decide) (bare_digits num)
    · exact bare_append (by decide)
        (bare_append (bare_prettyName sys) (bare_cons (by decide) hkver))
    · exact bare_append (by decide)
        (bare_append (bare_bootDir sys) (bare_append (by decide) hkver))
    · exact bare_append (by decide)
        (bare_append (bare_bootDir sys) (bare_append (by decide) hkver))
  intro c hc
  obtain ⟨line, hline, hmem⟩ := List.mem_flatMap.mp hc
  rcases List.mem_append.mp hmem with hmem | hmem
  · obtain ⟨hslash, -, hnul⟩ := hlines line hline c hmem
    exact ⟨hslash, hnul⟩
  · rw [List.mem_singleton.mp hmem]
    decide

theorem getLast?_append_bare {front : Str} (hprms : Bare prms) (hne : prms ≠ []) :
    (front ++ prms).getLast? ≠ some '\n' ∧ (front ++ prms).getLast? ≠ some '\\' := by
  rw [List.getLast?_append_of_ne_nil _ hne, List.getLast?_eq_some_getLast hne]
  obtain ⟨hslash, hnewline, -⟩ := hprms _ (List.getLast_mem hne)
  exact ⟨fun h => hnewline (Option.some.inj h), fun h => hslash (Option.some.inj h)⟩

/-- The entry of a kernel, by its last piece. -/
theorem menuEntry_append : ∃ front, menuEntry sys name num kver prms = front ++ prms :=
  ⟨menuFront sys num kver ++ ('\t' :: fdtLine sys name kver ++ "\n\tappend ".toList), by
    rw [menuEntry_eq]
    simp only [List.append_assoc]⟩

theorem nul_not_mem_menuEntry (hkver : Bare kver) (hprms : Bare prms) (hname : '\x00' ∉ name) :
    '\x00' ∉ menuEntry sys name num kver prms := by
  have hbare : ∀ {t : Str}, Bare t → '\x00' ∉ t := fun h hmem => (h _ hmem).2.2 rfl
  have hfront : '\x00' ∉ menuFront sys num kver := fun h => (clean_menuFront hkver _ h).2 rfl
  have hfdt : '\x00' ∉ "\tfdt ".toList := by decide
  have happend : '\x00' ∉ "\n\tappend ".toList := by decide
  simp only [menuEntry, List.mem_append, List.mem_cons, not_or]
  exact ⟨hfront, hfdt, hbare (bare_bootDir sys), by decide, hname, by decide, hbare hkver, happend,
    hbare hprms⟩

theorem noEscape_menuEntry (hkver : Bare kver) (hprms : Bare prms) (hname : NoEscape name) :
    NoEscape (menuEntry sys name num kver prms) := by
  have hbare : ∀ {t : Str}, Bare t → '\\' ∉ t := fun h hmem => (h _ hmem).1 rfl
  have hfront : '\\' ∉ menuFront sys num kver := fun h => (clean_menuFront hkver _ h).1 rfl
  have hsep : '\\' ∉ ['/'] := by decide
  have hback : '\\' ∉ kver ++ ("\n\tappend ".toList ++ prms) := by
    have happend : '\\' ∉ "\n\tappend ".toList := by decide
    simp only [List.mem_append, not_or]
    exact ⟨hbare hkver, happend, hbare hprms⟩
  rw [menuEntry, noEscape_append_left hfront, noEscape_append_left (by decide),
    noEscape_append_left (hbare (bare_bootDir sys)), ← List.singleton_append,
    noEscape_append_left hsep, noEscape_append_right (by decide) (by decide) hback]
  exact hname

/-- The entry of a kernel is the one that is meant exactly if `echo` leaves the name of the device
tree as it is. -/
theorem menuItem_iff (hkver : Bare kver) (hprms : Bare prms) (hne : prms ≠ [])
    (hname : '\x00' ∉ name) :
    substituted (genMenuItem sys name num kver prms) = menuEntry sys name num kver prms ↔
      NoEscape name := by
  have hitem : genMenuItem sys name num kver prms = menuFront sys num kver ++
      (echo ('\\' :: 't' :: fdtLine sys name kver) ++ ("\tappend ".toList ++ prms)) ++ ['\n'] := by
    rw [genMenuItem_eq hkver hprms]
    simp only [List.append_assoc]
  constructor
  · intro heq
    by_contra hescape
    rw [← @noEscape_fdtLine sys name kver hkver] at hescape
    have hlt := length_echo_tab_lt hescape
    have hle := length_substituted_line (menuFront sys num kver ++
      (echo ('\\' :: 't' :: fdtLine sys name kver) ++ ("\tappend ".toList ++ prms)))
    rw [← hitem, heq, menuEntry_eq] at hle
    have hone : "\n\tappend ".toList.length = "\tappend ".toList.length + 1 := rfl
    simp only [List.length_append, List.length_cons] at hle
    omega
  · intro hescape
    obtain ⟨front, hfront⟩ := @menuEntry_append sys name kver prms num
    have hlast := (@getLast?_append_bare prms front hprms hne).1
    rw [← hfront] at hlast
    have hentry : genMenuItem sys name num kver prms =
        menuEntry sys name num kver prms ++ ['\n'] := by
      rw [hitem, echo_tab ((noEscape_fdtLine hkver).mpr hescape), menuEntry_eq]
      have hline : "\n\tappend ".toList = '\n' :: "\tappend ".toList := rfl
      rw [hline]
      simp only [List.append_assoc, List.cons_append, List.nil_append]
    rw [hentry]
    exact substituted_line (nul_not_mem_menuEntry hkver hprms hname) hlast

theorem clean_header (count : ℕ) : '\\' ∉ substituted (genMenuHeader count) := by
  rw [genMenuHeader]
  split_ifs <;> decide

theorem echoed_entries {α : Type} {f : α → Str} {l : List α}
    (h : ∀ a ∈ l, NoEscape (f a) ∧ (f a).getLast? ≠ some '\\') :
    echoed 0 (l.flatMap fun a => "\\n".toList ++ (f a ++ "\\n".toList)) =
      (l.flatMap fun a => "\n".toList ++ (f a ++ "\n".toList), false) := by
  induction l with
  | nil => rfl
  | cons a l ih =>
    rw [List.forall_mem_cons] at h
    have hopen : "\\n".toList = ['\\', 'n'] := rfl
    have hline : "\n".toList = ['\n'] := rfl
    rw [hopen, hline] at ih ⊢
    rw [List.flatMap_cons, List.flatMap_cons, List.append_assoc, List.append_assoc]
    simp only [List.cons_append, List.nil_append, List.append_assoc] at ih ⊢
    rw [echoed_newline, echoed_append h.1.1 h.1.2, echoed_newline, ih h.2]

/-- The menu is the one that is meant where its entries are. -/
theorem mkExtlinux_eq {vars : List (Str × Str)} (hprms : Bare prms) (hne : prms ≠ [])
    (hnul : '\x00' ∉ name) (hname : NoEscape name) (hdtb : assigned vars "DTB_NAME".toList [] = name)
    (hcmd : parameters sys (assigned vars "EXTL_CMD_LINE".toList "rootwait".toList) = prms) :
    mkExtlinux sys vars = extlinuxConf sys name prms := by
  have hkver : ∀ row ∈ sys.kvers.zipIdx, Bare row.1 := fun row hrow =>
    bare_kver (List.fst_mem_of_mem_zipIdx hrow)
  have hitems : (sys.kvers.zipIdx.flatMap fun (kver, num) =>
      "\\n".toList ++ (substituted (genMenuItem sys name num kver prms) ++ "\\n".toList)) =
      sys.kvers.zipIdx.flatMap fun (kver, num) =>
        "\\n".toList ++ (menuEntry sys name num kver prms ++ "\\n".toList) :=
    List.flatMap_congr fun row hrow => by
      simp only
      rw [(menuItem_iff (hkver row hrow) hprms hne hnul).mpr hname]
  have hentries : ∀ row ∈ sys.kvers.zipIdx, NoEscape (menuEntry sys name row.2 row.1 prms) ∧
      (menuEntry sys name row.2 row.1 prms).getLast? ≠ some '\\' := fun row hrow => by
    obtain ⟨front, hfront⟩ := @menuEntry_append sys name row.1 prms row.2
    refine ⟨noEscape_menuEntry (hkver row hrow) hprms hname, ?_⟩
    rw [hfront]
    exact (getLast?_append_bare hprms hne).2
  have hheader := clean_header sys.kvers.length
  have hlast : (substituted (genMenuHeader sys.kvers.length)).getLast? ≠ some '\\' :=
    fun h => hheader (List.mem_of_getLast? h)
  have hopen : "\\n\\n".toList = ['\\', 'n', '\\', 'n'] := rfl
  rw [mkExtlinux]
  simp only [hdtb, hcmd]
  rw [hitems, echo, List.append_assoc, echoed_append (noEscape_of_not_mem hheader) hlast, hopen]
  simp only [List.cons_append, List.nil_append]
  rw [echoed_newline, echoed_newline, echoed_entries hentries]
  simp only [Bool.false_eq_true, if_false]
  rw [extlinuxConf]
  have hline : "\n\n".toList = ['\n', '\n'] := rfl
  rw [hline]
  simp only [List.append_assoc, List.cons_append, List.nil_append]
  rfl

end Boot2Deb.Engine.BootConfig
