import Boot2Deb.Rust.Lines
import Boot2Deb.Rust.Outcome
import Boot2Deb.Lib.SortedMap

/-!
# Initramfs module coverage (`core/src/initramfs.rs`)

The report of a built initrd, and the verdict on it against the listed modules. `module_file_key`
reads the name of a module file off its path whatever tree it lies in, and `in_module_tree` asks for
a tree of modules, not for the one of the kernel the report names.
-/

namespace Boot2Deb.Core.Initramfs
open Rust

/-! ### Names -/

def COMPRESSION_SUFFIXES : List Str := [".xz".toList, ".zst".toList, ".gz".toList]

/-- `module_key`: `-` and `_` are one character. -/
def moduleKey (name : Str) : Str := replaceChar name '-' '_'

def stripCompression (path : Str) : Str :=
  (COMPRESSION_SUFFIXES.findSome? (stripSuffix path)).getD path

/-- `module_file_key`: the key of a module file's name, its directories and suffixes off. -/
def moduleFileKey (path : Str) : Option Str :=
  match stripSuffix (stripCompression (path.rtakeWhile (· ≠ '/'))) ".ko".toList with
  | none => none
  | some stem => if stem.isEmpty then none else some (moduleKey stem)

/-- `trim_start_matches("./")`. -/
def trimDotSlash : Str → Str
  | '.' :: '/' :: path => trimDotSlash path
  | path => path

/-- An archive path from its root on, the merged `/usr` taken off. -/
def fromRoot (path : Str) : Str :=
  let rel := (trimDotSlash path).dropWhile (· = '/')
  (stripPrefix rel "usr/".toList).getD rel

def inModuleTree (path : Str) : Bool := "lib/modules/".toList.isPrefixOf (fromRoot path)

def firmwareFile (path : Str) : Option Str :=
  (stripPrefix (fromRoot path) "lib/firmware/".toList).map stripCompression

/-- `firmware_matches`: `*` stands for any text. -/
def firmwareMatches (pattern name : Str) : Bool :=
  match _h : splitOnce pattern '*' with
  | none => pattern = name
  | some (head, rest) =>
    match stripPrefix name head with
    | none => false
    | some afterHead => afterHead.tails.any fun tail => firmwareMatches rest tail
termination_by pattern.length
decreasing_by
  obtain ⟨rfl, -⟩ := eq_of_splitOnce _h
  simp
  omega

/-! ### The report -/

/-- What `InitrdReport::parse` refuses, with what its message names. -/
inductive ReportError where
  | untagged (line : Str)
  | secondKernel (line : Str)
  | firmwareWithoutFile (line : Str)
  | unknownTag (tag line : Str)
  | noKernel
deriving DecidableEq

structure InitrdReport where
  kernel : Str
  initrd : List Str
  builtin : List Str
  firmware : List (Str × Str)
deriving DecidableEq

/-- The report under way: its kernel line may still come. -/
structure Reading where
  kernel : Option Str
  initrd : List Str
  builtin : List Str
  firmware : List (Str × Str)
deriving DecidableEq

/-- One round of the loop over the lines. -/
def Reading.line (st : Reading) (line : Str) : Outcome ReportError Reading :=
  if (trim line).isEmpty then .ok st
  else match splitOnce line ' ' with
    | none => .err (.untagged line)
    | some (tag, rest) =>
      if tag = "kernel".toList then
        if st.kernel.isSome then .err (.secondKernel line) else .ok { st with kernel := some rest }
      else if tag = "initrd".toList then .ok { st with initrd := st.initrd ++ [rest] }
      else if tag = "builtin".toList then .ok { st with builtin := st.builtin ++ [rest] }
      else if tag = "firmware".toList then
        match splitOnce rest ' ' with
        | none => .err (.firmwareWithoutFile line)
        | some row => .ok { st with firmware := st.firmware ++ [row] }
      else .err (.unknownTag tag line)

def Reading.lines (st : Reading) : List Str → Outcome ReportError Reading
  | [] => .ok st
  | line :: rest => (st.line line).bind fun st => st.lines rest

/-- `InitrdReport::parse`. -/
def InitrdReport.parse (text : Str) : Outcome ReportError InitrdReport :=
  (Reading.lines ⟨none, [], [], []⟩ (Rust.lines text)).bind fun st =>
    match st.kernel with
    | none => .err .noKernel
    | some kernel => .ok ⟨kernel, st.initrd, st.builtin, st.firmware⟩

namespace InitrdReport
variable (report : InitrdReport)

/-- `initrd_modules`: the set, as the list of what goes in. -/
def initrdModules : List Str := (report.initrd.filter inModuleTree).filterMap moduleFileKey

def builtinModules : List Str := report.builtin.filterMap moduleFileKey

def initrdFirmware : List Str := report.initrd.filterMap firmwareFile

end InitrdReport

/-! ### The verdict -/

structure MissingFirmware where
  module : Str
  firmware : List Str
deriving DecidableEq

structure Coverage where
  inInitrd : List Str
  builtIn : List Str
  missing : List Str
  missingFirmware : List MissingFirmware
deriving DecidableEq

/-- `Coverage::complete`. -/
def Coverage.complete (c : Coverage) : Bool := c.missing.isEmpty

/-- One round of the loop over the listed names. -/
def Coverage.judge (report : InitrdReport) (verdict : Coverage) (name : Str) : Coverage :=
  if moduleKey name ∈ report.initrdModules then
    { verdict with inInitrd := verdict.inInitrd ++ [name] }
  else if moduleKey name ∈ report.builtinModules then
    { verdict with builtIn := verdict.builtIn ++ [name] }
  else { verdict with missing := verdict.missing ++ [name] }

/-- The firmware every module in the initrd declares, by the key of the module. -/
def declared (report : InitrdReport) : List (Str × List Str) :=
  report.firmware.foldl (fun rows row =>
    match moduleFileKey row.1 with
    | none => rows
    | some key => insertRow key ((lookup key rows).getD [] ++ [row.2]) rows) []

/-- `coverage`. -/
def coverage (listed : List Str) (report : InitrdReport) : Coverage :=
  let verdict := listed.foldl (Coverage.judge report) ⟨[], [], [], []⟩
  let held := report.initrdFirmware
  { verdict with
    missingFirmware := ((declared report).filter fun row =>
      !row.2.any fun pattern => held.any (firmwareMatches pattern)).map fun row => ⟨row.1, row.2⟩ }

/-! ### The buckets -/

variable {listed : List Str} {report : InitrdReport} {name path key : Str}

/-- Every listed name goes into the bucket of its key, in the order of the list. -/
theorem foldl_judge (verdict : Coverage) : listed.foldl (Coverage.judge report) verdict =
    { verdict with
      inInitrd := verdict.inInitrd ++ listed.filter fun n => moduleKey n ∈ report.initrdModules
      builtIn := verdict.builtIn ++ listed.filter fun n =>
        moduleKey n ∉ report.initrdModules ∧ moduleKey n ∈ report.builtinModules
      missing := verdict.missing ++ listed.filter fun n =>
        moduleKey n ∉ report.initrdModules ∧ moduleKey n ∉ report.builtinModules } := by
  induction listed generalizing verdict with
  | nil => simp
  | cons name listed ih =>
    rw [List.foldl_cons, ih, Coverage.judge]
    by_cases hin : moduleKey name ∈ report.initrdModules
    · simp [hin]
    · by_cases hbuilt : moduleKey name ∈ report.builtinModules
      · simp [hin, hbuilt]
      · simp [hin, hbuilt]

theorem mem_inInitrd : name ∈ (coverage listed report).inInitrd ↔
    name ∈ listed ∧ moduleKey name ∈ report.initrdModules := by
  simp [coverage, foldl_judge]

theorem mem_builtIn : name ∈ (coverage listed report).builtIn ↔
    name ∈ listed ∧ moduleKey name ∉ report.initrdModules ∧
      moduleKey name ∈ report.builtinModules := by
  simp [coverage, foldl_judge]

theorem mem_missing : name ∈ (coverage listed report).missing ↔
    name ∈ listed ∧ moduleKey name ∉ report.initrdModules ∧
      moduleKey name ∉ report.builtinModules := by
  simp [coverage, foldl_judge]

/-! ### Module files -/

/-- The ways a path starts at the root of the archive. -/
def IsRoot (root : Str) : Prop :=
  ∃ (m n : ℕ) (usr : Str), (usr = [] ∨ usr = "usr/".toList) ∧
    root = (List.replicate m "./".toList).flatten ++ List.replicate n '/' ++ usr

/-- A directory, or nothing: what may stand before a file name. -/
def IsDir (dir : Str) : Prop := dir = [] ∨ dir.getLast? = some '/'

/-- `path` lies below `tree`, a directory from the root of the archive. -/
def Below (tree path : Str) : Prop := ∃ root rest, IsRoot root ∧ path = root ++ tree ++ rest

/-- `path` is a module file of the given name: `-` and `_` are one, any compression will do. -/
def IsModuleFile (name path : Str) : Prop :=
  ∃ dir stem suffix, path = dir ++ stem ++ ".ko".toList ++ suffix ∧ IsDir dir ∧ '/' ∉ stem ∧
    stem ≠ [] ∧ suffix ∈ [] :: COMPRESSION_SUFFIXES ∧ moduleKey stem = moduleKey name

/-- The tree of one kernel release. -/
def treeOf (release : Str) : Str := "lib/modules/".toList ++ release ++ ['/']

/-- The initrd holds a module of this name below `tree`. -/
def Holds (report : InitrdReport) (tree name : Str) : Prop :=
  ∃ path ∈ report.initrd, Below tree path ∧ IsModuleFile name path

/-! ### Paths from the root -/

theorem trimDotSlash_of_head {c : Char} (h : path.head? = some c) (hc : c ≠ '.') :
    trimDotSlash path = path := by
  obtain ⟨t, rfl⟩ := List.head?_eq_some_iff.mp h
  rw [trimDotSlash]
  intro rest hrest
  exact hc (List.cons.inj hrest).1

theorem trimDotSlash_append (m : ℕ) (path : Str) :
    trimDotSlash ((List.replicate m "./".toList).flatten ++ path) = trimDotSlash path := by
  induction m with
  | zero => rfl
  | succ m ih =>
    rw [List.replicate_succ, List.flatten_cons, List.append_assoc]
    exact ih

theorem exists_trimDotSlash (path : Str) :
    ∃ m, path = (List.replicate m "./".toList).flatten ++ trimDotSlash path := by
  fun_induction trimDotSlash path with
  | case1 path ih =>
    obtain ⟨m, hm⟩ := ih
    refine ⟨m + 1, ?_⟩
    rw [List.replicate_succ, List.flatten_cons, List.append_assoc, ← hm]
    rfl
  | case2 path _ => exact ⟨0, rfl⟩

theorem exists_root (path : Str) : ∃ root, IsRoot root ∧ path = root ++ fromRoot path := by
  obtain ⟨m, hm⟩ := exists_trimDotSlash path
  have hslash : ∃ n, trimDotSlash path =
      List.replicate n '/' ++ (trimDotSlash path).dropWhile (· = '/') := by
    refine ⟨((trimDotSlash path).takeWhile (· = '/')).length, ?_⟩
    conv_lhs => rw [← List.takeWhile_append_dropWhile (p := (· = '/')) (l := trimDotSlash path)]
    congr 1
    exact List.eq_replicate_of_mem fun c hc => by simpa using List.mem_takeWhile_imp hc
  obtain ⟨n, hn⟩ := hslash
  rw [fromRoot]
  cases husr : stripPrefix ((trimDotSlash path).dropWhile (· = '/')) "usr/".toList with
  | none =>
    refine ⟨_, ⟨m, n, [], Or.inl rfl, rfl⟩, ?_⟩
    rw [Option.getD_none, List.append_nil, List.append_assoc, ← hn, ← hm]
  | some rel =>
    refine ⟨_, ⟨m, n, _, Or.inr rfl, rfl⟩, ?_⟩
    rw [Option.getD_some, List.append_assoc, ← stripPrefix_eq_some.mp husr, List.append_assoc, ← hn,
      ← hm]

/-- What follows the root of a path, when it is spelled from a letter on. -/
theorem fromRoot_append {root rel : Str} (hroot : IsRoot root) {t : Str} (hrel : rel = 'l' :: t) :
    fromRoot (root ++ rel) = rel := by
  obtain ⟨m, n, usr, husr, rfl⟩ := hroot
  have hstart : ∃ c s, usr ++ rel = c :: s ∧ c ≠ '.' ∧ c ≠ '/' := by
    rcases husr with rfl | rfl
    · exact ⟨'l', t, hrel, by decide, by decide⟩
    · exact ⟨'u', "sr/".toList ++ rel, rfl, by decide, by decide⟩
  obtain ⟨c, s, hcs, hdot, hslash⟩ := hstart
  have htrim : trimDotSlash (List.replicate n '/' ++ (usr ++ rel)) =
      List.replicate n '/' ++ (usr ++ rel) := by
    rcases n with - | n
    · exact trimDotSlash_of_head (c := c) (by rw [hcs]; rfl) hdot
    · exact trimDotSlash_of_head (c := '/') rfl (by decide)
  have hdrop : (List.replicate n '/' ++ (usr ++ rel)).dropWhile (· = '/') = usr ++ rel := by
    rw [List.dropWhile_append_of_pos fun d hd => by simp [List.eq_of_mem_replicate hd], hcs,
      List.dropWhile_cons_of_neg (by simpa using hslash)]
  rw [fromRoot, List.append_assoc, List.append_assoc, trimDotSlash_append, htrim]
  simp only [hdrop]
  rcases husr with rfl | rfl
  · have hnone : stripPrefix ([] ++ rel) "usr/".toList = none := by
      rw [List.nil_append, hrel]
      cases h : stripPrefix ('l' :: t) "usr/".toList with
      | none => rfl
      | some x => exact absurd (stripPrefix_eq_some.mp h) (by simp)
    rw [hnone]
    rfl
  · rw [stripPrefix_eq_some.mpr rfl]
    rfl

/-- A path is below a tree exactly if it continues it from the root. -/
theorem below_iff {tree t : Str} (htree : tree = 'l' :: t) :
    Below tree path ↔ tree <+: fromRoot path := by
  constructor
  · rintro ⟨root, rest, hroot, rfl⟩
    rw [List.append_assoc, fromRoot_append hroot (t := t ++ rest) (by rw [htree]; rfl)]
    exact List.prefix_append ..
  · rintro ⟨rest, hrest⟩
    obtain ⟨root, hroot, hpath⟩ := exists_root path
    exact ⟨root, rest, hroot, by rw [List.append_assoc, hrest, ← hpath]⟩

theorem inModuleTree_iff : inModuleTree path = true ↔ Below "lib/modules/".toList path := by
  rw [inModuleTree, List.isPrefixOf_iff_prefix]
  exact (below_iff (t := "ib/modules/".toList) rfl).symm

/-! ### Names of module files -/

theorem file_of_append {dir file : Str} (h : IsDir dir) (hfile : '/' ∉ file) :
    (dir ++ file).rtakeWhile (· ≠ '/') = file := by
  have hall : ∀ c ∈ file, decide (c ≠ '/') = true := fun c hc =>
    decide_eq_true fun heq => hfile (heq ▸ hc)
  rcases h with rfl | h
  · rw [List.nil_append, List.rtakeWhile_eq_self_iff]
    exact hall
  · obtain ⟨front, rfl⟩ := List.getLast?_eq_some_iff.mp h
    have hdir : (front ++ ['/']).reverse = '/' :: front.reverse := by simp
    rw [List.rtakeWhile, List.reverse_append,
      List.takeWhile_append_of_pos fun c hc => hall c (List.mem_reverse.mp hc), hdir,
      List.takeWhile_cons_of_neg (by decide), List.append_nil, List.reverse_reverse]

theorem exists_dir (path : Str) : ∃ dir, IsDir dir ∧ path = dir ++ path.rtakeWhile (· ≠ '/') := by
  refine ⟨path.rdropWhile (· ≠ '/'), ?_, List.rdropWhile_append_rtakeWhile.symm⟩
  by_cases hnil : path.rdropWhile (· ≠ '/') = []
  · exact Or.inl hnil
  · have hlast := List.rdropWhile_last_not (· ≠ '/') path hnil
    refine Or.inr ?_
    rw [List.getLast?_eq_some_getLast hnil]
    simpa using hlast

theorem stripCompression_cases (file : Str) :
    ∃ suffix ∈ [] :: COMPRESSION_SUFFIXES, file = stripCompression file ++ suffix := by
  rw [stripCompression]
  cases h : COMPRESSION_SUFFIXES.findSome? (stripSuffix file) with
  | none => exact ⟨[], List.mem_cons_self .., by simp⟩
  | some front =>
    obtain ⟨suffix, hmem, hsuffix⟩ := List.exists_of_findSome?_eq_some h
    exact ⟨suffix, List.mem_cons_of_mem _ hmem, stripSuffix_eq_some.mp hsuffix⟩

theorem stripSuffix_other {s t : Str} (front : Str) (hs : ¬s <:+ t) (ht : ¬t <:+ s) :
    stripSuffix (front ++ s) t = none := by
  refine stripSuffix_eq_none fun h => ?_
  exact (List.suffix_or_suffix_of_suffix h (List.suffix_append front s)).elim ht hs

/-- A module file keeps its name whatever it is compressed with. -/
theorem stripCompression_append {suffix : Str} (stem : Str)
    (h : suffix ∈ [] :: COMPRESSION_SUFFIXES) :
    stripCompression (stem ++ ".ko".toList ++ suffix) = stem ++ ".ko".toList := by
  simp only [COMPRESSION_SUFFIXES, List.mem_cons, List.not_mem_nil, or_false] at h
  rw [stripCompression, COMPRESSION_SUFFIXES]
  rcases h with rfl | rfl | rfl | rfl
  · rw [List.append_nil, List.findSome?_cons, stripSuffix_other _ (by decide) (by decide),
      List.findSome?_cons, stripSuffix_other _ (by decide) (by decide), List.findSome?_cons,
      stripSuffix_other _ (by decide) (by decide)]
    rfl
  · rw [List.findSome?_cons, stripSuffix_eq_some.mpr rfl]
    rfl
  · rw [List.findSome?_cons, stripSuffix_other _ (by decide) (by decide), List.findSome?_cons,
      stripSuffix_eq_some.mpr rfl]
    rfl
  · rw [List.findSome?_cons, stripSuffix_other _ (by decide) (by decide), List.findSome?_cons,
      stripSuffix_other _ (by decide) (by decide), List.findSome?_cons, stripSuffix_eq_some.mpr rfl]
    rfl

theorem slash_notMem_suffix {suffix : Str} (h : suffix ∈ [] :: COMPRESSION_SUFFIXES) :
    '/' ∉ suffix := by
  revert suffix
  decide

/-- The key of a path is that of the module file it is. -/
theorem moduleFileKey_eq_some :
    moduleFileKey path = some (moduleKey name) ↔ IsModuleFile name path := by
  constructor
  · intro h
    obtain ⟨dir, hdir, hpath⟩ := exists_dir path
    have hslash : '/' ∉ path.rtakeWhile (· ≠ '/') := fun hc => by
      simpa using List.mem_rtakeWhile_imp hc
    rw [moduleFileKey] at h
    generalize path.rtakeWhile (· ≠ '/') = file at h hpath hslash
    obtain ⟨suffix, hsuffix, hfile⟩ := stripCompression_cases file
    cases hstem : stripSuffix (stripCompression file) ".ko".toList with
    | none =>
      rw [hstem] at h
      cases h
    | some stem =>
      rw [hstem] at h
      simp only at h
      split_ifs at h with hempty
      rw [stripSuffix_eq_some.mp hstem] at hfile
      refine ⟨dir, stem, suffix, ?_, hdir, ?_, by simpa using hempty, hsuffix, Option.some.inj h⟩
      · rw [hpath, hfile, List.append_assoc, List.append_assoc, List.append_assoc]
      · exact fun hc => hslash (hfile ▸ List.mem_append_left _ (List.mem_append_left _ hc))
  · rintro ⟨dir, stem, suffix, rfl, hdir, hslash, hne, hsuffix, hkey⟩
    have hfile : '/' ∉ stem ++ ".ko".toList ++ suffix := by
      simp only [List.mem_append, not_or]
      exact ⟨⟨hslash, by decide⟩, slash_notMem_suffix hsuffix⟩
    have hassoc : dir ++ stem ++ ".ko".toList ++ suffix = dir ++ (stem ++ ".ko".toList ++ suffix) := by
      simp only [List.append_assoc]
    rw [moduleFileKey, hassoc, file_of_append hdir hfile, stripCompression_append stem hsuffix,
      stripSuffix_eq_some.mpr rfl]
    simp only
    rw [if_neg (by simpa using hne), hkey]

/-! ### Firmware patterns -/

/-- A name a pattern stands for: `*` for any text, every other character for itself. -/
inductive Glob : Str → Str → Prop where
  | done : Glob [] []
  | char {c : Char} {pattern name : Str} (hc : c ≠ '*') (tail : Glob pattern name) :
      Glob (c :: pattern) (c :: name)
  | star {pattern name : Str} (skip : Str) (tail : Glob pattern name) :
      Glob ('*' :: pattern) (skip ++ name)

theorem glob_append {head rest : Str} (hhead : '*' ∉ head) :
    Glob (head ++ rest) name ↔ ∃ after, name = head ++ after ∧ Glob rest after := by
  induction head generalizing name with
  | nil => simp
  | cons c head ih =>
    obtain ⟨hc, hhead⟩ := not_or.mp (List.mem_cons.not.mp hhead)
    constructor
    · intro h
      cases h with
      | char _ tail =>
        obtain ⟨after, rfl, hafter⟩ := (ih hhead).mp tail
        exact ⟨after, rfl, hafter⟩
      | star skip tail => exact absurd rfl hc
    · rintro ⟨after, rfl, hafter⟩
      exact .char (fun heq => hc heq.symm) ((ih hhead).mpr ⟨after, rfl, hafter⟩)

theorem glob_star {rest : Str} : Glob ('*' :: rest) name ↔ ∃ tail, tail <:+ name ∧ Glob rest tail := by
  constructor
  · intro h
    cases h with
    | char hc _ => exact absurd rfl hc
    | star skip tail => exact ⟨_, List.suffix_append .., tail⟩
  · rintro ⟨tail, ⟨skip, rfl⟩, htail⟩
    exact .star skip htail

/-- The pattern matcher is what its patterns mean. -/
theorem firmwareMatches_iff (pattern name : Str) :
    firmwareMatches pattern name = true ↔ Glob pattern name := by
  fun_induction firmwareMatches pattern name with
  | case1 pattern name h =>
    have hglob := @glob_append name pattern [] (splitOnce_eq_none.mp h)
    rw [List.append_nil] at hglob
    rw [decide_eq_true_iff, hglob]
    constructor
    · rintro rfl
      exact ⟨[], (List.append_nil _).symm, .done⟩
    · rintro ⟨after, rfl, hafter⟩
      cases hafter
      rw [List.append_nil]
  | case2 pattern name head rest h hnone =>
    obtain ⟨rfl, hhead⟩ := eq_of_splitOnce h
    rw [glob_append hhead]
    constructor
    · exact fun hfalse => absurd hfalse Bool.false_ne_true
    · rintro ⟨after, rfl, -⟩
      rw [stripPrefix_eq_some.mpr rfl] at hnone
      cases hnone
  | case3 pattern name head rest h after hafter ih =>
    obtain ⟨rfl, hhead⟩ := eq_of_splitOnce h
    obtain rfl := stripPrefix_eq_some.mp hafter
    rw [glob_append hhead, List.any_eq_true]
    constructor
    · rintro ⟨tail, htail, hmatch⟩
      exact ⟨after, rfl, glob_star.mpr ⟨tail, (List.mem_tails _ _).mp htail, (ih tail).mp hmatch⟩⟩
    · rintro ⟨after', hsame, hglob⟩
      obtain rfl := List.append_cancel_left hsame
      obtain ⟨tail, htail, hrest⟩ := glob_star.mp hglob
      exact ⟨tail, (List.mem_tails _ _).mpr htail, (ih tail).mpr hrest⟩

/-! ### What a report holds -/

/-- The rest of the lines with a tag, in order. -/
def tagged (tag : Str) (ls : List Str) : List Str :=
  (ls.filter fun l => !(trim l).isEmpty).filterMap fun l =>
    match splitOnce l ' ' with
    | some (t, rest) => if t = tag then some rest else none
    | none => none

theorem mem_initrdModules : moduleKey name ∈ report.initrdModules ↔
    Holds report "lib/modules/".toList name := by
  rw [InitrdReport.initrdModules, List.mem_filterMap]
  constructor
  · rintro ⟨path, hpath, hkey⟩
    obtain ⟨hmem, htree⟩ := List.mem_filter.mp hpath
    exact ⟨path, hmem, inModuleTree_iff.mp htree, moduleFileKey_eq_some.mp hkey⟩
  · rintro ⟨path, hmem, htree, hfile⟩
    exact ⟨path, List.mem_filter.mpr ⟨hmem, inModuleTree_iff.mpr htree⟩,
      moduleFileKey_eq_some.mpr hfile⟩

theorem Below.of_release {release : Str} (h : Below (treeOf release) path) :
    Below "lib/modules/".toList path := by
  obtain ⟨root, rest, hroot, rfl⟩ := h
  refine ⟨root, release ++ ['/'] ++ rest, hroot, ?_⟩
  unfold treeOf
  generalize "lib/modules/".toList = modules
  simp only [List.append_assoc]

theorem Holds.of_release {release : Str} (h : Holds report (treeOf release) name) :
    Holds report "lib/modules/".toList name := by
  obtain ⟨path, hmem, hbelow, hfile⟩ := h
  exact ⟨path, hmem, hbelow.of_release, hfile⟩

/-- One of three and no other. -/
def ExactlyOne (a b c : Prop) : Prop := (a ∧ ¬b ∧ ¬c) ∨ (¬a ∧ b ∧ ¬c) ∨ (¬a ∧ ¬b ∧ c)

/-- Every listed name is in one list, in that of the initrd exactly if the tree of the reported
kernel holds a module of the name. -/
structure CoverageExact (listed : List Str) (report : InitrdReport) : Prop where
  once : ∀ name ∈ listed, ExactlyOne (name ∈ (coverage listed report).inInitrd)
    (name ∈ (coverage listed report).missing) (name ∈ (coverage listed report).builtIn)
  covered : ∀ name ∈ listed, name ∈ (coverage listed report).inInitrd ↔
    Holds report (treeOf report.kernel) name

theorem coverage_once (hname : name ∈ listed) :
    ExactlyOne (name ∈ (coverage listed report).inInitrd)
      (name ∈ (coverage listed report).missing) (name ∈ (coverage listed report).builtIn) := by
  rw [ExactlyOne, mem_inInitrd, mem_missing, mem_builtIn]
  by_cases hin : moduleKey name ∈ report.initrdModules
  · exact Or.inl ⟨⟨hname, hin⟩, fun h => h.2.1 hin, fun h => h.2.1 hin⟩
  · by_cases hbuilt : moduleKey name ∈ report.builtinModules
    · exact Or.inr (Or.inr ⟨fun h => hin h.2, fun h => h.2.2 hbuilt, hname, hin, hbuilt⟩)
    · exact Or.inr (Or.inl ⟨fun h => hin h.2, ⟨hname, hin, hbuilt⟩, fun h => hbuilt h.2.2⟩)

/-- No listed module lies in trees of other kernels only. -/
def NoneAstray (listed : List Str) (report : InitrdReport) : Prop :=
  ∀ name ∈ listed, Holds report "lib/modules/".toList name → Holds report (treeOf report.kernel) name

/-- The coverage of an initrd is exact exactly if no listed module lies astray. -/
theorem coverage_exact (listed : List Str) (report : InitrdReport) :
    CoverageExact listed report ↔ NoneAstray listed report := by
  constructor
  · intro h name hname hholds
    exact (h.covered name hname).mp (mem_inInitrd.mpr ⟨hname, mem_initrdModules.mpr hholds⟩)
  · intro h
    refine ⟨fun name hname => coverage_once hname, fun name hname => ?_⟩
    rw [mem_inInitrd, mem_initrdModules]
    exact ⟨fun hin => h name hname hin.2, fun hholds => ⟨hname, hholds.of_release⟩⟩

/-- A module of another kernel counts as a module of the one that boots. -/
theorem module_astray_covered :
    (coverage ["mmc".toList]
        ⟨"7.2.8".toList, ["usr/lib/modules/6.1.0/mmc.ko".toList], [], []⟩).inInitrd = ["mmc".toList] ∧
      ¬Holds ⟨"7.2.8".toList, ["usr/lib/modules/6.1.0/mmc.ko".toList], [], []⟩
        (treeOf "7.2.8".toList) "mmc".toList := by
  refine ⟨by decide +kernel, ?_⟩
  rintro ⟨path, hmem, hbelow, -⟩
  obtain rfl := List.mem_singleton.mp hmem
  exact absurd ((below_iff (t := "ib/modules/7.2.8/".toList) rfl).mp hbelow) (by decide)

/-! ### Parsing -/

theorem tagged_blank {tag l : Str} (h : (trim l).isEmpty = true) : tagged tag [l] = [] := by
  simp [tagged, h]

theorem tagged_line {tag l t rest : Str} (h : (trim l).isEmpty = false)
    (hsplit : splitOnce l ' ' = some (t, rest)) :
    tagged tag [l] = if t = tag then [rest] else [] := by
  by_cases heq : t = tag <;> simp [tagged, h, hsplit, heq]

theorem tagged_cons (tag l : Str) (ls : List Str) :
    tagged tag (l :: ls) = tagged tag [l] ++ tagged tag ls := by
  rw [tagged, tagged, tagged, ← List.filterMap_append, ← List.filter_append, List.singleton_append]

/-- What one line adds to a reading. -/
theorem line_eq_ok {st st' : Reading} {l : Str} (h : st.line l = .ok st') :
    st'.initrd = st.initrd ++ tagged "initrd".toList [l] ∧
      st'.builtin = st.builtin ++ tagged "builtin".toList [l] ∧
      st'.kernel.toList = st.kernel.toList ++ tagged "kernel".toList [l] := by
  rw [Reading.line] at h
  by_cases hempty : (trim l).isEmpty = true
  · rw [if_pos hempty] at h
    obtain rfl := Outcome.ok.inj h
    rw [tagged_blank hempty, tagged_blank hempty, tagged_blank hempty, List.append_nil,
      List.append_nil, List.append_nil]
    exact ⟨rfl, rfl, rfl⟩
  · rw [if_neg hempty] at h
    rw [Bool.not_eq_true] at hempty
    cases hsplit : splitOnce l ' ' with
    | none =>
      rw [hsplit] at h
      cases h
    | some row =>
      obtain ⟨t, rest⟩ := row
      rw [hsplit] at h
      rw [tagged_line hempty hsplit, tagged_line hempty hsplit, tagged_line hempty hsplit]
      have hkernel : "kernel".toList ≠ "initrd".toList ∧ "kernel".toList ≠ "builtin".toList := by decide
      have hinitrd : "initrd".toList ≠ "builtin".toList := by decide
      have hfirmware : "firmware".toList ≠ "initrd".toList ∧ "firmware".toList ≠ "builtin".toList ∧
        "firmware".toList ≠ "kernel".toList := by decide
      generalize "kernel".toList = kernel at *
      generalize "initrd".toList = initrd at *
      generalize "builtin".toList = builtin at *
      generalize "firmware".toList = firmware at *
      dsimp only at h
      by_cases hk : t = kernel
      · subst hk
        rw [if_pos rfl] at h
        split_ifs at h with hsecond
        obtain rfl := Outcome.ok.inj h
        rw [if_neg hkernel.1, if_neg hkernel.2, if_pos rfl]
        simpa using hsecond
      · rw [if_neg hk] at h
        rw [if_neg hk]
        by_cases hi : t = initrd
        · subst hi
          rw [if_pos rfl] at h
          obtain rfl := Outcome.ok.inj h
          simp [hinitrd]
        · rw [if_neg hi] at h
          rw [if_neg hi]
          by_cases hb : t = builtin
          · subst hb
            rw [if_pos rfl] at h
            obtain rfl := Outcome.ok.inj h
            simp
          · rw [if_neg hb] at h
            rw [if_neg hb]
            split_ifs at h
            split at h
            · cases h
            · obtain rfl := Outcome.ok.inj h
              simp

/-- What a reading has taken of the lines. -/
theorem lines_eq_ok {st st' : Reading} {ls : List Str} (h : st.lines ls = .ok st') :
    st'.initrd = st.initrd ++ tagged "initrd".toList ls ∧
      st'.builtin = st.builtin ++ tagged "builtin".toList ls ∧
      st'.kernel.toList = st.kernel.toList ++ tagged "kernel".toList ls := by
  induction ls generalizing st with
  | nil =>
    obtain rfl := Outcome.ok.inj h
    exact ⟨(List.append_nil _).symm, (List.append_nil _).symm, (List.append_nil _).symm⟩
  | cons l ls ih =>
    obtain ⟨mid, hline, hrest⟩ := Outcome.bind_eq_ok.mp h
    obtain ⟨hinitrd, hbuiltin, hkernel⟩ := line_eq_ok hline
    obtain ⟨hinitrd', hbuiltin', hkernel'⟩ := ih hrest
    refine ⟨?_, ?_, ?_⟩
    · rw [tagged_cons, ← List.append_assoc, ← hinitrd, hinitrd']
    · rw [tagged_cons, ← List.append_assoc, ← hbuiltin, hbuiltin']
    · rw [tagged_cons, ← List.append_assoc, ← hkernel, hkernel']

/-- A report that is read lists what its lines do, and names the one kernel they do. -/
theorem parse_eq_ok {text : Str} (h : InitrdReport.parse text = .ok report) :
    report.initrd = tagged "initrd".toList (lines text) ∧
      report.builtin = tagged "builtin".toList (lines text) ∧
      [report.kernel] = tagged "kernel".toList (lines text) := by
  obtain ⟨st, hst, h⟩ := Outcome.bind_eq_ok.mp h
  obtain ⟨hinitrd, hbuiltin, hkernel⟩ := lines_eq_ok hst
  cases hk : st.kernel with
  | none =>
    rw [hk] at h
    cases h
  | some kernel =>
    rw [hk] at h hkernel
    obtain rfl := Outcome.ok.inj h
    exact ⟨hinitrd, hbuiltin, hkernel⟩

end Boot2Deb.Core.Initramfs
