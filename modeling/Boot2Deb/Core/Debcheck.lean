import Mathlib
import Boot2Deb.Rust.Str

/-!
# The package policy

`check` holds a `.deb` to the rules of the local repository, the member paths as the archive spells
them. What `dpkg` unpacks goes by the components of a path without the empty and `.` ones, so a rule
that tests a prefix of the text sees one spelling of many. A package without findings holds to the
policy in every spelling exactly if no member lies at or below a path such a rule names, unless it
breaks another rule anyway: `policy_holds_iff`.
-/

namespace Boot2Deb.Core.Debcheck

open Rust

/-- `model::Arch`. -/
inductive Arch where
  | arm64
  | armv7
  | riscv64
deriving DecidableEq

def Arch.debianArch : Arch → Str
  | arm64 => "arm64".toList
  | armv7 => "armhf".toList
  | riscv64 => "riscv64".toList

/-- The control fields a package must have. -/
def REQUIRED_FIELDS : List Str := ["Package".toList, "Version".toList, "Architecture".toList,
  "Maintainer".toList, "Description".toList]

/-- The directories whose contents run on another processor. -/
def FIRMWARE_DIRS : List Str := ["./lib/firmware/".toList, "./usr/lib/firmware/".toList]

inductive EntryKind where
  | file
  | dir
  | symlink
  | hardlink
  | other
deriving DecidableEq

structure ElfIdent where
  wide : Bool
  machine : UInt16
deriving DecidableEq

/-- The identity of an object built for an architecture. -/
def targetElf : Arch → ElfIdent
  | .arm64 => ⟨true, 183⟩
  | .armv7 => ⟨false, 40⟩
  | .riscv64 => ⟨true, 243⟩

structure DebEntry where
  path : Str
  kind : EntryKind
  mode : UInt32
  uid : UInt64
  gid : UInt64
  elf : Option ElfIdent

/-- The control fields and the data members, in archive order. -/
structure DebContents where
  control : Str → Option Str
  entries : List DebEntry

inductive Rule where
  | controlField
  | architecture
  | foreignElf
  | elfInArchAll
  | owner
  | setuid
  | worldWritable
  | usrLocal
  | memberPath
  | empty
deriving DecidableEq

/-- One broken rule, the member it was broken by, and what was found. -/
structure Finding where
  rule : Rule
  path : Option Str
  detail : Str

/-- `{:04o}`. -/
def octal (mode : UInt32) : Str := List.leftpad 4 '0' (Nat.toDigits 8 mode.toNat)

def bits (elf : ElfIdent) : Str := if elf.wide then "64".toList else "32".toList

/-- A required field is there and not blank. -/
def hasField (control : Str → Option Str) (field : Str) : Bool :=
  (control field).any fun v => !(trim v).isEmpty

def packageArch (control : Str → Option Str) : Str :=
  ((control "Architecture".toList).map trim).getD []

def checkControl (control : Str → Option Str) (arch : Arch) : List Finding :=
  ((REQUIRED_FIELDS.filter fun field => !hasField control field).map fun field =>
    ⟨.controlField, none, "the control file has no ".toList ++ field ++ " field".toList⟩) ++
  if packageArch control ≠ [] ∧ packageArch control ≠ "all".toList ∧
      packageArch control ≠ arch.debianArch then
    [⟨.architecture, none, "Architecture is ".toList ++ packageArch control ++
      ", and this build targets ".toList ++ arch.debianArch⟩]
  else []

section Member
variable (e : DebEntry)

def DebEntry.finding (rule : Rule) (detail : Str) : Finding := ⟨rule, some e.path, detail⟩

/-- Neither relative to `./`, nor the root itself, or stepping through `..`. -/
def isBadPath : Bool :=
  e.path ≠ "./".toList && e.path ≠ ['.'] &&
    (!"./".toList.isPrefixOf e.path || (e.path.splitOn '/').contains "..".toList)

def isForeignOwned : Bool := e.uid ≠ 0 || e.gid ≠ 0

def isSetuid : Bool := e.kind ≠ .symlink && e.mode &&& 0o6000 ≠ 0

/-- A sticky directory may be writable by everyone. -/
def isWorldWritable : Bool :=
  e.kind ≠ .symlink && e.mode &&& 0o002 ≠ 0 && !(e.kind = .dir && e.mode &&& 0o1000 ≠ 0)

def isUsrLocal : Bool := "./usr/local/".toList.isPrefixOf e.path

def isFirmware : Bool := FIRMWARE_DIRS.any fun d => d.isPrefixOf e.path

/-- An ELF object the package may not hold outside the firmware directories. -/
def isForeignElf (archAll : Bool) (arch : Arch) : Bool :=
  e.elf.any fun elf => archAll || elf ≠ targetElf arch

def checkElf (archAll : Bool) (arch : Arch) : List Finding :=
  match e.elf with
  | none => []
  | some elf =>
    if isFirmware e then []
    else if archAll then
      [e.finding .elfInArchAll "an Architecture: all package contains an ELF object".toList]
    else if elf ≠ targetElf arch then
      [e.finding .foreignElf ("a ".toList ++ bits elf ++ "-bit ELF object for machine ".toList ++
        Nat.toDigits 10 elf.machine.toNat ++ ", and this build targets ".toList ++ arch.debianArch ++
        " (".toList ++ bits (targetElf arch) ++ "-bit, machine ".toList ++
        Nat.toDigits 10 (targetElf arch).machine.toNat ++ ")".toList)]
    else []

def checkMember (archAll : Bool) (arch : Arch) : List Finding :=
  (if isBadPath e then
    [e.finding .memberPath "a member path must start with ./ and never step through ..".toList]
    else []) ++
  (if isForeignOwned e then
    [e.finding .owner ("owned by ".toList ++ Nat.toDigits 10 e.uid.toNat ++ ":".toList ++
      Nat.toDigits 10 e.gid.toNat ++ ", not root".toList)] else []) ++
  (if isSetuid e then [e.finding .setuid
    ("mode ".toList ++ octal e.mode ++ " sets the setuid or setgid bit".toList)] else []) ++
  (if isWorldWritable e then [e.finding .worldWritable
    ("mode ".toList ++ octal e.mode ++ " is writable by everyone".toList)] else []) ++
  (if isUsrLocal e then [e.finding .usrLocal
    "Debian Policy reserves /usr/local for the administrator".toList] else []) ++
  checkElf e archAll arch

end Member

def isArchAll (control : Str → Option Str) : Bool := packageArch control = "all".toList

/-- Every finding on the package. -/
def check (contents : DebContents) (arch : Arch) : List Finding :=
  checkControl contents.control arch ++
    contents.entries.flatMap (checkMember · (isArchAll contents.control) arch) ++
    if contents.entries.any fun e => e.kind ≠ .dir then []
    else [⟨.empty, none, "the package installs only directories".toList⟩]

/-! ### The components of a member path -/

/-- A component `dpkg` goes by. -/
def isStep (c : Str) : Bool := !c.isEmpty && c ≠ ['.']

/-- The path `dpkg` unpacks to, from the root: without the empty and `.` components. -/
def steps (path : Str) : List Str := (path.splitOn '/').filter isStep

def localDir : List Str := ["usr".toList, "local".toList]

def firmwareDirs : List (List Str) :=
  [["lib".toList, "firmware".toList], ["usr".toList, "lib".toList, "firmware".toList]]

/-- At or below a firmware directory. -/
def InFirmware (path : Str) : Prop := ∃ d ∈ firmwareDirs, d <+: steps path

/-- The path names the root, or is spelled relative to it. -/
def IsRelative (path : Str) : Prop := path = ['.'] ∨ "./".toList <+: path

variable {c t path : Str} {e e' : DebEntry} {archAll : Bool} {arch : Arch}

theorem steps_append (hc : '/' ∉ c) (t : Str) :
    steps (c ++ '/' :: t) = [c].filter isStep ++ steps t := by
  unfold steps
  rw [List.splitOn_append_cons_self_of_not_mem hc, ← List.singleton_append, List.filter_append]

/-- A path of components, each with a slash behind it. -/
def slashed (cs : List Str) : Str := cs.flatMap (· ++ ['/'])

theorem steps_slashed {cs : List Str} (h : ∀ c ∈ cs, isStep c ∧ '/' ∉ c) : steps (slashed cs) = cs := by
  induction cs with
  | nil => rfl
  | cons c cs ih =>
    obtain ⟨⟨hstep, hslash⟩, hcs⟩ := List.forall_mem_cons.mp h
    have hcons : slashed (c :: cs) = c ++ '/' :: slashed cs := by
      rw [slashed, List.flatMap_cons, List.append_assoc]
      rfl
    rw [hcons, steps_append hslash, ih hcs, List.filter_cons_of_pos hstep]
    rfl

theorem isStep_of_mem_steps (h : c ∈ steps path) : isStep c ∧ '/' ∉ c :=
  ⟨(List.mem_filter.mp h).2, not_mem_of_mem_splitOn (List.mem_filter.mp h).1⟩

/-- A prefix of the text that ends in a slash is a prefix of the components. -/
theorem steps_of_isPrefix {cs : List Str} (h : ∀ c ∈ cs, isStep c ∧ '/' ∉ c)
    (hpre : '.' :: '/' :: slashed cs <+: path) : cs <+: steps path := by
  obtain ⟨t, rfl⟩ := hpre
  have hdot : steps ('.' :: '/' :: slashed cs ++ t) = steps (slashed cs ++ t) :=
    steps_append (c := ['.']) (by simp) (slashed cs ++ t)
  rw [hdot]
  clear hdot
  induction cs with
  | nil => exact List.nil_prefix
  | cons c cs ih =>
    obtain ⟨⟨hstep, hslash⟩, hcs⟩ := List.forall_mem_cons.mp h
    have hcons : slashed (c :: cs) ++ t = c ++ '/' :: (slashed cs ++ t) := by
      rw [slashed, List.flatMap_cons, List.append_assoc, List.append_assoc]
      rfl
    rw [hcons, steps_append hslash, List.filter_cons_of_pos hstep]
    exact List.prefix_cons_inj c |>.mpr (ih hcs)

theorem localDir_of_isUsrLocal (h : isUsrLocal e = true) : localDir <+: steps e.path := by
  refine steps_of_isPrefix (by decide) ?_
  exact List.isPrefixOf_iff_prefix.mp h

theorem inFirmware_of_isFirmware (h : isFirmware e = true) : InFirmware e.path := by
  simp only [isFirmware, FIRMWARE_DIRS, List.any_cons, List.any_nil, Bool.or_false,
    Bool.or_eq_true, List.isPrefixOf_iff_prefix] at h
  rcases h with h | h
  · exact ⟨_, List.mem_cons_self .., steps_of_isPrefix (by decide) h⟩
  · exact ⟨_, List.mem_cons_of_mem _ (List.mem_singleton_self _), steps_of_isPrefix (by decide) h⟩

/-- No directory of the rules is below the other. -/
theorem not_localDir_of_inFirmware (h : InFirmware path) : ¬localDir <+: steps path := by
  intro hlocal
  obtain ⟨d, hd, hpre⟩ := h
  have hapart : ∀ d ∈ firmwareDirs, ¬(localDir <+: d ∨ d <+: localDir) := by decide
  exact hapart d hd (List.prefix_or_prefix_of_prefix hlocal hpre)

theorem isBadPath_eq_false : isBadPath e = false ↔ IsRelative e.path ∧ "..".toList ∉ steps e.path := by
  have hsteps : "..".toList ∈ steps e.path ↔ "..".toList ∈ e.path.splitOn '/' := by
    unfold steps
    rw [List.mem_filter]
    exact and_iff_left rfl
  rw [hsteps]
  unfold isBadPath IsRelative
  by_cases hroot : e.path = "./".toList
  · rw [hroot]
    decide
  by_cases hdot : e.path = ['.']
  · rw [hdot]
    decide
  · have hroot' : ¬e.path = ['.', '/'] := hroot
    simp [hroot', hdot]

/-! ### What a package shows in every spelling -/

/-- What the policy asks of a member in any spelling, but for the paths it reserves. -/
structure MemberOk (archAll : Bool) (arch : Arch) (e : DebEntry) : Prop where
  relative : IsRelative e.path
  inside : "..".toList ∉ steps e.path
  owner : isForeignOwned e = false
  setuid : isSetuid e = false
  writable : isWorldWritable e = false
  elf : isForeignElf e archAll arch = true → InFirmware e.path

theorem checkElf_eq_nil : checkElf e archAll arch = [] ↔
    (isForeignElf e archAll arch = true → isFirmware e = true) := by
  unfold checkElf isForeignElf
  cases e.elf with
  | none => simp
  | some elf =>
    by_cases hfirmware : isFirmware e = true
    · simp [hfirmware]
    · cases archAll with
      | true => simp [hfirmware]
      | false => by_cases helf : elf = targetElf arch <;> simp [hfirmware, helf]

/-- A member without findings is one in order, with its path outside what the spelling shows of the
reserved directory and inside what it shows of the firmware ones. -/
theorem checkMember_eq_nil : checkMember e archAll arch = [] ↔ MemberOk archAll arch e ∧
    isUsrLocal e = false ∧ (isForeignElf e archAll arch = true → isFirmware e = true) := by
  have hif : ∀ (p : Bool) (f : Finding), (if p = true then [f] else []) = [] ↔ p = false := by
    intro p f
    cases p <;> simp
  unfold checkMember
  simp only [List.append_eq_nil_iff, hif, checkElf_eq_nil, isBadPath_eq_false]
  constructor
  · rintro ⟨⟨⟨⟨⟨⟨hrelative, hinside⟩, howner⟩, hsetuid⟩, hwritable⟩, hlocal⟩, helf⟩
    exact ⟨⟨hrelative, hinside, howner, hsetuid, hwritable,
      fun h => inFirmware_of_isFirmware (helf h)⟩, hlocal, helf⟩
  · rintro ⟨hok, hlocal, helf⟩
    exact ⟨⟨⟨⟨⟨⟨hok.relative, hok.inside⟩, hok.owner⟩, hok.setuid⟩, hok.writable⟩, hlocal⟩, helf⟩

/-- The package breaks no rule but those that go by the spelling of a path. -/
structure Otherwise (contents : DebContents) (arch : Arch) : Prop where
  fields : ∀ field ∈ REQUIRED_FIELDS, hasField contents.control field = true
  architecture : packageArch contents.control = [] ∨ isArchAll contents.control = true ∨
    packageArch contents.control = arch.debianArch
  installs : ∃ e ∈ contents.entries, e.kind ≠ .dir
  members : ∀ e ∈ contents.entries, MemberOk (isArchAll contents.control) arch e

variable {contents contents' : DebContents}

theorem checkControl_eq_nil : checkControl contents.control arch = [] ↔
    (∀ field ∈ REQUIRED_FIELDS, hasField contents.control field = true) ∧
      (packageArch contents.control = [] ∨ isArchAll contents.control = true ∨
        packageArch contents.control = arch.debianArch) := by
  unfold checkControl isArchAll
  rw [List.append_eq_nil_iff, List.map_eq_nil_iff, List.filter_eq_nil_iff, decide_eq_true_eq]
  refine and_congr (by simp) ?_
  split_ifs with h
  · refine iff_of_false id ?_
    rintro (hnil | hall | harch)
    · exact h.1 hnil
    · exact h.2.1 hall
    · exact h.2.2 harch
  · refine iff_of_true rfl ?_
    by_contra hno
    rw [not_or, not_or] at hno
    exact h hno

theorem check_eq_nil : check contents arch = [] ↔ Otherwise contents arch ∧
    ∀ e ∈ contents.entries, isUsrLocal e = false ∧
      (isForeignElf e (isArchAll contents.control) arch = true → isFirmware e = true) := by
  have hinstalls : (if contents.entries.any (fun e => e.kind ≠ .dir) = true then []
      else [(⟨.empty, none, "the package installs only directories".toList⟩ : Finding)]) = [] ↔
      ∃ e ∈ contents.entries, e.kind ≠ .dir := by
    cases h : contents.entries.any (fun e => e.kind ≠ .dir) with
    | true => simpa using h
    | false => simpa using h
  unfold check
  rw [List.append_eq_nil_iff, List.append_eq_nil_iff, checkControl_eq_nil, hinstalls,
    List.flatMap_eq_nil_iff]
  constructor
  · rintro ⟨⟨⟨hfields, harch⟩, hmembers⟩, hsome⟩
    exact ⟨⟨hfields, harch, hsome, fun e he => (checkMember_eq_nil.mp (hmembers e he)).1⟩,
      fun e he => (checkMember_eq_nil.mp (hmembers e he)).2⟩
  · rintro ⟨hok, hpaths⟩
    exact ⟨⟨⟨hok.fields, hok.architecture⟩,
      fun e he => checkMember_eq_nil.mpr ⟨hok.members e he, hpaths e he⟩⟩, hok.installs⟩

/-! ### Spellings -/

/-- One member with its path spelled in two ways, both relative. -/
structure Respelled (e e' : DebEntry) : Prop where
  left : IsRelative e.path
  right : IsRelative e'.path
  same : steps e'.path = steps e.path
  rest : e' = { e with path := e'.path }

/-- One package with the paths of its members spelled in two ways. -/
def SamePackage (contents contents' : DebContents) : Prop :=
  contents'.control = contents.control ∧
    List.Forall₂ Respelled contents.entries contents'.entries

theorem MemberOk.respelled (h : Respelled e e') (hok : MemberOk archAll arch e) :
    MemberOk archAll arch e' := by
  obtain ⟨-, hright, hsame, hrest⟩ := h
  have hmember : e'.kind = e.kind ∧ e'.mode = e.mode ∧ e'.uid = e.uid ∧ e'.gid = e.gid ∧
      e'.elf = e.elf := by
    rw [hrest]
    exact ⟨rfl, rfl, rfl, rfl, rfl⟩
  obtain ⟨hkind, hmode, huid, hgid, helf⟩ := hmember
  constructor
  case relative => exact hright
  case inside => rw [hsame]; exact hok.inside
  case owner => simpa [isForeignOwned, huid, hgid] using hok.owner
  case setuid => simpa [isSetuid, hkind, hmode] using hok.setuid
  case writable => simpa [isWorldWritable, hkind, hmode] using hok.writable
  case elf =>
    intro hforeign
    unfold InFirmware
    rw [hsame]
    exact hok.elf (by simpa [isForeignElf, helf] using hforeign)

theorem Respelled.symm (h : Respelled e e') : Respelled e' e := by
  obtain ⟨hleft, hright, hsame, hrest⟩ := h
  refine ⟨hright, hleft, hsame.symm, ?_⟩
  rw [hrest]

theorem SamePackage.symm (h : SamePackage contents contents') : SamePackage contents' contents :=
  ⟨h.1.symm, h.2.flip.imp fun _ _ => Respelled.symm⟩

theorem exists_mem_of_forall₂ {α β : Type} {r : α → β → Prop} {as : List α} {bs : List β}
    (h : List.Forall₂ r as bs) {b : β} (hb : b ∈ bs) : ∃ a ∈ as, r a b := by
  induction h with
  | nil => cases hb
  | @cons a b' as bs hr _ ih =>
    rcases List.mem_cons.mp hb with rfl | hb
    · exact ⟨a, List.mem_cons_self .., hr⟩
    · obtain ⟨a', ha', hr'⟩ := ih hb
      exact ⟨a', List.mem_cons_of_mem _ ha', hr'⟩

theorem SamePackage.exists_left (h : SamePackage contents contents') {e' : DebEntry}
    (he' : e' ∈ contents'.entries) : ∃ e ∈ contents.entries, Respelled e e' :=
  exists_mem_of_forall₂ h.2 he'

theorem Otherwise.samePackage (h : SamePackage contents contents') (hok : Otherwise contents arch) :
    Otherwise contents' arch := by
  have hcontrol := h.1
  constructor
  case fields => rw [hcontrol]; exact hok.fields
  case architecture => rw [hcontrol]; exact hok.architecture
  case installs =>
    obtain ⟨e, he, hkind⟩ := hok.installs
    obtain ⟨e', he', hr⟩ := h.symm.exists_left he
    refine ⟨e', he', ?_⟩
    rw [hr.rest] at hkind
    exact hkind
  case members =>
    intro e' he'
    obtain ⟨e, he, hr⟩ := h.exists_left he'
    rw [hcontrol]
    exact (hok.members e he).respelled hr

/-- A package with the paths of its members spelled anew. -/
def respell (spell : Str → Str) (contents : DebContents) : DebContents :=
  { contents with entries := contents.entries.map fun e => { e with path := spell e.path } }

theorem samePackage_respell {spell : Str → Str} (hrelative : ∀ path, IsRelative (spell path))
    (hsteps : ∀ path, steps (spell path) = steps path)
    (h : ∀ e ∈ contents.entries, IsRelative e.path) :
    SamePackage contents (respell spell contents) := by
  refine ⟨rfl, ?_⟩
  unfold respell
  generalize contents.entries = es at h ⊢
  induction es with
  | nil => exact .nil
  | cons e es ih =>
    obtain ⟨he, hes⟩ := List.forall_mem_cons.mp h
    exact .cons ⟨he, hrelative _, hsteps _, rfl⟩ (ih hes)

/-- The components of the path, a slash behind each: every rule sees its prefix. -/
def plainly (path : Str) : Str := '.' :: '/' :: slashed (steps path)

/-- A second slash behind the dot: no rule sees its prefix. -/
def evading (path : Str) : Str := '.' :: '/' :: '/' :: slashed (steps path)

theorem steps_plainly (path : Str) : steps (plainly path) = steps path := by
  have hdot : steps (plainly path) = steps (slashed (steps path)) :=
    steps_append (c := ['.']) (by simp) _
  rw [hdot, steps_slashed fun c hc => isStep_of_mem_steps hc]

theorem steps_evading (path : Str) : steps (evading path) = steps path := by
  have hdot : steps (evading path) = steps ('/' :: slashed (steps path)) :=
    steps_append (c := ['.']) (by simp) _
  have hslash : steps ('/' :: slashed (steps path)) = steps (slashed (steps path)) :=
    steps_append (c := []) (by simp) _
  rw [hdot, hslash, steps_slashed fun c hc => isStep_of_mem_steps hc]

theorem isUsrLocal_evading (h : e.path = evading path) : isUsrLocal e = false := by
  unfold isUsrLocal evading at *
  rw [h]
  rfl

theorem isFirmware_evading (h : e.path = evading path) : isFirmware e = false := by
  unfold isFirmware evading at *
  rw [h]
  rfl

theorem isFirmware_plainly (h : e.path = plainly path) (hin : InFirmware path) :
    isFirmware e = true := by
  obtain ⟨d, hd, rest, hrest⟩ := hin
  have hpath : e.path = '.' :: '/' :: (slashed d ++ slashed rest) := by
    rw [h, plainly, ← hrest, slashed, List.flatMap_append]
    rfl
  have hpre : ∀ d ∈ firmwareDirs, '.' :: '/' :: slashed d ∈ FIRMWARE_DIRS := by decide
  unfold isFirmware
  rw [List.any_eq_true]
  refine ⟨_, hpre d hd, List.isPrefixOf_iff_prefix.mpr ?_⟩
  rw [hpath]
  exact ⟨slashed rest, rfl⟩

instance (path : Str) : Decidable (InFirmware path) :=
  inferInstanceAs (Decidable (∃ d ∈ firmwareDirs, d <+: steps path))

/-- The spelling every rule lets pass. -/
def clearly (path : Str) : Str := if InFirmware path then plainly path else evading path

theorem samePackage_clearly (hok : Otherwise contents arch) :
    SamePackage contents (respell clearly contents) := by
  refine samePackage_respell (fun path => ?relative) (fun path => ?steps) fun e he =>
    (hok.members e he).relative
  case relative =>
    unfold clearly
    split_ifs
    · exact Or.inr ⟨_, rfl⟩
    · exact Or.inr ⟨_, rfl⟩
  case steps =>
    unfold clearly
    split_ifs
    · exact steps_plainly path
    · exact steps_evading path

/-- A package that breaks no other rule has no findings when it is spelled so. -/
theorem check_clearly (hok : Otherwise contents arch) : check (respell clearly contents) arch = [] := by
  refine check_eq_nil.mpr ⟨hok.samePackage (samePackage_clearly hok), fun e' he' => ?_⟩
  obtain ⟨e, he, rfl⟩ := List.mem_map.mp he'
  by_cases hin : InFirmware e.path
  · have hpath : clearly e.path = plainly e.path := if_pos hin
    refine ⟨Bool.eq_false_iff.mpr fun hlocal => ?_, fun _ => isFirmware_plainly hpath hin⟩
    have hsteps := localDir_of_isUsrLocal hlocal
    rw [hpath, steps_plainly] at hsteps
    exact not_localDir_of_inFirmware hin hsteps
  · refine ⟨isUsrLocal_evading (if_neg hin), fun hforeign => ?_⟩
    exact absurd ((hok.members e he).elf hforeign) hin

/-! ### The policy -/

/-- What the policy allows a member: a path under the root and outside `/usr/local`, root's ownership,
and a mode that is neither setuid nor writable by everyone, a sticky directory excepted. -/
structure Permitted (e : DebEntry) : Prop where
  inside : "..".toList ∉ steps e.path
  outside : ¬localDir <+: steps e.path
  owner : e.uid = 0 ∧ e.gid = 0
  setuid : e.kind ≠ .symlink → e.mode &&& 0o6000 = 0
  writable : e.kind ≠ .symlink → e.mode &&& 0o002 = 0 ∨ e.kind = .dir ∧ e.mode &&& 0o1000 ≠ 0

theorem MemberOk.permitted (h : MemberOk archAll arch e) (hlocal : ¬localDir <+: steps e.path) :
    Permitted e := by
  have howner := h.owner
  have hsetuid := h.setuid
  have hwritable := h.writable
  unfold isForeignOwned at howner
  unfold isSetuid at hsetuid
  unfold isWorldWritable at hwritable
  constructor
  case inside => exact h.inside
  case outside => exact hlocal
  case owner => simpa using howner
  case setuid =>
    intro hkind
    simpa [hkind] using hsetuid
  case writable =>
    intro hkind
    by_cases hmode : e.mode &&& 0o002 = 0
    · exact Or.inl hmode
    · exact Or.inr (by simpa [hkind, hmode] using hwritable)

/-- A package without findings holds permitted members alone, and no spelling of its paths changes
whether it has findings. -/
def PolicyHolds (contents : DebContents) (arch : Arch) : Prop :=
  (check contents arch = [] → ∀ e ∈ contents.entries, Permitted e) ∧
    ∀ contents', SamePackage contents contents' →
      (check contents' arch = [] ↔ check contents arch = [])

/-- No member is one a rule may miss or refuse by its spelling: at or below `/usr/local`, or an ELF
object of another machine. -/
def NoReservedPath (contents : DebContents) (arch : Arch) : Prop :=
  ∀ e ∈ contents.entries, ¬localDir <+: steps e.path ∧
    isForeignElf e (isArchAll contents.control) arch = false

theorem check_of_noReservedPath (h : Otherwise contents arch → NoReservedPath contents arch) :
    check contents arch = [] ↔ Otherwise contents arch := by
  refine ⟨fun hcheck => (check_eq_nil.mp hcheck).1, fun hok => check_eq_nil.mpr ⟨hok, ?_⟩⟩
  intro e he
  obtain ⟨hlocal, helf⟩ := h hok e he
  refine ⟨Bool.eq_false_iff.mpr fun hpre => hlocal (localDir_of_isUsrLocal hpre), fun hforeign => ?_⟩
  rw [helf] at hforeign
  cases hforeign

theorem NoReservedPath.samePackage (h : SamePackage contents contents')
    (hno : NoReservedPath contents arch) : NoReservedPath contents' arch := by
  intro e' he'
  obtain ⟨e, he, hr⟩ := h.exists_left he'
  obtain ⟨hlocal, helf⟩ := hno e he
  have hsame : e'.elf = e.elf := by rw [hr.rest]
  refine ⟨by rwa [hr.same], ?_⟩
  rw [h.1]
  simpa [isForeignElf, hsame] using helf

/-- The policy holds of a package exactly if it breaks another rule in every spelling, or has no
member at or below a reserved path. -/
theorem policy_holds_iff (contents : DebContents) (arch : Arch) :
    PolicyHolds contents arch ↔ (Otherwise contents arch → NoReservedPath contents arch) := by
  constructor
  · rintro ⟨hpermitted, hfree⟩ hok e he
    have hcheck : check contents arch = [] :=
      (hfree _ (samePackage_clearly hok)).mp (check_clearly hok)
    refine ⟨(hpermitted hcheck e he).outside, Bool.eq_false_iff.mpr fun hforeign => ?_⟩
    have hevading := samePackage_respell (fun path => Or.inr ⟨_, rfl⟩) steps_evading fun e he =>
      (hok.members e he).relative
    have hpaths := (check_eq_nil.mp ((hfree _ hevading).mpr hcheck)).2
    have hfirmware := (hpaths _ (List.mem_map_of_mem he)).2 hforeign
    rw [isFirmware_evading rfl] at hfirmware
    cases hfirmware
  · intro h
    have hcheck := check_of_noReservedPath h
    refine ⟨fun hnil e he => ?_, fun contents' hsame => ?_⟩
    · have hok := hcheck.mp hnil
      exact (hok.members e he).permitted (h hok e he).1
    · have hok : Otherwise contents' arch ↔ Otherwise contents arch :=
        ⟨fun hok => hok.samePackage hsame.symm, fun hok => hok.samePackage hsame⟩
      rw [hcheck, ← hok]
      exact check_of_noReservedPath fun hok' => (h (hok.mp hok')).samePackage hsame

/-- A package with one program, under `/usr/local` behind a doubled slash. -/
def doubledSlash : DebContents where
  control := fun _ => some "all".toList
  entries := [⟨".//usr/local/bin/x".toList, .file, 0o755, 0, 0, none⟩]

/-- It has no finding. -/
theorem doubledSlash_admitted : check doubledSlash .arm64 = [] ∧ ¬PolicyHolds doubledSlash .arm64 := by
  have hcheck : check doubledSlash .arm64 = [] := by rfl
  refine ⟨hcheck, fun h => ?_⟩
  have houtside := (h.1 hcheck _ (List.mem_singleton_self _)).outside
  exact houtside (by decide)

end Boot2Deb.Core.Debcheck
