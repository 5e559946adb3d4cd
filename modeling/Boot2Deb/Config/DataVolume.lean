import Boot2Deb.Error
import Boot2Deb.Rust.Outcome
import Boot2Deb.Lib.PathWalk

/-!
# Data volumes

A recipe declares the disks an image mounts for data. The accepted list is written twice into the
root filesystem, one tab-separated line a volume for the first-boot hook and one `/etc/fstab` line a
volume, neither with any quoting. Reading either back recovers the volumes exactly when no mount
path holds white space and no device node a tab or a newline, which the validation checks of the
label only; and two volumes get one directory exactly when their mount paths spell the same one.
-/

namespace Boot2Deb.Config

open Rust

/-- Longest label of an ext4 volume, in bytes. -/
def maxLabelBytes : ℕ := 16

/-- A disk transport. -/
inductive DiskKind where
  | nvme | sata | usb | mmc
deriving DecidableEq, Repr

/-- How the first-boot hook finds the disk of a volume. -/
inductive VolumeMatch where
  | kind (k : DiskKind)
  | device (dev : Str)
deriving DecidableEq, Repr

/-- Filesystem a created volume gets. -/
inductive VolumeFs where
  | ext4
deriving DecidableEq, Repr

/-- Whether first boot can create a volume, or only adopt one. -/
inductive CreatePolicy where
  | ifBlank | never
deriving DecidableEq, Repr

/-- The config spelling. -/
def DiskKind.asStr : DiskKind → Str
  | nvme => "nvme".toList
  | sata => "sata".toList
  | usb => "usb".toList
  | mmc => "mmc".toList

/-- The type field of `/etc/fstab`. -/
def VolumeFs.fstabType : VolumeFs → Str
  | ext4 => "ext4".toList

/-- The token in the generated config. -/
def CreatePolicy.asStr : CreatePolicy → Str
  | ifBlank => "if-blank".toList
  | never => "never".toList

/-- One data volume an image mounts. -/
structure DataVolume where
  match_ : VolumeMatch
  label : Str
  fstype : VolumeFs
  mount : Str
  create : CreatePolicy
deriving DecidableEq, Repr

/-- The characters a label may hold. -/
def isLabelChar (c : Char) : Bool := c.isAlphanum || c == '-' || c == '_' || c == '.'

namespace DataVolume

/-- Validate one declaration on its own. -/
def validate (v : DataVolume) : Outcome ConfigError Unit :=
  if v.mount.head? != some '/' then
    .err (.dataVolumeMount v.mount "must be an absolute path")
  else if v.mount = ['/'] then
    .err (.dataVolumeMount v.mount "is the root filesystem, which the image itself provides")
  else if 1 < byteLen v.mount && v.mount.getLast? == some '/' then
    .err (.dataVolumeMount v.mount "must not have a trailing slash")
  else if v.label.isEmpty then
    .err (.dataVolumeLabel v.label ("must not be empty — the label is how the next image " ++
      "re-adopts the volume instead of refusing it"))
  else if maxLabelBytes < byteLen v.label then
    .err (.dataVolumeLabel v.label ("is " ++ toString (byteLen v.label) ++
      " bytes; an ext4 label holds at most " ++ toString maxLabelBytes ++
      ", and a truncated one would not be recognised on the next boot"))
  else if !v.label.all isLabelChar then
    .err (.dataVolumeLabel v.label ("may hold only ASCII letters, digits, '-', '_' and '.' — " ++
      "it is written unquoted into /etc/fstab"))
  else match v.match_ with
    | .kind _ => .ok ()
    | .device dev =>
      if "/dev/".toList.isPrefixOf dev then .ok ()
      else .err (.dataVolumeMatch dev "must be a device node under /dev/")

/-- The mount options of every volume. -/
def fstabOptions : Str := "defaults,nofail,x-systemd.device-timeout=10s".toList

/-- The `/etc/fstab` line of a volume. -/
def fstabLine (v : DataVolume) : Str :=
  "LABEL=".toList ++ v.label ++ '\t' :: v.mount ++ '\t' :: v.fstype.fstabType ++
    '\t' :: fstabOptions ++ '\t' :: "0 2".toList

/-- The first field of a line of the generated config. -/
def matchField (v : DataVolume) : Str :=
  match v.match_ with
  | .kind k => k.asStr
  | .device dev => dev

/-- A line of the generated config, without its newline. -/
def configLine (v : DataVolume) : Str :=
  v.matchField ++ '\t' :: v.label ++ '\t' :: v.fstype.fstabType ++ '\t' :: v.mount ++
    '\t' :: v.create.asStr

end DataVolume

/-- The pairwise checks of one volume against those behind it. -/
def checkAgainst (v : DataVolume) : List DataVolume → Outcome ConfigError Unit
  | [] => .ok ()
  | other :: volumes =>
    if v.label = other.label then
      .err (.dataVolumeLabel v.label "is declared twice; a label identifies one volume")
    else if v.mount = other.mount then
      .err (.dataVolumeMount v.mount
        "is declared twice; two volumes cannot share a mount point")
    else checkAgainst v volumes

def checkPairs : List DataVolume → Outcome ConfigError Unit
  | [] => .ok ()
  | v :: volumes => do
    checkAgainst v volumes
    checkPairs volumes

def validateEach : List DataVolume → Outcome ConfigError Unit
  | [] => .ok ()
  | v :: volumes => do
    v.validate
    validateEach volumes

/-- Validate a recipe's whole list: each entry on its own, then the pairs. -/
def validateAll (volumes : List DataVolume) : Outcome ConfigError Unit := do
  validateEach volumes
  checkPairs volumes

/-- The two comment lines the generated config starts with. -/
def configHeader : List Str :=
  ["# Generated by boot2deb; read once by the data-volume first-boot hook.".toList,
    "# <match>\t<label>\t<fstype>\t<mount>\t<create>".toList]

/-- The on-device config: one line a volume, in declaration order. -/
def renderConfig (volumes : List DataVolume) : Str :=
  (configHeader ++ volumes.map DataVolume.configLine).flatMap (· ++ ['\n'])

/-! ### Reading the two files back -/

/-- The volume a first field asks for. -/
def VolumeMatch.ofField (field : Str) : VolumeMatch :=
  match [DiskKind.nvme, .sata, .usb, .mmc].find? (·.asStr = field) with
  | some k => .kind k
  | none => .device field

def CreatePolicy.ofField (field : Str) : Option CreatePolicy :=
  [CreatePolicy.ifBlank, .never].find? (·.asStr = field)

def VolumeFs.ofField (field : Str) : Option VolumeFs :=
  [VolumeFs.ext4].find? (·.fstabType = field)

/-- A line of the config, cut at its tabs. -/
def readLine (line : Str) : Option DataVolume :=
  match line.splitOn '\t' with
  | [match_, label, fstype, mount, create] => do
    let fstype ← VolumeFs.ofField fstype
    let create ← CreatePolicy.ofField create
    some { match_ := .ofField match_, label, fstype, mount, create }
  | _ => none

/-- The volumes of a config: every line that is neither empty nor a comment. -/
def readConfig (text : Str) : Option (List DataVolume) :=
  ((text.splitOn '\n').filter fun line => !line.isEmpty && line.head? != some '#').mapM readLine

/-- The words of a volume's `/etc/fstab` line. -/
def DataVolume.fstabWords (v : DataVolume) : List Str :=
  ["LABEL=".toList ++ v.label, v.mount, v.fstype.fstabType, fstabOptions, ['0'], ['2']]

/-- The step a path component stands for. -/
def pathStep (component : Str) : PathStep Str :=
  if component = [] ∨ component = ['.'] then .stay
  else if component = ['.', '.'] then .up
  else .child component

/-- The steps of a path. -/
def pathSteps (path : Str) : List (PathStep Str) := (path.splitOn '/').map pathStep

/-- The directory an absolute path names, in a tree without symbolic links. -/
def directory (path : Str) : List Str := PathStep.walk (pathSteps path)

/-! ### What validation accepts -/

variable {v : DataVolume} {volumes : List DataVolume} {c : Char}

/-- What `validate` leaves of a volume. -/
structure DataVolume.Accepted (v : DataVolume) : Prop where
  absolute : v.mount.head? = some '/'
  label_ne_nil : v.label ≠ []
  label_chars : ∀ c ∈ v.label, isLabelChar c = true
  device : ∀ dev, v.match_ = .device dev → "/dev/".toList <+: dev

theorem accepted_of_validate (h : v.validate = .ok ()) : v.Accepted := by
  unfold DataVolume.validate at h
  split_ifs at h with habsolute _ _ hlabel _ hchars
  refine ⟨by simpa using habsolute, by simpa using hlabel, ?_, ?_⟩
  · simpa using hchars
  · intro dev hdev
    rw [hdev] at h
    dsimp only at h
    split_ifs at h with hpre
    exact List.isPrefixOf_iff_prefix.mp hpre

theorem of_validateEach (h : validateEach volumes = .ok ()) : ∀ v ∈ volumes, v.Accepted := by
  induction volumes with
  | nil => simp
  | cons v volumes ih =>
    obtain ⟨_, hv, h⟩ := Outcome.bind_eq_ok.mp h
    exact List.forall_mem_cons.mpr ⟨accepted_of_validate hv, ih h⟩

theorem of_validateAll (h : validateAll volumes = .ok ()) : ∀ v ∈ volumes, v.Accepted := by
  obtain ⟨_, heach, -⟩ := Outcome.bind_eq_ok.mp h
  exact of_validateEach heach

theorem toNat_of_isLabelChar (h : isLabelChar c = true) : 45 ≤ c.toNat ∧ c.toNat ≤ 122 := by
  simp only [isLabelChar, Bool.or_eq_true, beq_iff_eq] at h
  rcases h with ((h | rfl) | rfl) | rfl
  · have hval : c.toNat = c.val.toNat := rfl
    simp [Char.isAlphanum, Char.isAlpha, Char.isUpper, Char.isLower, Char.isDigit,
      UInt32.le_iff_toNat_le] at h
    omega
  all_goals decide

theorem isWhitespace_of_isLabelChar (h : isLabelChar c = true) : isWhitespace c = false := by
  have hrange := toNat_of_isLabelChar h
  simp only [isWhitespace, Bool.or_eq_false_iff, Bool.and_eq_false_iff, decide_eq_false_iff_not,
    beq_eq_false_iff_ne]
  omega

/-! ### The config -/

/-- No tab and no newline in a field of the config. -/
def Untabbed (s : Str) : Prop := '\t' ∉ s ∧ '\n' ∉ s

namespace DataVolume

theorem Accepted.untabbed_label (h : v.Accepted) : Untabbed v.label := by
  refine ⟨fun hc => ?_, fun hc => ?_⟩
  · exact absurd (h.label_chars _ hc) (by decide)
  · exact absurd (h.label_chars _ hc) (by decide)

theorem untabbed_fstabType (f : VolumeFs) : Untabbed f.fstabType := by
  cases f
  exact ⟨by decide, by decide⟩

theorem untabbed_create (p : CreatePolicy) : Untabbed p.asStr := by
  cases p <;> exact ⟨by decide, by decide⟩

theorem untabbed_kind (k : DiskKind) : Untabbed k.asStr := by
  cases k <;> exact ⟨by decide, by decide⟩

/-- The fields of a config line. -/
def configFields (v : DataVolume) : List Str :=
  [v.matchField, v.label, v.fstype.fstabType, v.mount, v.create.asStr]

theorem configLine_eq : v.configLine = ['\t'].intercalate v.configFields := by
  simp [configLine, configFields, List.intercalate]

theorem Accepted.untabbed_fields (h : v.Accepted) (hmatch : Untabbed v.matchField)
    (hmount : Untabbed v.mount) : ∀ field ∈ v.configFields, Untabbed field := by
  simp only [configFields, List.forall_mem_cons]
  exact ⟨hmatch, h.untabbed_label, untabbed_fstabType _, hmount, untabbed_create _, by simp⟩

theorem Accepted.ofField_matchField (h : v.Accepted) :
    VolumeMatch.ofField v.matchField = v.match_ := by
  unfold matchField
  cases hmatch : v.match_ with
  | kind k => cases k <;> rfl
  | device dev =>
    obtain ⟨rest, rfl⟩ := h.device dev hmatch
    rfl

theorem Accepted.readLine_configLine (h : v.Accepted) (hmatch : Untabbed v.matchField)
    (hmount : Untabbed v.mount) : readLine v.configLine = some v := by
  have hfields := h.untabbed_fields hmatch hmount
  unfold readLine
  rw [configLine_eq, List.splitOn_intercalate '\t' (fun f hf => (hfields f hf).1) (by simp
    [configFields])]
  have hfs : VolumeFs.ofField v.fstype.fstabType = some v.fstype := by cases v.fstype; rfl
  have hcreate : CreatePolicy.ofField v.create.asStr = some v.create := by
    cases v.create <;> rfl
  simp only [configFields, hfs, hcreate, h.ofField_matchField]
  rfl

theorem Accepted.head_configLine (h : v.Accepted) :
    v.configLine.isEmpty = false ∧ v.configLine.head? ≠ some '#' := by
  unfold configLine matchField
  cases hmatch : v.match_ with
  | kind k => cases k <;> simp [DiskKind.asStr]
  | device dev =>
    obtain ⟨rest, rfl⟩ := h.device dev hmatch
    simp

end DataVolume

theorem splitOn_lines {lines : List Str} (h : ∀ l ∈ lines, '\n' ∉ l) :
    (lines.flatMap (· ++ ['\n'])).splitOn '\n' = lines ++ [[]] := by
  induction lines with
  | nil => simp
  | cons l lines ih =>
    obtain ⟨hl, hlines⟩ := List.forall_mem_cons.mp h
    rw [List.flatMap_cons, List.append_assoc, List.singleton_append,
      List.splitOn_append_cons_self_of_not_mem hl, ih hlines, List.cons_append]

theorem mapM_readLine (h : ∀ v ∈ volumes, v.Accepted)
    (htabs : ∀ v ∈ volumes, Untabbed v.matchField ∧ Untabbed v.mount) :
    (volumes.map DataVolume.configLine).mapM readLine = some volumes := by
  induction volumes with
  | nil => rfl
  | cons v volumes ih =>
    obtain ⟨hv, hvolumes⟩ := List.forall_mem_cons.mp h
    obtain ⟨htab, htabs⟩ := List.forall_mem_cons.mp htabs
    rw [List.map_cons, List.mapM_cons, hv.readLine_configLine htab.1 htab.2, ih hvolumes htabs]
    rfl

/-- Without tabs and newlines the config reads back. -/
theorem readConfig_renderConfig (h : ∀ v ∈ volumes, v.Accepted)
    (htabs : ∀ v ∈ volumes, Untabbed v.matchField ∧ Untabbed v.mount) :
    readConfig (renderConfig volumes) = some volumes := by
  have hlines : ∀ l ∈ configHeader ++ volumes.map DataVolume.configLine, '\n' ∉ l := by
    intro l hl
    rcases List.mem_append.mp hl with hl | hl
    · simp only [configHeader, List.mem_cons, List.not_mem_nil, or_false] at hl
      rcases hl with rfl | rfl <;> decide
    · obtain ⟨v, hv, rfl⟩ := List.mem_map.mp hl
      have hfields := (h v hv).untabbed_fields (htabs v hv).1 (htabs v hv).2
      simp only [DataVolume.configFields, List.forall_mem_cons] at hfields
      obtain ⟨hmatch, hlabel, hfstype, hmount, hcreate, -⟩ := hfields
      simp [DataVolume.configLine, hmatch.2, hlabel.2, hfstype.2, hmount.2, hcreate.2]
  have hkeep : (volumes.map DataVolume.configLine).filter
      (fun line => !line.isEmpty && line.head? != some '#') =
        volumes.map DataVolume.configLine := by
    refine List.filter_eq_self.mpr fun line hline => ?_
    obtain ⟨v, hv, rfl⟩ := List.mem_map.mp hline
    obtain ⟨hempty, hhash⟩ := (h v hv).head_configLine
    simp [hempty, hhash]
  have hheader : configHeader.filter (fun line => !line.isEmpty && line.head? != some '#') = [] := by
    decide
  have hend : [([] : Str)].filter (fun line => !line.isEmpty && line.head? != some '#') = [] := rfl
  unfold readConfig renderConfig
  rw [splitOn_lines hlines, List.filter_append, List.filter_append, hkeep, hheader, hend,
    List.nil_append, List.append_nil]
  exact mapM_readLine h htabs

theorem mem_mapM_readLine {lines : List Str} (h : lines.mapM readLine = some volumes)
    (hv : v ∈ volumes) : ∃ line ∈ lines, readLine line = some v := by
  induction lines generalizing volumes with
  | nil =>
    cases h
    cases hv
  | cons line lines ih =>
    rw [List.mapM_cons] at h
    obtain ⟨w, hw, h⟩ := Option.bind_eq_some_iff.mp h
    obtain ⟨rest, hrest, h⟩ := Option.bind_eq_some_iff.mp h
    cases h
    rcases List.mem_cons.mp hv with rfl | hv
    · exact ⟨line, List.mem_cons_self .., hw⟩
    · obtain ⟨line', hline', hread⟩ := ih hrest hv
      exact ⟨line', List.mem_cons_of_mem _ hline', hread⟩

theorem untabbed_matchField {field : Str} (h : Untabbed field)
    (hmatch : v.match_ = .ofField field) : Untabbed v.matchField := by
  unfold DataVolume.matchField
  rw [hmatch, VolumeMatch.ofField]
  cases [DiskKind.nvme, .sata, .usb, .mmc].find? (·.asStr = field) with
  | none => exact h
  | some k => exact DataVolume.untabbed_kind k

/-- What is read back has no tabs and newlines. -/
theorem untabbed_of_readConfig {text : Str} (h : readConfig text = some volumes) :
    ∀ v ∈ volumes, Untabbed v.matchField ∧ Untabbed v.mount := by
  intro v hv
  obtain ⟨line, hline, hread⟩ := mem_mapM_readLine h hv
  have hnewline : '\n' ∉ line := not_mem_of_mem_splitOn (List.mem_filter.mp hline).1
  have hpiece : ∀ piece ∈ line.splitOn '\t', Untabbed piece := by
    intro piece hpiece
    refine ⟨not_mem_of_mem_splitOn hpiece, fun hc => hnewline ?_⟩
    rw [List.splitOn_eq_splitOnP] at hpiece
    exact mem_of_mem_splitOnP hpiece hc
  unfold readLine at hread
  split at hread
  · rename_i field label fstype mount create hsplit
    rw [hsplit] at hpiece
    obtain ⟨fs, -, hread⟩ := Option.bind_eq_some_iff.mp hread
    obtain ⟨create, -, hread⟩ := Option.bind_eq_some_iff.mp hread
    cases hread
    exact ⟨untabbed_matchField (hpiece field (by simp)) rfl, hpiece mount (by simp)⟩
  · cases hread

/-- The config reads back exactly when it is written without tabs and newlines of its own. -/
theorem readConfig_iff (h : ∀ v ∈ volumes, v.Accepted) :
    readConfig (renderConfig volumes) = some volumes ↔
      ∀ v ∈ volumes, Untabbed v.matchField ∧ Untabbed v.mount :=
  ⟨untabbed_of_readConfig, readConfig_renderConfig h⟩

/-! ### The fstab line -/

/-- No white space at all. -/
def Unspaced (s : Str) : Prop := ∀ c ∈ s, isWhitespace c = false

theorem Unspaced.untabbed {s : Str} (h : Unspaced s) : Untabbed s :=
  ⟨fun hc => absurd (h _ hc) (by decide), fun hc => absurd (h _ hc) (by decide)⟩

theorem unspaced_of_all {s : Str} (h : s.all (!isWhitespace ·) = true) : Unspaced s := by
  intro c hc
  simpa using List.all_eq_true.mp h c hc

namespace DataVolume

theorem unspaced_fstabType (f : VolumeFs) : Unspaced f.fstabType ∧ f.fstabType ≠ [] := by
  cases f
  exact ⟨unspaced_of_all (by decide), by decide⟩

theorem unspaced_fstabOptions : Unspaced fstabOptions ∧ fstabOptions ≠ [] :=
  ⟨unspaced_of_all (by decide), by decide⟩

/-- The fstab line is cut into its fields exactly when the mount path holds no white space. -/
theorem Accepted.fstabWords_iff (h : v.Accepted) :
    splitWhitespace v.fstabLine = v.fstabWords ↔ Unspaced v.mount := by
  constructor
  · intro hwords c hc
    have hmem : v.mount ∈ splitWhitespace v.fstabLine := by
      rw [hwords]
      simp [fstabWords]
    exact isWhitespace_of_mem_splitWhitespace hmem hc
  · intro hmount
    have hsource : Unspaced ("LABEL=".toList ++ v.label) := by
      intro c hc
      rcases List.mem_append.mp hc with hc | hc
      · exact unspaced_of_all (s := "LABEL=".toList) (by decide) c hc
      · exact isWhitespace_of_isLabelChar (h.label_chars c hc)
    have hmount_ne : v.mount ≠ [] := by
      intro hnil
      have habsolute := h.absolute
      rw [hnil] at habsolute
      cases habsolute
    have hline : v.fstabLine = ("LABEL=".toList ++ v.label) ++ '\t' :: (v.mount ++ '\t' ::
        (v.fstype.fstabType ++ '\t' :: (fstabOptions ++ '\t' :: (['0'] ++ ' ' :: ['2'])))) := by
      unfold fstabLine
      simp only [List.append_assoc, List.cons_append]
      rfl
    rw [hline, splitWhitespace_append_cons (by simp) hsource (by decide),
      splitWhitespace_append_cons hmount_ne hmount (by decide),
      splitWhitespace_append_cons (unspaced_fstabType _).2 (unspaced_fstabType _).1 (by decide),
      splitWhitespace_append_cons unspaced_fstabOptions.2 unspaced_fstabOptions.1 (by decide),
      splitWhitespace_append_cons (by simp) (unspaced_of_all (by decide)) (by decide),
      splitWhitespace_word (by simp) (unspaced_of_all (by decide))]
    rfl

end DataVolume

/-! ### The whole list -/

/-- The volumes read back from both files, and no two of them share a directory. -/
def Faithful (volumes : List DataVolume) : Prop :=
  readConfig (renderConfig volumes) = some volumes ∧
  (∀ v ∈ volumes, splitWhitespace v.fstabLine = v.fstabWords) ∧
  volumes.Pairwise fun v w => directory v.mount ≠ directory w.mount

/-- An accepted list is faithful exactly when no mount path holds white space, no device node a tab
or a newline, and no two mount paths are spellings of one. -/
theorem faithful_iff (volumes : List DataVolume) (h : validateAll volumes = .ok ()) :
    Faithful volumes ↔
      (∀ v ∈ volumes, Unspaced v.mount ∧ ∀ dev, v.match_ = .device dev → Untabbed dev) ∧
      volumes.Pairwise fun v w => ¬PathStep.Respelled (pathSteps v.mount) (pathSteps w.mount) := by
  have haccepted := of_validateAll h
  have hdirectory : ∀ v w : DataVolume, directory v.mount ≠ directory w.mount ↔
      ¬PathStep.Respelled (pathSteps v.mount) (pathSteps w.mount) := fun v w =>
    not_congr PathStep.walk_eq_iff
  unfold Faithful
  rw [readConfig_iff haccepted]
  simp only [hdirectory]
  constructor
  · rintro ⟨hconfig, hfstab, hmounts⟩
    refine ⟨fun v hv => ⟨(haccepted v hv).fstabWords_iff.mp (hfstab v hv), fun dev hdev => ?_⟩,
      hmounts⟩
    have hmatch := (hconfig v hv).1
    rwa [DataVolume.matchField, hdev] at hmatch
  · rintro ⟨hfields, hmounts⟩
    refine ⟨fun v hv => ⟨?_, (hfields v hv).1.untabbed⟩,
      fun v hv => (haccepted v hv).fstabWords_iff.mpr (hfields v hv).1, hmounts⟩
    unfold DataVolume.matchField
    cases hmatch : v.match_ with
    | kind k => exact DataVolume.untabbed_kind k
    | device dev => exact (hfields v hv).2 dev hmatch

/-- An NVMe disk at `/srv` and a named disk below it. -/
def serverVolumes : List DataVolume :=
  [{ match_ := .kind .nvme, label := "b2d-data".toList, fstype := .ext4, mount := "/srv".toList,
     create := .ifBlank },
   { match_ := .device "/dev/sda".toList, label := "media".toList, fstype := .ext4,
     mount := "/srv/media".toList, create := .never }]

theorem faithful_serverVolumes : Faithful serverVolumes := by
  refine (faithful_iff serverVolumes (by decide)).mpr ⟨?_, ?_⟩
  · simp only [serverVolumes, List.forall_mem_cons]
    refine ⟨⟨unspaced_of_all (by decide), by simp⟩, ⟨unspaced_of_all (by decide), ?_⟩, by simp⟩
    rintro dev ⟨⟩
    exact ⟨by decide, by decide⟩
  · rw [serverVolumes, List.pairwise_pair, ← PathStep.walk_eq_iff]
    decide

/-- A volume at a path with a blank. -/
def blankMount : DataVolume :=
  { match_ := .kind .nvme, label := ['d'], fstype := .ext4, mount := "/srv/my data".toList,
    create := .ifBlank }

theorem blankMount_not_faithful :
    validateAll [blankMount] = .ok () ∧ ¬Faithful [blankMount] := by
  refine ⟨by decide, ?_⟩
  rintro ⟨-, hfstab, -⟩
  have haccepted : blankMount.Accepted := accepted_of_validate (by decide)
  have hwords := haccepted.fstabWords_iff.mp (hfstab _ (List.mem_singleton_self _))
  exact absurd (hwords ' ' (by decide)) (by decide)

end Boot2Deb.Config
