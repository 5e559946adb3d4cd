import Boot2Deb.Config.DataVolume
import Boot2Deb.FirstBoot.Disks
import Boot2Deb.Lib.Shell

/-!
# The data-volume hook

What the first-boot hook does about each declared volume: it adopts a filesystem that carries the
label, creates one on the blank disk the volume asks for, or leaves all disks alone. The hook is
run with `set -e`, so a command that fails ends it, and so does a power cut; `Except.error` is a
hook that ended. How a command ends is up to an `Outcomes`, which may go by everything issued
before.
-/

namespace Boot2Deb.FirstBoot
open Rust Config

/-! ### Commands -/

/-- What a command of the hook does to the board. -/
inductive Command where
  | sfdisk (disk : BlockName) (script : Str)
  | mkfsExt4 (label : Str) (part : BlockName)
  | mkdir (dir : Str)
  | mount (dir : Str)
deriving DecidableEq, Repr

/-- How a command ends: it succeeds, it fails or the power goes half way through, or the power goes
before it did anything. `found` are the partitions the kernel then takes up. -/
inductive Fate where
  | finished (found : List (BlockName × Contents)) (data : Bytes)
  | broken (left : Contents) (found : List (BlockName × Contents))
  | lost
deriving DecidableEq, Repr

/-- The device a command writes. -/
def Command.target : Command → Option BlockName
  | sfdisk disk _ => some disk
  | mkfsExt4 _ part => some part
  | mkdir _ | mount _ => none

/-- The label `mkfs.ext4` stores, cut to what its superblock holds. -/
def storedLabel : ℕ → Str → Str
  | _, [] => []
  | room, c :: label =>
    if c.utf8Size ≤ room then c :: storedLabel (room - c.utf8Size) label else []

/-- The disks behind a command. -/
def Command.effect (d : Disks) : Command → Fate → Disks
  | sfdisk disk _, .finished found data =>
    (d.setContents disk ⟨"gpt".toList, [], [], data⟩).addPartitions disk found
  | sfdisk disk _, .broken left found => (d.setContents disk left).addPartitions disk found
  | mkfsExt4 label part, .finished _ data =>
    d.setContents part ⟨[], "ext4".toList, storedLabel maxLabelBytes label, data⟩
  | mkfsExt4 _ part, .broken left _ => d.setContents part left
  | _, _ => d

/-- A command the hook issued, and how it ended. -/
abbrev Issued := Command × Fate

/-- How a command ends, by what was issued before and the disks it finds. -/
abbrev Outcomes := List Issued → Command → Disks → Fate

structure Board where
  disks : Disks
  /-- The mount points something is mounted at. -/
  mounted : List Str
  issued : List Issued
  log : List Str

namespace Board

/-- `log`. -/
def say (b : Board) (text : Str) : Board :=
  { b with log := b.log ++ ["data-volume: ".toList ++ text] }

def issue (w : Outcomes) (b : Board) (c : Command) : Fate × Board :=
  let fate := w b.issued c b.disks
  (fate, { b with disks := c.effect b.disks fate, issued := b.issued ++ [(c, fate)] })

end Board

/-! ### What the hook reads -/

/-- The device nodes: which device a path under `/dev` opens. -/
structure DevNodes where
  node : Disks → Str → Option BlockName
  node_mem : ∀ {d : Disks} {path : Str} {name : BlockName}, node d path = some name → name ∈ d.names
  node_name : ∀ {d : Disks} {name : BlockName}, name ∈ d.names →
    node d ("/dev/".toList ++ name) = some name
  /-- A node stays as long as its device does. -/
  node_kept : ∀ {old new : Disks} {path : Str} {name : BlockName}, Kept old new →
    node old path = some name → node new path = some name

/-- The nodes the kernel makes, without links to them. -/
def DevNodes.kernel : DevNodes where
  node d path := (stripPrefix path "/dev/".toList).filter (· ∈ d.names)
  node_mem h := by simpa using (Option.filter_eq_some_iff.mp h).2
  node_name h := Option.filter_eq_some_iff.mpr ⟨stripPrefix_eq_some.mpr rfl, by simpa using h⟩
  node_kept hkept h := by
    obtain ⟨hpath, hname⟩ := Option.filter_eq_some_iff.mp h
    exact Option.filter_eq_some_iff.mpr ⟨hpath, by simpa using hkept.names (by simpa using hname)⟩

/-- What the hook finds on a boot. -/
structure Surroundings where
  nodes : DevNodes
  /-- The config, where it can be read. -/
  conf : Option Str
  /-- `findmnt -no SOURCE /`. -/
  rootSource : Str

/-- One line of the config. -/
structure VolumeLine where
  match_ : Str
  label : Str
  fstype : Str
  mount : Str
  create : Str
deriving DecidableEq, Repr

def isTab (c : Char) : Bool := c = '\t'

/-- `IFS=<tab> read -r match label fstype mount create`. -/
def VolumeLine.read (line : Str) : VolumeLine :=
  let (match_, rest) := Shell.nextField isTab (line.dropWhile isTab)
  let (label, rest) := Shell.nextField isTab rest
  let (fstype, rest) := Shell.nextField isTab rest
  let (mount, rest) := Shell.nextField isTab rest
  { match_, label, fstype, mount, create := rest.rdropWhile isTab }

/-- The lines the loop takes up; an unterminated last one is not. -/
def confLines (conf : Str) : List VolumeLine :=
  ((rawLines conf).filter (·.getLast? = some '\n')).map fun raw =>
    VolumeLine.read (Shell.lineText raw)

namespace Surroundings

/-- The node of the disk root is on, empty where that is not known. -/
def rootDisk (s : Surroundings) (d : Disks) : Str :=
  if s.rootSource = [] then []
  else match ((s.nodes.node d s.rootSource).bind d.find).bind (·.parent) with
    | some parent => "/dev/".toList ++ parent
    | none => []

end Surroundings

def digits (s : Str) : Bool := !s.isEmpty && s.all Char.isDigit

/-- The name pattern of a kind of disk. -/
def patternOf (kind : DiskKind) (name : BlockName) : Bool :=
  match kind with
  | .nvme =>
    match stripPrefix name "nvme".toList with
    | none => false
    | some rest =>
      digits (rest.takeWhile Char.isDigit) &&
        match rest.dropWhile Char.isDigit with
        | 'n' :: number => digits number
        | _ => false
  | .sata | .usb =>
    match stripPrefix name "sd".toList with
    | none => false
    | some rest => !rest.isEmpty && rest.all Char.isLower
  | .mmc =>
    match stripPrefix name "mmcblk".toList with
    | none => false
    | some rest => digits rest

/-- A disk of a kind: its name is one, its transport too, and it can be written. Only a card may
have no transport. -/
def ofKind (kind : DiskKind) (dev : Node) : Bool :=
  patternOf kind dev.name &&
    (dev.transport = kind.asStr || dev.transport.isEmpty && kind == .mmc) && !dev.readOnly

/-- `disks_of_kind`: nothing for a word that names no kind. -/
def disksOfKind (d : Disks) (kind : Str) : List Str :=
  match [DiskKind.nvme, .sata, .usb, .mmc].find? (·.asStr = kind) with
  | none => []
  | some kind => (d.wholeDisks.filter (ofKind kind ·.toNode)).map ("/dev/".toList ++ ·.name)

namespace Surroundings

/-- The disks a volume may mean, never the one root is on. -/
def candidates (s : Surroundings) (root : Str) (d : Disks) (match_ : Str) : List Str :=
  let found :=
    if "/dev/".toList.isPrefixOf match_ then
      if (s.nodes.node d match_).isSome then [match_] else []
    else disksOfKind d match_
  (found.filter fun path => root = [] || path ≠ root).filter (· ≠ [])

/-- `is_blank`: no partition table, no filesystem and no partition is seen. -/
def isBlank (s : Surroundings) (d : Disks) (path : Str) : Bool :=
  match (s.nodes.node d path).bind d.find with
  | none => true
  | some dev => !decide (d.Holds dev)

end Surroundings

/-- `blkid -L`: the device of a filesystem with the label. -/
def labelled (d : Disks) (label : Str) : Option Device :=
  if label = [] then none
  else d.devices.find? fun dev => dev.contents.fsType ≠ [] ∧ dev.contents.fsLabel = label

/-! ### What the hook does -/

/-- The volume is mounted as `/etc/fstab` says, unless something is mounted there. Only a failing
`mkdir` ends the hook. -/
def mountVolume (w : Outcomes) (b : Board) (mount : Str) : Except Board Board :=
  match b.issue w (.mkdir mount) with
  | (.finished .., b) =>
    if mount ∈ b.mounted then .ok b
    else match b.issue w (.mount mount) with
      | (.finished .., b) => .ok { b with mounted := mount :: b.mounted }
      | (.broken .., b) =>
        .ok (b.say ("WARNING: mount ".toList ++ mount ++ " failed".toList))
      | (.lost, b) => .error b
  | (_, b) => .error b

/-- The script `sfdisk` is given: one partition, named by the label. -/
def sfdiskScript (label : Str) : Str :=
  "label: gpt\nname=\"".toList ++ label ++ "\"\n".toList

/-- The partition that appeared is formatted and mounted. -/
def formatVolume (w : Outcomes) (b : Board) (part : BlockName) (v : VolumeLine) :
    Except Board Board :=
  if v.fstype ≠ "ext4".toList then
    .ok (b.say ("WARNING: unknown fstype '".toList ++ v.fstype ++ "'; leaving /dev/".toList ++
      part ++ " unformatted".toList))
  else match b.issue w (.mkfsExt4 v.label part) with
    | (.finished .., b) => do
      let b ← mountVolume w b v.mount
      .ok (b.say (v.label ++ " ready at ".toList ++ v.mount))
    | (_, b) => .error b

/-- A blank disk is partitioned, and what appears on it formatted. -/
def createVolume (w : Outcomes) (s : Surroundings) (b : Board) (disk : Str) (v : VolumeLine) :
    Except Board Board :=
  match s.nodes.node b.disks disk with
  | none => .error b
  | some target =>
    match b.issue w (.sfdisk target (sfdiskScript v.label)) with
    | (.finished .., b) =>
      match (b.disks.children target).head? with
      | none => .ok (b.say ("WARNING: no partition appeared on ".toList ++ disk ++
          "; leaving ".toList ++ v.mount ++ " unmounted".toList))
      | some part => formatVolume w b part.name v
    | (_, b) => .error b

/-- The body of the loop. -/
def volumeStep (w : Outcomes) (s : Surroundings) (root : Str) (b : Board) (v : VolumeLine) :
    Except Board Board :=
  if v.match_ = [] ∨ v.match_.head? = some '#' then .ok b
  else match labelled b.disks v.label with
    | some existing =>
      mountVolume w (b.say ("adopting /dev/".toList ++ existing.name ++ " (label ".toList ++
        v.label ++ ") at ".toList ++ v.mount)) v.mount
    | none =>
      match s.candidates root b.disks v.match_ with
      | [] => .ok (b.say ("no disk matches '".toList ++ v.match_ ++ "' for label ".toList ++
          v.label ++ "; leaving ".toList ++ v.mount ++ " unmounted".toList))
      | [disk] =>
        if v.create ≠ "if-blank".toList then
          .ok (b.say ("no volume labelled ".toList ++ v.label ++ " on ".toList ++ disk ++
            " and create=".toList ++ v.create ++ "; leaving it alone".toList))
        else if !s.isBlank b.disks disk then
          .ok (b.say ("REFUSING: ".toList ++ disk ++ (" already holds a partition table or " ++
            "filesystem and no volume labelled ").toList ++ v.label ++ "; not touching it".toList))
        else createVolume w s
          (b.say ("creating ".toList ++ v.fstype ++ " volume ".toList ++ v.label ++
            " on blank disk ".toList ++ disk)) disk v
      | disks => .ok (b.say ("REFUSING: '".toList ++ v.match_ ++ "' matches ".toList ++
          (toString disks.length).toList ++ " disks (".toList ++ join [' '] disks ++
          "); name one explicitly as match = \"/dev/...\"".toList))

/-- The hook. The disk root is on is looked up once. -/
def dataVolumeHook (w : Outcomes) (s : Surroundings) (b : Board) : Except Board Board :=
  match s.conf with
  | none => .ok (b.say "no /etc/boot2deb/data-volumes.conf; nothing to do".toList)
  | some conf => (confLines conf).foldlM (volumeStep w s (s.rootDisk b.disks)) b

end Boot2Deb.FirstBoot
