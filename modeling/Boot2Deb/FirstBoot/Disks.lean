import Boot2Deb.Rust.Str

/-!
# The block devices of a board

The disks and partitions the kernel knows, as `lsblk`, `blkid` and `/sys/block` tell of them, and
what the commands that write them leave: a disk gets a partition table and partitions the kernel
takes up, a partition a filesystem. What a device holds behind a command that did not finish is
anything (`Kept` says what no command of the hooks changes).
-/

namespace Boot2Deb.FirstBoot
open Rust

/-- A name the kernel gives a device. -/
abbrev BlockName := Str

/-- What the kernel tells of a device. -/
structure Node where
  name : BlockName
  /-- The device it is a partition of. -/
  parent : Option BlockName
  transport : Str
  readOnly : Bool
deriving DecidableEq, Repr

/-- What a device holds outside its partitions: the signatures a probe of it finds, empty where it
finds none, and all else. -/
structure Contents where
  partTable : Str
  fsType : Str
  fsLabel : Str
  data : Bytes
deriving DecidableEq, Repr

structure Device extends Node where
  contents : Contents
deriving DecidableEq, Repr

/-- The devices of a board, in the order they are listed. -/
structure Disks where
  devices : List Device
  nodup : (devices.map (·.name)).Nodup
deriving DecidableEq

namespace Disks

def names (d : Disks) : List BlockName := d.devices.map (·.name)

def find (d : Disks) (name : BlockName) : Option Device := d.devices.find? (·.name = name)

/-- The partitions of a device. -/
def children (d : Disks) (name : BlockName) : List Device :=
  d.devices.filter (·.parent = some name)

/-- The devices that are no partition. -/
def wholeDisks (d : Disks) : List Device := d.devices.filter (·.parent = none)

/-- A device that is not blank: it has a partition table, a filesystem or a partition. -/
def Holds (d : Disks) (dev : Device) : Prop :=
  dev.contents.partTable ≠ [] ∨ dev.contents.fsType ≠ [] ∨ d.children dev.name ≠ []

instance (d : Disks) (dev : Device) : Decidable (d.Holds dev) :=
  inferInstanceAs (Decidable (_ ∨ _ ∨ _))

theorem map_setContents (devices : List Device) (name : BlockName) (c : Contents) :
    (devices.map fun dev => if dev.name = name then { dev with contents := c } else dev).map
      (·.toNode) = devices.map (·.toNode) := by
  rw [List.map_map]
  refine List.map_congr_left fun dev _ => ?_
  dsimp only [Function.comp_apply]
  split_ifs <;> rfl

/-- The device of a name is overwritten. -/
def setContents (d : Disks) (name : BlockName) (c : Contents) : Disks where
  devices := d.devices.map fun dev => if dev.name = name then { dev with contents := c } else dev
  nodup := by
    have hnames : ∀ l : List Device, l.map (·.name) = (l.map (·.toNode)).map (·.name) :=
      fun l => by rw [List.map_map]; rfl
    rw [hnames, map_setContents, ← hnames]
    exact d.nodup

/-- The kernel takes up a partition, under a name that no device has. -/
def addPartition (d : Disks) (disk : BlockName) (part : BlockName × Contents) : Disks :=
  if h : part.1 ∈ d.names then d
  else
    { devices := d.devices ++ [⟨⟨part.1, some disk, [], false⟩, part.2⟩]
      nodup := by
        rw [List.map_append, List.nodup_append]
        refine ⟨d.nodup, List.nodup_singleton _, fun a ha b hb hab => h ?_⟩
        obtain rfl := List.mem_singleton.mp hb
        obtain rfl : a = part.1 := hab
        exact ha }

def addPartitions (d : Disks) (disk : BlockName) (parts : List (BlockName × Contents)) : Disks :=
  parts.foldl (addPartition · disk) d

variable {d : Disks} {dev dev' : Device} {name disk : BlockName} {c : Contents}
  {part : BlockName × Contents} {parts : List (BlockName × Contents)}

theorem eq_of_name (h : dev ∈ d.devices) (h' : dev' ∈ d.devices) (hname : dev.name = dev'.name) :
    dev = dev' :=
  List.inj_on_of_nodup_map d.nodup h h' hname

theorem find_eq_some_iff : d.find name = some dev ↔ dev ∈ d.devices ∧ dev.name = name := by
  constructor
  · intro h
    exact ⟨List.mem_of_find?_eq_some h, by simpa using List.find?_some h⟩
  · rintro ⟨hmem, rfl⟩
    cases hfind : d.find dev.name with
    | none => exact absurd (List.find?_eq_none.mp hfind dev hmem) (by simp)
    | some dev' =>
      have hname : dev'.name = dev.name := by simpa using List.find?_some hfind
      rw [eq_of_name (List.mem_of_find?_eq_some hfind) hmem hname]

theorem mem_children : dev ∈ d.children name ↔ dev ∈ d.devices ∧ dev.parent = some name := by
  unfold children
  rw [List.mem_filter, decide_eq_true_iff]

theorem mem_setContents : dev ∈ (d.setContents name c).devices ↔
    ∃ old ∈ d.devices, dev = if old.name = name then { old with contents := c } else old := by
  unfold setContents
  simp only [List.mem_map, eq_comm]

theorem names_setContents : (d.setContents name c).names = d.names := by
  have hnames : ∀ l : List Device, l.map (·.name) = (l.map (·.toNode)).map (·.name) :=
    fun l => by rw [List.map_map]; rfl
  unfold names
  rw [hnames, hnames]
  exact congrArg _ (map_setContents _ _ _)

/-- Any other device is as it was. -/
theorem mem_setContents_of_ne (h : dev.name ≠ name) :
    dev ∈ (d.setContents name c).devices ↔ dev ∈ d.devices := by
  rw [mem_setContents]
  constructor
  · rintro ⟨old, hold, heq⟩
    split_ifs at heq with hname
    · exact absurd (heq ▸ hname) h
    · exact heq ▸ hold
  · exact fun hmem => ⟨dev, hmem, (if_neg h).symm⟩

theorem mem_addPartition (h : dev ∈ d.devices) : dev ∈ (d.addPartition disk part).devices := by
  unfold addPartition
  split_ifs
  · exact h
  · exact List.mem_append_left _ h

theorem mem_addPartitions (h : dev ∈ d.devices) : dev ∈ (d.addPartitions disk parts).devices := by
  induction parts generalizing d with
  | nil => exact h
  | cons part parts ih => exact ih (mem_addPartition h)

theorem wholeNodes_setContents : (d.setContents name c).wholeDisks.map (·.toNode) =
    d.wholeDisks.map (·.toNode) := by
  have hfilter : ∀ l : List Device, (l.filter (·.parent = none)).map (·.toNode) =
      (l.map (·.toNode)).filter (·.parent = none) := fun l => by
    rw [List.filter_map]
    rfl
  unfold wholeDisks
  rw [hfilter, hfilter]
  exact congrArg _ (map_setContents _ _ _)

theorem wholeDisks_addPartition : (d.addPartition disk part).wholeDisks = d.wholeDisks := by
  unfold addPartition wholeDisks
  split_ifs
  · rfl
  · rw [List.filter_append]
    simp

theorem wholeDisks_addPartitions : (d.addPartitions disk parts).wholeDisks = d.wholeDisks := by
  induction parts generalizing d with
  | nil => rfl
  | cons part parts ih => exact ih.trans wholeDisks_addPartition

theorem mem_addPartition_cases (h : dev ∈ (d.addPartition disk part).devices) :
    dev ∈ d.devices ∨ dev.parent = some disk ∧ dev.name ∉ d.names := by
  unfold addPartition at h
  split_ifs at h with hpart
  · exact .inl h
  · rcases List.mem_append.mp h with h | h
    · exact .inl h
    · obtain rfl := List.mem_singleton.mp h
      exact .inr ⟨rfl, hpart⟩

/-- A partition taken up belongs to the disk and has a new name. -/
theorem mem_addPartitions_cases (h : dev ∈ (d.addPartitions disk parts).devices) :
    dev ∈ d.devices ∨ dev.parent = some disk ∧ dev.name ∉ d.names := by
  induction parts generalizing d with
  | nil => exact .inl h
  | cons part parts ih =>
    have hnames : d.names ⊆ (d.addPartition disk part).names := fun n hn => by
      obtain ⟨old, hold, rfl⟩ := List.mem_map.mp hn
      exact List.mem_map_of_mem (mem_addPartition hold)
    rcases ih h with h | ⟨hparent, hname⟩
    · exact mem_addPartition_cases h
    · exact .inr ⟨hparent, fun hn => hname (hnames hn)⟩

theorem children_addPartitions_ne_nil (hmem : part ∈ parts) (hname : part.1 ∉ d.names) :
    (d.addPartitions disk parts).children disk ≠ [] := by
  induction parts generalizing d with
  | nil => cases hmem
  | cons first parts ih =>
    by_cases hfirst : first.1 ∈ d.names
    · have hsame : d.addPartition disk first = d := dif_pos hfirst
      have hrest : part ∈ parts := (List.mem_cons.mp hmem).resolve_left fun h =>
        hname (h ▸ hfirst)
      unfold addPartitions
      rw [List.foldl_cons, hsame]
      exact ih hrest hname
    · have hnew : (⟨⟨first.1, some disk, [], false⟩, first.2⟩ : Device) ∈
          (d.addPartition disk first).devices := by
        unfold addPartition
        rw [dif_neg hfirst]
        exact List.mem_append_right _ (List.mem_singleton_self _)
      have hchild := mem_children.mpr ⟨@mem_addPartitions _ _ disk parts hnew, rfl⟩
      exact List.ne_nil_of_mem hchild

end Disks

/-! ### What stays -/

/-- Every device is still there, every one that was not blank holds what it did, and no whole disk
came or went. -/
structure Kept (old new : Disks) : Prop where
  whole : new.wholeDisks.map (·.toNode) = old.wholeDisks.map (·.toNode)
  node : ∀ dev ∈ old.devices, ∃ dev' ∈ new.devices, dev'.toNode = dev.toNode
  held : ∀ dev ∈ old.devices, old.Holds dev → dev ∈ new.devices

namespace Kept
variable {old mid new : Disks} {dev dev' : Device} {name disk : BlockName} {c : Contents}

protected theorem refl (d : Disks) : Kept d d :=
  ⟨rfl, fun dev h => ⟨dev, h, rfl⟩, fun _ h _ => h⟩

theorem names (h : Kept old new) : old.names ⊆ new.names := fun n hn => by
  obtain ⟨dev, hdev, rfl⟩ := List.mem_map.mp hn
  obtain ⟨dev', hdev', hnode⟩ := h.node dev hdev
  exact List.mem_map.mpr ⟨dev', hdev', congrArg Node.name hnode⟩

theorem children_ne_nil (h : Kept old new) (hne : old.children name ≠ []) :
    new.children name ≠ [] := by
  obtain ⟨child, hchild⟩ := List.exists_mem_of_ne_nil _ hne
  obtain ⟨hmem, hparent⟩ := Disks.mem_children.mp hchild
  obtain ⟨child', hmem', hnode⟩ := h.node child hmem
  have hparent' : child'.parent = some name := (congrArg Node.parent hnode).trans hparent
  exact List.ne_nil_of_mem (Disks.mem_children.mpr ⟨hmem', hparent'⟩)

/-- A device that was not blank is not. -/
theorem holds (h : Kept old new) (hdev : old.Holds dev) : new.Holds dev :=
  hdev.imp_right (·.imp_right h.children_ne_nil)

protected theorem trans (h : Kept old mid) (h' : Kept mid new) : Kept old new where
  whole := h'.whole.trans h.whole
  node dev hdev := by
    obtain ⟨dev', hdev', hnode⟩ := h.node dev hdev
    obtain ⟨dev'', hdev'', hnode'⟩ := h'.node dev' hdev'
    exact ⟨dev'', hdev'', hnode'.trans hnode⟩
  held dev hdev hholds := h'.held dev (h.held dev hdev hholds) (h.holds hholds)

/-- Overwriting a blank device. -/
theorem setContents (hblank : ∀ dev ∈ old.devices, dev.name = name → ¬old.Holds dev) :
    Kept old (old.setContents name c) where
  whole := Disks.wholeNodes_setContents
  node dev hdev := by
    refine ⟨_, Disks.mem_setContents.mpr ⟨dev, hdev, rfl⟩, ?_⟩
    split_ifs <;> rfl
  held dev hdev hholds :=
    (Disks.mem_setContents_of_ne fun hname => hblank dev hdev hname hholds).mpr hdev

theorem addPartitions {parts : List (BlockName × Contents)} :
    Kept old (old.addPartitions disk parts) where
  whole := congrArg _ Disks.wholeDisks_addPartitions
  node dev hdev := ⟨dev, Disks.mem_addPartitions hdev, rfl⟩
  held _ hdev _ := Disks.mem_addPartitions hdev

/-- Overwriting a device that came later. -/
theorem setContents_new (h : Kept old new) (hname : name ∉ old.names) :
    Kept old (new.setContents name c) where
  whole := Disks.wholeNodes_setContents.trans h.whole
  node dev hdev := by
    obtain ⟨dev', hdev', hnode⟩ := h.node dev hdev
    refine ⟨_, Disks.mem_setContents.mpr ⟨dev', hdev', rfl⟩, ?_⟩
    split_ifs <;> exact hnode
  held dev hdev hholds := by
    refine (Disks.mem_setContents_of_ne fun hdn => hname ?_).mpr (h.held dev hdev hholds)
    exact hdn ▸ List.mem_map_of_mem hdev

end Kept

end Boot2Deb.FirstBoot
