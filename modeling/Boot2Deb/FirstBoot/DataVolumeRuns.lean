import Boot2Deb.FirstBoot.DataVolumeHook

/-!
# What the data-volume hook can do

One pass over a line of the config either writes no device, or partitions a blank disk, or
partitions one and formats the partition that appeared (`Did`). Every device that was not blank is
kept over any number of boots, however each ends; and a label is given to a filesystem once.
-/

namespace Boot2Deb.FirstBoot
open Rust Config

/-- The board a hook leaves, whether it went on or ended. -/
def left : Except Board Board → Board
  | .ok b => b
  | .error b => b

/-! ### One line -/

/-- A device that a volume may mean. -/
def Meant (s : Surroundings) (root : Str) (d : Disks) (match_ : Str) (name : BlockName) : Prop :=
  ∃ path ∈ s.candidates root d match_, s.nodes.node d path = some name

/-- What one line does to the disks, and the commands it issues, where its volume may mean the
devices of `M`. -/
inductive Did (M : BlockName → Prop) (d : Disks) (label : Str) : Disks → List Issued → Prop where
  | quiet {new} (hquiet : ∀ i ∈ new, i.1.target = none) : Did M d label d new
  | partitioned {dev script fate} (hmeant : M dev.name)
      (hlabelled : labelled d label = none) (hdev : dev ∈ d.devices) (hblank : ¬d.Holds dev) :
      Did M d label ((Command.sfdisk dev.name script).effect d fate)
        [(.sfdisk dev.name script, fate)]
  | formatted {dev script found data part fate new mid} (hmeant : M dev.name)
      (hlabelled : labelled d label = none) (hdev : dev ∈ d.devices) (hblank : ¬d.Holds dev)
      (hmid : mid = (Command.sfdisk dev.name script).effect d (.finished found data))
      (hpart : part ∈ mid.children dev.name) (hquiet : ∀ i ∈ new, i.1.target = none) :
      Did M d label ((Command.mkfsExt4 label part.name).effect mid fate)
        ((.sfdisk dev.name script, .finished found data) :: (.mkfsExt4 label part.name, fate) ::
          new)

section
variable {w : Outcomes} {s : Surroundings} {root : Str} {b : Board} {v : VolumeLine}

theorem mountVolume_quiet (w : Outcomes) (b : Board) (mount : Str) :
    (left (mountVolume w b mount)).disks = b.disks ∧ ∃ new : List Issued,
      (left (mountVolume w b mount)).issued = b.issued ++ new ∧ ∀ i ∈ new, i.1.target = none := by
  unfold mountVolume Board.issue
  rcases w b.issued (.mkdir mount) b.disks with ⟨found, data⟩ | ⟨_, _⟩ | _
  · dsimp only
    split_ifs
    · exact ⟨rfl, _, rfl, by simp [Command.target]⟩
    · rcases w _ (.mount mount) _ with ⟨found, data⟩ | ⟨_, _⟩ | _ <;>
        exact ⟨rfl, _, List.append_assoc .., by simp [Command.target]⟩
  · exact ⟨rfl, _, rfl, by simp [Command.target]⟩
  · exact ⟨rfl, _, rfl, by simp [Command.target]⟩

theorem left_bind_say (r : Except Board Board) (text : Str) :
    (left (r >>= fun b => .ok (b.say text))).disks = (left r).disks ∧
      (left (r >>= fun b => .ok (b.say text))).issued = (left r).issued := by
  cases r <;> exact ⟨rfl, rfl⟩

/-- What a pass leaves behind. -/
def Leaves (M : BlockName → Prop) (b : Board) (label : Str) (r : Except Board Board) : Prop :=
  ∃ new, (left r).issued = b.issued ++ new ∧ Did M b.disks label (left r).disks new

theorem Leaves.of_quiet {M : BlockName → Prop} {r : Except Board Board} (label : Str) (hdisks : (left r).disks = b.disks)
    (hissued : ∃ new : List Issued, (left r).issued = b.issued ++ new ∧
      ∀ i ∈ new, i.1.target = none) : Leaves M b label r := by
  obtain ⟨new, hnew, hquiet⟩ := hissued
  exact ⟨new, hnew, hdisks ▸ .quiet hquiet⟩

theorem formatVolume_cases (w : Outcomes) (b : Board) (part : BlockName) (v : VolumeLine) :
    ((left (formatVolume w b part v)).disks = b.disks ∧
      (left (formatVolume w b part v)).issued = b.issued) ∨
    ∃ fate, ∃ new : List Issued, (left (formatVolume w b part v)).disks =
        (Command.mkfsExt4 v.label part).effect b.disks fate ∧
      (left (formatVolume w b part v)).issued =
        b.issued ++ (.mkfsExt4 v.label part, fate) :: new ∧ ∀ i ∈ new, i.1.target = none := by
  unfold formatVolume
  split_ifs with hfs
  · exact .inl ⟨rfl, rfl⟩
  · refine .inr ⟨w b.issued (.mkfsExt4 v.label part) b.disks, ?_⟩
    rcases hissue : b.issue w (.mkfsExt4 v.label part) with ⟨fate, c⟩
    obtain ⟨rfl, rfl⟩ := Prod.mk.inj hissue
    rcases w b.issued (.mkfsExt4 v.label part) b.disks with ⟨found, data⟩ | ⟨_, _⟩ | _
    · obtain ⟨hdisks, new, hnew, hquiet⟩ := mountVolume_quiet w
        { b with
          disks := (Command.mkfsExt4 v.label part).effect b.disks (.finished found data)
          issued := b.issued ++ [(.mkfsExt4 v.label part, .finished found data)] } v.mount
      obtain ⟨hsame, hissued⟩ := left_bind_say (mountVolume w
        { b with
          disks := (Command.mkfsExt4 v.label part).effect b.disks (.finished found data)
          issued := b.issued ++ [(.mkfsExt4 v.label part, .finished found data)] } v.mount)
        (v.label ++ " ready at ".toList ++ v.mount)
      exact ⟨new, hsame.trans hdisks, hissued.trans (hnew.trans (List.append_assoc ..)), hquiet⟩
    · exact ⟨[], rfl, rfl, nofun⟩
    · exact ⟨[], rfl, rfl, nofun⟩

theorem leaves_createVolume {M : BlockName → Prop} {disk : Str}
    (hmeant : ∀ name, s.nodes.node b.disks disk = some name → M name)
    (hlabelled : labelled b.disks v.label = none) (hblank : s.isBlank b.disks disk = true) :
    Leaves M b v.label (createVolume w s b disk v) := by
  unfold createVolume
  cases hnode : s.nodes.node b.disks disk with
  | none => exact .of_quiet _ rfl ⟨[], (List.append_nil _).symm, nofun⟩
  | some target =>
    have hmeant := hmeant target hnode
    obtain ⟨dev, hdev, rfl⟩ := List.mem_map.mp (s.nodes.node_mem hnode)
    have hblank : ¬b.disks.Holds dev := by
      unfold Surroundings.isBlank at hblank
      rw [hnode, Option.bind_some, Disks.find_eq_some_iff.mpr ⟨hdev, rfl⟩] at hblank
      simpa using hblank
    rcases hissue : b.issue w (.sfdisk dev.name (sfdiskScript v.label)) with ⟨fate, c⟩
    obtain ⟨hfate, hc⟩ := Prod.mk.inj hissue
    have hdisks : c.disks =
        (Command.sfdisk dev.name (sfdiskScript v.label)).effect b.disks fate := by
      rw [← hc, ← hfate]
    have hissued : c.issued = b.issued ++ [(.sfdisk dev.name (sfdiskScript v.label), fate)] := by
      rw [← hc, ← hfate]
    have hsfdisk : ∀ r, (left r).disks = c.disks → (left r).issued = c.issued →
        Leaves M b v.label r := fun r hd hi => by
      refine ⟨_, hi.trans hissued, ?_⟩
      rw [hd, hdisks]
      exact .partitioned hmeant hlabelled hdev hblank
    dsimp only
    rw [hissue]
    rcases fate with ⟨found, data⟩ | ⟨_, _⟩ | _
    · dsimp only
      cases hpart : (c.disks.children dev.name).head? with
      | none => exact hsfdisk _ rfl rfl
      | some part =>
        rcases formatVolume_cases w c part.name v with ⟨hd, hi⟩ | ⟨fate, new, hd, hi, hquiet⟩
        · exact hsfdisk _ hd hi
        · refine ⟨_, (hi.trans (by rw [hissued])).trans (List.append_assoc ..), ?_⟩
          rw [hd]
          exact .formatted hmeant hlabelled hdev hblank hdisks (List.mem_of_head? hpart) hquiet
    · exact hsfdisk _ rfl rfl
    · exact hsfdisk _ rfl rfl

theorem leaves_volumeStep (w : Outcomes) (s : Surroundings) (root : Str) (b : Board)
    (v : VolumeLine) :
    Leaves (Meant s root b.disks v.match_) b v.label (volumeStep w s root b v) := by
  have hsaid : ∀ text, Leaves (Meant s root b.disks v.match_) b v.label (.ok (b.say text)) := fun text =>
    .of_quiet _ rfl ⟨[], (List.append_nil _).symm, nofun⟩
  unfold volumeStep
  by_cases hcomment : v.match_ = [] ∨ v.match_.head? = some '#'
  · rw [if_pos hcomment]
    exact .of_quiet _ rfl ⟨[], (List.append_nil _).symm, nofun⟩
  rw [if_neg hcomment]
  cases hlabelled : labelled b.disks v.label with
  | some existing =>
    obtain ⟨hdisks, hissued⟩ := mountVolume_quiet w (b.say _) v.mount
    exact .of_quiet _ hdisks hissued
  | none =>
    rcases hfound : s.candidates root b.disks v.match_ with - | ⟨disk, - | ⟨other, disks⟩⟩
    · exact hsaid _
    · dsimp only
      split_ifs with hcreate hblank
      · exact hsaid _
      · exact hsaid _
      · have hblank : s.isBlank b.disks disk = true := by simpa using hblank
        have hmem : disk ∈ s.candidates root b.disks v.match_ := by
          rw [hfound]
          exact List.mem_singleton_self _
        exact leaves_createVolume (b := b.say _) (fun name hname => ⟨disk, hmem, hname⟩)
          hlabelled hblank
    · exact hsaid _

end

/-! ### What every line keeps -/

namespace Did
variable {M : BlockName → Prop} {d d' : Disks} {label : Str} {new : List Issued}
  {dev part : Device}

theorem kept_sfdisk (script : Str) (fate : Fate) (hdev : dev ∈ d.devices)
    (hblank : ¬d.Holds dev) : Kept d ((Command.sfdisk dev.name script).effect d fate) := by
  have hblank : ∀ dev' ∈ d.devices, dev'.name = dev.name → ¬d.Holds dev' :=
    fun dev' hdev' hname => Disks.eq_of_name hdev' hdev hname ▸ hblank
  rcases fate with ⟨found, data⟩ | ⟨contents, found⟩ | _
  · exact (Kept.setContents hblank).trans .addPartitions
  · exact (Kept.setContents hblank).trans .addPartitions
  · exact .refl d

/-- On a disk that was blank, a partition is a new device. -/
theorem part_new {script : Str} {fate : Fate} (hblank : ¬d.Holds dev)
    (hpart : part ∈ ((Command.sfdisk dev.name script).effect d fate).children dev.name) :
    part.name ∉ d.names := by
  have hold : ∀ old ∈ d.devices, old.parent ≠ some dev.name := fun old hold hparent =>
    hblank (.inr (.inr (List.ne_nil_of_mem (Disks.mem_children.mpr ⟨hold, hparent⟩))))
  have hset : ∀ c, ∀ old ∈ (d.setContents dev.name c).devices, old.parent ≠ some dev.name := by
    intro c x hx
    obtain ⟨old, hmem, rfl⟩ := Disks.mem_setContents.mp hx
    split_ifs <;> exact hold old hmem
  obtain ⟨hmem, hparent⟩ := Disks.mem_children.mp hpart
  rcases fate with ⟨found, data⟩ | ⟨contents, found⟩ | _
  · rcases Disks.mem_addPartitions_cases hmem with hmem | ⟨-, hnew⟩
    · exact absurd hparent (hset _ _ hmem)
    · exact Disks.names_setContents ▸ hnew
  · rcases Disks.mem_addPartitions_cases hmem with hmem | ⟨-, hnew⟩
    · exact absurd hparent (hset _ _ hmem)
    · exact Disks.names_setContents ▸ hnew
  · exact absurd hparent (hold _ hmem)

theorem kept_mkfs {mid : Disks} (fate : Fate) (hkept : Kept d mid) (hpart : part.name ∉ d.names) :
    Kept d ((Command.mkfsExt4 label part.name).effect mid fate) := by
  rcases fate with ⟨found, data⟩ | ⟨contents, found⟩ | _
  · exact hkept.setContents_new hpart
  · exact hkept.setContents_new hpart
  · exact hkept

theorem kept (h : Did M d label d' new) : Kept d d' := by
  cases h with
  | quiet => exact .refl d
  | partitioned hmeant hlabelled hdev hblank => exact kept_sfdisk _ _ hdev hblank
  | formatted hmeant hlabelled hdev hblank hmid hpart hquiet =>
    subst hmid
    exact kept_mkfs _ (kept_sfdisk _ _ hdev hblank) (part_new hblank hpart)

/-- No command writes a device that was not blank. -/
theorem target_ne (h : Did M d label d' new) (hdev : dev ∈ d.devices) (hholds : d.Holds dev) :
    ∀ i ∈ new, i.1.target ≠ some dev.name := by
  have hsfdisk : ∀ old ∈ d.devices, ¬d.Holds old → old.name ≠ dev.name := fun old hold hblank hname =>
    hblank (Disks.eq_of_name hold hdev hname ▸ hholds)
  intro i hi htarget
  cases h with
  | quiet hquiet => exact absurd (hquiet i hi) (by rw [htarget]; nofun)
  | partitioned hmeant hlabelled hold hblank =>
    obtain rfl := List.mem_singleton.mp hi
    exact hsfdisk _ hold hblank (Option.some.inj htarget)
  | formatted hmeant hlabelled hold hblank hmid hpart hquiet =>
    subst hmid
    rcases List.mem_cons.mp hi with rfl | hi
    · exact hsfdisk _ hold hblank (Option.some.inj htarget)
    rcases List.mem_cons.mp hi with rfl | hi
    · have hname := Option.some.inj htarget
      exact part_new hblank hpart (hname ▸ List.mem_map_of_mem hdev)
    · exact absurd (hquiet i hi) (by rw [htarget]; nofun)

end Did

/-- The label of a filesystem stays one. -/
theorem Kept.isSome_labelled {d d' : Disks} {label : Str} (h : Kept d d') (hsome : (labelled d label).isSome = true) :
    (labelled d' label).isSome = true := by
  unfold labelled at hsome ⊢
  split_ifs at hsome ⊢ with hlabel
  · cases hsome
  rw [List.find?_isSome] at hsome ⊢
  obtain ⟨dev, hdev, hcarries⟩ := hsome
  have hcarries' := of_decide_eq_true hcarries
  exact ⟨dev, h.held dev hdev (.inr (.inl hcarries'.1)), hcarries⟩

/-! ### Formatting -/

/-- A finished `mkfs.ext4` that gives a label. -/
def formats (label : Str) (i : Issued) : Bool :=
  match i with
  | (.mkfsExt4 l _, .finished ..) => l = label
  | _ => false

theorem storedLabel_eq {room : ℕ} {label : Str} (h : byteLen label ≤ room) :
    storedLabel room label = label := by
  induction label generalizing room with
  | nil => cases room <;> rfl
  | cons c label ih =>
    have hsum : byteLen (c :: label) = c.utf8Size + byteLen label := by
      unfold byteLen
      rw [List.map_cons, List.sum_cons]
    rw [hsum] at h
    rw [storedLabel, if_pos (by omega), ih (by omega)]

theorem not_formats_of_quiet {label : Str} {new : List Issued}
    (hquiet : ∀ i ∈ new, i.1.target = none) : new.countP (formats label) = 0 := by
  refine List.countP_eq_zero.mpr fun i hi => ?_
  have htarget := hquiet i hi
  rcases i with ⟨c, fate⟩
  cases c with
  | mkfsExt4 l part => cases htarget
  | _ => simp [formats]

/-- A partition with a finished filesystem carries its label. -/
theorem isSome_labelled_mkfs {d : Disks} {label : Str} {part : Device}
    {found : List (BlockName × Contents)} {data : Bytes} (hne : label ≠ [])
    (hlen : byteLen label ≤ maxLabelBytes) (hpart : part ∈ d.devices) :
    (labelled ((Command.mkfsExt4 label part.name).effect d (.finished found data)) label).isSome =
      true := by
  unfold labelled
  rw [if_neg hne, List.find?_isSome]
  refine ⟨_, Disks.mem_setContents.mpr ⟨part, hpart, rfl⟩, ?_⟩
  rw [if_pos rfl]
  simp [storedLabel_eq hlen]

namespace Did
variable {M : BlockName → Prop} {d d' : Disks} {label label' : Str} {new : List Issued}

/-- A line of another label does not give this one, nor does one whose label is there. -/
theorem countP_eq_zero (h : Did M d label' d' new)
    (hother : label' = label → (labelled d label).isSome = true) :
    new.countP (formats label) = 0 := by
  cases h with
  | quiet hquiet => exact not_formats_of_quiet hquiet
  | partitioned => rfl
  | @formatted dev script found data part fate new mid hmeant hlabelled hdev hblank hmid hpart hquiet =>
    have hne : label' ≠ label := by
      rintro rfl
      rw [hlabelled] at hother
      cases hother rfl
    rw [List.countP_cons_of_neg (by simp [formats]), List.countP_cons_of_neg]
    · exact not_formats_of_quiet hquiet
    · cases fate <;> simp [formats, hne]

/-- A line gives a label at most once, and then a filesystem has it. -/
theorem countP_le (h : Did M d label d' new) (hne : label ≠ [])
    (hlen : byteLen label ≤ maxLabelBytes) : new.countP (formats label) ≤ 1 ∧
      (new.countP (formats label) = 1 → (labelled d' label).isSome = true) := by
  cases h with
  | quiet hquiet => rw [not_formats_of_quiet hquiet]; exact ⟨by omega, nofun⟩
  | partitioned => exact ⟨Nat.zero_le _, nofun⟩
  | @formatted dev script found data part fate new mid hmeant hlabelled hdev hblank hmid hpart hquiet =>
    rw [List.countP_cons_of_neg (by simp [formats]), List.countP_cons, not_formats_of_quiet hquiet]
    rcases fate with ⟨found', data'⟩ | ⟨_, _⟩ | _
    · exact ⟨by simp [formats],
        fun _ => isSome_labelled_mkfs hne hlen (Disks.mem_children.mp hpart).1⟩
    · exact ⟨by simp [formats], by simp [formats]⟩
    · exact ⟨by simp [formats], by simp [formats]⟩

end Did

/-! ### Boots -/

/-- What happens to a board: the hook is run on a boot, where some mounts were made before, or
something else changes the disks. -/
inductive Event where
  | boot (s : Surroundings) (mounted : List Str)
  | outside (change : Disks → Disks)

namespace Board

def event (w : Outcomes) (b : Board) : Event → Board
  | .boot s mounted => left (dataVolumeHook w s { b with mounted })
  | .outside change => { b with disks := change b.disks }

def run (w : Outcomes) (b : Board) (events : List Event) : Board := events.foldl (event w) b

end Board

variable {w : Outcomes} {events : List Event} {P : Board → Prop}

theorem left_foldlM {step : Board → VolumeLine → Except Board Board}
    (hstep : ∀ b v, P b → P (left (step b v))) (lines : List VolumeLine) {b : Board} (h : P b) :
    P (left (lines.foldlM step b)) := by
  induction lines generalizing b with
  | nil => exact h
  | cons v lines ih =>
    rw [List.foldlM_cons]
    have hv := hstep b v h
    cases hr : step b v with
    | error c => rwa [hr] at hv
    | ok c =>
      rw [hr] at hv
      exact ih hv

/-- What every line and every other change keeps holds behind every run. -/
theorem Board.run_invariant {P : Disks → List Issued → Prop}
    (hline : ∀ {M : BlockName → Prop} {d d' label issued new}, P d issued →
      Did M d label d' new → P d' (issued ++ new))
    (houtside : ∀ change, .outside change ∈ events → ∀ d issued, P d issued →
      P (change d) issued)
    {b : Board} (h : P b.disks b.issued) : P (b.run w events).disks (b.run w events).issued := by
  induction events generalizing b with
  | nil => exact h
  | cons event events ih =>
    refine ih (fun change hmem => houtside change (List.mem_cons_of_mem _ hmem)) ?_
    cases event with
    | outside change => exact houtside change List.mem_cons_self _ _ h
    | boot s mounted =>
      unfold Board.event dataVolumeHook
      dsimp only
      cases s.conf with
      | none => exact h
      | some conf =>
        refine left_foldlM (P := fun b => P b.disks b.issued) (fun b v hb => ?_) (confLines conf) h
        obtain ⟨new, hissued, hdid⟩ := leaves_volumeStep w s _ b v
        rw [hissued]
        exact hline hb hdid

def usedDisk : Device := ⟨⟨"sda".toList, none, "sata".toList, false⟩, ⟨[], "ext4".toList, [], []⟩⟩

def usedBoard : Board := ⟨⟨[usedDisk], by decide⟩, [], [], []⟩

def usedSurroundings : Surroundings :=
  ⟨.kernel, some "/dev/sda\tdata\text4\t/srv\tif-blank\n".toList, []⟩

/-- Every command breaks off and leaves its device empty. -/
def breaksOff : Outcomes := fun _ _ _ => .broken ⟨[], [], [], []⟩ []

end Boot2Deb.FirstBoot
