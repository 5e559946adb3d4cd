import Boot2Deb.FirstBoot.DataVolumeRuns

/-!
# The volumes a first boot readies

On a boot none of whose commands fails, the hook goes through the config the build rendered, and
mounts each volume whose label a filesystem already has or whose disk is blank and nobody else's.
-/

namespace Boot2Deb.FirstBoot
open Rust Config

/-- Every command finishes, and `sfdisk` with a partition that the kernel takes up. -/
structure Finishes (w : Outcomes) : Prop where
  finished : ∀ issued c d, ∃ found data, w issued c d = .finished found data
  appears : ∀ {issued disk script d found data},
    w issued (.sfdisk disk script) d = .finished found data → ∃ part ∈ found, part.1 ∉ d.names

/-! ### Candidates -/

section
variable {s : Surroundings} {root path match_ : Str} {d d' : Disks}

theorem map_disksOfKind (kind : DiskKind) :
    (d.wholeDisks.filter (ofKind kind ·.toNode)).map ("/dev/".toList ++ ·.name) =
      ((d.wholeDisks.map (·.toNode)).filter (ofKind kind)).map ("/dev/".toList ++ ·.name) := by
  rw [List.filter_map, List.map_map]
  rfl

theorem disksOfKind_kept (h : Kept d d') : disksOfKind d' match_ = disksOfKind d match_ := by
  unfold disksOfKind
  cases [DiskKind.nvme, .sata, .usb, .mmc].find? (·.asStr = match_) with
  | none => rfl
  | some kind =>
    dsimp only
    rw [map_disksOfKind, map_disksOfKind, h.whole]

/-- A candidate is a device. -/
theorem candidates_node (h : path ∈ s.candidates root d match_) :
    ∃ name, s.nodes.node d path = some name := by
  have h := List.mem_of_mem_filter (List.mem_of_mem_filter h)
  split_ifs at h with hdev hsome
  · obtain rfl := List.mem_singleton.mp h
    exact Option.isSome_iff_exists.mp hsome
  · cases h
  · unfold disksOfKind at h
    split at h
    · cases h
    · obtain ⟨dev, hdev, rfl⟩ := List.mem_map.mp h
      have hmem := List.mem_of_mem_filter (List.mem_of_mem_filter hdev)
      exact ⟨_, s.nodes.node_name (List.mem_map_of_mem hmem)⟩

/-- The only candidate stays the only one. -/
theorem candidates_kept (h : Kept d d') (hpath : s.candidates root d match_ = [path]) :
    s.candidates root d' match_ = [path] := by
  unfold Surroundings.candidates at hpath ⊢
  dsimp only at hpath ⊢
  rw [disksOfKind_kept h]
  by_cases hdev : "/dev/".toList.isPrefixOf match_ = true
  · rw [if_pos hdev] at hpath ⊢
    by_cases hsome : (s.nodes.node d match_).isSome = true
    · obtain ⟨name, hname⟩ := Option.isSome_iff_exists.mp hsome
      rw [if_pos hsome] at hpath
      rwa [if_pos (by rw [s.nodes.node_kept h hname]; rfl)]
    · rw [if_neg hsome] at hpath
      cases hpath
  · rw [if_neg hdev] at hpath ⊢
    exact hpath

theorem isBlank_of_node {dev : Device} (hnode : s.nodes.node d path = some dev.name)
    (hdev : dev ∈ d.devices) (hblank : ¬d.Holds dev) : s.isBlank d path = true := by
  unfold Surroundings.isBlank
  rw [hnode, Option.bind_some, Disks.find_eq_some_iff.mpr ⟨hdev, rfl⟩]
  simpa using hblank

end

/-! ### What a line leaves alone -/

namespace Did
variable {M : BlockName → Prop} {d d' : Disks} {label : Str} {new : List Issued} {dev old : Device}

theorem spares_sfdisk (script : Str) (fate : Fate) (hdev : dev ∈ d.devices) (hblank : ¬d.Holds dev)
    (hold : old.name ≠ dev.name) :
    dev ∈ ((Command.sfdisk old.name script).effect d fate).devices ∧
      ((Command.sfdisk old.name script).effect d fate).children dev.name = [] := by
  have hset : ∀ c, ∀ x ∈ (d.setContents old.name c).devices, x.parent ≠ some dev.name := by
    intro c x hx hparent
    obtain ⟨y, hy, rfl⟩ := Disks.mem_setContents.mp hx
    refine hblank (.inr (.inr (List.ne_nil_of_mem (Disks.mem_children.mpr ⟨hy, ?_⟩))))
    split_ifs at hparent <;> exact hparent
  have hadd : ∀ c parts, dev ∈ ((d.setContents old.name c).addPartitions old.name parts).devices ∧
      ((d.setContents old.name c).addPartitions old.name parts).children dev.name = [] := by
    intro c parts
    refine ⟨Disks.mem_addPartitions ((Disks.mem_setContents_of_ne (Ne.symm hold)).mpr hdev),
      List.eq_nil_iff_forall_not_mem.mpr fun x hx => ?_⟩
    obtain ⟨hmem, hparent⟩ := Disks.mem_children.mp hx
    rcases Disks.mem_addPartitions_cases hmem with hmem | ⟨hparent', -⟩
    · exact hset c x hmem hparent
    · exact hold (Option.some.inj (hparent'.symm.trans hparent))
  rcases fate with ⟨found, data⟩ | ⟨contents, found⟩ | _
  · exact hadd _ _
  · exact hadd _ _
  · exact ⟨hdev, not_not.mp fun h => hblank (.inr (.inr h))⟩

theorem spares_mkfs {mid : Disks} {part : BlockName} (label : Str) (fate : Fate)
    (hdev : dev ∈ mid.devices)
    (hchildren : mid.children dev.name = []) (hne : dev.name ≠ part) :
    dev ∈ ((Command.mkfsExt4 label part).effect mid fate).devices ∧
      ((Command.mkfsExt4 label part).effect mid fate).children dev.name = [] := by
  have hset : ∀ c, dev ∈ (mid.setContents part c).devices ∧
      (mid.setContents part c).children dev.name = [] := by
    intro c
    refine ⟨(Disks.mem_setContents_of_ne hne).mpr hdev,
      List.eq_nil_iff_forall_not_mem.mpr fun x hx => ?_⟩
    obtain ⟨hx, hparent⟩ := Disks.mem_children.mp hx
    obtain ⟨y, hy, rfl⟩ := Disks.mem_setContents.mp hx
    have hchild : y ∈ mid.children dev.name :=
      Disks.mem_children.mpr ⟨hy, by split_ifs at hparent <;> exact hparent⟩
    rw [hchildren] at hchild
    cases hchild
  rcases fate with ⟨found, data⟩ | ⟨contents, found⟩ | _
  · exact hset _
  · exact hset _
  · exact ⟨hdev, hchildren⟩

/-- A blank disk no volume of the line means stays blank. -/
theorem spares (h : Did M d label d' new) (hdev : dev ∈ d.devices) (hblank : ¬d.Holds dev)
    (hmeant : ¬M dev.name) : dev ∈ d'.devices ∧ ¬d'.Holds dev := by
  have hstill : ∀ x : Disks, x.children dev.name = [] → ¬x.Holds dev := fun x hx hholds =>
    hblank (hholds.imp_right (·.imp_right fun h => absurd hx h))
  cases h with
  | quiet => exact ⟨hdev, hblank⟩
  | @partitioned old script fate hold =>
    obtain ⟨hmem, hchildren⟩ := spares_sfdisk script fate hdev hblank
      fun h : old.name = dev.name => hmeant (h ▸ hold)
    exact ⟨hmem, hstill _ hchildren⟩
  | @formatted old script found data part fate new mid hold hlabelled hmem hblank' hmid hpart =>
    obtain ⟨hmid', hchildren⟩ := spares_sfdisk script (.finished found data) hdev hblank
      fun h : old.name = dev.name => hmeant (h ▸ hold)
    have hne : dev.name ≠ part.name := fun h =>
      part_new hblank' (hmid ▸ hpart) (h ▸ List.mem_map_of_mem hdev)
    obtain ⟨hmem', hchildren'⟩ := spares_mkfs label fate (hmid ▸ hmid') (hmid ▸ hchildren) hne
    exact ⟨hmem', hstill _ hchildren'⟩

end Did

/-! ### A boot without failures -/

section
variable {w : Outcomes} {s : Surroundings} {root : Str} {b : Board} {v : VolumeLine}

theorem mountVolume_ok (hw : Finishes w) (b : Board) (mount : Str) :
    ∃ c, mountVolume w b mount = .ok c ∧ c.disks = b.disks ∧ b.mounted ⊆ c.mounted ∧
      mount ∈ c.mounted := by
  obtain ⟨found, data, hmkdir⟩ := hw.finished b.issued (.mkdir mount) b.disks
  unfold mountVolume Board.issue
  rw [hmkdir]
  dsimp only
  split_ifs with hmounted
  · exact ⟨_, rfl, rfl, List.Subset.refl _, hmounted⟩
  · obtain ⟨found', data', hmount⟩ := hw.finished
      (b.issued ++ [(.mkdir mount, .finished found data)]) (.mount mount)
      ((Command.mkdir mount).effect b.disks (.finished found data))
    rw [hmount]
    exact ⟨_, rfl, rfl, List.subset_cons_self _ _, List.mem_cons_self⟩

theorem formatVolume_ok (hw : Finishes w) (b : Board) (part : BlockName) (v : VolumeLine) :
    ∃ c, formatVolume w b part v = .ok c ∧ b.mounted ⊆ c.mounted ∧
      (v.fstype = "ext4".toList → v.mount ∈ c.mounted ∧ ∃ found data,
        c.disks = (Command.mkfsExt4 v.label part).effect b.disks (.finished found data)) := by
  unfold formatVolume
  by_cases hfs : v.fstype ≠ "ext4".toList
  · rw [if_pos hfs]
    exact ⟨_, rfl, List.Subset.refl _, fun h => absurd h hfs⟩
  · rw [if_neg hfs]
    obtain ⟨found, data, hmkfs⟩ := hw.finished b.issued (.mkfsExt4 v.label part) b.disks
    unfold Board.issue
    rw [hmkfs]
    obtain ⟨c, hc, hdisks, hsub, hmem⟩ := mountVolume_ok hw
      { b with
        disks := (Command.mkfsExt4 v.label part).effect b.disks (.finished found data)
        issued := b.issued ++ [(.mkfsExt4 v.label part, .finished found data)] } v.mount
    dsimp only
    rw [hc]
    exact ⟨_, rfl, hsub, fun _ => ⟨hmem, found, data, hdisks⟩⟩

theorem createVolume_ok (hw : Finishes w) {disk : Str} {name : BlockName}
    (hnode : s.nodes.node b.disks disk = some name) :
    ∃ c, createVolume w s b disk v = .ok c ∧ b.mounted ⊆ c.mounted ∧
      (v.fstype = "ext4".toList → v.label ≠ [] → byteLen v.label ≤ maxLabelBytes →
        v.mount ∈ c.mounted ∧ (labelled c.disks v.label).isSome = true) := by
  obtain ⟨found, data, hsfdisk⟩ := hw.finished b.issued (.sfdisk name (sfdiskScript v.label)) b.disks
  obtain ⟨new, hnew, hname⟩ := hw.appears hsfdisk
  have hchildren : ((Command.sfdisk name (sfdiskScript v.label)).effect b.disks
      (.finished found data)).children name ≠ [] :=
    Disks.children_addPartitions_ne_nil hnew (Disks.names_setContents.symm ▸ hname)
  obtain ⟨part, parts, hparts⟩ := List.exists_cons_of_ne_nil hchildren
  unfold createVolume Board.issue
  rw [hnode]
  dsimp only
  rw [hsfdisk]
  dsimp only
  rw [hparts, List.head?_cons]
  obtain ⟨c, hc, hsub, hready⟩ := formatVolume_ok hw
    { b with
      disks := (Command.sfdisk name (sfdiskScript v.label)).effect b.disks (.finished found data)
      issued := b.issued ++ [(.sfdisk name (sfdiskScript v.label), .finished found data)] }
    part.name v
  refine ⟨c, hc, hsub, fun hfs hne hlen => ?_⟩
  obtain ⟨hmem, found', data', hdisks⟩ := hready hfs
  have hpart : part ∈ ((Command.sfdisk name (sfdiskScript v.label)).effect b.disks
      (.finished found data)).children name := hparts ▸ List.mem_cons_self
  refine ⟨hmem, ?_⟩
  rw [hdisks]
  exact isSome_labelled_mkfs hne hlen (Disks.mem_children.mp hpart).1

/-- What it takes for the hook to ready a volume. -/
def Provided (s : Surroundings) (root : Str) (d : Disks) (v : VolumeLine) : Prop :=
  (labelled d v.label).isSome = true ∨ v.create = "if-blank".toList ∧ ∃ dev ∈ d.devices,
    ¬d.Holds dev ∧ ∃ path, s.candidates root d v.match_ = [path] ∧
      s.nodes.node d path = some dev.name

theorem volumeStep_ok (hw : Finishes w) (s : Surroundings) (root : Str) (b : Board)
    (v : VolumeLine) : ∃ c, volumeStep w s root b v = .ok c ∧ b.mounted ⊆ c.mounted := by
  unfold volumeStep
  by_cases hcomment : v.match_ = [] ∨ v.match_.head? = some '#'
  · rw [if_pos hcomment]
    exact ⟨_, rfl, List.Subset.refl _⟩
  rw [if_neg hcomment]
  cases labelled b.disks v.label with
  | some existing =>
    obtain ⟨c, hc, -, hsub, -⟩ := mountVolume_ok hw (b.say _) v.mount
    exact ⟨c, hc, hsub⟩
  | none =>
    rcases hfound : s.candidates root b.disks v.match_ with - | ⟨disk, - | ⟨other, disks⟩⟩
    · exact ⟨_, rfl, List.Subset.refl _⟩
    · dsimp only
      split_ifs
      · exact ⟨_, rfl, List.Subset.refl _⟩
      · exact ⟨_, rfl, List.Subset.refl _⟩
      · have hmem : disk ∈ s.candidates root b.disks v.match_ := by
          rw [hfound]
          exact List.mem_singleton_self _
        obtain ⟨name, hnode⟩ := candidates_node hmem
        obtain ⟨c, hc, hsub, -⟩ := createVolume_ok (b := b.say _) (v := v) hw hnode
        exact ⟨c, hc, hsub⟩
    · exact ⟨_, rfl, List.Subset.refl _⟩

theorem volumeStep_ready (hw : Finishes w)
    (hcomment : ¬(v.match_ = [] ∨ v.match_.head? = some '#')) (hfs : v.fstype = "ext4".toList)
    (hne : v.label ≠ []) (hlen : byteLen v.label ≤ maxLabelBytes)
    (hv : Provided s root b.disks v) :
    ∃ c, volumeStep w s root b v = .ok c ∧ v.mount ∈ c.mounted ∧
      (labelled c.disks v.label).isSome = true := by
  unfold volumeStep
  rw [if_neg hcomment]
  cases hlabelled : labelled b.disks v.label with
  | some existing =>
    obtain ⟨c, hc, hdisks, -, hmem⟩ := mountVolume_ok hw (b.say _) v.mount
    refine ⟨c, hc, hmem, ?_⟩
    rw [hdisks]
    exact Option.isSome_iff_exists.mpr ⟨existing, hlabelled⟩
  | none =>
    rcases hv with hsome | ⟨hcreate, dev, hdev, hblank, path, hpath, hnode⟩
    · rw [hlabelled] at hsome
      cases hsome
    · have hblank := isBlank_of_node hnode hdev hblank
      rw [hpath]
      dsimp only
      rw [if_neg (not_not.mpr hcreate), if_neg (by rw [hblank]; exact Bool.false_ne_true)]
      obtain ⟨c, hc, -, hready⟩ := createVolume_ok (b := b.say _) (v := v) hw hnode
      exact ⟨c, hc, hready hfs hne hlen⟩

theorem volumeStep_kept {c : Board} (h : volumeStep w s root b v = .ok c) :
    Kept b.disks c.disks := by
  obtain ⟨new, -, hdid⟩ := leaves_volumeStep w s root b v
  rw [h] at hdid
  exact hdid.kept

/-- The loop gets through, keeps what was mounted, and leaves a blank disk alone that no volume
means. -/
theorem volumes_ok (hw : Finishes w) (s : Surroundings) (root : Str) (lines : List VolumeLine)
    (b : Board) : ∃ c, lines.foldlM (volumeStep w s root) b = .ok c ∧ b.mounted ⊆ c.mounted ∧
      Kept b.disks c.disks ∧ ∀ dev ∈ b.disks.devices, ¬b.disks.Holds dev →
        (∀ u ∈ lines, ∀ d, Kept b.disks d → ¬Meant s root d u.match_ dev.name) →
        dev ∈ c.disks.devices ∧ ¬c.disks.Holds dev := by
  induction lines generalizing b with
  | nil => exact ⟨b, rfl, List.Subset.refl _, .refl _, fun dev hdev hblank _ => ⟨hdev, hblank⟩⟩
  | cons v lines ih =>
    obtain ⟨c, hc, hsub⟩ := volumeStep_ok hw s root b v
    obtain ⟨new, -, hdid⟩ := leaves_volumeStep w s root b v
    rw [hc] at hdid
    obtain ⟨e, he, hsub', hkept, hspared⟩ := ih c
    refine ⟨e, ?_, fun m hm => hsub' (hsub hm), hdid.kept.trans hkept, ?_⟩
    · rw [List.foldlM_cons, hc]
      exact he
    · intro dev hdev hblank hothers
      obtain ⟨hdev', hblank'⟩ := hdid.spares hdev hblank
        (hothers v List.mem_cons_self _ (.refl _))
      exact hspared dev hdev' hblank' fun u hu d hd =>
        hothers u (List.mem_cons_of_mem _ hu) d (hdid.kept.trans hd)

end

/-! ### The rendered config -/

/-- The line of a volume, read. -/
def VolumeLine.of (v : DataVolume) : VolumeLine where
  match_ := v.matchField
  label := v.label
  fstype := v.fstype.fstabType
  mount := v.mount
  create := v.create.asStr

/-- Text that `read` leaves as it is: no tab, no newline and no NUL. -/
def Unbroken (text : Str) : Prop := Untabbed text ∧ '\x00' ∉ text

section
variable {v : DataVolume} {volumes : List DataVolume}

theorem isTab_of_untabbed {text : Str} (h : Untabbed text) : ∀ c ∈ text, isTab c = false :=
  fun _ hc => decide_eq_false fun hct => h.1 (hct ▸ hc)

theorem head_untabbed {text rest : Str} (h : Untabbed text) (hne : text ≠ []) :
    ∀ c, (text ++ rest).head? = some c → isTab c = false := by
  obtain ⟨d, text, rfl⟩ := List.exists_cons_of_ne_nil hne
  rintro _ hc
  rw [← Option.some.inj hc]
  exact isTab_of_untabbed h _ List.mem_cons_self

theorem matchField_ne_nil (h : v.Accepted) : v.matchField ≠ [] ∧ v.matchField.head? ≠ some '#' := by
  unfold DataVolume.matchField
  cases hmatch : v.match_ with
  | kind k => cases k <;> exact ⟨nofun, nofun⟩
  | device dev =>
    obtain ⟨rest, rfl⟩ := h.device dev hmatch
    exact ⟨nofun, nofun⟩

/-- A line the build wrote is read as it was meant. -/
theorem read_configLine (h : v.Accepted) (hmatch : Untabbed v.matchField)
    (hmount : Untabbed v.mount) : VolumeLine.read v.configLine = .of v := by
  have hmount_ne : v.mount ≠ [] := by
    rintro heq
    have habsolute := h.absolute
    rw [heq] at habsolute
    cases habsolute
  have hfs : v.fstype.fstabType ≠ [] := by cases v.fstype; exact List.cons_ne_nil _ _
  have hcreate : v.create.asStr ≠ [] := by cases v.create <;> exact List.cons_ne_nil _ _
  have huntabbed := DataVolume.untabbed_create v.create
  have hend : v.create.asStr.rdropWhile isTab = v.create.asStr := by cases v.create <;> rfl
  have hline : v.configLine = v.matchField ++ '\t' :: (v.label ++ '\t' ::
      (v.fstype.fstabType ++ '\t' :: (v.mount ++ '\t' :: v.create.asStr))) := by
    simp only [DataVolume.configLine, List.append_assoc, List.cons_append]
  have hstart : v.configLine.dropWhile isTab = v.configLine := by
    rw [hline]
    obtain ⟨c, field, hfield⟩ := List.exists_cons_of_ne_nil (matchField_ne_nil h).1
    have hc : isTab c = false :=
      isTab_of_untabbed hmatch c (hfield ▸ List.mem_cons_self)
    rw [hfield, List.cons_append, List.dropWhile_cons_of_neg (by rw [hc]; exact Bool.false_ne_true)]
  unfold VolumeLine.read
  rw [hstart, hline,
    Shell.nextField_append_cons (isTab_of_untabbed hmatch) rfl
      (head_untabbed h.untabbed_label h.label_ne_nil)]
  dsimp only
  rw [Shell.nextField_append_cons (isTab_of_untabbed h.untabbed_label) rfl
      (head_untabbed (DataVolume.untabbed_fstabType _) hfs)]
  dsimp only
  rw [Shell.nextField_append_cons (isTab_of_untabbed (DataVolume.untabbed_fstabType _)) rfl
      (head_untabbed hmount hmount_ne)]
  dsimp only
  rw [Shell.nextField_append_cons (isTab_of_untabbed hmount) rfl fun c hc =>
      isTab_of_untabbed huntabbed c (List.mem_of_head? hc), hend]
  rfl

theorem confLines_cons {line conf : Str} (hnewline : '\n' ∉ line) (hnul : '\x00' ∉ line) :
    confLines (line ++ '\n' :: conf) = VolumeLine.read line :: confLines conf := by
  have hsplit : line ++ '\n' :: conf = (line ++ ['\n']) ++ conf := by simp
  have htext : Shell.lineText (line ++ ['\n']) = line := by
    unfold Shell.lineText Shell.dropSuffix
    rw [stripSuffix_concat]
    exact Shell.filter_nul hnul
  unfold confLines
  rw [hsplit, rawLines_ended ⟨line, hnewline, rfl⟩, List.filter_cons_of_pos (by simp),
    List.map_cons, htext]

theorem confLines_volumes (hvolumes : ∀ v ∈ volumes, v.Accepted)
    (hunbroken : ∀ v ∈ volumes, Unbroken v.matchField ∧ Unbroken v.mount) :
    confLines ((volumes.map DataVolume.configLine).flatMap (· ++ ['\n'])) =
      volumes.map VolumeLine.of := by
  induction volumes with
  | nil => rfl
  | cons v volumes ih =>
    obtain ⟨hv, hvolumes⟩ := List.forall_mem_cons.mp hvolumes
    obtain ⟨⟨hmatch, hmount⟩, hunbroken⟩ := List.forall_mem_cons.mp hunbroken
    have hlabel : '\x00' ∉ v.label := fun hc => absurd (hv.label_chars _ hc) (by decide)
    have hfs : '\n' ∉ v.fstype.fstabType ∧ '\x00' ∉ v.fstype.fstabType := by
      cases v.fstype
      exact ⟨by decide, by decide⟩
    have hcreate : '\n' ∉ v.create.asStr ∧ '\x00' ∉ v.create.asStr := by
      cases v.create <;> exact ⟨by decide, by decide⟩
    have hnewline : '\n' ∉ v.configLine := by
      simp [DataVolume.configLine, hmatch.1.2, hv.untabbed_label.2, hfs.1, hmount.1.2, hcreate.1]
    have hnul : '\x00' ∉ v.configLine := by
      simp [DataVolume.configLine, hmatch.2, hlabel, hfs.2, hmount.2, hcreate.2]
    rw [List.map_cons, List.flatMap_cons, List.append_assoc, List.singleton_append,
      confLines_cons hnewline hnul, read_configLine hv hmatch.1 hmount.1, ih hvolumes hunbroken,
      List.map_cons]

/-- The two comment lines name no volume. -/
theorem foldlM_renderConfig (hvolumes : ∀ v ∈ volumes, v.Accepted)
    (hunbroken : ∀ v ∈ volumes, Unbroken v.matchField ∧ Unbroken v.mount) (w : Outcomes)
    (s : Surroundings) (root : Str) (b : Board) :
    (confLines (renderConfig volumes)).foldlM (volumeStep w s root) b =
      (volumes.map VolumeLine.of).foldlM (volumeStep w s root) b := by
  have hheader : ∀ line ∈ configHeader, '\n' ∉ line ∧ '\x00' ∉ line ∧
      (VolumeLine.read line).match_.head? = some '#' := by decide
  have hskip : ∀ header : List Str, (∀ line ∈ header, '\n' ∉ line ∧ '\x00' ∉ line ∧
      (VolumeLine.read line).match_.head? = some '#') → ∀ rest : Str,
      (confLines (header.flatMap (· ++ ['\n']) ++ rest)).foldlM (volumeStep w s root) b =
        (confLines rest).foldlM (volumeStep w s root) b := by
    intro header hheader rest
    induction header with
    | nil => rfl
    | cons line header ih =>
      obtain ⟨⟨hnewline, hnul, hcomment⟩, hheader⟩ := List.forall_mem_cons.mp hheader
      have hstep : volumeStep w s root b (VolumeLine.read line) = .ok b := by
        unfold volumeStep
        rw [if_pos (.inr hcomment)]
      rw [List.flatMap_cons, List.append_assoc, List.append_assoc, List.singleton_append,
        confLines_cons hnewline hnul, List.foldlM_cons, hstep]
      exact ih hheader
  unfold renderConfig
  rw [List.flatMap_append, hskip configHeader hheader, confLines_volumes hvolumes hunbroken]

theorem byteLen_label_le (h : v.validate = .ok ()) : byteLen v.label ≤ maxLabelBytes := by
  unfold DataVolume.validate at h
  split_ifs at h with _ _ _ _ hlen
  exact not_lt.mp hlen

theorem forall_validate (h : validateAll volumes = .ok ()) :
    ∀ v ∈ volumes, v.validate = .ok () := by
  obtain ⟨_, heach, -⟩ := Outcome.bind_eq_ok.mp h
  clear h
  induction volumes with
  | nil => nofun
  | cons v volumes ih =>
    obtain ⟨_, hv, hvolumes⟩ := Outcome.bind_eq_ok.mp heach
    exact List.forall_mem_cons.mpr ⟨hv, ih hvolumes⟩

theorem label_ne_of_checkAgainst (h : checkAgainst v volumes = .ok ()) :
    ∀ other ∈ volumes, v.label ≠ other.label := by
  induction volumes with
  | nil => nofun
  | cons other volumes ih =>
    unfold checkAgainst at h
    split_ifs at h with hlabel hmount
    exact List.forall_mem_cons.mpr ⟨hlabel, ih h⟩

theorem pairwise_labels (h : checkPairs volumes = .ok ()) :
    volumes.Pairwise fun v u => v.label ≠ u.label := by
  induction volumes with
  | nil => exact .nil
  | cons v volumes ih =>
    obtain ⟨_, hv, hvolumes⟩ := Outcome.bind_eq_ok.mp h
    exact .cons (label_ne_of_checkAgainst hv) (ih hvolumes)

end

def demoVolume : DataVolume :=
  ⟨.kind .sata, "data".toList, .ext4, "/srv".toList, .ifBlank⟩

def demoBlank : Device := ⟨⟨"sda".toList, none, "sata".toList, false⟩, ⟨[], [], [], []⟩⟩

/-- Every command finishes. -/
def demoOutcomes : Outcomes := fun _ _ d =>
  .finished [(d.names.flatten ++ ['p'], ⟨[], [], [], []⟩)] []

theorem finishes_demo : Finishes demoOutcomes where
  finished _ _ _ := ⟨_, _, rfl⟩
  appears {_ _ _ d _ _} h := by
    obtain ⟨rfl, -⟩ := Fate.finished.inj h
    refine ⟨_, List.mem_singleton_self _, fun hmem => ?_⟩
    have hle : ∀ {names : List BlockName} {name}, name ∈ names →
        name.length ≤ names.flatten.length := by
      intro names name hname
      exact (List.sublist_flatten_of_mem hname).length_le
    have hlen := hle hmem
    rw [List.length_append, List.length_singleton] at hlen
    omega

def demoSurroundings : Surroundings :=
  ⟨.kernel, some (renderConfig [demoVolume]), "/dev/mmcblk0p1".toList⟩

def demoBoard : Board := ⟨⟨[demoBlank], by decide⟩, [], [], []⟩

end Boot2Deb.FirstBoot
