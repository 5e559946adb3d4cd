import Boot2Deb.Config.Loader
import Boot2Deb.Rust.Outcome
import Boot2Deb.Rust.Pattern

/-!
# Where a press writes (`cli/src/commands/press.rs`, `core/src/press.rs`)

`refuse_build_artifacts` compares each output with the images of its own role, and the listing
beside it with the build's. It compares no output with the artifacts of another role, and no two
outputs with each other: a press that passes it overwrites nothing exactly if its outputs name none
of those, differ, and the boot output is not the listing of the rootfs (`overwrites_nothing_iff`).
-/

namespace Boot2Deb.Press
open Rust Config

/-! ### Absolute paths (`cli/src/fsutil.rs`) -/

/-- One component of `normalize`. -/
def normalizeStep (out : Path) (c : Str) : Path :=
  if c = "..".toList then
    match out.getLast? with
    | none => out ++ [c]
    | some last => if last = "..".toList then out ++ [c] else if last = ['/'] then out
        else out.dropLast
  else out ++ [c]

def normalize (path : Path) : Path :=
  let out := path.foldl normalizeStep []
  if out = [] then [['.']] else out

/-- `absolutize`, in a working directory that may be gone. -/
def absolutize (cwd : Option Path) (path : Path) : Path :=
  normalize (if path.head? = some ['/'] then path else
    match cwd with
    | some cwd => cwd ++ path
    | none => path)

/-! ### Roles -/

inductive ArtifactRole where
  | combined | boot | rootfs
deriving DecidableEq

inductive Layout where
  | combined | split
deriving DecidableEq

namespace ArtifactRole

def fileName (stem : Str) : ArtifactRole → Str
  | combined => stem ++ ".img".toList
  | boot => stem ++ "-boot.img".toList
  | rootfs => stem ++ "-rootfs.img".toList

def describe : ArtifactRole → String
  | combined => "combined image"
  | boot => "boot image"
  | rootfs => "rootfs image"

def containsRootfs : ArtifactRole → Bool
  | boot => false
  | _ => true

end ArtifactRole

/-- `roles`. -/
def roles (producesImage : Bool) (layout : Layout) : List ArtifactRole :=
  if !producesImage then [.boot]
  else match layout with
    | .combined => [.combined]
    | .split => [.boot, .rootfs]

/-- The name of the listing of a build's rootfs. -/
def manifestName (stem : Str) : Str := stem ++ ".rootfs.uapi16".toList

/-- The extension of a listing beside an output. -/
def LISTING : Str := "rootfs.uapi16".toList

/-! ### Binding the outputs -/

structure OutputArgs where
  output : Option Path
  bootOut : Option Path
  rootfsOut : Option Path

/-- Why a press fails before it writes. -/
inductive OutputError where
  /-- "this build presses one file (the …) — name it as the positional output" -/
  | onePositional (what : String)
  /-- "press needs an output path for the …" -/
  | noOutput (what : String)
  /-- "this build is a split layout: two artifacts, two files." -/
  | splitLayout
  /-- "the boot image needs --boot-out <file>" -/
  | noBootOut
  /-- "the rootfs image needs --rootfs-out <file>" -/
  | noRootfsOut
  /-- "… would overwrite the build's own … artifacts in …" -/
  | overwritesBuild (out : Path) (what : String) (outDir : Path)
deriving DecidableEq

/-- `bind_outputs`. -/
def bindOutputs (roles : List ArtifactRole) (args : OutputArgs) :
    Outcome OutputError (List (ArtifactRole × Path)) :=
  match roles with
  | [role] =>
    if args.bootOut.isSome ∨ args.rootfsOut.isSome then .err (.onePositional role.describe)
    else (Outcome.okOr args.output (.noOutput role.describe)).bind fun out => .ok [(role, out)]
  | _ =>
    if args.output.isSome then .err .splitLayout
    else (Outcome.okOr args.bootOut .noBootOut).bind fun bootOut =>
      (Outcome.okOr args.rootfsOut .noRootfsOut).bind fun rootfsOut =>
        .ok [(.boot, bootOut), (.rootfs, rootfsOut)]

/-- The image of a role and its compressed copies, in the output directory. -/
def images (outDir : Path) (stem : Str) (role : ArtifactRole) : List Path :=
  let base := role.fileName stem
  [base, base ++ ".xz".toList, base ++ ".gz".toList].map (Path.join outDir)

/-- `refuse_build_artifacts`. -/
def refuseBuildArtifacts (cwd : Option Path) (outDir : Path) (stem : Str) :
    List (ArtifactRole × Path) → Outcome OutputError Unit
  | [] => .ok ()
  | (role, out) :: bound =>
    let out := absolutize cwd out
    let onArtifact := out ∈ images outDir stem role
    let onListing := role.containsRootfs ∧
      out.withExtension LISTING = Path.join outDir (manifestName stem)
    if onArtifact ∨ onListing then .err (.overwritesBuild out role.describe outDir)
    else refuseBuildArtifacts cwd outDir stem bound

/-! ### What a press writes -/

/-- The outputs, and the listing beside each that holds a rootfs. -/
def written (cwd : Option Path) (bound : List (ArtifactRole × Path)) : List Path :=
  bound.map (fun b => absolutize cwd b.2) ++
    (bound.filter (·.1.containsRootfs)).map fun b => absolutize cwd (b.2.withExtension LISTING)

/-- The artifacts of a build beside the images of a role: those of the other roles, the tree they
are made from, the boot images, and the build's listing. -/
def besides (outDir : Path) (stem : Str) (role : ArtifactRole) : List Path :=
  ([.combined, .boot, .rootfs].filter (· ≠ role)).flatMap (images outDir stem) ++
    [stem ++ "-rootfs.tar".toList, stem ++ "-idbloader.img".toList, stem ++ "-u-boot.itb".toList,
      manifestName stem].map (Path.join outDir)

/-- Every artifact of a build. -/
def artifacts (outDir : Path) (stem : Str) : List Path :=
  [ArtifactRole.combined, .boot, .rootfs].flatMap (images outDir stem) ++
    [stem ++ "-rootfs.tar".toList, stem ++ "-idbloader.img".toList, stem ++ "-u-boot.itb".toList,
      manifestName stem].map (Path.join outDir)

/-- What a press overwrites: nothing of the build, and nothing of its own. -/
def OverwritesNothing (cwd : Option Path) (outDir : Path) (stem : Str)
    (bound : List (ArtifactRole × Path)) : Prop :=
  (written cwd bound).Nodup ∧ ∀ path ∈ written cwd bound, path ∉ artifacts outDir stem

/-- What is not looked at. -/
structure Unclaimed (cwd : Option Path) (outDir : Path) (stem : Str)
    (bound : List (ArtifactRole × Path)) : Prop where
  /-- No output is an artifact beside the images of its own role. -/
  foreign : ∀ b ∈ bound, absolutize cwd b.2 ∉ besides outDir stem b.1
  /-- The outputs differ. -/
  twice : (bound.map fun b => absolutize cwd b.2).Nodup
  /-- The boot output is not the rootfs output with its extension replaced. -/
  listing : ∀ b ∈ bound, ∀ r ∈ bound, ¬b.1.containsRootfs → r.1.containsRootfs →
    absolutize cwd b.2 ≠ (absolutize cwd r.2).withExtension LISTING
  /-- The output of a rootfs ends in a name. -/
  named : ∀ b ∈ bound, b.1.containsRootfs → b.2.fileName.isSome

/-! ### Names in the output directory -/

variable {cwd : Option Path} {outDir p : Path} {stem name : Str}
  {bound : List (ArtifactRole × Path)}

/-- What stands behind a stem stays in the last component. -/
theorem join_stem (outDir : Path) (stem : Str) : ∃ dir last, ∀ t : Str, '/' ∉ t → 2 ≤ t.length →
    Path.join outDir (stem ++ t) = dir ++ [last ++ t] := by
  obtain ⟨init, last, hstem, -⟩ := @splitOn_append_of_not_mem '/' stem []
    List.not_mem_nil
  refine ⟨(if stem.head? = some '/' then [['/']] else outDir) ++
    init.filter (fun c => c ≠ [] ∧ c ≠ ['.']), last, fun t ht hlong => ?_⟩
  obtain ⟨init', last', hstem', hcut⟩ := splitOn_append_of_not_mem stem ht
  obtain ⟨rfl, hlast⟩ := List.append_inj' (hstem'.symm.trans hstem) rfl
  obtain rfl := List.singleton_inj.mp hlast
  have hkept : last' ++ t ≠ [] ∧ last' ++ t ≠ ['.'] := by
    constructor <;> intro h <;>
      · have := congrArg List.length h
        simp only [List.length_append, List.length_nil, List.length_singleton] at this
        omega
  have hcomponents : ((stem ++ t).splitOn '/').filter (fun c => c ≠ [] ∧ c ≠ ['.']) =
      init'.filter (fun c => c ≠ [] ∧ c ≠ ['.']) ++ [last' ++ t] := by
    rw [hcut, List.filter_append]
    simp [hkept]
  have hhead : (stem ++ t).head? = some '/' ↔ stem.head? = some '/' := by
    cases stem with
    | nil => exact iff_of_false (fun h => ht (List.mem_of_head? h)) (by simp)
    | cons c stem => rfl
  simp only [Path.join, components, hhead, hcomponents]
  split_ifs <;> simp [List.append_assoc]

/-- A name cut at its last dot, as `file_stem` cuts it. -/
theorem fileStem_append (name : Str) :
    ∃ rest, name = fileStem name ++ rest ∧ ∀ t, rest = '.' :: t → '.' ∉ t := by
  rw [fileStem]
  cases h : rfind name '.' with
  | none => exact ⟨[], by simp, fun t ht => by cases ht⟩
  | some i =>
    cases i with
    | zero => exact ⟨[], by simp, fun t ht => by cases ht⟩
    | succ i =>
      have hmem : '.' ∈ name := by
        by_contra hno
        cases (rfind_eq_none.mpr hno).symm.trans h
      obtain ⟨as, bs, hrev, has⟩ := List.eq_append_cons_of_mem (List.mem_reverse.mpr hmem)
      have hname : name = bs.reverse ++ '.' :: as.reverse := by
        rw [← List.reverse_reverse name, hrev]
        simp
      have hlast : '.' ∉ as.reverse := by simpa using has
      rw [hname, rfind_append_cons hlast] at h
      refine ⟨'.' :: as.reverse, ?_, fun t ht => (List.cons.inj ht).2 ▸ hlast⟩
      show name = name.take (i + 1) ++ _
      rw [← Option.some.inj h, hname, List.take_left]

/-- A path that ends in a name. -/
theorem fileName_eq_some : p.fileName = some name ↔
    ∃ dir, p = dir ++ [name] ∧ name ≠ "..".toList ∧ name ≠ ['/'] := by
  rw [Path.fileName, Option.filter_eq_some_iff, List.getLast?_eq_some_iff]
  simp only [decide_eq_true_eq]
  constructor
  · rintro ⟨⟨dir, rfl⟩, h⟩
    exact ⟨dir, rfl, h⟩
  · rintro ⟨dir, rfl, h⟩
    exact ⟨⟨dir, rfl⟩, h⟩

/-- The name of a listing. -/
def listingName (name : Str) : Str := fileStem name ++ '.' :: LISTING

theorem withExtension_listing (dir : Path) (h : name ≠ "..".toList ∧ name ≠ ['/']) :
    (dir ++ [name]).withExtension LISTING = dir ++ [listingName name] := by
  rw [Path.withExtension, fileName_eq_some.mpr ⟨dir, rfl, h⟩]
  simp [listingName]

theorem listingName_ne (name : Str) : listingName name ≠ name := by
  intro h
  obtain ⟨rest, hname, hrest⟩ := fileStem_append name
  have htail : '.' :: LISTING = rest := List.append_cancel_left (h.trans hname)
  exact hrest LISTING htail.symm (by decide)

theorem listingName_plain (name : Str) :
    listingName name ≠ "..".toList ∧ listingName name ≠ ['/'] := by
  have hlong : 14 ≤ (listingName name).length := by
    have htail : ('.' :: LISTING).length = 14 := by decide
    rw [listingName, List.length_append, htail]
    omega
  constructor <;> intro h <;>
    · rw [h] at hlong
      exact absurd hlong (by decide)

theorem normalize_concat (dir : Path) (h : name ≠ "..".toList) :
    normalize (dir ++ [name]) = dir.foldl normalizeStep [] ++ [name] := by
  have hstep : (dir ++ [name]).foldl normalizeStep [] = dir.foldl normalizeStep [] ++ [name] := by
    rw [List.foldl_append, List.foldl_cons, List.foldl_nil, normalizeStep, if_neg h]
  simp [normalize, hstep]

/-- Made absolute, the directory changes and the name stays. -/
theorem absolutize_concat (cwd : Option Path) (dir : Path) : ∃ dir', ∀ name,
    name ≠ "..".toList → name ≠ ['/'] → absolutize cwd (dir ++ [name]) = dir' ++ [name] := by
  cases dir with
  | nil =>
    refine ⟨(cwd.getD []).foldl normalizeStep [], fun name hup hroot => ?_⟩
    have hhead : ([] ++ [name] : Path).head? ≠ some ['/'] := by simpa using hroot
    cases cwd with
    | none =>
      unfold absolutize
      rw [if_neg hhead]
      exact normalize_concat [] hup
    | some cwd =>
      unfold absolutize
      rw [if_neg hhead]
      exact normalize_concat cwd hup
  | cons c dir =>
    refine ⟨(if c = ['/'] then c :: dir else cwd.getD [] ++ (c :: dir)).foldl normalizeStep [],
      fun name hup _ => ?_⟩
    have hhead : (c :: dir ++ [name]).head? = some c := rfl
    unfold absolutize
    rw [hhead]
    by_cases hroot : c = ['/']
    · rw [if_pos (congrArg some hroot), if_pos hroot]
      exact normalize_concat (c :: dir) hup
    · rw [if_neg (by simpa using hroot), if_neg hroot]
      cases cwd with
      | none => exact normalize_concat (c :: dir) hup
      | some cwd =>
        show normalize (cwd ++ (c :: dir ++ [name])) = _
        rw [← List.append_assoc]
        exact normalize_concat (cwd ++ (c :: dir)) hup

/-- The listing beside an output that ends in a name: beside it once both are absolute, and never
the output. -/
theorem absolutize_listing (cwd : Option Path) (h : p.fileName.isSome) :
    absolutize cwd (p.withExtension LISTING) = (absolutize cwd p).withExtension LISTING ∧
      (absolutize cwd p).withExtension LISTING ≠ absolutize cwd p ∧
      ∃ dir name, (absolutize cwd p).withExtension LISTING = dir ++ [listingName name] := by
  obtain ⟨name, hname⟩ := Option.isSome_iff_exists.mp h
  obtain ⟨dir, rfl, hplain⟩ := fileName_eq_some.mp hname
  obtain ⟨dir', habs⟩ := absolutize_concat cwd dir
  have hlisting := listingName_plain name
  rw [withExtension_listing dir hplain, habs _ hlisting.1 hlisting.2, habs _ hplain.1 hplain.2,
    withExtension_listing dir' hplain]
  refine ⟨rfl, fun h => ?_, dir', name, rfl⟩
  exact listingName_ne name (List.singleton_inj.mp (List.append_cancel_left h))

/-- Where the output does not end in a name, the listing is the output. -/
theorem withExtension_of_unnamed (h : ¬p.fileName.isSome) : p.withExtension LISTING = p := by
  rw [Path.withExtension, Option.not_isSome_iff_eq_none.mp h]

/-- What the artifacts put behind the stem. -/
def SUFFIXES : List Str :=
  [".img".toList, ".img.xz".toList, ".img.gz".toList, "-boot.img".toList, "-boot.img.xz".toList,
    "-boot.img.gz".toList, "-rootfs.img".toList, "-rootfs.img.xz".toList, "-rootfs.img.gz".toList,
    "-rootfs.tar".toList, "-idbloader.img".toList, "-u-boot.itb".toList, ".rootfs.uapi16".toList]

theorem artifacts_eq (outDir : Path) (stem : Str) :
    artifacts outDir stem = SUFFIXES.map fun t => Path.join outDir (stem ++ t) := by
  simp [artifacts, images, ArtifactRole.fileName, manifestName, SUFFIXES]

theorem suffixes_spec : ∀ t ∈ SUFFIXES, t = ".rootfs.uapi16".toList ∨
    '/' ∉ t ∧ 2 ≤ t.length ∧ t.getLast? ≠ some '6' := by
  decide

/-- Of the artifacts, a listing can only be the build's. -/
theorem listing_mem_artifacts (dir : Path) (name : Str) :
    dir ++ [listingName name] ∈ artifacts outDir stem ↔
      dir ++ [listingName name] = Path.join outDir (manifestName stem) := by
  obtain ⟨base, last, hjoin⟩ := join_stem outDir stem
  have hend : ∀ t : Str, '/' ∉ t → 2 ≤ t.length → t.getLast? ≠ some '6' →
      dir ++ [listingName name] ≠ Path.join outDir (stem ++ t) := by
    intro t ht hlong hlast h
    rw [hjoin t ht hlong] at h
    have hnames := List.singleton_inj.mp (List.append_inj' h rfl).2
    have hsix : (listingName name).getLast? = some '6' := by
      rw [listingName, List.getLast?_append_of_ne_nil _ (List.cons_ne_nil _ _)]
      rfl
    rw [hnames, List.getLast?_append_of_ne_nil _ (by rintro rfl; cases hlong)] at hsix
    exact hlast hsix
  constructor
  · intro h
    obtain ⟨t, ht, h⟩ := List.mem_map.mp (artifacts_eq outDir stem ▸ h)
    rcases suffixes_spec t ht with rfl | ⟨hslash, hlong, hlast⟩
    · exact h.symm
    · exact absurd h.symm (hend t hslash hlong hlast)
  · intro h
    rw [h]
    exact List.mem_append_right _ (by simp)

theorem mem_artifacts (role : ArtifactRole) :
    p ∈ artifacts outDir stem ↔ p ∈ images outDir stem role ∨ p ∈ besides outDir stem role := by
  cases role <;>
    · simp only [artifacts, besides, List.flatMap_cons, List.flatMap_nil, List.mem_append,
        List.append_nil]
      simp
      tauto

/-! ### What the checks leave -/

theorem refuseBuildArtifacts_eq_ok : refuseBuildArtifacts cwd outDir stem bound = .ok () ↔
    ∀ b ∈ bound, absolutize cwd b.2 ∉ images outDir stem b.1 ∧ (b.1.containsRootfs →
      (absolutize cwd b.2).withExtension LISTING ≠ Path.join outDir (manifestName stem)) := by
  induction bound with
  | nil => simp [refuseBuildArtifacts]
  | cons b bound ih =>
    obtain ⟨role, out⟩ := b
    rw [refuseBuildArtifacts, List.forall_mem_cons, ← ih]
    split_ifs with h
    · refine iff_of_false (by simp) fun hall => ?_
      rcases h with h | ⟨hrole, h⟩
      exacts [hall.1.1 h, hall.1.2 hrole h]
    · rw [not_or, not_and] at h
      exact ⟨fun hrest => ⟨h, hrest⟩, fun hall => hall.2⟩

/-- At most one output holds a rootfs. -/
theorem bindOutputs_rootfs {producesImage : Bool} {layout : Layout} {args : OutputArgs}
    (h : bindOutputs (roles producesImage layout) args = .ok bound) :
    (bound.filter (·.1.containsRootfs)).length ≤ 1 := by
  have hone : ∀ role out, bound = [(role, out)] →
      (bound.filter (·.1.containsRootfs)).length ≤ 1 := by
    rintro role out rfl
    exact List.length_filter_le _ _
  unfold bindOutputs at h
  split at h
  · split at h
    · cases h
    · obtain ⟨out, -, h⟩ := Outcome.bind_eq_ok.mp h
      exact hone _ out (Outcome.ok.inj h).symm
  · split at h
    · cases h
    · obtain ⟨bootOut, -, h⟩ := Outcome.bind_eq_ok.mp h
      obtain ⟨rootfsOut, -, h⟩ := Outcome.bind_eq_ok.mp h
      obtain rfl := Outcome.ok.inj h
      exact le_refl 1

theorem eq_of_length_le_one {α : Type*} {l : List α} (h : l.length ≤ 1) {a b : α} (ha : a ∈ l)
    (hb : b ∈ l) : a = b := by
  match l, h with
  | [c], _ => rw [List.mem_singleton.mp ha, List.mem_singleton.mp hb]

theorem nodup_of_length_le_one {α : Type*} {l : List α} (h : l.length ≤ 1) : l.Nodup := by
  match l, h with
  | [], _ => exact List.nodup_nil
  | [a], _ => exact List.nodup_singleton a

/-- A press that passes the checks overwrites nothing exactly if what they leave is unclaimed. -/
theorem overwrites_nothing_iff {producesImage : Bool} {layout : Layout} {args : OutputArgs}
    (hbind : bindOutputs (roles producesImage layout) args = .ok bound)
    (hrefuse : refuseBuildArtifacts cwd outDir stem bound = .ok ()) :
    OverwritesNothing cwd outDir stem bound ↔ Unclaimed cwd outDir stem bound := by
  have hchecked := refuseBuildArtifacts_eq_ok.mp hrefuse
  have hrootfs := bindOutputs_rootfs hbind
  have hout : ∀ b ∈ bound, absolutize cwd b.2 ∈ written cwd bound := fun b hb =>
    List.mem_append_left _ (List.mem_map.mpr ⟨b, hb, rfl⟩)
  have hlist : ∀ b ∈ bound, b.1.containsRootfs →
      absolutize cwd (b.2.withExtension LISTING) ∈
        (bound.filter (·.1.containsRootfs)).map fun b =>
          absolutize cwd (b.2.withExtension LISTING) := fun b hb hrole =>
    List.mem_map.mpr ⟨b, List.mem_filter.mpr ⟨hb, hrole⟩, rfl⟩
  constructor
  · rintro ⟨hnodup, hapart⟩
    obtain ⟨houts, -, hdisjoint⟩ := List.nodup_append'.mp hnodup
    have hnamed : ∀ b ∈ bound, b.1.containsRootfs → b.2.fileName.isSome := by
      intro b hb hrole
      by_contra hno
      have hsame := hlist b hb hrole
      rw [withExtension_of_unnamed hno] at hsame
      exact hdisjoint (List.mem_map.mpr ⟨b, hb, rfl⟩) hsame
    refine ⟨fun b hb h => ?_, houts, fun b hb r hr _ hrole h => ?_, hnamed⟩
    · exact hapart _ (hout b hb) ((mem_artifacts b.1).mpr (.inr h))
    · have hbeside := hlist r hr hrole
      rw [(absolutize_listing cwd (hnamed r hr hrole)).1, ← h] at hbeside
      exact hdisjoint (List.mem_map.mpr ⟨b, hb, rfl⟩) hbeside
  · rintro ⟨hforeign, htwice, hlisting, hnamed⟩
    constructor
    · refine List.nodup_append'.mpr ⟨htwice, ?_, ?_⟩
      · exact nodup_of_length_le_one (by rwa [List.length_map])
      · rintro path hleft hright
        obtain ⟨b, hb, rfl⟩ := List.mem_map.mp hleft
        obtain ⟨r, hr, hsame⟩ := List.mem_map.mp hright
        obtain ⟨hrbound, hrole⟩ := List.mem_filter.mp hr
        obtain ⟨hbeside, hne, -⟩ := absolutize_listing cwd (hnamed r hrbound hrole)
        rw [hbeside] at hsame
        by_cases hbrole : b.1.containsRootfs = true
        · obtain rfl := eq_of_length_le_one hrootfs (List.mem_filter.mpr ⟨hb, hbrole⟩) hr
          exact hne hsame
        · exact hlisting b hb r hrbound hbrole hrole hsame.symm
    · intro path hpath
      rcases List.mem_append.mp hpath with h | h
      · obtain ⟨b, hb, rfl⟩ := List.mem_map.mp h
        rw [mem_artifacts b.1, not_or]
        exact ⟨(hchecked b hb).1, hforeign b hb⟩
      · obtain ⟨r, hr, rfl⟩ := List.mem_map.mp h
        obtain ⟨hrbound, hrole⟩ := List.mem_filter.mp hr
        obtain ⟨hbeside, -, dir, name, hdir⟩ := absolutize_listing cwd (hnamed r hrbound hrole)
        have hnot := (hchecked r hrbound).2 hrole
        simp only [hbeside]
        rw [hdir] at hnot ⊢
        exact fun h => hnot ((listing_mem_artifacts dir name).mp h)

/-- A split build whose boot image is pressed onto the build's rootfs image, and one whose outputs
are apart. -/
def onRootfs : OutputArgs :=
  ⟨none, some ["/".toList, "work".toList, "board-rootfs.img".toList],
    some ["/".toList, "cards".toList, "r.img".toList]⟩

def onCards : OutputArgs :=
  ⟨none, some ["/".toList, "cards".toList, "b.img".toList],
    some ["/".toList, "cards".toList, "r.img".toList]⟩

def workDir : Path := ["/".toList, "work".toList]

theorem onCards_overwrites : ∃ bound, bindOutputs (roles true .split) onCards = .ok bound ∧
    refuseBuildArtifacts none workDir "board".toList bound = .ok () ∧
    (OverwritesNothing none workDir "board".toList bound ↔
      Unclaimed none workDir "board".toList bound) :=
  ⟨_, rfl, by decide +kernel, @overwrites_nothing_iff _ _ _ _ true .split onCards rfl (by decide +kernel)⟩

/-- The boot output is the rootfs image of the build. -/
theorem onRootfs_overwrites : ∃ bound, bindOutputs (roles true .split) onRootfs = .ok bound ∧
    refuseBuildArtifacts none workDir "board".toList bound = .ok () ∧
    ¬OverwritesNothing none workDir "board".toList bound := by
  refine ⟨_, rfl, by decide +kernel, fun h => ?_⟩
  exact h.2 (workDir ++ ["board-rootfs.img".toList]) (by decide +kernel) (by decide +kernel)

end Boot2Deb.Press
