import Boot2Deb.Press.Merge

/-!
# When pressing keeps the tree a tree

The additions of a press end up in the tree as they were given, and everything else stays as it was,
exactly if no addition lies below the destination of another and no addition replaces the file that
a hard link of the image names. The order of the additions never matters.
-/

namespace Boot2Deb.Press
open Rust Image Std

variable {Rest : Type} {out : Outside Rest} {a b : TreeAdditions} {image r : List SourceEntry}
  {files : List AddedFile} {facts : ImageFacts} {time : Timestamp} {st : Merge} {f g : AddedFile}
  {e : SourceEntry} {p : Bytes} {doc : Bytes}

/-- A tree that holds the additions, and of the image everything else. -/
structure Pressed (image : List SourceEntry) (files : List AddedFile) (facts : ImageFacts)
    (time : Timestamp) (r : List SourceEntry) : Prop where
  tree : ImageTree r
  added : ∀ f ∈ files, ∃ e ∈ r, e.path = f.dest ∧ e.kind = f.kind facts ∧
    e.meta_ = .new f.mode time
  kept : ∀ e ∈ image, (∀ f ∈ files, f.dest ≠ e.path) → e ∈ r
  names : ∀ path file, (∀ f ∈ files, f.dest ≠ path) → Names image path file → Names r path file

/-- No addition lies below the destination of another. -/
def Apart (files : List AddedFile) : Prop := ∀ f ∈ files, ∀ g ∈ files, f.dest ∉ ancestors g.dest

/-- What a hard link of the image names is not replaced by something else. -/
def LinksKept (image : List SourceEntry) (files : List AddedFile) (facts : ImageFacts)
    (time : Timestamp) : Prop :=
  ∀ e ∈ image, (∀ f ∈ files, f.dest ≠ e.path) → ∀ f ∈ files, e.link = some f.dest →
    ∀ file, Names image f.dest file → file = (f.kind facts, .new f.mode time)

/-! ### Ancestors in the tree -/

theorem exists_last_slash {rest : Bytes} (h : slash ∈ rest) :
    ∃ pre name, rest = pre ++ slash :: name ∧ slash ∉ name := by
  obtain ⟨as, bs, hrev, has⟩ := List.eq_append_cons_of_mem (List.mem_reverse.mpr h)
  refine ⟨bs.reverse, as.reverse, ?_, by simpa using has⟩
  rw [← List.reverse_reverse rest, hrev]
  simp

/-- An ancestor is the directory of the path or an ancestor of it. -/
theorem eq_or_mem_ancestors {path : Bytes} (h : p ∈ ancestors path) :
    ∃ q, parentPath path = some q ∧ (p = q ∨ p ∈ ancestors q) := by
  obtain ⟨hne, rest, rfl⟩ := mem_ancestors.mp h
  by_cases hrest : slash ∈ rest
  · obtain ⟨pre, name, rfl, hname⟩ := exists_last_slash hrest
    refine ⟨p ++ slash :: pre, parentPath_eq_some.mpr ⟨by simp, name, hname, by simp⟩, .inr ?_⟩
    exact mem_ancestors.mpr ⟨hne, pre, rfl⟩
  · exact ⟨p, parentPath_eq_some.mpr ⟨hne, rest, hrest, rfl⟩, .inl rfl⟩

theorem length_lt_of_mem_ancestors {path : Bytes} (h : p ∈ ancestors path) :
    p.length < path.length := by
  obtain ⟨-, rest, rfl⟩ := mem_ancestors.mp h
  simp

/-- In a tree every ancestor of an entry is a directory. -/
theorem exists_ancestor (h : ImageTree image) (he : e ∈ image) (hp : p ∈ ancestors e.path) :
    ∃ d ∈ image, d.path = p ∧ d.kind.isDirectory = true := by
  generalize hn : e.path.length = n
  induction n using Nat.strong_induction_on generalizing e with
  | _ n ih =>
    obtain ⟨q, hq, hpq⟩ := eq_or_mem_ancestors hp
    obtain ⟨d, hd, rfl, hdir⟩ := h.held e he q hq
    rcases hpq with rfl | hpq
    · exact ⟨d, hd, rfl, hdir⟩
    · have hlt := length_lt_of_mem_ancestors (mem_ancestors_of_parentPath hq)
      exact ih _ (hn ▸ hlt) hd hpq rfl

/-! ### The merged tree -/

theorem entry_link : (f.entry facts time).link = none := by
  unfold SourceEntry.link AddedFile.entry AddedFile.kind
  cases f.content <;> rfl

theorem isDirectory_mark (h : e.kind.isDirectory = true) (hdoc : e.path ≠ asBytes IMAGE_TOML) :
    (mark doc e).kind.isDirectory = true := by
  rwa [mark, if_neg hdoc]

/-- Writing the marker leaves the image a tree, since the identity document is no directory. -/
theorem imageTree_marked (h : ImageTree image)
    (hdoc : ∃ e ∈ image, e.path = asBytes IMAGE_TOML ∧ e.kind.isDirectory = false) :
    ImageTree (marked doc image) := by
  refine h.map (fun _ _ => mark_path) fun e he hdir => isDirectory_mark hdir fun hpath => ?_
  obtain ⟨e', he', hpath', hfile⟩ := hdoc
  rw [List.inj_on_of_nodup_map h.nodup he he' (hpath.trans hpath'.symm), hfile] at hdir
  cases hdir

/-- An entry no addition replaces is in the merged tree. -/
theorem mem_of_kept (he : e ∈ marked doc image) (hfree : ∀ f ∈ files, f.dest ≠ e.path) :
    e ∈ (marked doc image).map (overlay facts time files) ++ st.appended :=
  List.mem_append_left _ (List.mem_map.mpr ⟨e, he, overlay_eq_self hfree⟩)

namespace Placed

variable (h : Placed image facts time files st)
include h

/-- Every addition is in the merged tree. -/
theorem mem_of_added (hdests : (files.map AddedFile.dest).Nodup) (hf : f ∈ files) :
    f.entry facts time ∈ (marked doc image).map (overlay facts time files) ++ st.appended := by
  by_cases hmem : f.dest ∈ image.map SourceEntry.path
  · obtain ⟨e, he, hpath⟩ := List.mem_map.mp hmem
    refine List.mem_append_left _ (List.mem_map.mpr ⟨mark doc e, List.mem_map_of_mem he, ?_⟩)
    exact overlay_of_mem hdests hf (by simpa using hpath.symm)
  · refine List.mem_append_right _ (h.appended.mem_iff.mpr (List.mem_append_right _ ?_))
    exact List.mem_map_of_mem (List.mem_filter.mpr ⟨hf, by simpa using hmem⟩)

/-- And every directory that was planned or is one of the image. -/
theorem mem_of_parent (hdoc : ∃ e ∈ image, e.path = asBytes IMAGE_TOML ∧ e.kind.isDirectory = false)
    (hn : (image.map SourceEntry.path).Nodup)
    (hp : p ∈ st.plannedDirs ∨ ∃ e ∈ image, e.path = p ∧ e.kind.isDirectory = true) :
    ∃ d ∈ (marked doc image).map (overlay facts time files) ++ st.appended,
      d.path = p ∧ d.kind.isDirectory = true := by
  rcases hp with hp | ⟨e, he, rfl, hdir⟩
  · refine ⟨parentEntry time p, List.mem_append_right _ (h.appended.mem_iff.mpr ?_), rfl, rfl⟩
    exact List.mem_append_left _ (List.mem_map_of_mem hp)
  · refine ⟨mark doc e, mem_of_kept (List.mem_map_of_mem he) fun f hf hpath => ?_, mark_path,
      isDirectory_mark hdir ?_⟩
    · rw [h.replaced f hf e he (hpath.trans mark_path).symm] at hdir
      cases hdir
    · intro hpath
      obtain ⟨e', he', hpath', hfile⟩ := hdoc
      rw [List.inj_on_of_nodup_map hn he he' (hpath.trans hpath'.symm), hfile] at hdir
      cases hdir

/-- The paths of what is appended: the planned directories and the new files. -/
theorem appended_paths : (st.appended.map SourceEntry.path).Perm (st.plannedDirs ++
    (files.map AddedFile.dest).filter fun d => d ∉ image.map SourceEntry.path) := by
  refine (h.appended.map _).trans ?_
  rw [List.map_append, List.map_map, List.map_map, List.filter_map]
  have hplanned : st.plannedDirs.map (SourceEntry.path ∘ parentEntry time) = st.plannedDirs :=
    List.map_id _
  rw [hplanned]
  exact List.Perm.refl _

/-- Where the additions are apart, the merged tree is one. -/
theorem imageTree (himage : ImageTree image)
    (hdoc : ∃ e ∈ image, e.path = asBytes IMAGE_TOML ∧ e.kind.isDirectory = false)
    (hdests : (files.map AddedFile.dest).Nodup) (hapart : Apart files) :
    ImageTree ((marked doc image).map (overlay facts time files) ++ st.appended) := by
  have hreplaced : ImageTree ((marked doc image).map (overlay facts time files)) := by
    refine (imageTree_marked himage hdoc).map (fun _ _ => overlay_path) fun e' he' hdir => ?_
    obtain ⟨e, he, rfl⟩ := List.mem_map.mp he'
    rw [overlay_eq_self fun f hf hpath => ?_]
    · exact hdir
    · rw [mark_path] at hpath
      rw [mark, if_neg fun htoml => dest_ne_imageToml f (hpath.trans htoml),
        h.replaced f hf e he hpath.symm] at hdir
      cases hdir
  have hpaths : ((marked doc image).map (overlay facts time files)).map SourceEntry.path =
      image.map SourceEntry.path := by
    rw [List.map_map, ← map_path_marked]
    exact List.map_congr_left fun _ _ => overlay_path
  refine hreplaced.append ?nodup ?fresh ?held
  case nodup =>
    refine h.appended_paths.nodup_iff.mpr (List.nodup_append'.mpr ⟨h.nodup, hdests.filter _, ?_⟩)
    intro p hp hfile
    obtain ⟨-, g, hg, -, hanc⟩ := h.planned p hp
    obtain ⟨f, hf, rfl⟩ := List.mem_map.mp (List.mem_of_mem_filter hfile)
    exact hapart f hf g hg hanc
  case fresh =>
    intro e he
    rw [hpaths]
    rcases List.mem_append.mp (h.appended_paths.mem_iff.mp (List.mem_map_of_mem he)) with hp | hp
    · exact (h.planned _ hp).1
    · simpa using (List.mem_filter.mp hp).2
  case held =>
    intro e he p hp
    rcases List.mem_append.mp (h.appended_paths.mem_iff.mp (List.mem_map_of_mem he)) with he | he
    · obtain ⟨-, f, hf, hnew, hanc⟩ := h.planned _ he
      exact h.mem_of_parent hdoc himage.nodup
        (h.parents f hf hnew p (ancestors_trans (mem_ancestors_of_parentPath hp) hanc))
    · obtain ⟨hmem, hnew⟩ := List.mem_filter.mp he
      obtain ⟨f, hf, hdest⟩ := List.mem_map.mp hmem
      refine h.mem_of_parent hdoc himage.nodup (h.parents f hf ?_ p ?_)
      · rw [hdest]
        simpa using hnew
      · rw [hdest]
        exact mem_ancestors_of_parentPath hp

end Placed

/-! ### When pressing keeps everything else -/

/-- Where the merged tree is one, no addition lies below another: a new file with something below
it comes with a directory of its own path, and a file of the image has nothing below it. -/
theorem Placed.apart (h : Placed image facts time files st) (himage : ImageTree image)
    (happended : (st.appended.map SourceEntry.path).Nodup) : Apart files := by
  intro f hf g hg hanc
  have hfile : ∀ e ∈ image, e.path = f.dest → e.kind.isDirectory ≠ true := fun e he hpath hdir => by
    rw [h.replaced f hf e he hpath] at hdir
    cases hdir
  by_cases hnew : g.dest ∈ image.map SourceEntry.path
  · obtain ⟨e, he, hpath⟩ := List.mem_map.mp hnew
    obtain ⟨d, hd, hdpath, hdir⟩ := exists_ancestor himage he (hpath ▸ hanc)
    exact hfile d hd hdpath hdir
  · rcases h.parents g hg hnew f.dest hanc with hplan | ⟨d, hd, hdpath, hdir⟩
    · have hdisjoint := (List.nodup_append'.mp (h.appended_paths.nodup_iff.mp happended)).2.2
      refine hdisjoint hplan (List.mem_filter.mpr ⟨List.mem_map_of_mem hf, ?_⟩)
      simpa using (h.planned _ hplan).1
    · exact hfile d hd hdpath hdir

theorem Placed.pressed_iff (h : Placed image facts time files st) (himage : ImageTree image)
    (hdoc : ∃ e ∈ image, e.path = asBytes IMAGE_TOML ∧ e.kind.isDirectory = false)
    (hdests : (files.map AddedFile.dest).Nodup) :
    Pressed (marked doc image) files facts time
      ((marked doc image).map (overlay facts time files) ++ st.appended) ↔
        Apart files ∧ LinksKept (marked doc image) files facts time := by
  have hadded : ∀ f ∈ files, f.entry facts time ∈
      (marked doc image).map (overlay facts time files) ++ st.appended :=
    fun f hf => h.mem_of_added hdests hf
  constructor
  · intro hp
    refine ⟨h.apart himage ?_, ?_⟩
    · have hn := hp.tree.nodup
      rw [List.map_append, List.nodup_append'] at hn
      exact hn.2.1
    · intro e he hfree f hf hlink file hnames
      have hpath : Names _ e.path file := hp.names e.path file hfree (.step he hlink hnames)
      rcases hpath.cases_row hp.tree.nodup (hp.kept e he hfree) with ⟨hnone, -⟩ | ⟨q, hq, hnew⟩
      · rw [hlink] at hnone
        cases hnone
      · obtain rfl := Option.some.inj (hlink.symm.trans hq)
        exact hnew.unique hp.tree.nodup (.here (hadded f hf) entry_link)
  · rintro ⟨hapart, hlinks⟩
    refine ⟨h.imageTree himage hdoc hdests hapart, fun f hf => ⟨_, hadded f hf, rfl, rfl, rfl⟩,
      fun e he hfree => mem_of_kept he hfree, fun path file hfree hnames => ?_⟩
    refine hnames.frame {q | ∃ f ∈ files, f.dest = q}
      (fun e he hout => mem_of_kept he fun f hf hd => hout ⟨f, hf, hd⟩) ?_
      (fun ⟨f, hf, hd⟩ => hfree f hf hd)
    rintro e he hout q ⟨f, hf, rfl⟩ hlink t ht
    rw [hlinks e he (fun f hf hd => hout ⟨f, hf, hd⟩) f hf hlink t ht]
    exact .here (hadded f hf) entry_link

theorem Pressed.congr {files' : List AddedFile} (hmem : ∀ f, f ∈ files' ↔ f ∈ files)
    (h : Pressed image files facts time r) : Pressed image files' facts time r where
  tree := h.tree
  added f hf := h.added f ((hmem f).mp hf)
  kept e he hfree := h.kept e he fun f hf => hfree f ((hmem f).mpr hf)
  names path file hfree := h.names path file fun f hf => hfree f ((hmem f).mpr hf)

/-! ### The order of the additions -/

/-- The same additions, given in another order. -/
structure Reordered (a b : TreeAdditions) : Prop where
  files : a.files.Perm b.files
  copies : a.copies.Perm b.copies
  debs : a.debs.Perm b.debs
  rest : b = { a with files := b.files, copies := b.copies, debs := b.debs }

theorem Reordered.pressed_eq (h : Reordered a b) : a.pressed = b.pressed := by
  have hsort : ∀ {l l' : List Str}, l.Perm l' → sortUnstable l = sortUnstable l' := fun hl =>
    List.Perm.eq_of_pairwise (fun a b _ _ hab hba => Std.Antisymm.antisymm a b hab hba)
      (pairwise_sortUnstable _) (pairwise_sortUnstable _)
      (((List.perm_insertionSort _ _).trans hl).trans (List.perm_insertionSort _ _).symm)
  unfold TreeAdditions.pressed
  rw [hsort h.copies, hsort h.debs, h.rest]

/-- What `apply` answers does not depend on the order. -/
theorem Reordered.apply_eq (h : Reordered a b) : a.apply out image = b.apply out image := by
  have hclaim : claimOnce (sortByKey AddedFile.dest a.files) =
      claimOnce (sortByKey AddedFile.dest b.files) := claimOnce_congr (map_sortByKey_perm h.files)
  have hmarker : a.writeMarker out = b.writeMarker out := by
    unfold TreeAdditions.writeMarker
    rw [h.pressed_eq]
  have hidentity : a.identity = b.identity ∧ a.recipe = b.recipe ∧ a.seedHostname = b.seedHostname := by
    rw [h.rest]
    exact ⟨rfl, rfl, rfl⟩
  unfold TreeAdditions.apply
  rw [hmarker, hidentity.1, hidentity.2.1, hidentity.2.2]
  congr 1
  funext ⟨identity, time⟩
  simp only [hclaim]
  by_cases hn : (a.files.map AddedFile.dest).Nodup
  · rw [sortByKey_congr h.files hn]
  · have hne : claimOnce (sortByKey AddedFile.dest b.files) ≠ .ok () := fun hok =>
      hn (((sortByKey_perm _ _).map _).nodup_iff.mp
        ((claimOnce_eq_ok (pairwise_sortByKey _ _)).mp (hclaim.trans hok)))
    cases hc : claimOnce (sortByKey AddedFile.dest b.files) with
    | ok => exact absurd hc hne
    | err => rfl
    | panic => rfl

/-- Pressing a tree keeps it one exactly where the additions are apart and no hard link loses its
file, and the order of the additions does not matter. -/
theorem apply_keeps_tree_iff (himage : ImageTree image) :
    (∀ b, Reordered a b → a.apply out image = b.apply out image) ∧
    ∀ r, a.apply out image = .ok r → ∃ identity time toml,
      readIdentity out image = .ok (identity, time) ∧
      out.toTomlString { identity with pressed := some a.pressed } = .ok toml ∧
      (Pressed (marked (asBytes toml) image) a.files
          (.new identity a.identity a.recipe a.seedHostname) time r ↔
        Apart a.files ∧ LinksKept (marked (asBytes toml) image) a.files
          (.new identity a.identity a.recipe a.seedHostname) time) := by
  refine ⟨fun b h => h.apply_eq, fun r hr => ?_⟩
  obtain ⟨identity, time, toml, st, hread, htoml, hdests, hplaced, rfl⟩ :=
    apply_eq_ok himage.nodup hr
  refine ⟨identity, time, toml, hread, htoml, ?_⟩
  have hsorted : ((sortByKey AddedFile.dest a.files).map AddedFile.dest).Nodup :=
    ((sortByKey_perm _ _).map _).nodup_iff.mpr hdests
  have hiff : Pressed (marked (asBytes toml) image) _ _ _ _ ↔ _ :=
    hplaced.pressed_iff himage (readIdentity_eq_ok hread) hsorted
  simp only [Apart, LinksKept, mem_sortByKey] at hiff
  exact ⟨fun h => hiff.mp (h.congr fun _ => mem_sortByKey),
    fun h => (hiff.mpr h).congr fun _ => mem_sortByKey.symm⟩

/-! ### Two presses of a small image -/

def smallToml : Str :=
  ("version = 1\n[image]\ndevice = \"turing-rk1\"\ndescription = \"d\"\narch = \"arm64\"\n" ++
    "soc = \"rk3588\"\nboot_method = \"rockchip-rkbin\"\ndistro = \"debian\"\n" ++
    "suite = \"forky\"\nfeatures = []\nlayout = \"combined\"\nhostname = \"rk1\"\n" ++
    "[kernel]\nid = \"k\"\nflavor = \"mainline\"\n").toList

/-- The directories, a configuration file and the identity document of an image. -/
def smallImage : List SourceEntry :=
  let time : Timestamp := ⟨1700000000, 0⟩
  [⟨asBytes "/etc".toList, .directory, .new 0o755 time⟩,
    ⟨asBytes "/etc/boot2deb".toList, .directory, .new 0o755 time⟩,
    ⟨asBytes "/etc/motd".toList, .file (.owned (asBytes "shipped\n".toList)), .new 0o644 time⟩,
    ⟨asBytes IMAGE_TOML, .file (.owned (asBytes smallToml)), .new 0o644 time⟩]

def smallIdentity : SystemIdentity Unit where
  image := ⟨"turing-rk1".toList, "d".toList, "arm64".toList, "rk3588".toList,
    "rockchip-rkbin".toList, "forky".toList, "combined".toList, "rk1".toList⟩
  kernelId := "k".toList
  pressed := none
  rest := ()

def smallOutside : Outside Unit where
  read _ := .error "not read"
  fromTomlStr _ := .ok smallIdentity
  toTomlString _ := .ok (smallToml ++ ("[pressed]\nsource = \"turing-rk1-forky\"\n" ++
    "copies = [\"/etc/motd\", \"/srv/site/a\"]\n").toList)

/-- A press that copies two files. -/
def twoFiles (first second : Dest) : TreeAdditions where
  sourceStem := "turing-rk1-forky".toList
  recipe := "turing-rk1/forky".toList
  seedHostname := none
  identity := ⟨.replicate 16 0, .replicate 16 0, .replicate 16 0, .replicate 16 0,
    .replicate _ (.replicate 16 0)⟩
  freshIdentity := false
  files := [⟨first, .host (.owned [0x61]), 0o644, "copy"⟩,
    ⟨second, .host (.owned [0x62]), 0o644, "copy"⟩]
  copies := [first.1, second.1]
  debs := []
  embeddedImage := none

def motdAndSite : TreeAdditions :=
  twoFiles ⟨"/etc/motd".toList, by decide +kernel⟩ ⟨"/srv/site/a".toList, by decide +kernel⟩

def siteAndBelow : TreeAdditions :=
  twoFiles ⟨"/srv/site".toList, by decide +kernel⟩ ⟨"/srv/site/a".toList, by decide +kernel⟩

/-- An identity document that is in the image and parses. -/
theorem readIdentity_found {Rest : Type} {out : Outside Rest} {identity : SystemIdentity Rest}
    {image : List SourceEntry} {e : SourceEntry} {doc : Str}
    (hfind : image.find? (fun e => e.path = asBytes IMAGE_TOML) = some e)
    (hkind : e.kind = .file (.owned (asBytes doc)))
    (hdoc : out.fromTomlStr doc = .ok identity) :
    readIdentity out image = .ok (identity, e.meta_.mtime) := by
  rw [readIdentity, hfind]
  dsimp only
  rw [hkind]
  dsimp only [FileContent.read]
  rw [fromUtf8_asBytes]
  dsimp only
  rw [hdoc]
  rfl

theorem readIdentity_small :
    readIdentity smallOutside smallImage = .ok (smallIdentity, ⟨1700000000, 0⟩) := by
  have hfind : smallImage.find? (fun e => e.path = asBytes IMAGE_TOML) =
      some ⟨asBytes IMAGE_TOML, .file (.owned (asBytes smallToml)), .new 0o644 ⟨1700000000, 0⟩⟩ := by
    unfold smallImage
    rw [List.find?_cons_of_neg (by decide +kernel), List.find?_cons_of_neg (by decide +kernel),
      List.find?_cons_of_neg (by decide +kernel), List.find?_cons_of_pos (by simp)]
  exact @readIdentity_found _ smallOutside _ _ _ smallToml hfind rfl rfl

theorem motdAndSite_pressed : ∃ doc facts time r,
    motdAndSite.apply smallOutside smallImage = .ok r ∧
    Pressed (marked doc smallImage) motdAndSite.files facts time r := by
  have himage : ImageTree smallImage := by decide +kernel
  have hlinks : ∀ toml, ∀ e ∈ marked (asBytes toml) smallImage, e.link = none := by
    intro toml e he
    obtain ⟨e, hmem, rfl⟩ := List.mem_map.mp he
    have hnone : ∀ e ∈ smallImage, e.link = none := by decide +kernel
    unfold mark
    split_ifs
    · rfl
    · exact hnone e hmem
  have hok : (motdAndSite.apply smallOutside smallImage).toOption.isSome := by
    rw [TreeAdditions.apply, readIdentity_small]
    decide +kernel
  obtain ⟨r, hr⟩ := Option.isSome_iff_exists.mp hok
  replace hr := Outcome.mem_toOption.mp hr
  obtain ⟨identity, time, toml, -, -, hiff⟩ := (apply_keeps_tree_iff himage).2 r hr
  refine ⟨_, _, _, r, hr, hiff.mpr ⟨?apart, fun e he _ f _ hlink => ?_⟩⟩
  case apart =>
    unfold Apart
    decide +kernel
  rw [hlinks _ e he] at hlink
  cases hlink

/-- A file and another one below it press to a tree with two entries of one path. -/
theorem siteAndBelow_twice : ImageTree smallImage ∧
    ∃ r, siteAndBelow.apply smallOutside smallImage = .ok r ∧ ¬ImageTree r := by
  have hrun : (siteAndBelow.apply smallOutside smallImage).toOption.any
      fun r => ¬(r.map SourceEntry.path).Nodup := by
    rw [TreeAdditions.apply, readIdentity_small]
    decide +kernel
  obtain ⟨r, hr, htwice⟩ := (Option.any_eq_true _ _).mp hrun
  refine ⟨by decide +kernel, r, Outcome.mem_toOption.mp hr, fun h => ?_⟩
  exact of_decide_eq_true htwice h.nodup

end Boot2Deb.Press
