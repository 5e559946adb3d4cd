import Boot2Deb.Core.FilesDiff
import Boot2Deb.Core.FilesTokens

/-!
# Comparing two files manifests

The comparison goes path by path, and compares hard links by the other names of an inode, not by
token. For assembled manifests it is exact: `compare_exact`.
-/

namespace Boot2Deb.Core.Files

open Rust
open Std (ExtTreeMap TransCmp ReflCmp)

/-- A manifest's entries by path. -/
def byPath (m : FileManifest) : ExtTreeMap Str FileEntry compare :=
  m.all.foldl (fun rows e => rows.insert e.path e) ∅

/-- The paths of every hard-link group, by token. -/
def groups (m : FileManifest) : ExtTreeMap UInt64 (List Str) compare :=
  (m.all.filter fun e => e.inodeToken ≠ 0).foldl
    (fun groups e => groups.insert e.inodeToken (groups[e.inodeToken]?.getD [] ++ [e.path])) ∅

/-- The other names of an entry's inode. -/
def linkSiblings (groups : ExtTreeMap UInt64 (List Str) compare) (e : FileEntry) : List Str :=
  (groups[e.inodeToken]?.map fun names => names.filter fun n => n ≠ e.path).getD []

/-- The fields of two entries, and whether they differ. -/
def differences (lg rg : ExtTreeMap UInt64 (List Str) compare) (e o : FileEntry) :
    List (Str × Bool) := [
  ("type".toList, e.fileType ≠ o.fileType),
  ("mode".toList, e.mode ≠ o.mode),
  ("uid".toList, e.uid ≠ o.uid),
  ("gid".toList, e.gid ≠ o.gid),
  ("mtime".toList, e.mtimeNsec ≠ o.mtimeNsec),
  ("size".toList, e.size ≠ o.size),
  ("sha256".toList, e.sha256 ≠ o.sha256),
  ("target".toList, e.target ≠ o.target),
  ("device".toList, e.device ≠ o.device),
  ("hardlinks".toList, linkSiblings lg e ≠ linkSiblings rg o),
  ("xattrs".toList, e.xattrs ≠ o.xattrs)]

def changedFields (lg rg : ExtTreeMap UInt64 (List Str) compare) (e o : FileEntry) : List Str :=
  ((differences lg rg e o).filter Prod.snd).map Prod.fst

/-- Compare two manifests path by path. -/
def FileManifest.compare (left right : FileManifest) : FilesDiff where
  added := (right.all.map FileEntry.path).filter fun p => !(byPath left).contains p
  removed := (left.all.filter fun e => !(byPath right).contains e.path).map FileEntry.path
  changed := left.all.filterMap fun e =>
    match (byPath right)[e.path]? with
    | none => none
    | some o =>
      let fields := changedFields (groups left) (groups right) e o
      if fields.isEmpty then none else some ⟨e.path, fields⟩

/-! ### What a comparison is to say -/

/-- A field of an entry as a comparison names it. -/
inductive Field where
  | type
  | mode
  | uid
  | gid
  | mtime
  | size
  | sha256
  | target
  | device
  | hardlinks
  | xattrs
deriving DecidableEq

def Field.all : List Field :=
  [type, mode, uid, gid, mtime, size, sha256, target, device, hardlinks, xattrs]

def Field.asStr : Field → Str
  | type => "type".toList
  | mode => "mode".toList
  | uid => "uid".toList
  | gid => "gid".toList
  | mtime => "mtime".toList
  | size => "size".toList
  | sha256 => "sha256".toList
  | target => "target".toList
  | device => "device".toList
  | hardlinks => "hardlinks".toList
  | xattrs => "xattrs".toList

/-- The other paths at an entry's inode. -/
def linksOf (m : FileManifest) (e : FileEntry) : Set Str :=
  {p | ∃ f ∈ m.all, f.path = p ∧ p ≠ e.path ∧ e.token ≠ 0 ∧ f.token = e.token}

/-- Whether two entries of a path differ in a field. -/
def Differs (l r : FileManifest) (e o : FileEntry) : Field → Prop
  | .type => e.fileType ≠ o.fileType
  | .mode => e.mode ≠ o.mode
  | .uid => e.uid ≠ o.uid
  | .gid => e.gid ≠ o.gid
  | .mtime => e.mtimeNsec ≠ o.mtimeNsec
  | .size => e.size ≠ o.size
  | .sha256 => e.sha256 ≠ o.sha256
  | .target => e.target ≠ o.target
  | .device => e.device ≠ o.device
  | .hardlinks => linksOf l e ≠ linksOf r o
  | .xattrs => e.xattrs ≠ o.xattrs

open Classical in
/-- The fields, in their order, in which two entries of a path differ. -/
noncomputable def exactFields (l r : FileManifest) (e o : FileEntry) : List Str :=
  (Field.all.filter fun f => Differs l r e o f).map Field.asStr

/-- An entry but for the content of a file, where its path is one of those set aside. -/
def FileEntry.setAside (aside : Str → Bool) (e : FileEntry) : FileEntry :=
  if aside e.path then { e with mtimeNsec := 0, size := 0, sha256 := none } else e

/-- A manifest that a walk is assembled to. -/
def Assembled (m : FileManifest) : Prop := ∃ root walked, assemble root walked = .ok m

/-! ### Paths -/

section Paths
variable {m l r : FileManifest} {e f o : FileEntry}

theorem path_injective {e f : FileEntry} : e.path = f.path ↔ e.name = f.name :=
  ⟨fun h => (List.cons.inj h).2, fun h => congrArg ('/' :: ·) h⟩

/-- What the names of an assembled manifest and their tokens are. -/
structure Sorted (m : FileManifest) : Prop where
  rise : (m.all.map FileEntry.path).Pairwise fun p q => order p.tail q.tail = .lt
  numbered : NumberedInOrder FileEntry.token m.entries
  shared : Shared m.entries
  root : m.root.token = 0

theorem Assembled.sorted (h : Assembled m) : Sorted m := by
  obtain ⟨root, walked, h⟩ := h
  have hvalid := (validate_of_assemble h).1
  refine ⟨?_, (tokens_of_validate hvalid).1, shared_of_assemble h, ?_⟩
  · have hrise := names_rise hvalid
    rw [List.pairwise_map] at hrise ⊢
    exact hrise
  · obtain ⟨⟨⟩, hroot, -⟩ := Outcome.bind_eq_ok.mp hvalid
    have hdir : m.root.fileType = .dir := by
      by_contra hne
      obtain ⟨⟨⟩, hcheck, -⟩ := Outcome.bind_eq_ok.mp hroot
      simp [checkRoot, hne, FileEntry.bad] at hcheck
    exact token_of_checkEntry hroot hdir

theorem Sorted.nodup (h : Sorted m) : (m.all.map FileEntry.path).Nodup := by
  refine h.rise.imp ?_
  rintro p q hlt rfl
  rw [order_eq_iff.mpr rfl] at hlt
  exact nomatch hlt

theorem Sorted.eq_of_path (h : Sorted m) (he : e ∈ m.all) (hf : f ∈ m.all)
    (hp : e.path = f.path) : e = f := List.inj_on_of_nodup_map h.nodup he hf hp

/-- Lists of rising paths that hold the same are the same. -/
theorem eq_of_rising {ps qs : List Str}
    (hp : ps.Pairwise fun p q => order p.tail q.tail = .lt)
    (hq : qs.Pairwise fun p q => order p.tail q.tail = .lt) (h : ∀ p, p ∈ ps ↔ p ∈ qs) :
    ps = qs := by
  have hnodup : ∀ {ps : List Str}, (ps.Pairwise fun p q => order p.tail q.tail = .lt) →
      ps.Nodup := by
    intro ps hps
    refine hps.imp ?_
    rintro p q hlt rfl
    rw [order_eq_iff.mpr rfl] at hlt
    exact nomatch hlt
  refine ((List.perm_ext_iff_of_nodup (hnodup hp) (hnodup hq)).mpr h).eq_of_pairwise ?_ hp hq
  intro p q _ _ hlt hgt
  have hself := TransCmp.lt_trans hlt hgt
  rw [order_eq_iff.mpr rfl] at hself
  exact nomatch hself

theorem Sorted.getElem?_byPath (h : Sorted m) {p : Str} :
    (byPath m)[p]? = firstWith FileEntry.path m.all p := by
  have hempty : (∅ : ExtTreeMap Str FileEntry compare)[p]? = none := ExtTreeMap.getElem?_empty
  rw [byPath, getElem?_foldl_insert, hempty, Option.or_none]
  exact (firstWith_perm h.nodup m.all.reverse_perm.symm).symm

theorem Sorted.contains_byPath (h : Sorted m) {p : Str} :
    (byPath m).contains p = true ↔ p ∈ m.all.map FileEntry.path := by
  rw [ExtTreeMap.contains_eq_isSome_getElem?, h.getElem?_byPath, Option.isSome_iff_ne_none, ne_eq,
    firstWith_eq_none]
  simp only [not_forall, not_not, exists_prop, List.mem_map]

theorem Sorted.byPath_eq_some (h : Sorted m) (he : e ∈ m.all) : (byPath m)[e.path]? = some e := by
  rw [h.getElem?_byPath, firstWith_eq_some_iff h.nodup]
  exact ⟨he, rfl⟩

theorem Sorted.mem_entries (h : Sorted m) (he : e ∈ m.all) (hne : e.token ≠ 0) :
    e ∈ m.entries := by
  rcases List.mem_cons.mp he with rfl | he
  · exact absurd h.root hne
  · exact he

/-! ### Hard links -/

/-- The paths that share an entry's token. -/
theorem getD_groups (m : FileManifest) (t : UInt64) : (groups m)[t]?.getD [] =
    ((m.all.filter fun e => e.inodeToken ≠ 0).filter fun e => e.inodeToken = t).map
      FileEntry.path := by
  have hfold : ∀ (es : List FileEntry) (held : ExtTreeMap UInt64 (List Str) compare),
      (es.foldl (fun groups e =>
        groups.insert e.inodeToken (groups[e.inodeToken]?.getD [] ++ [e.path])) held)[t]?.getD [] =
      held[t]?.getD [] ++ (es.filter fun e => e.inodeToken = t).map FileEntry.path := by
    intro es
    induction es with
    | nil => exact fun held => (List.append_nil _).symm
    | cons e es ih =>
      intro held
      rw [List.foldl_cons, ih, getElem?_insert_ite]
      by_cases h : e.inodeToken = t
      · rw [if_pos h, h, List.filter_cons_of_pos (by simpa using h)]
        simp
      · rw [if_neg h, List.filter_cons_of_neg (by simpa using h)]
  have h := hfold (m.all.filter fun e => e.inodeToken ≠ 0) ∅
  rw [ExtTreeMap.getElem?_empty] at h
  exact h

theorem linkSiblings_eq (m : FileManifest) (e : FileEntry) : linkSiblings (groups m) e =
    ((m.all.filter fun f => e.token ≠ 0 ∧ f.token = e.token).map FileEntry.path).filter
      fun p => p ≠ e.path := by
  have hget : linkSiblings (groups m) e =
      ((groups m)[e.inodeToken]?.getD []).filter fun n => n ≠ e.path := by
    unfold linkSiblings
    cases (groups m)[e.inodeToken]? <;> rfl
  rw [hget, getD_groups, List.filter_filter]
  congr 2
  refine List.filter_congr fun f _ => ?_
  simp only [← Bool.decide_and, token_eq_iff, ne_eq, token_eq_zero]
  refine decide_eq_decide.mpr ⟨fun ⟨heq, hne⟩ => ⟨heq ▸ hne, heq⟩, fun ⟨hne, heq⟩ => ⟨heq, heq ▸ hne⟩⟩

theorem mem_linkSiblings {p : Str} : p ∈ linkSiblings (groups m) e ↔ p ∈ linksOf m e := by
  simp only [linkSiblings_eq, List.mem_filter, List.mem_map, decide_eq_true_eq, linksOf,
    Set.mem_ofPred_eq]
  constructor
  · rintro ⟨⟨f, ⟨hf, hne, htoken⟩, rfl⟩, hp⟩
    exact ⟨f, hf, rfl, hp, hne, htoken⟩
  · rintro ⟨f, hf, rfl, hp, hne, htoken⟩
    exact ⟨⟨f, ⟨hf, hne, htoken⟩, rfl⟩, hp⟩

theorem Sorted.rising_siblings (h : Sorted m) :
    (linkSiblings (groups m) e).Pairwise fun p q => order p.tail q.tail = .lt := by
  rw [linkSiblings_eq]
  exact (h.rise.sublist (List.filter_sublist.map _)).sublist List.filter_sublist

/-- Lists of siblings are compared as sets. -/
theorem linkSiblings_eq_iff (hl : Sorted l) (hr : Sorted r) :
    linkSiblings (groups l) e = linkSiblings (groups r) o ↔ linksOf l e = linksOf r o := by
  constructor
  · intro h
    ext p
    rw [← mem_linkSiblings, h, mem_linkSiblings]
  · intro h
    refine eq_of_rising hl.rising_siblings hr.rising_siblings fun p => ?_
    rw [mem_linkSiblings, h, mem_linkSiblings]

/-- A name with a token has siblings. -/
theorem Sorted.linksOf_eq_empty (h : Sorted m) (he : e ∈ m.all) :
    linksOf m e = ∅ ↔ e.token = 0 := by
  constructor
  · intro hempty
    by_contra hne
    have hmem := h.mem_entries he hne
    have htwo := h.shared e hmem hne
    -- besides the entry itself another one carries the token
    obtain ⟨front, back, heq⟩ := List.append_of_mem hmem
    have hnodup : (m.entries.map FileEntry.path).Nodup := (List.nodup_cons.mp h.nodup).2
    rw [heq, List.countP_append, List.countP_cons_of_pos (by simp)] at htwo
    have hother : ∃ f ∈ front ++ back, f.token = e.token := by
      by_contra hnone
      have hzero : (front ++ back).countP (fun f => f.token = e.token) = 0 := by
        rw [List.countP_eq_zero]
        exact fun f hf ht => hnone ⟨f, hf, of_decide_eq_true ht⟩
      rw [List.countP_append] at hzero
      omega
    obtain ⟨f, hf, htoken⟩ := hother
    have hfm : f ∈ m.entries := by
      rw [heq]
      rcases List.mem_append.mp hf with hf | hf
      · exact List.mem_append_left _ hf
      · exact List.mem_append_right _ (List.mem_cons_of_mem _ hf)
    have hpath : f.path ≠ e.path := by
      intro hp
      rw [heq, List.map_append, List.map_cons, List.nodup_middle, List.nodup_cons] at hnodup
      exact hnodup.1 (hp ▸ List.map_append ▸ List.mem_map_of_mem hf)
    have hlink : f.path ∈ linksOf m e :=
      ⟨f, List.mem_cons_of_mem _ hfm, rfl, hpath, hne, htoken⟩
    rw [hempty] at hlink
    exact hlink
  · intro hzero
    ext p
    exact iff_of_false (fun ⟨_, _, _, _, hne, _⟩ => hne hzero) (Set.notMem_empty p)

/-! ### Two manifests of the same paths -/

theorem map_eq_iff_zip {α β γ : Type} {as : List α} {bs : List β} {f : α → γ} {g : β → γ} :
    as.map f = bs.map g ↔ as.length = bs.length ∧ ∀ {a b}, (a, b) ∈ as.zip bs → f a = g b := by
  rw [← List.forall₂_iff_zip, ← List.forall₂_eq_eq_eq, List.forall₂_map_left_iff,
    List.forall₂_map_right_iff]

theorem exists_mem_zip_left {α β : Type} {as : List α} {bs : List β} (h : as.length = bs.length)
    {a : α} (ha : a ∈ as) : ∃ b, (a, b) ∈ as.zip bs := by
  rw [← List.map_fst_zip h.le] at ha
  obtain ⟨⟨a', b⟩, hmem, rfl⟩ := List.mem_map.mp ha
  exact ⟨b, hmem⟩

theorem exists_mem_zip_right {α β : Type} {as : List α} {bs : List β} (h : as.length = bs.length)
    {b : β} (hb : b ∈ bs) : ∃ a, (a, b) ∈ as.zip bs := by
  rw [← List.map_snd_zip h.ge] at hb
  obtain ⟨⟨a, b'⟩, hmem, rfl⟩ := List.mem_map.mp hb
  exact ⟨a, hmem⟩

/-- Names linked on both sides alike have the same tokens. -/
theorem token_eq_of_linksOf (hl : Sorted l) (hr : Sorted r) (hlen : l.all.length = r.all.length)
    (hpath : ∀ {e o}, (e, o) ∈ l.all.zip r.all → e.path = o.path)
    (hlinks : ∀ {e o}, (e, o) ∈ l.all.zip r.all → linksOf l e = linksOf r o)
    (h : (e, o) ∈ l.all.zip r.all) : e.token = o.token := by
  have hlen' : l.entries.length = r.entries.length := Nat.succ.inj hlen
  have hsub : ∀ {e o}, (e, o) ∈ l.entries.zip r.entries → (e, o) ∈ l.all.zip r.all :=
    fun h => List.mem_cons_of_mem _ h
  -- a token stands at a name and another exactly where the other is one of its links
  have htoken : ∀ {e f} {m : FileManifest}, Sorted m → e ∈ m.all → f ∈ m.all → e.token ≠ 0 →
      (f.token = e.token ↔ f.path = e.path ∨ f.path ∈ linksOf m e) := by
    intro e f m hm he hf hne
    constructor
    · intro heq
      by_cases hp : f.path = e.path
      · exact .inl hp
      · exact .inr ⟨f, hf, rfl, hp, hne, heq⟩
    · rintro (hp | ⟨f', hf', hp, -, -, heq⟩)
      · rw [hm.eq_of_path hf he hp]
      · rw [← hm.eq_of_path hf' hf hp, heq]
  have hzero : ∀ {e o}, (e, o) ∈ l.all.zip r.all → (e.token = 0 ↔ o.token = 0) := by
    intro e o h
    obtain ⟨he, ho⟩ := List.of_mem_zip h
    rw [← hl.linksOf_eq_empty he, hlinks h, hr.linksOf_eq_empty ho]
  have heq : (l.entries.zip r.entries).map (fun p => p.1.token) =
      (l.entries.zip r.entries).map fun p => p.2.token := by
    refine map_eq_of_numbered ?_ ?_ ?_ ?_
    · refine @numbered_of_map _ FileEntry.token _ Prod.fst _ ?_
      rw [List.map_fst_zip hlen'.le]
      exact hl.numbered
    · refine @numbered_of_map _ FileEntry.token _ Prod.snd _ ?_
      rw [List.map_snd_zip hlen'.ge]
      exact hr.numbered
    · exact fun p hp => hzero (hsub hp)
    · rintro ⟨e, o⟩ heo ⟨f, q⟩ hfq hne
      obtain ⟨he, ho⟩ := List.of_mem_zip (hsub heo)
      obtain ⟨hf, hq⟩ := List.of_mem_zip (hsub hfq)
      rw [htoken hl he hf hne, htoken hr ho hq (mt (hzero (hsub heo)).mpr hne), hpath (hsub heo),
        hpath (hsub hfq), hlinks (hsub heo)]
  rcases List.mem_cons.mp h with h | h
  · obtain ⟨rfl, rfl⟩ := Prod.mk.inj h
    rw [hl.root, hr.root]
  · exact List.map_inj_left.mp heq (e, o) h

theorem linksOf_subset (hpart : ∀ f ∈ l.all, ∃ f' ∈ r.all, f'.path = f.path ∧ f'.token = f.token)
    (hpath : e.path = o.path) (htoken : e.token = o.token) : linksOf l e ⊆ linksOf r o := by
  rintro p ⟨f, hf, rfl, hne, hzero, heq⟩
  obtain ⟨f', hf', hp, ht⟩ := hpart f hf
  exact ⟨f', hf', hp, hpath ▸ hne, htoken ▸ hzero, by rw [ht, heq, htoken]⟩

/-- Names with the same tokens are linked alike. -/
theorem linksOf_eq_of_token (hlen : l.all.length = r.all.length)
    (hpath : ∀ {e o}, (e, o) ∈ l.all.zip r.all → e.path = o.path)
    (htoken : ∀ {e o}, (e, o) ∈ l.all.zip r.all → e.token = o.token)
    (h : (e, o) ∈ l.all.zip r.all) : linksOf l e = linksOf r o := by
  refine Set.Subset.antisymm (linksOf_subset ?_ (hpath h) (htoken h))
    (linksOf_subset ?_ (hpath h).symm (htoken h).symm)
  · intro f hf
    obtain ⟨q, hq⟩ := exists_mem_zip_left hlen hf
    exact ⟨q, (List.of_mem_zip hq).2, (hpath hq).symm, (htoken hq).symm⟩
  · intro q hq
    obtain ⟨f, hf⟩ := exists_mem_zip_right hlen hq
    exact ⟨f, (List.of_mem_zip hf).1, hpath hf, htoken hf⟩

/-! ### The fields of a path -/

theorem mem_fieldAll (f : Field) : f ∈ Field.all := by cases f <;> decide

theorem nodup_asStr : (Field.all.map Field.asStr).Nodup := by
  decide +kernel

theorem asStr_injective : Function.Injective Field.asStr := by
  intro f g h
  have hinj := @List.inj_on_of_nodup_map _ _ Field.asStr Field.all nodup_asStr
  exact hinj (mem_fieldAll f) (mem_fieldAll g) h

theorem changedFields_eq (hl : Sorted l) (hr : Sorted r) :
    changedFields (groups l) (groups r) e o = exactFields l r e o := by
  classical
  have htable : differences (groups l) (groups r) e o =
      Field.all.map fun f => (f.asStr, decide (Differs l r e o f)) := by
    have hrow : ∀ (f : Field) {p : Prop} [Decidable p], (p ↔ Differs l r e o f) →
        (f.asStr, decide p) = (f.asStr, decide (Differs l r e o f)) :=
      fun f _ _ h => congrArg (Prod.mk f.asStr) (decide_eq_decide.mpr h)
    have hlinks := not_congr (@linkSiblings_eq_iff l r e o hl hr)
    have hcons : ∀ {a b : Str × Bool} {as bs : List (Str × Bool)}, a = b → as = bs →
        a :: as = b :: bs := fun h h' => congrArg₂ List.cons h h'
    exact hcons (hrow .type Iff.rfl) <| hcons (hrow .mode Iff.rfl) <| hcons (hrow .uid Iff.rfl) <|
      hcons (hrow .gid Iff.rfl) <| hcons (hrow .mtime Iff.rfl) <| hcons (hrow .size Iff.rfl) <|
      hcons (hrow .sha256 Iff.rfl) <| hcons (hrow .target Iff.rfl) <|
      hcons (hrow .device Iff.rfl) <| hcons (hrow .hardlinks hlinks) <|
      hcons (hrow .xattrs Iff.rfl) rfl
  rw [changedFields, htable, List.filter_map, List.map_map]
  exact congrArg (List.map Field.asStr) (List.filter_congr fun f _ => by simp)

theorem mem_exactFields {f : Field} : f.asStr ∈ exactFields l r e o ↔ Differs l r e o f := by
  classical
  rw [exactFields, List.mem_map_of_injective asStr_injective, List.mem_filter]
  simp [mem_fieldAll]

theorem exists_of_mem_exactFields {name : Str} (h : name ∈ exactFields l r e o) :
    ∃ f : Field, f.asStr = name ∧ Differs l r e o f := by
  obtain ⟨f, hf, rfl⟩ := List.mem_map.mp h
  exact ⟨f, rfl, by simpa using (List.mem_filter.mp hf).2⟩

theorem mem_PER_IMAGE_FIELDS {f : Field} :
    f.asStr ∈ PER_IMAGE_FIELDS ↔ f = .mtime ∨ f = .size ∨ f = .sha256 := by
  cases f <;> decide +kernel

/-- What two entries of one path may differ in where they are the same but for what is set aside. -/
theorem setAside_eq_iff {aside : Str → Bool} (hpath : e.path = o.path)
    (htoken : e.token = o.token) (hlinks : linksOf l e = linksOf r o) :
    e.setAside aside = o.setAside aside ↔
      ∀ f, Differs l r e o f → aside e.path = true ∧ f.asStr ∈ PER_IMAGE_FIELDS := by
  have hfields : ∀ f, Differs l r e o f → f ≠ .hardlinks := by
    rintro f hf rfl
    exact hf hlinks
  obtain ⟨name, fileType, mode, uid, gid, mtimeNsec, size, sha256, target, device, token, xattrs⟩ := e
  obtain ⟨name', fileType', mode', uid', gid', mtimeNsec', size', sha256', target', device', token',
    xattrs'⟩ := o
  obtain rfl : name = name' := path_injective.mp hpath
  obtain rfl : token = token' := token_eq_iff.mp htoken
  have hall : (∀ f, Differs l r ⟨name, fileType, mode, uid, gid, mtimeNsec, size, sha256, target,
      device, token, xattrs⟩ ⟨name, fileType', mode', uid', gid', mtimeNsec', size', sha256',
      target', device', token, xattrs'⟩ f → aside ('/' :: name) = true ∧
        f.asStr ∈ PER_IMAGE_FIELDS) ↔
      fileType = fileType' ∧ mode = mode' ∧ uid = uid' ∧ gid = gid' ∧ target = target' ∧
        device = device' ∧ xattrs = xattrs' ∧
        (aside ('/' :: name) = true ∨ mtimeNsec = mtimeNsec' ∧ size = size' ∧ sha256 = sha256') := by
    constructor
    · intro h
      have hsame : ∀ f, ¬(f = .mtime ∨ f = .size ∨ f = .sha256) → ¬Differs _ _ _ _ f :=
        fun f hf hd => hf (mem_PER_IMAGE_FIELDS.mp (h f hd).2)
      refine ⟨not_not.mp (hsame .type (by simp)), not_not.mp (hsame .mode (by simp)),
        not_not.mp (hsame .uid (by simp)), not_not.mp (hsame .gid (by simp)),
        not_not.mp (hsame .target (by simp)), not_not.mp (hsame .device (by simp)),
        not_not.mp (hsame .xattrs (by simp)), ?_⟩
      by_cases haside : aside ('/' :: name) = true
      · exact .inl haside
      · exact .inr ⟨not_not.mp fun hd => haside (h .mtime hd).1,
          not_not.mp fun hd => haside (h .size hd).1, not_not.mp fun hd => haside (h .sha256 hd).1⟩
    · rintro ⟨rfl, rfl, rfl, rfl, rfl, rfl, rfl, hor⟩ f hd
      have hcontent : f = .mtime ∨ f = .size ∨ f = .sha256 := by
        cases f with
        | mtime => exact .inl rfl
        | size => exact .inr (.inl rfl)
        | sha256 => exact .inr (.inr rfl)
        | hardlinks => exact absurd hlinks hd
        | _ => exact absurd rfl hd
      refine ⟨hor.resolve_right ?_, mem_PER_IMAGE_FIELDS.mpr hcontent⟩
      rintro ⟨rfl, rfl, rfl⟩
      rcases hcontent with rfl | rfl | rfl <;> exact hd rfl
  refine Iff.trans ?_ hall.symm
  unfold FileEntry.setAside
  cases haside : aside ('/' :: name) with
  | true => simp [FileEntry.path, haside]
  | false =>
    simp only [FileEntry.path, haside, Bool.false_eq_true, if_false, FileEntry.mk.injEq, true_and,
      false_or]
    tauto

/-! ### The comparison -/

theorem mem_added (hl : Sorted l) {p : Str} : p ∈ (l.compare r).added ↔
    p ∈ r.all.map FileEntry.path ∧ p ∉ l.all.map FileEntry.path := by
  unfold FileManifest.compare
  rw [List.mem_filter, Bool.not_eq_true', ← Bool.not_eq_true, hl.contains_byPath]

theorem added_eq_removed : (l.compare r).added = (r.compare l).removed := by
  unfold FileManifest.compare
  rw [List.filter_map]
  rfl

theorem mem_changed (hl : Sorted l) (hr : Sorted r) {path : Str} {fields : List Str} :
    ⟨path, fields⟩ ∈ (l.compare r).changed ↔ fields ≠ [] ∧ ∃ e ∈ l.all, ∃ o ∈ r.all,
      e.path = path ∧ o.path = path ∧ fields = exactFields l r e o := by
  unfold FileManifest.compare
  simp only [List.mem_filterMap]
  constructor
  · rintro ⟨e, he, hrow⟩
    split at hrow
    · cases hrow
    · rename_i o ho
      rw [hr.getElem?_byPath] at ho
      obtain ⟨hmem, hpath⟩ := mem_of_firstWith ho
      split_ifs at hrow with hempty
      obtain ⟨rfl, rfl⟩ := ChangedFile.mk.inj (Option.some.inj hrow)
      exact ⟨fun h => hempty (List.isEmpty_iff.mpr h), e, he, o, hmem, rfl, hpath,
        changedFields_eq hl hr⟩
  · rintro ⟨hne, e, he, o, ho, rfl, hpath, rfl⟩
    have hsome := hr.byPath_eq_some ho
    rw [hpath] at hsome
    refine ⟨e, he, ?_⟩
    simp only [hsome, changedFields_eq hl hr, List.isEmpty_iff, if_neg hne]

theorem setAside_path (aside : Str → Bool) (e : FileEntry) : (e.setAside aside).path = e.path := by
  unfold FileEntry.setAside
  split_ifs <;> rfl

theorem setAside_token (aside : Str → Bool) (e : FileEntry) :
    (e.setAside aside).token = e.token := by
  unfold FileEntry.setAside
  split_ifs <;> rfl

/-- Nothing is left of a comparison but content set aside where the manifests agree on the rest. -/
theorem rest_empty_iff (hl : Sorted l) (hr : Sorted r) (aside : Str → Bool) :
    ((l.compare r).added = [] ∧ (l.compare r).removed = [] ∧ ∀ c ∈ (l.compare r).changed,
      aside c.path = true ∧ ∀ f ∈ c.fields, f ∈ PER_IMAGE_FIELDS) ↔
      l.all.map (FileEntry.setAside aside) = r.all.map (FileEntry.setAside aside) := by
  constructor
  · rintro ⟨hadded, hremoved, hchanged⟩
    have hpaths : l.all.map FileEntry.path = r.all.map FileEntry.path := by
      refine eq_of_rising hl.rise hr.rise fun p => ⟨fun hp => ?_, fun hp => ?_⟩
      · by_contra hnot
        have hmem := (mem_added hr).mpr ⟨hp, hnot⟩
        rw [added_eq_removed, hremoved] at hmem
        cases hmem
      · by_contra hnot
        have hmem := (mem_added hl).mpr ⟨hp, hnot⟩
        rw [hadded] at hmem
        cases hmem
    obtain ⟨hlen, hpath⟩ := map_eq_iff_zip.mp hpaths
    have hdiffers : ∀ {e o}, (e, o) ∈ l.all.zip r.all → ∀ f, Differs l r e o f →
        aside e.path = true ∧ f.asStr ∈ PER_IMAGE_FIELDS := by
      intro e o h f hf
      obtain ⟨he, ho⟩ := List.of_mem_zip h
      have hmem := mem_exactFields.mpr hf
      obtain ⟨haside, hall⟩ := hchanged ⟨e.path, exactFields l r e o⟩ ((mem_changed hl hr).mpr
        ⟨List.ne_nil_of_mem hmem, e, he, o, ho, rfl, (hpath h).symm, rfl⟩)
      exact ⟨haside, hall _ hmem⟩
    have hlinks : ∀ {e o}, (e, o) ∈ l.all.zip r.all → linksOf l e = linksOf r o := by
      intro e o h
      by_contra hne
      exact absurd (mem_PER_IMAGE_FIELDS.mp (hdiffers h .hardlinks hne).2) (by simp)
    refine map_eq_iff_zip.mpr ⟨hlen, fun h => ?_⟩
    exact (setAside_eq_iff (hpath h) (token_eq_of_linksOf hl hr hlen hpath hlinks h) (hlinks h)).mpr
      (hdiffers h)
  · intro h
    obtain ⟨hlen, hsame⟩ := map_eq_iff_zip.mp h
    have hpath : ∀ {e o}, (e, o) ∈ l.all.zip r.all → e.path = o.path := by
      intro e o h
      rw [← setAside_path aside e, hsame h, setAside_path]
    have htoken : ∀ {e o}, (e, o) ∈ l.all.zip r.all → e.token = o.token := by
      intro e o h
      rw [← setAside_token aside e, hsame h, setAside_token]
    have hpaths : l.all.map FileEntry.path = r.all.map FileEntry.path :=
      map_eq_iff_zip.mpr ⟨hlen, hpath⟩
    refine ⟨?_, ?_, ?_⟩
    · refine List.eq_nil_iff_forall_not_mem.mpr fun p hp => ?_
      obtain ⟨hmem, hnot⟩ := (mem_added hl).mp hp
      exact hnot (hpaths ▸ hmem)
    · refine List.eq_nil_iff_forall_not_mem.mpr fun p hp => ?_
      rw [← added_eq_removed] at hp
      obtain ⟨hmem, hnot⟩ := (mem_added hr).mp hp
      exact hnot (hpaths ▸ hmem)
    · rintro ⟨path, fields⟩ hc
      obtain ⟨-, e, he, o, ho, rfl, hpo, rfl⟩ := (mem_changed hl hr).mp hc
      obtain ⟨o', hzip⟩ := exists_mem_zip_left hlen he
      obtain rfl : o' = o :=
        hr.eq_of_path (List.of_mem_zip hzip).2 ho ((hpath hzip).symm.trans hpo.symm)
      have hall := (setAside_eq_iff (hpath hzip) (htoken hzip)
        (linksOf_eq_of_token hlen hpath htoken hzip)).mp (hsame hzip)
      have hne := ((mem_changed hl hr).mp hc).1
      obtain ⟨name, hname⟩ := List.exists_mem_of_ne_nil _ hne
      obtain ⟨f, -, hf⟩ := exists_of_mem_exactFields hname
      refine ⟨(hall f hf).1, fun name hname => ?_⟩
      obtain ⟨g, rfl, hg⟩ := exists_of_mem_exactFields hname
      exact (hall g hg).2

theorem isEmpty_iff {d : FilesDiff} :
    d.isEmpty = true ↔ d.added = [] ∧ d.removed = [] ∧ d.changed = [] := by
  simp [FilesDiff.isEmpty, and_assoc]

theorem isEmpty_withoutPerImage_iff {d : FilesDiff} : d.withoutPerImage.1.isEmpty = true ↔
    d.added = [] ∧ d.removed = [] ∧ ∀ c ∈ d.changed, PER_IMAGE_PATHS.contains c.path = true ∧
      ∀ f ∈ c.fields, f ∈ PER_IMAGE_FIELDS := by
  rw [isEmpty_iff]
  refine and_congr Iff.rfl (and_congr Iff.rfl ?_)
  show (d.changed.map ChangedFile.kept).filter _ = [] ↔ _
  rw [List.filter_eq_nil_iff, List.forall_mem_map]
  refine forall₂_congr fun c _ => ?_
  unfold ChangedFile.kept
  cases hper : PER_IMAGE_PATHS.contains c.path with
  | true =>
    have hmem : c.path ∈ PER_IMAGE_PATHS := List.contains_iff_mem.mp hper
    simp [hmem]
  | false =>
    have hnot : c.path ∉ PER_IMAGE_PATHS := fun h => by simp [h] at hper
    simp [hnot]

end Paths

/-- The comparison of assembled manifests is exact, and so is what is left of it without the
per-image content. -/
theorem compare_exact {l r : FileManifest} (hl : Assembled l) (hr : Assembled r) :
    ((l.compare r).isEmpty = true ↔ l = r) ∧
      (∀ p, p ∈ (l.compare r).added ↔
        p ∈ r.all.map FileEntry.path ∧ p ∉ l.all.map FileEntry.path) ∧
      (l.compare r).added = (r.compare l).removed ∧
      (∀ path fields, ⟨path, fields⟩ ∈ (l.compare r).changed ↔ fields ≠ [] ∧ ∃ e ∈ l.all,
        ∃ o ∈ r.all, e.path = path ∧ o.path = path ∧ fields = exactFields l r e o) ∧
      ((l.compare r).withoutPerImage.1.isEmpty = true ↔
        l.all.map (FileEntry.setAside PER_IMAGE_PATHS.contains) =
          r.all.map (FileEntry.setAside PER_IMAGE_PATHS.contains)) := by
  have hl := hl.sorted
  have hr := hr.sorted
  refine ⟨?empty, fun p => mem_added hl, added_eq_removed, fun path fields => mem_changed hl hr,
    isEmpty_withoutPerImage_iff.trans (rest_empty_iff hl hr _)⟩
  case empty =>
    have hid : FileEntry.setAside (fun _ => false) = id := funext fun e => if_neg Bool.false_ne_true
    have hrest := rest_empty_iff hl hr fun _ => false
    rw [hid, List.map_id, List.map_id] at hrest
    rw [isEmpty_iff]
    constructor
    · rintro ⟨hadded, hremoved, hchanged⟩
      have hall := hrest.mp ⟨hadded, hremoved, by simp [hchanged]⟩
      obtain ⟨hroot, hentries⟩ := List.cons.inj hall
      cases l
      cases r
      exact congrArg₂ FileManifest.mk hroot hentries
    · rintro rfl
      obtain ⟨hadded, hremoved, hchanged⟩ := hrest.mpr rfl
      refine ⟨hadded, hremoved, List.eq_nil_iff_forall_not_mem.mpr fun c hc => ?_⟩
      exact Bool.false_ne_true (hchanged c hc).1

/-- Two names of one file, and the first of them on its own. -/
def linkedNames : List WalkedEntry := [⟨plain ['a'] .reg, 1⟩, ⟨plain ['b'] .reg, 1⟩]

theorem compare_exact_linked : ∃ l r, assemble (plain [] .dir) linkedNames = .ok l ∧
    assemble (plain [] .dir) (linkedNames.take 1) = .ok r ∧
    ((l.compare r).isEmpty = true ↔ l = r) :=
  ⟨_, _, rfl, rfl, (compare_exact ⟨plain [] .dir, linkedNames, rfl⟩
    ⟨plain [] .dir, linkedNames.take 1, rfl⟩).1⟩

end Boot2Deb.Core.Files
