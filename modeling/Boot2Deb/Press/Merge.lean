import Boot2Deb.Press.Additions

/-!
# What a press merges

`Placed` says what the tree is while additions are placed, and `apply_eq_ok` what `apply` returns:
the image with its identity document rewritten and the additions over it, and behind it the new
directories and files. The result is a tree of the image's entries and the additions exactly if no
addition lies below another, and no hard link of the image loses the file it names.
-/

namespace Boot2Deb.Press
open Rust Image Std

variable {Rest : Type} {out : Outside Rest} {a b : TreeAdditions} {image r : List SourceEntry}
  {files done : List AddedFile} {facts : ImageFacts} {time : Timestamp} {st st' : Merge}
  {f g : AddedFile} {e : SourceEntry} {p : Bytes} {i : ℕ}

/-! ### The index and the sorted additions -/

theorem getElem?_pathIndex (hn : (image.map SourceEntry.path).Nodup) :
    (pathIndex image)[p]? = some i ↔ ∃ e, image[i]? = some e ∧ e.path = p := by
  have hkeys : (image.zipIdx.reverse.map fun e => e.1.path).Nodup := by
    rw [List.map_reverse, List.nodup_reverse]
    have hfst : image.zipIdx.map (fun e => e.1.path) =
        (image.zipIdx.map Prod.fst).map SourceEntry.path := by
      rw [List.map_map]
      rfl
    rwa [hfst, List.zipIdx_map_fst]
  unfold pathIndex
  rw [getElem?_foldl_insert_map, ExtTreeMap.getElem?_empty, Option.or_none, Option.map_eq_some_iff]
  simp only [firstWith_eq_some_iff hkeys, List.mem_reverse, List.mem_zipIdx_iff_getElem?]
  constructor
  · rintro ⟨⟨e, j⟩, ⟨hget, hpath⟩, rfl⟩
    exact ⟨e, hget, hpath⟩
  · rintro ⟨e, hget, hpath⟩
    exact ⟨(e, i), ⟨hget, hpath⟩, rfl⟩

theorem getElem?_pathIndex_eq_none : (pathIndex image)[p]? = none ↔ ∀ e ∈ image, e.path ≠ p := by
  unfold pathIndex
  rw [getElem?_foldl_insert_map, ExtTreeMap.getElem?_empty, Option.or_none, Option.map_eq_none_iff,
    firstWith_eq_none]
  constructor
  · intro h e he
    obtain ⟨i, hi⟩ := List.mem_iff_getElem?.mp he
    exact h (e, i) (List.mem_reverse.mpr (List.mem_zipIdx_iff_getElem?.mpr hi))
  · intro h x hx
    exact h x.1 (List.fst_mem_of_mem_zipIdx (List.mem_reverse.mp hx))

/-- Of sorted additions neighbours differ exactly if all do. -/
theorem claimOnce_eq_ok (hs : files.Pairwise fun f g => OrdLe f.dest g.dest) :
    claimOnce files = .ok () ↔ (files.map AddedFile.dest).Nodup := by
  induction files with
  | nil => simp [claimOnce]
  | cons f files ih =>
    obtain ⟨hf, hrest⟩ := List.pairwise_cons.mp hs
    cases files with
    | nil => simp [claimOnce]
    | cons g files =>
      unfold claimOnce
      rw [List.map_cons, List.nodup_cons, ← ih hrest]
      split_ifs with hfg
      · simp [hfg]
      · refine ⟨fun h => ⟨fun hmem => ?_, h⟩, And.right⟩
        obtain ⟨g', hg', heq⟩ := List.mem_map.mp hmem
        have hle : OrdLe g.dest g'.dest := by
          rcases List.mem_cons.mp hg' with rfl | hg'
          · exact Std.Refl.refl _
          · exact (List.pairwise_cons.mp hrest).1 g' hg'
        rw [heq] at hle
        exact hfg (Std.Antisymm.antisymm _ _ (hf g List.mem_cons_self) hle)

/-- What `claimOnce` answers depends on the destinations only. -/
theorem claimOnce_congr {files files' : List AddedFile}
    (h : files.map AddedFile.dest = files'.map AddedFile.dest) : claimOnce files = claimOnce files' := by
  induction files generalizing files' with
  | nil =>
    cases files' with
    | nil => rfl
    | cons => cases h
  | cons f files ih =>
    cases files' with
    | nil => cases h
    | cons f' files' =>
      obtain ⟨hf, hrest⟩ := List.cons.inj h
      cases files with
      | nil =>
        cases files' with
        | nil => rfl
        | cons => cases hrest
      | cons g files =>
        cases files' with
        | nil => cases hrest
        | cons g' files' =>
          have hg : g.dest = g'.dest := (List.cons.inj hrest).1
          have hf : f.dest = f'.dest := hf
          rw [claimOnce, claimOnce, hf, hg, ih hrest]

/-! ### Placing -/

/-- An entry of the image once the additions are placed over it. -/
def overlay (facts : ImageFacts) (time : Timestamp) (files : List AddedFile) (e : SourceEntry) :
    SourceEntry :=
  ((firstWith AddedFile.dest files e.path).map fun f => f.entry facts time).getD e

@[simp] theorem overlay_path : (overlay facts time files e).path = e.path := by
  unfold overlay
  cases h : firstWith AddedFile.dest files e.path with
  | none => rfl
  | some f => exact (mem_of_firstWith h).2

theorem overlay_eq_self (h : ∀ f ∈ files, f.dest ≠ e.path) : overlay facts time files e = e := by
  unfold overlay
  rw [firstWith_eq_none.mpr h]
  rfl

theorem overlay_of_mem (hn : (files.map AddedFile.dest).Nodup) (hf : f ∈ files)
    (h : f.dest = e.path) : overlay facts time files e = f.entry facts time := by
  unfold overlay
  rw [(firstWith_eq_some_iff hn).mpr ⟨hf, h⟩]
  rfl

theorem entry_isDirectory : (f.entry facts time).kind.isDirectory = false := by
  unfold AddedFile.entry AddedFile.kind
  cases f.content <;> rfl

/-- No addition is a directory, so what is one over the additions was one before. -/
theorem overlay_of_isDirectory (h : (overlay facts time files e).kind.isDirectory = true) :
    overlay facts time files e = e := by
  unfold overlay at h ⊢
  cases hf : firstWith AddedFile.dest files e.path with
  | none => rfl
  | some f =>
    rw [hf, Option.map_some, Option.getD_some, entry_isDirectory] at h
    cases h

/-- The additions of `done` are placed. -/
structure Placed (image : List SourceEntry) (facts : ImageFacts) (time : Timestamp)
    (done : List AddedFile) (st : Merge) : Prop where
  entries : st.entries = image.map (overlay facts time done)
  appended : st.appended.Perm (st.plannedDirs.map (parentEntry time) ++
    (done.filter fun f => f.dest ∉ image.map SourceEntry.path).map fun f => f.entry facts time)
  nodup : st.plannedDirs.Nodup
  planned : ∀ p ∈ st.plannedDirs, p ∉ image.map SourceEntry.path ∧
    ∃ f ∈ done, f.dest ∉ image.map SourceEntry.path ∧ p ∈ ancestors f.dest
  parents : ∀ f ∈ done, f.dest ∉ image.map SourceEntry.path → ∀ p ∈ ancestors f.dest,
    p ∈ st.plannedDirs ∨ ∃ e ∈ image, e.path = p ∧ e.kind.isDirectory = true
  replaced : ∀ f ∈ done, ∀ e ∈ image, e.path = f.dest → e.kind.isDirectory = false

/-- What making sure of one parent does. -/
theorem placeParent_cases {index : ExtTreeMap Bytes ℕ} {dest : Bytes}
    (h : placeParent index time dest st p = .ok st') :
    (st' = st ∧ ((index[p]? = none ∧ p ∈ st.plannedDirs) ∨
      ∃ (i : ℕ) (e : SourceEntry), index[p]? = some i ∧ st.entries[i]? = some e ∧ e.kind.isDirectory = true)) ∨
    (index[p]? = none ∧ p ∉ st.plannedDirs ∧ st' = { st with
      plannedDirs := st.plannedDirs ++ [p]
      appended := st.appended ++ [parentEntry time p] }) := by
  unfold placeParent at h
  split at h
  · rename_i i hi
    split at h
    · rename_i e he
      split_ifs at h with hdir
      exact .inl ⟨(Outcome.ok.inj h).symm, .inr ⟨i, e, hi, he, hdir⟩⟩
    · cases h
  · rename_i hnone
    split_ifs at h with hp
    · exact .inl ⟨(Outcome.ok.inj h).symm, .inl ⟨hnone, hp⟩⟩
    · exact .inr ⟨hnone, hp, (Outcome.ok.inj h).symm⟩

/-- Making sure of several parents adds those that were neither in the image nor planned. -/
theorem placeParents {index : ExtTreeMap Bytes ℕ} {dest : Bytes} {ps : List Bytes}
    (h : ps.foldlM (placeParent index time dest) st = .ok st') :
    st'.entries = st.entries ∧ ∃ made : List Bytes,
      st'.plannedDirs = st.plannedDirs ++ made ∧
      st'.appended = st.appended ++ made.map (parentEntry time) ∧
      (st.plannedDirs.Nodup → st'.plannedDirs.Nodup) ∧
      (∀ p ∈ made, p ∈ ps ∧ index[p]? = none) ∧
      ∀ p ∈ ps, (index[p]? = none ∧ p ∈ st'.plannedDirs) ∨
        ∃ (i : ℕ) (e : SourceEntry), index[p]? = some i ∧ st.entries[i]? = some e ∧ e.kind.isDirectory = true := by
  induction ps generalizing st with
  | nil =>
    obtain rfl := Outcome.ok.inj h
    exact ⟨rfl, [], by simp, by simp, id, by simp, by simp⟩
  | cons p ps ih =>
    rw [List.foldlM_cons] at h
    obtain ⟨st₁, h₁, h⟩ := Outcome.bind_eq_ok.mp h
    obtain ⟨hentries, made, hplanned, happended, hnodup, hmade, hps⟩ := ih h
    rcases placeParent_cases h₁ with ⟨rfl, hp⟩ | ⟨hnone, hp, rfl⟩
    · refine ⟨hentries, made, hplanned, happended, hnodup, ?_, ?_⟩
      · intro q hq
        exact ⟨List.mem_cons_of_mem _ (hmade q hq).1, (hmade q hq).2⟩
      · refine List.forall_mem_cons.mpr ⟨?_, hps⟩
        rcases hp with ⟨hnone, hmem⟩ | hdir
        · exact .inl ⟨hnone, by rw [hplanned]; exact List.mem_append_left _ hmem⟩
        · exact .inr hdir
    · refine ⟨hentries, p :: made, ?_, ?_, ?_, ?_, ?_⟩
      · rw [hplanned]
        simp
      · rw [happended]
        simp
      · intro hn
        refine hnodup (List.nodup_append'.mpr ⟨hn, List.nodup_singleton p, ?_⟩)
        exact List.disjoint_singleton.mpr hp
      · refine List.forall_mem_cons.mpr ⟨⟨List.mem_cons_self, hnone⟩, fun q hq => ?_⟩
        exact ⟨List.mem_cons_of_mem _ (hmade q hq).1, (hmade q hq).2⟩
      · refine List.forall_mem_cons.mpr ⟨.inl ⟨hnone, ?_⟩, hps⟩
        rw [hplanned]
        simp

theorem overlay_concat_ne (h : f.dest ≠ e.path) :
    overlay facts time (done ++ [f]) e = overlay facts time done e := by
  have hf : firstWith AddedFile.dest [f] e.path = none := firstWith_eq_none.mpr (by simpa using h)
  unfold overlay
  rw [firstWith_append, hf, Option.or_none]

theorem overlay_concat_self (hf : f.dest ∉ done.map AddedFile.dest) (h : f.dest = e.path) :
    overlay facts time (done ++ [f]) e = f.entry facts time := by
  have hdone : firstWith AddedFile.dest done e.path = none :=
    firstWith_eq_none.mpr fun g hg he => hf (List.mem_map.mpr ⟨g, hg, he.trans h.symm⟩)
  unfold overlay
  rw [firstWith_append, hdone, Option.none_or]
  simp [firstWith, h]

/-- Setting the entry of one path is placing the addition over it. -/
theorem set_overlay (hn : (image.map SourceEntry.path).Nodup) (hi : image[i]? = some e)
    (hpath : e.path = f.dest) (hf : f.dest ∉ done.map AddedFile.dest) :
    (image.map (overlay facts time done)).set i (f.entry facts time) =
      image.map (overlay facts time (done ++ [f])) := by
  obtain ⟨hlt, hget⟩ := List.getElem?_eq_some_iff.mp hi
  refine List.ext_getElem (by simp) fun j hj _ => ?_
  have hjlt : j < image.length := by simpa using hj
  rw [List.getElem_set, List.getElem_map]
  split_ifs with hij
  · subst hij
    rw [List.getElem_map, hget, overlay_concat_self hf hpath.symm]
  · rw [List.getElem_map, overlay_concat_ne]
    intro he
    have hmi : i < (image.map SourceEntry.path).length := by simpa using hlt
    have hmj : j < (image.map SourceEntry.path).length := by simpa using hjlt
    have hpaths : (image.map SourceEntry.path)[i] = (image.map SourceEntry.path)[j] := by
      rw [List.getElem_map, List.getElem_map, hget, hpath, he]
    exact hij ((List.Nodup.getElem_inj_iff hn).mp hpaths)

/-- Placing one more addition. -/
theorem Placed.step (hn : (image.map SourceEntry.path).Nodup) (h : Placed image facts time done st)
    (hf : f.dest ∉ done.map AddedFile.dest) (hok : place (pathIndex image) facts time st f = .ok st') :
    Placed image facts time (done ++ [f]) st' := by
  unfold place at hok
  split at hok
  · rename_i i hi
    obtain ⟨e, he, hpath⟩ := (getElem?_pathIndex hn).mp hi
    have hmem : f.dest ∈ image.map SourceEntry.path :=
      List.mem_map.mpr ⟨e, List.mem_of_getElem? he, hpath⟩
    have hget : st.entries[i]? = some e := by
      rw [h.entries, List.getElem?_map, he, Option.map_some,
        overlay_eq_self fun g hg hge => hf (List.mem_map.mpr ⟨g, hg, hge.trans hpath⟩)]
    rw [hget] at hok
    simp only at hok
    split_ifs at hok with hdir
    obtain rfl := Outcome.ok.inj hok
    refine ⟨?entries, ?appended, h.nodup, ?planned, ?parents, ?replaced⟩
    case entries => rw [h.entries, set_overlay hn he hpath hf]
    case appended =>
      rw [List.filter_append, List.filter_cons_of_neg (by simpa using hmem), List.filter_nil,
        List.append_nil]
      exact h.appended
    case planned =>
      intro p hp
      obtain ⟨hfresh, g, hg, hrest⟩ := h.planned p hp
      exact ⟨hfresh, g, List.mem_append_left _ hg, hrest⟩
    case parents =>
      intro g hg hnew p hp
      rcases List.mem_append.mp hg with hg | hg
      · exact h.parents g hg hnew p hp
      · rw [List.mem_singleton.mp hg] at hnew
        exact absurd hmem hnew
    case replaced =>
      intro g hg e' he' hpath'
      rcases List.mem_append.mp hg with hg | hg
      · exact h.replaced g hg e' he' hpath'
      · rw [List.mem_singleton.mp hg, ← hpath] at hpath'
        rw [List.inj_on_of_nodup_map hn he' (List.mem_of_getElem? he) hpath']
        simpa using hdir
  · rename_i hnone
    have hnew : f.dest ∉ image.map SourceEntry.path := fun hmem => by
      obtain ⟨e, he, hpath⟩ := List.mem_map.mp hmem
      exact getElem?_pathIndex_eq_none.mp hnone e he hpath
    obtain ⟨st₁, h₁, hok⟩ := Outcome.bind_eq_ok.mp hok
    obtain rfl := Outcome.ok.inj hok
    obtain ⟨hentries, made, hplanned, happended, hnodup, hmade, hps⟩ := placeParents h₁
    refine ⟨?entries, ?appended, hnodup h.nodup, ?planned, ?parents, ?replaced⟩
    case entries =>
      show st₁.entries = _
      rw [hentries, h.entries]
      refine List.map_congr_left fun e he => (overlay_concat_ne fun hpath => ?_).symm
      exact hnew (List.mem_map.mpr ⟨e, he, hpath.symm⟩)
    case appended =>
      show (st₁.appended ++ [_]).Perm (st₁.plannedDirs.map _ ++ _)
      rw [happended, hplanned, List.filter_append, List.filter_cons_of_pos (by simpa using hnew),
        List.filter_nil, List.map_append, List.map_append, List.map_singleton, List.append_assoc,
        List.append_assoc]
      refine ((h.appended.append_right _).trans ?_)
      rw [List.append_assoc]
      refine List.Perm.append_left _ ?_
      rw [← List.append_assoc, ← List.append_assoc]
      exact List.perm_append_comm.append_right _
    case planned =>
      intro p hp
      rw [hplanned] at hp
      rcases List.mem_append.mp hp with hp | hp
      · obtain ⟨hfresh, g, hg, hrest⟩ := h.planned p hp
        exact ⟨hfresh, g, List.mem_append_left _ hg, hrest⟩
      · obtain ⟨hanc, hpnone⟩ := hmade p hp
        refine ⟨fun hmem => ?_, f, by simp, hnew, hanc⟩
        obtain ⟨e, he, hpath⟩ := List.mem_map.mp hmem
        exact getElem?_pathIndex_eq_none.mp hpnone e he hpath
    case parents =>
      intro g hg hgnew p hp
      rcases List.mem_append.mp hg with hg | hg
      · rcases h.parents g hg hgnew p hp with hplan | hdir
        · exact .inl (by rw [hplanned]; exact List.mem_append_left _ hplan)
        · exact .inr hdir
      · rw [List.mem_singleton.mp hg] at hp
        rcases hps p hp with ⟨-, hplan⟩ | ⟨i, e, hi, he, hdir⟩
        · exact .inl hplan
        · obtain ⟨e₀, he₀, hpath⟩ := (getElem?_pathIndex hn).mp hi
          rw [h.entries, List.getElem?_map, he₀] at he
          obtain rfl := Option.some.inj he
          rw [overlay_of_isDirectory hdir] at hdir
          exact .inr ⟨e₀, List.mem_of_getElem? he₀, hpath, hdir⟩
    case replaced =>
      intro g hg e he hpath
      rcases List.mem_append.mp hg with hg | hg
      · exact h.replaced g hg e he hpath
      · rw [List.mem_singleton.mp hg] at hpath
        exact absurd (List.mem_map.mpr ⟨e, he, hpath⟩) hnew

/-- Placing all of them. -/
theorem Placed.run (hn : (image.map SourceEntry.path).Nodup) (h : Placed image facts time done st)
    (hf : ((done ++ files).map AddedFile.dest).Nodup)
    (hok : files.foldlM (place (pathIndex image) facts time) st = .ok st') :
    Placed image facts time (done ++ files) st' := by
  induction files generalizing done st with
  | nil =>
    obtain rfl := Outcome.ok.inj hok
    rwa [List.append_nil]
  | cons f files ih =>
    rw [List.foldlM_cons] at hok
    obtain ⟨st₁, h₁, hok⟩ := Outcome.bind_eq_ok.mp hok
    have hfresh : f.dest ∉ done.map AddedFile.dest := fun hmem => by
      rw [List.map_append, List.nodup_append'] at hf
      exact hf.2.2 hmem (by simp)
    rw [List.append_cons] at hf ⊢
    exact ih (h.step hn hfresh h₁) hf hok

theorem placed_nil : Placed image facts time [] ⟨image, [], []⟩ where
  entries := by
    have hid : overlay facts time [] = id := rfl
    rw [hid, List.map_id]
  appended := by simp
  nodup := List.nodup_nil
  planned := by simp
  parents := by simp
  replaced := by simp

/-! ### The merged tree -/

/-- The identity document with other bytes, where the entry is that document. -/
def mark (doc : Bytes) (e : SourceEntry) : SourceEntry :=
  if e.path = asBytes IMAGE_TOML then { e with kind := .file (.owned doc) } else e

/-- The image with its identity document rewritten. -/
abbrev marked (doc : Bytes) (image : List SourceEntry) : List SourceEntry := image.map (mark doc)

variable {doc : Bytes}

@[simp] theorem mark_path : (mark doc e).path = e.path := by
  unfold mark
  split_ifs <;> rfl

theorem map_path_marked : (marked doc image).map SourceEntry.path = image.map SourceEntry.path := by
  rw [List.map_map]
  exact List.map_congr_left fun _ _ => mark_path

theorem overlay_mark : overlay facts time files (mark doc e) = mark doc (overlay facts time files e) := by
  by_cases he : e.path = asBytes IMAGE_TOML
  · rw [overlay_eq_self (e := e) fun f _ h => dest_ne_imageToml f (h.trans he),
      overlay_eq_self fun f _ h => dest_ne_imageToml f (h.trans (mark_path.trans he))]
  · have hmark : ∀ e : SourceEntry, e.path ≠ asBytes IMAGE_TOML → mark doc e = e :=
      fun _ he => if_neg he
    rw [hmark e he, hmark _ (overlay_path.trans_ne he)]

/-- The identity document is a regular file of the image. -/
theorem readIdentity_eq_ok {identity : SystemIdentity Rest}
    (h : readIdentity out image = .ok (identity, time)) :
    ∃ e ∈ image, e.path = asBytes IMAGE_TOML ∧ e.kind.isDirectory = false := by
  unfold readIdentity at h
  split at h
  · cases h
  · rename_i e he
    refine ⟨e, List.mem_of_find?_eq_some he, by simpa using List.find?_some he, ?_⟩
    cases hk : e.kind with
    | directory =>
      rw [hk] at h
      cases h
    | _ => rfl

theorem writeMarker_eq_ok {identity : SystemIdentity Rest} {entries appended : List SourceEntry}
    (hn : (entries.map SourceEntry.path).Nodup)
    (hmem : asBytes IMAGE_TOML ∈ entries.map SourceEntry.path) :
    a.writeMarker out (entries ++ appended) identity = .ok r ↔
      ∃ toml, out.toTomlString { identity with pressed := some a.pressed } = .ok toml ∧
        r = marked (asBytes toml) entries ++ appended := by
  obtain ⟨i, hi⟩ : ∃ i, (entries ++ appended).findIdx? (fun e => e.path = asBytes IMAGE_TOML) =
      some i := by
    obtain ⟨e, he, hpath⟩ := List.mem_map.mp hmem
    refine Option.ne_none_iff_exists'.mp fun hnone => ?_
    simpa [hpath] using List.findIdx?_eq_none_iff.mp hnone e (List.mem_append_left _ he)
  unfold TreeAdditions.writeMarker
  rw [hi]
  simp only [Outcome.bind_eq_ok, Outcome.mapErr_eq_ok, Outcome.ok.injEq]
  refine exists_congr fun toml => and_congr_right fun _ => ?_
  rw [modify_findIdx? hn hmem hi]
  exact eq_comm

/-- What `apply` returns. -/
theorem apply_eq_ok (hn : (image.map SourceEntry.path).Nodup) (h : a.apply out image = .ok r) :
    ∃ identity time toml st, readIdentity out image = .ok (identity, time) ∧
      out.toTomlString { identity with pressed := some a.pressed } = .ok toml ∧
      (a.files.map AddedFile.dest).Nodup ∧
      Placed image (.new identity a.identity a.recipe a.seedHostname) time
        (sortByKey AddedFile.dest a.files) st ∧
      r = (marked (asBytes toml) image).map (overlay (.new identity a.identity a.recipe a.seedHostname)
        time (sortByKey AddedFile.dest a.files)) ++ st.appended := by
  unfold TreeAdditions.apply at h
  obtain ⟨⟨identity, time⟩, hread, h⟩ := Outcome.bind_eq_ok.mp h
  obtain ⟨_, hclaim, h⟩ := Outcome.bind_eq_ok.mp h
  obtain ⟨st, hst, h⟩ := Outcome.bind_eq_ok.mp h
  have hdests : ((sortByKey AddedFile.dest a.files).map AddedFile.dest).Nodup :=
    (claimOnce_eq_ok (pairwise_sortByKey _ _)).mp hclaim
  have hplaced : Placed image (.new identity a.identity a.recipe a.seedHostname) time
      (sortByKey AddedFile.dest a.files) st := placed_nil.run hn hdests hst
  obtain ⟨e, he, hpath, -⟩ := readIdentity_eq_ok hread
  have hpaths : st.entries.map SourceEntry.path = image.map SourceEntry.path := by
    rw [hplaced.entries, List.map_map]
    exact List.map_congr_left fun _ _ => overlay_path
  obtain ⟨toml, htoml, hr⟩ := (writeMarker_eq_ok (hpaths ▸ hn)
    (hpaths ▸ List.mem_map.mpr ⟨e, he, hpath⟩)).mp h
  refine ⟨identity, time, toml, st, hread, htoml,
    ((sortByKey_perm _ _).map _).nodup_iff.mp hdests, hplaced, ?_⟩
  rw [hr, hplaced.entries, marked, List.map_map, marked, List.map_map]
  congr 1
  exact List.map_congr_left fun e _ => overlay_mark.symm

end Boot2Deb.Press
