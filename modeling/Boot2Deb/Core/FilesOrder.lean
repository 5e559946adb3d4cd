import Mathlib
import Boot2Deb.Lib.PadLex
import Boot2Deb.Lib.PreOrder
import Boot2Deb.Lib.Sorting
import Boot2Deb.Rust.Pattern
import Boot2Deb.Core.Files

/-!
# The order of a manifest

Names are ordered by their components, so a manifest is a pre-order walk: everything below a
directory stands in one block right behind it. A tree has one such walk, so the order in which it
was found leaves no trace in the manifest.
-/

namespace Boot2Deb.Core.Files

open Rust Std

/-! ### The order of two names -/

theorem components_injective : Function.Injective components := by
  have hmap : Function.Injective (List.map asBytes) := List.map_injective_iff.mpr asBytes_injective
  intro a b h
  unfold components at h
  split at h <;> split at h
  · simp_all
  · simp at h
  · simp at h
  · rw [← @List.intercalate_splitOn _ a _ _ '/', hmap h, List.intercalate_splitOn]

instance : TransCmp order := transCmp_comap compare components

theorem order_eq_iff {a b : Str} : order a b = .eq ↔ a = b := by
  rw [order, LawfulEqCmp.compare_eq_iff_eq, components_injective.eq_iff]

/-! ### Names below a directory -/

/-- The directory's own name is not below it, everything else is below the root. -/
def Below (dir name : Str) : Prop :=
  if dir = [] then name ≠ [] else dir ++ ['/'] <+: name

theorem components_append {dir rest : Str} (h : dir ≠ []) :
    components (dir ++ '/' :: rest) = components dir ++ (rest.splitOn '/').map asBytes := by
  have happ : (dir ++ '/' :: rest).splitOn '/' = dir.splitOn '/' ++ rest.splitOn '/' :=
    List.splitOnP_append_cons dir rest (by simp)
  simp [components, h, happ]

/-- What is below a directory begins with its components. -/
theorem below_iff {dir name : Str} :
    Below dir name ↔ components dir <+: components name ∧ name ≠ dir := by
  unfold Below
  split
  case isTrue h =>
    subst h
    simp [components]
  case isFalse h =>
    constructor
    · rintro ⟨rest, rfl⟩
      rw [List.append_assoc, List.singleton_append, components_append h]
      exact ⟨List.prefix_append .., by simp⟩
    · rintro ⟨⟨rest, hrest⟩, hne⟩
      have hname : name ≠ [] := by
        rintro rfl
        simp [components, h] at hrest
      simp only [components, List.isEmpty_iff, h, hname, if_false] at hrest
      obtain ⟨ls, ms, hsplit, hls, rfl⟩ := List.map_eq_append_iff.mp hrest.symm
      have hls : ls = dir.splitOn '/' := List.map_injective_iff.mpr asBytes_injective hls
      subst hls
      have hms : ms ≠ [] := by
        rintro rfl
        rw [List.append_nil] at hsplit
        rw [← @List.intercalate_splitOn _ name _ _ '/', hsplit, List.intercalate_splitOn] at hne
        exact hne rfl
      have hjoin := join_append ['/'] (List.splitOn_ne_nil '/' dir) hms
      rw [← hsplit, join, List.intercalate_splitOn, join, List.intercalate_splitOn] at hjoin
      exact ⟨join ['/'] ms, hjoin.symm⟩

/-! ### What the validation leaves -/

theorem ne_nil_of_checkName {name : Str} (h : checkName name = .ok ()) : name ≠ [] := by
  rintro rfl
  simp [checkName] at h

theorem lt_of_checkOrder {prev name : Str} (h : checkOrder (some prev) name = .ok ()) :
    order prev name = .lt := by
  unfold checkOrder at h
  dsimp only at h
  split at h
  · assumption
  · exact nomatch h
  · exact nomatch h

theorem of_checkNext {seen seen' : Seen} {entry : FileEntry}
    (h : checkNext seen entry = .ok seen') : checkName entry.name = .ok () ∧
      checkOrder seen.previous entry.name = .ok () ∧ seen'.previous = some entry.name := by
  obtain ⟨⟨⟩, hname, h⟩ := Outcome.bind_eq_ok.mp h
  obtain ⟨⟨⟩, -, h⟩ := Outcome.bind_eq_ok.mp h
  obtain ⟨⟨⟩, horder, h⟩ := Outcome.bind_eq_ok.mp h
  refine ⟨hname, horder, ?_⟩
  dsimp only at h
  split at h
  · obtain ⟨⟨⟩, h, -⟩ := Outcome.bind_eq_ok.mp h
    exact nomatch h
  · obtain ⟨⟨nextToken, groups⟩, -, h⟩ := Outcome.bind_eq_ok.mp h
    obtain rfl := Outcome.ok.inj h
    rfl

/-- Behind `prev`, the names rise. -/
theorem rising_of_checkAll {entries : List FileEntry} {seen : Seen} {prev : Str}
    (hprev : seen.previous = some prev) (h : checkAll seen entries = .ok ()) :
    (prev :: entries.map FileEntry.name).Pairwise (order · · = .lt) := by
  induction entries generalizing seen prev with
  | nil => exact List.pairwise_singleton ..
  | cons entry entries ih =>
    obtain ⟨seen', hnext, h⟩ := Outcome.bind_eq_ok.mp h
    obtain ⟨-, horder, hprevious⟩ := of_checkNext hnext
    rw [hprev] at horder
    have hlt := lt_of_checkOrder horder
    have hrest := ih hprevious h
    refine List.pairwise_cons.mpr ⟨?_, hrest⟩
    intro name hname
    rcases List.mem_cons.mp hname with rfl | hname
    · exact hlt
    · exact TransCmp.lt_trans hlt ((List.pairwise_cons.mp hrest).1 name hname)

theorem root_lt {name : Str} (h : name ≠ []) : order [] name = .lt := by
  obtain ⟨c, cs, hsplit⟩ := List.exists_cons_of_ne_nil (List.splitOn_ne_nil '/' name)
  simp [order, components, h, hsplit, List.compare_nil_cons]

theorem ne_nil_of_checkAll {entries : List FileEntry} {seen : Seen}
    (h : checkAll seen entries = .ok ()) : ∀ entry ∈ entries, entry.name ≠ [] := by
  induction entries generalizing seen with
  | nil => simp
  | cons entry entries ih =>
    obtain ⟨seen', hnext, h⟩ := Outcome.bind_eq_ok.mp h
    intro e he
    rcases List.mem_cons.mp he with rfl | he
    · exact ne_nil_of_checkName (of_checkNext hnext).1
    · exact ih h e he

/-- The names of a manifest rise, from the root's. -/
theorem names_rise {m : FileManifest} (h : m.validate = .ok ()) :
    (m.all.map FileEntry.name).Pairwise (order · · = .lt) := by
  obtain ⟨⟨⟩, hroot, h⟩ := Outcome.bind_eq_ok.mp h
  obtain ⟨⟨⟩, hroot, -⟩ := Outcome.bind_eq_ok.mp hroot
  have hname : m.root.name = [] := by
    by_contra hne
    simp [checkRoot, hne, FileEntry.bad] at hroot
  rw [FileManifest.all, List.map_cons, hname]
  refine List.pairwise_cons.mpr ⟨?_, ?_⟩
  · intro name hmem
    obtain ⟨entry, hentry, rfl⟩ := List.mem_map.mp hmem
    exact root_lt (ne_nil_of_checkAll h entry hentry)
  · rcases hentries : m.entries with - | ⟨entry, entries⟩
    · exact List.Pairwise.nil
    · rw [hentries] at h
      obtain ⟨seen, hnext, h⟩ := Outcome.bind_eq_ok.mp h
      exact rising_of_checkAll (of_checkNext hnext).2.2 h

theorem map_name_assignTokens {links : ExtTreeMap UInt64 ℕ compare} {walked : List WalkedEntry}
    {tokens : ExtTreeMap UInt64 UInt64 compare} :
    (assignTokens links tokens walked).map FileEntry.name = walked.map (·.entry.name) := by
  induction walked generalizing tokens with
  | nil => rfl
  | cons w walked ih =>
    rw [assignTokens]
    dsimp only
    split <;> simp [ih]

/-! ### Assembled manifests -/

theorem sortByName_eq (walked : List WalkedEntry) :
    sortByName walked = sortByKey (fun w => components w.entry.name) walked := rfl

theorem validate_of_assemble {root : FileEntry} {walked : List WalkedEntry} {m : FileManifest}
    (h : assemble root walked = .ok m) : m.validate = .ok () ∧
      m = ⟨root, assignTokens (countLinks (sortByName walked)) ∅ (sortByName walked)⟩ := by
  obtain ⟨⟨⟩, hvalidate, h⟩ := Outcome.bind_eq_ok.mp h
  obtain rfl := Outcome.ok.inj h
  exact ⟨hvalidate, rfl⟩

/-- No two names of an assembled tree are the same. -/
theorem nodup_of_assemble {root : FileEntry} {walked : List WalkedEntry} {m : FileManifest}
    (h : assemble root walked = .ok m) :
    (walked.map fun w => components w.entry.name).Nodup := by
  obtain ⟨hvalidate, rfl⟩ := validate_of_assemble h
  have hrise := (List.pairwise_cons.mp (names_rise hvalidate)).2
  rw [map_name_assignTokens] at hrise
  have hnodup : ((sortByName walked).map (·.entry.name)).Nodup := by
    refine hrise.imp ?_
    rintro a b hlt rfl
    simp [order, ReflCmp.compare_self] at hlt
  have hperm := (sortByKey_perm (fun w => components w.entry.name) walked).map (·.entry.name)
  have := (hperm.nodup_iff.mp hnodup).map components_injective
  rwa [List.map_map] at this

/-- A manifest is the one strict pre-order walk of its tree, in whatever order the tree was
walked. -/
theorem assemble_preOrder {root : FileEntry} {walked : List WalkedEntry} {m : FileManifest}
    (h : assemble root walked = .ok m) :
    (TransCmp order ∧ ∀ a b, order a b = .eq ↔ a = b) ∧
      m.all.Pairwise (fun a b => order a.name b.name = .lt) ∧
      (∀ front dir back, m.all = front ++ dir :: back → ∃ block rest, back = block ++ rest ∧
        (∀ e ∈ block, Below dir.name e.name) ∧ ∀ e ∈ front ++ rest, ¬Below dir.name e.name) ∧
      ∀ walked', walked'.Perm walked → assemble root walked' = .ok m := by
  have hrise := List.pairwise_map.mp (names_rise (validate_of_assemble h).1)
  refine ⟨⟨inferInstance, fun _ _ => order_eq_iff⟩, hrise, ?block, ?perm⟩
  case block =>
    intro front dir back hall
    obtain ⟨block, rest, rfl, hblock, hrest⟩ :=
      @exists_block _ _ _ _ _ (fun e : FileEntry => components e.name) _ _ _ _ hrise hall
    refine ⟨block, rest, rfl, ?_, ?_⟩
    · intro e he
      refine below_iff.mpr ⟨hblock e he, ?_⟩
      rw [hall] at hrise
      have hlt := (List.pairwise_cons.mp (List.pairwise_append.mp hrise).2.1).1 e
        (List.mem_append_left rest he)
      rintro heq
      rw [heq, order_eq_iff.mpr rfl] at hlt
      exact nomatch hlt
    · intro e he hbelow
      exact hrest e he (below_iff.mp hbelow).1
  case perm =>
    intro walked' hperm
    have hsort : sortByName walked' = sortByName walked :=
      (sortByKey_congr hperm.symm (nodup_of_assemble h)).symm
    rw [assemble, hsort]
    exact h

/-- A row of a tree, all but its name and type the same. -/
def plain (name : Str) (fileType : FileType) : FileEntry :=
  ⟨name, fileType, 0, 0, 0, 0, 0, none, none, none, 0, .empty⟩

/-- A directory, what is below it, and a sibling a byte order would put between them. -/
def siblings : List WalkedEntry :=
  [⟨plain ['a', '/', 'b'] .reg, 3⟩, ⟨plain ['a', '.', 'b'] .reg, 2⟩, ⟨plain ['a'] .dir, 1⟩]

theorem assemble_siblings : ∃ m, assemble (plain [] .dir) siblings = .ok m ∧
    m.all.map FileEntry.name = [[], ['a'], ['a', '/', 'b'], ['a', '.', 'b']] ∧
    m.all.Pairwise fun a b => order a.name b.name = .lt :=
  ⟨_, rfl, rfl, (@assemble_preOrder (plain [] .dir) siblings _ rfl).2.1⟩

end Boot2Deb.Core.Files
