import Boot2Deb.Lib.Numbering
import Boot2Deb.Core.FilesOrder

/-!
# Hard-link tokens

The tokens of a valid manifest are numbered in the order of first appearance, and the names that
share one describe one inode. An assembled manifest gives no token to an inode with one name.
-/

namespace Boot2Deb.Core.Files

open Rust Std

/-- The hard-link group of a name, zero for none. -/
def FileEntry.token (e : FileEntry) : ℕ := e.inodeToken.toNat

/-- All names that share a token describe one inode. -/
def OneInode (entries : List FileEntry) : Prop :=
  ∀ e ∈ entries, ∀ f ∈ entries, e.token ≠ 0 → f.token = e.token → f.inodeFields = e.inodeFields

/-- Every token stands on two names or more. -/
def Shared (entries : List FileEntry) : Prop :=
  ∀ e ∈ entries, e.token ≠ 0 → 2 ≤ entries.countP fun f => f.token = e.token

theorem token_eq_zero {e : FileEntry} : e.token = 0 ↔ e.inodeToken = 0 := by
  rw [FileEntry.token, ← UInt64.toNat_inj]
  rfl

theorem token_eq_iff {e f : FileEntry} : e.token = f.token ↔ e.inodeToken = f.inodeToken :=
  UInt64.toNat_inj

/-! ### What the validation says of the tokens -/

/-- What the loop has seen of the tokens behind some entries. -/
structure Seen.Behind (seen : Seen) (done : List FileEntry) : Prop where
  next : seen.nextToken = UInt64.ofNat (distinct FileEntry.token done + 1)
  groups : ∀ t, t ≠ 0 → seen.groups[t]? = firstWith FileEntry.inodeToken done t
  one : OneInode done

theorem token_of_checkNext {seen seen' : Seen} {entry : FileEntry}
    (h : checkNext seen entry = .ok seen') :
    checkToken seen.nextToken seen.groups entry = .ok (seen'.nextToken, seen'.groups) := by
  obtain ⟨⟨⟩, -, h⟩ := Outcome.bind_eq_ok.mp h
  obtain ⟨⟨⟩, -, h⟩ := Outcome.bind_eq_ok.mp h
  obtain ⟨⟨⟩, -, h⟩ := Outcome.bind_eq_ok.mp h
  dsimp only at h
  split at h
  · obtain ⟨⟨⟩, h, -⟩ := Outcome.bind_eq_ok.mp h
    exact nomatch h
  · obtain ⟨⟨nextToken, groups⟩, htoken, h⟩ := Outcome.bind_eq_ok.mp h
    obtain rfl := Outcome.ok.inj h
    exact htoken

/-- What one token check can do: leave a name without a token, join a group, or open the next. -/
theorem checkToken_cases {next next' : UInt64} {groups groups' : ExtTreeMap UInt64 FileEntry compare}
    {entry : FileEntry} (h : checkToken next groups entry = .ok (next', groups')) :
    (entry.inodeToken = 0 ∧ next' = next ∧ groups' = groups) ∨
      (entry.inodeToken ≠ 0 ∧ (∃ first, groups[entry.inodeToken]? = some first ∧
        first.inodeFields = entry.inodeFields) ∧ next' = next ∧ groups' = groups) ∨
      (entry.inodeToken ≠ 0 ∧ groups[entry.inodeToken]? = none ∧ entry.inodeToken = next ∧
        next' = next + 1 ∧ groups' = groups.insert entry.inodeToken entry) := by
  unfold checkToken at h
  by_cases hzero : entry.inodeToken = 0
  · rw [if_pos hzero] at h
    cases h
    exact .inl ⟨hzero, rfl, rfl⟩
  · rw [if_neg hzero] at h
    right
    split at h
    · rename_i hnone
      split_ifs at h with hnext
      · cases h
        exact .inr ⟨hzero, hnone, hnext, rfl, rfl⟩
    · rename_i first hfirst
      split_ifs at h with hsame
      · cases h
        exact .inl ⟨hzero, ⟨first, hfirst, of_decide_eq_true hsame⟩, rfl, rfl⟩

section Behind
variable {seen seen' : Seen} {done entries : List FileEntry} {entry : FileEntry}

theorem exists_token_iff : (∃ b ∈ done, b.token = entry.token) ↔
    firstWith FileEntry.inodeToken done entry.inodeToken ≠ none := by
  simp only [ne_eq, firstWith_eq_none, not_forall, not_not, exists_prop, token_eq_iff]

theorem firstWith_concat {t : UInt64} : firstWith FileEntry.inodeToken (done ++ [entry]) t =
    (firstWith FileEntry.inodeToken done t).or (if entry.inodeToken = t then some entry else none) := by
  rw [firstWith_append]
  congr 1
  unfold firstWith
  by_cases h : entry.inodeToken = t <;> simp [h]

/-- Another name without a token, or of a group that was opened. -/
theorem Seen.Behind.concat (hb : seen.Behind done)
    (hold : entry.token = 0 ∨ ∃ first ∈ done, first.token = entry.token ∧
      first.inodeFields = entry.inodeFields)
    (hnext : seen'.nextToken = seen.nextToken) (hgroups : seen'.groups = seen.groups) :
    seen'.Behind (done ++ [entry]) := by
  refine ⟨?next, ?groups, ?one⟩
  case next =>
    rw [hnext, hb.next, distinct_concat_old (hold.imp_right fun ⟨f, hf, he, _⟩ => ⟨f, hf, he⟩)]
  case groups =>
    intro t ht
    rw [hgroups, hb.groups t ht, firstWith_concat]
    rcases hold with hzero | ⟨first, hfirst, he, -⟩
    · have hne : entry.inodeToken ≠ t := by
        rintro rfl
        exact ht (token_eq_zero.mp hzero)
      rw [if_neg hne, Option.or_none]
    · split_ifs with h
      · cases hw : firstWith FileEntry.inodeToken done t with
        | some _ => rfl
        | none => exact absurd ((token_eq_iff.mp he).trans h) (firstWith_eq_none.mp hw first hfirst)
      · rw [Option.or_none]
  case one =>
    -- the group of the new name is that of the name it was held against
    intro e he f hf hne heq
    rw [List.mem_append, List.mem_singleton] at he hf
    rcases he with he | rfl <;> rcases hf with hf | rfl
    · exact hb.one e he f hf hne heq
    · rcases hold with hzero | ⟨first, hfirst, htoken, hfields⟩
      · exact absurd (heq.symm.trans hzero) hne
      · exact hfields.symm.trans (hb.one e he first hfirst hne (htoken.trans heq))
    · rcases hold with hzero | ⟨first, hfirst, htoken, hfields⟩
      · exact absurd hzero hne
      · rw [← hfields]
        exact hb.one first hfirst f hf (htoken ▸ hne) (heq.trans htoken.symm)
    · rfl

theorem Seen.Behind.open (hb : seen.Behind done) (hne : entry.token ≠ 0)
    (hnew : ¬∃ b ∈ done, b.token = entry.token)
    (hnext : seen'.nextToken = seen.nextToken + 1)
    (hgroups : seen'.groups = seen.groups.insert entry.inodeToken entry) :
    seen'.Behind (done ++ [entry]) := by
  refine ⟨?next, ?groups, ?one⟩
  case next =>
    rw [hnext, hb.next, distinct_concat_new hne hnew]
    exact (UInt64.ofNat_add _ 1).symm
  case groups =>
    intro t ht
    rw [hgroups, getElem?_insert_ite, hb.groups t ht, firstWith_concat]
    split_ifs with h
    · have hnone : firstWith FileEntry.inodeToken done t = none := by
        rw [← h]
        by_contra hsome
        exact hnew (exists_token_iff.mpr hsome)
      rw [hnone, Option.none_or]
    · rw [Option.or_none]
  case one =>
    intro e he f hf hne' heq
    rw [List.mem_append, List.mem_singleton] at he hf
    rcases he with he | rfl <;> rcases hf with hf | rfl
    · exact hb.one e he f hf hne' heq
    · exact absurd ⟨e, he, heq.symm⟩ hnew
    · exact absurd ⟨f, hf, heq⟩ hnew
    · rfl

/-- One turn of the loop: the token of the entry is none, an old one or the next. -/
theorem Seen.Behind.step (hb : seen.Behind done) (h : checkNext seen entry = .ok seen') :
    seen'.Behind (done ++ [entry]) ∧ (entry.token ≠ 0 →
      (∃ b ∈ done, b.token = entry.token) ∨
        entry.token = distinct FileEntry.token done + 1) := by
  rcases checkToken_cases (token_of_checkNext h) with ⟨hzero, hnext, hgroups⟩ |
    ⟨hne, ⟨first, hfirst, hfields⟩, hnext, hgroups⟩ | ⟨hne, hnone, htoken, hnext, hgroups⟩
  · have hzero := token_eq_zero.mpr hzero
    exact ⟨hb.concat (.inl hzero) hnext hgroups, fun hne => absurd hzero hne⟩
  · rw [hb.groups _ hne] at hfirst
    obtain ⟨hmem, htoken⟩ := mem_of_firstWith hfirst
    have htoken := token_eq_iff.mpr htoken
    exact ⟨hb.concat (.inr ⟨first, hmem, htoken, hfields⟩) hnext hgroups,
      fun _ => .inl ⟨first, hmem, htoken⟩⟩
  · rw [hb.groups _ hne] at hnone
    have hnew : ¬∃ b ∈ done, b.token = entry.token :=
      fun h => absurd hnone (exists_token_iff.mp h)
    have hne := mt token_eq_zero.mp hne
    refine ⟨hb.open hne hnew hnext hgroups, fun _ => .inr ?_⟩
    -- the counter does not wrap: its value is a token, and no token is zero
    have hval : entry.token = (distinct FileEntry.token done + 1) % 2 ^ 64 := by
      rw [FileEntry.token, htoken, hb.next, UInt64.toNat_ofNat']
    have hcount : distinct FileEntry.token done + 1 ≤ 2 ^ 64 := by
      have hsub : ((done.map FileEntry.token).toFinset.erase 0) ⊆ (Finset.range (2 ^ 64)).erase 0 := by
        refine Finset.erase_subset_erase 0 fun t ht => ?_
        obtain ⟨e, -, rfl⟩ := List.mem_map.mp (List.mem_toFinset.mp ht)
        exact Finset.mem_range.mpr e.inodeToken.toNat_lt
      have hcard := Finset.card_le_card hsub
      rw [Finset.card_erase_of_mem (Finset.mem_range.mpr (by decide)), Finset.card_range] at hcard
      exact Nat.add_le_of_le_sub (by decide) hcard
    rcases hcount.lt_or_eq with hlt | heq
    · rw [hval, Nat.mod_eq_of_lt hlt]
    · rw [heq, Nat.mod_self] at hval
      exact absurd hval hne

theorem Seen.Behind.run (hb : seen.Behind done) (hn : NumberedInOrder FileEntry.token done)
    (h : checkAll seen entries = .ok ()) :
    NumberedInOrder FileEntry.token (done ++ entries) ∧ OneInode (done ++ entries) := by
  induction entries generalizing seen done with
  | nil =>
    rw [List.append_nil]
    exact ⟨hn, hb.one⟩
  | cons entry entries ih =>
    obtain ⟨seen', hnext, h⟩ := Outcome.bind_eq_ok.mp h
    obtain ⟨hb', htoken⟩ := hb.step hnext
    rw [List.append_cons]
    refine ih hb' ?_ h
    intro front a back heq hne
    rcases List.eq_nil_or_concat back with rfl | ⟨back, last, rfl⟩
    · obtain ⟨rfl, rfl⟩ := List.append_inj' heq rfl |>.imp id List.singleton_inj.mp
      exact htoken hne
    · rw [List.concat_eq_append, ← List.cons_append, ← List.append_assoc] at heq
      exact hn front a back (List.append_inj' heq rfl).1 hne

end Behind

/-- The tokens of a valid manifest. -/
theorem tokens_of_validate {m : FileManifest} (h : m.validate = .ok ()) :
    NumberedInOrder FileEntry.token m.entries ∧ OneInode m.entries := by
  obtain ⟨⟨⟩, -, h⟩ := Outcome.bind_eq_ok.mp h
  have hb : Seen.Behind ⟨(∅ : ExtTreeSet Str compare).insert [], none, 1, ∅⟩ [] :=
    ⟨rfl, fun _ _ => ExtTreeMap.getElem?_empty, fun _ he => absurd he List.not_mem_nil⟩
  have hn : NumberedInOrder FileEntry.token [] := by
    intro front a back heq
    exact absurd heq (by simp)
  exact hb.run hn h

theorem token_of_checkEntry {e : FileEntry} {isRoot : Bool} (h : checkEntry e isRoot = .ok ())
    (hdir : e.fileType = .dir) : e.token = 0 := by
  obtain ⟨⟨⟩, -, h⟩ := Outcome.bind_eq_ok.mp h
  obtain ⟨⟨⟩, -, h⟩ := Outcome.bind_eq_ok.mp h
  obtain ⟨⟨⟩, -, h⟩ := Outcome.bind_eq_ok.mp h
  obtain ⟨⟨⟩, -, h⟩ := Outcome.bind_eq_ok.mp h
  obtain ⟨⟨⟩, -, h⟩ := Outcome.bind_eq_ok.mp h
  obtain ⟨⟨⟩, -, h⟩ := Outcome.bind_eq_ok.mp h
  obtain ⟨⟨⟩, hdirectory, -⟩ := Outcome.bind_eq_ok.mp h
  unfold checkDirectory at hdirectory
  split_ifs at hdirectory with hboth
  · cases hdirectory
  · exact token_eq_zero.mpr (by_contra fun hne => hboth ⟨hdir, hne⟩)

/-! ### What the assembling leaves -/

/-- Whether a walked name gets a token: it is no directory, and its inode has other names. -/
def Linked (links : ExtTreeMap UInt64 ℕ compare) (w : WalkedEntry) : Prop :=
  w.entry.fileType ≠ .dir ∧ 1 < links[w.inode]?.getD 0

instance (links : ExtTreeMap UInt64 ℕ compare) : DecidablePred (Linked links) :=
  fun w => inferInstanceAs (Decidable (w.entry.fileType ≠ .dir ∧ 1 < links[w.inode]?.getD 0))

theorem getD_countLinks (walked : List WalkedEntry) (i : UInt64) :
    (countLinks walked)[i]?.getD 0 =
      walked.countP fun w => w.entry.fileType ≠ .dir ∧ w.inode = i := by
  have hfold : ∀ links : ExtTreeMap UInt64 ℕ compare,
      (walked.foldl (fun links w => if w.entry.fileType ≠ .dir then
        links.insert w.inode (links[w.inode]?.getD 0 + 1) else links) links)[i]?.getD 0 =
      links[i]?.getD 0 + walked.countP fun w => w.entry.fileType ≠ .dir ∧ w.inode = i := by
    induction walked with
    | nil => exact fun links => rfl
    | cons w walked ih =>
      intro links
      rw [List.foldl_cons, ih, List.countP_cons]
      by_cases hdir : w.entry.fileType = .dir
      · simp [hdir]
      · rw [if_pos hdir, getElem?_insert_ite]
        by_cases hi : w.inode = i
        · subst hi
          simp [hdir]
          omega
        · simp [hi]
  simpa [countLinks] using hfold ∅

theorem assignTokens_linked {links : ExtTreeMap UInt64 ℕ compare} {w : WalkedEntry}
    {walked : List WalkedEntry} {tokens : ExtTreeMap UInt64 UInt64 compare} (h : Linked links w) :
    assignTokens links tokens (w :: walked) =
      { w.entry with inodeToken := tokens[w.inode]?.getD (UInt64.ofNat tokens.size + 1) } ::
        assignTokens links (tokens.insertIfNew w.inode (UInt64.ofNat tokens.size + 1)) walked :=
  if_pos h

theorem assignTokens_alone {links : ExtTreeMap UInt64 ℕ compare} {w : WalkedEntry}
    {walked : List WalkedEntry} {tokens : ExtTreeMap UInt64 UInt64 compare} (h : ¬Linked links w) :
    assignTokens links tokens (w :: walked) =
      { w.entry with inodeToken := 0 } :: assignTokens links tokens walked :=
  if_neg h

/-- The token of a linked name is that of its inode. -/
theorem exists_assignTokens (links : ExtTreeMap UInt64 ℕ compare) (walked : List WalkedEntry)
    (tokens : ExtTreeMap UInt64 UInt64 compare) : ∃ v : UInt64 → UInt64,
      (∀ i t, tokens[i]? = some t → v i = t) ∧ assignTokens links tokens walked =
        walked.map fun w => { w.entry with inodeToken := if Linked links w then v w.inode else 0 } := by
  induction walked generalizing tokens with
  | nil =>
    refine ⟨fun i => tokens[i]?.getD 0, fun i t h => ?_, rfl⟩
    dsimp only
    rw [h, Option.getD_some]
  | cons w walked ih =>
    by_cases hl : Linked links w
    · obtain ⟨v, hv, heq⟩ := ih (tokens.insertIfNew w.inode (UInt64.ofNat tokens.size + 1))
      have hown : v w.inode = tokens[w.inode]?.getD (UInt64.ofNat tokens.size + 1) :=
        hv _ _ (by rw [getElem?_insertIfNew_ite, if_pos rfl])
      refine ⟨v, fun i t ht => ?_, ?_⟩
      · refine hv i t ?_
        rw [getElem?_insertIfNew_ite, ht]
        split_ifs with hi
        · rw [hi, ht, Option.getD_some]
        · rfl
      · rw [assignTokens_linked hl, heq, List.map_cons, if_pos hl, hown]
    · obtain ⟨v, hv, heq⟩ := ih tokens
      exact ⟨v, hv, by rw [assignTokens_alone hl, heq, List.map_cons, if_neg hl]⟩

/-- A token of an assembled manifest stands on two names or more. -/
theorem shared_of_assemble {root : FileEntry} {walked : List WalkedEntry} {m : FileManifest}
    (h : assemble root walked = .ok m) : Shared m.entries := by
  obtain ⟨-, rfl⟩ := validate_of_assemble h
  generalize sortByName walked = sorted
  obtain ⟨v, -, heq⟩ := exists_assignTokens (countLinks sorted) sorted ∅
  dsimp only
  rw [heq]
  intro e he hne
  obtain ⟨w, hw, rfl⟩ := List.mem_map.mp he
  by_cases hl : Linked (countLinks sorted) w
  · have hcount := hl.2
    rw [getD_countLinks] at hcount
    rw [List.countP_map]
    refine Nat.le_trans hcount (List.countP_mono_left fun w' _ h' => ?_)
    obtain ⟨hdir, hinode⟩ := of_decide_eq_true h'
    have hl' : Linked (countLinks sorted) w' := ⟨hdir, hinode ▸ hl.2⟩
    simp only [Function.comp_apply, FileEntry.token, if_pos hl, if_pos hl', hinode, decide_true]
  · rw [token_eq_zero.mpr (if_neg hl)] at hne
    exact absurd rfl hne

/-! ### A walk that a manifest is assembled from -/

/-- What the tokens given to some entries are: each its own inode. -/
structure Held (tokens : ExtTreeMap UInt64 UInt64 compare) (done : List FileEntry) : Prop where
  size : tokens.size = distinct FileEntry.token done
  own : ∀ t, t ≠ 0 → tokens[t]? = if ∃ b ∈ done, b.inodeToken = t then some t else none

theorem Held.concat {tokens : ExtTreeMap UInt64 UInt64 compare} {done : List FileEntry}
    {e : FileEntry} (hh : Held tokens done)
    (hold : e.inodeToken = 0 ∨ ∃ b ∈ done, b.inodeToken = e.inodeToken) :
    Held tokens (done ++ [e]) := by
  refine ⟨?_, fun t ht => ?_⟩
  · rw [hh.size, distinct_concat_old (by simpa only [token_eq_zero, token_eq_iff] using hold)]
  · rw [hh.own t ht]
    refine if_congr ⟨fun ⟨b, hb, h⟩ => ⟨b, List.mem_append_left _ hb, h⟩, ?_⟩ rfl rfl
    rintro ⟨b, hb, h⟩
    rcases List.mem_append.mp hb with hb | hb
    · exact ⟨b, hb, h⟩
    · rw [List.mem_singleton.mp hb] at h
      rcases hold with hzero | ⟨c, hc, heq⟩
      · exact absurd (h.symm.trans hzero) ht
      · exact ⟨c, hc, heq.trans h⟩

theorem Held.insert {tokens : ExtTreeMap UInt64 UInt64 compare} {done : List FileEntry}
    {e : FileEntry} (hh : Held tokens done) (hne : e.inodeToken ≠ 0)
    (hnew : ¬∃ b ∈ done, b.inodeToken = e.inodeToken) :
    Held (tokens.insertIfNew e.inodeToken e.inodeToken) (done ++ [e]) := by
  have hnone : tokens[e.inodeToken]? = none := by rw [hh.own _ hne, if_neg hnew]
  refine ⟨?_, fun t ht => ?_⟩
  · rw [distinct_concat_new (mt token_eq_zero.mp hne) (by simpa only [token_eq_iff] using hnew),
      ExtTreeMap.size_insertIfNew, hh.size, if_neg]
    rw [ExtTreeMap.mem_iff_isSome_getElem?, hnone]
    exact Bool.false_ne_true
  · rw [getElem?_insertIfNew_ite, hnone, Option.getD_none, hh.own t ht]
    by_cases he : e.inodeToken = t
    · rw [if_pos he, he, if_pos ⟨e, List.mem_append_right _ List.mem_cons_self, he⟩]
    · rw [if_neg he]
      refine if_congr ⟨fun ⟨b, hb, h⟩ => ⟨b, List.mem_append_left _ hb, h⟩, ?_⟩ rfl rfl
      rintro ⟨b, hb, h⟩
      rcases List.mem_append.mp hb with hb | hb
      · exact ⟨b, hb, h⟩
      · exact absurd (List.mem_singleton.mp hb ▸ h) he

/-- Where the inode of a linked name is its token, the tokens are given as they stand. -/
theorem assignTokens_eq {links : ExtTreeMap UInt64 ℕ compare} {walked : List WalkedEntry}
    {tokens : ExtTreeMap UInt64 UInt64 compare} {done : List FileEntry} (hh : Held tokens done)
    (hl : ∀ w ∈ walked, Linked links w ↔ w.entry.inodeToken ≠ 0)
    (hi : ∀ w ∈ walked, w.entry.inodeToken ≠ 0 → w.inode = w.entry.inodeToken)
    (hn : NumberedInOrder FileEntry.token (done ++ walked.map WalkedEntry.entry)) :
    assignTokens links tokens walked = walked.map WalkedEntry.entry := by
  induction walked generalizing tokens done with
  | nil => rfl
  | cons w walked ih =>
    have hl' := fun w' hw' => hl w' (List.mem_cons_of_mem _ hw')
    have hi' := fun w' hw' => hi w' (List.mem_cons_of_mem _ hw')
    have hn' : NumberedInOrder FileEntry.token ((done ++ [w.entry]) ++
        walked.map WalkedEntry.entry) := by
      rwa [List.append_assoc, List.singleton_append]
    by_cases hzero : w.entry.inodeToken = 0
    · have hnot : ¬Linked links w := fun h => (hl w List.mem_cons_self).mp h hzero
      rw [assignTokens_alone hnot, ih (hh.concat (.inl hzero)) hl' hi' hn', List.map_cons, ← hzero]
    · have hlinked := (hl w List.mem_cons_self).mpr hzero
      have htoken := hn done w.entry (walked.map WalkedEntry.entry) rfl
        (mt token_eq_zero.mp hzero)
      rw [assignTokens_linked hlinked, hi w List.mem_cons_self hzero, List.map_cons]
      by_cases hold : ∃ b ∈ done, b.inodeToken = w.entry.inodeToken
      · have hown := hh.own _ hzero
        rw [if_pos hold] at hown
        have hkeep : tokens.insertIfNew w.entry.inodeToken (UInt64.ofNat tokens.size + 1) =
            tokens := by
          refine ExtTreeMap.ext_getElem? fun t => ?_
          rw [getElem?_insertIfNew_ite]
          split_ifs with ht
          · rw [← ht, hown, Option.getD_some]
          · rfl
        rw [hown, Option.getD_some, hkeep, ih (hh.concat (.inr hold)) hl' hi' hn']
      · have hnext : UInt64.ofNat tokens.size + 1 = w.entry.inodeToken := by
          have heq : w.entry.token = distinct FileEntry.token done + 1 :=
            htoken.resolve_left (by simpa only [token_eq_iff] using hold)
          rw [hh.size, ← UInt64.toNat_inj, ← FileEntry.token, heq,
            show UInt64.ofNat (distinct FileEntry.token done) + 1 =
              UInt64.ofNat (distinct FileEntry.token done + 1) from (UInt64.ofNat_add _ 1).symm,
            UInt64.toNat_ofNat', ← heq]
          exact Nat.mod_eq_of_lt w.entry.inodeToken.toNat_lt
        have hown := hh.own _ hzero
        rw [if_neg hold] at hown
        rw [hown, Option.getD_none, hnext, ih (hh.insert hzero hold) hl' hi' hn']

end Boot2Deb.Core.Files
