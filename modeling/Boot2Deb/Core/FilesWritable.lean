import Boot2Deb.Core.FilesRoundTrip
import Boot2Deb.Core.FilesTokens

/-!
# What the reader of a manifest accepts

The reader accepts what the writer can write, but for one thing: it does not ask that a hard-link
token stands on two names. A manifest that states every token twice is assembled from the walk in
which a linked name has its token for an inode: `writable_iff`.
-/

namespace Boot2Deb.Core.Files

open Rust Json
open Std (ExtTreeMap)

/-! ### Assembling a valid manifest -/

/-- The inodes of the names of a manifest: the tokens, and one of its own for a name without. -/
def walk (entries : List FileEntry) : List WalkedEntry :=
  entries.zipIdx.map fun row =>
    ⟨row.1, if row.1.inodeToken = 0 then UInt64.ofNat (2 ^ 63 + row.2) else row.1.inodeToken⟩

theorem map_entry_walk (entries : List FileEntry) : (walk entries).map WalkedEntry.entry = entries := by
  rw [walk, List.map_map]
  exact List.zipIdx_map_fst 0 entries

theorem sortByName_walk {m : FileManifest} (h : m.validate = .ok ()) :
    sortByName (walk m.entries) = walk m.entries := by
  have hrise := (List.pairwise_cons.mp (names_rise h)).2
  rw [← map_entry_walk m.entries, List.map_map, List.pairwise_map] at hrise
  refine List.Pairwise.insertionSort_eq (hrise.imp fun hlt => ?_)
  rw [Function.comp_apply, Function.comp_apply] at hlt
  rw [hlt]
  rfl

section Walk
variable {entries : List FileEntry}

/-- The entries that share a token are counted as the names of its inode. -/
theorem countP_token_le (hdir : ∀ e ∈ entries, e.token ≠ 0 → e.fileType ≠ .dir) {t : UInt64}
    (ht : t ≠ 0) : entries.countP (fun e => e.inodeToken = t) ≤
      (walk entries).countP fun w => w.entry.fileType ≠ .dir ∧ w.inode = t := by
  have hcount : entries.countP (fun e => e.inodeToken = t) =
      (walk entries).countP fun w => w.entry.inodeToken = t := by
    conv_lhs => rw [← map_entry_walk entries, List.countP_map]
    rfl
  rw [hcount]
  refine List.countP_mono_left fun w hw h => ?_
  have htoken := of_decide_eq_true h
  obtain ⟨row, hrow, rfl⟩ := List.mem_map.mp hw
  have hne : row.1.inodeToken ≠ 0 := fun h0 => ht (htoken.symm.trans h0)
  refine decide_eq_true ⟨hdir row.1 ?_ (mt token_eq_zero.mp hne), ?_⟩
  · exact (List.mem_zipIdx' hrow).2 ▸ List.getElem_mem _
  · exact (if_neg hne).trans htoken

/-- The inode of a name without a token has no other name. -/
theorem countP_own_le (hlen : entries.length ≤ isizeMax)
    (htoken : ∀ e ∈ entries, e.token ≤ entries.length) {i : ℕ} (hi : i < entries.length) :
    ((walk entries).countP fun w => w.entry.fileType ≠ .dir ∧
      w.inode = UInt64.ofNat (2 ^ 63 + i)) ≤ 1 := by
  have hmax : isizeMax = 2 ^ 63 - 1 := rfl
  have hrows : ((walk entries).countP fun w => w.entry.fileType ≠ .dir ∧
      w.inode = UInt64.ofNat (2 ^ 63 + i)) ≤ entries.zipIdx.countP fun row => row.2 = i := by
    rw [walk, List.countP_map]
    refine List.countP_mono_left fun row hrow h => decide_eq_true ?_
    obtain ⟨-, hinode⟩ := of_decide_eq_true h
    obtain ⟨hlt, hget⟩ := List.mem_zipIdx' hrow
    have hinode := congrArg UInt64.toNat hinode
    dsimp only at hinode
    rw [UInt64.toNat_ofNat', Nat.mod_eq_of_lt (by omega)] at hinode
    split_ifs at hinode with hzero
    · rw [UInt64.toNat_ofNat', Nat.mod_eq_of_lt (by omega)] at hinode
      omega
    · have hle := htoken row.1 (hget ▸ List.getElem_mem _)
      rw [FileEntry.token, hinode] at hle
      omega
  have hsnd : entries.zipIdx.countP (fun row => row.2 = i) =
      (entries.zipIdx.map Prod.snd).countP (· = i) := by
    rw [List.countP_map]
    rfl
  have hnodup : (entries.zipIdx.map Prod.snd).Nodup := by
    rw [List.zipIdx_map_snd]
    exact List.nodup_range'
  refine hrows.trans (hsnd ▸ ?_)
  have hcount := List.nodup_iff_count_le_one.mp hnodup i
  rw [List.count] at hcount
  refine Nat.le_trans (List.countP_mono_left fun n _ h => ?_) hcount
  simpa using h

end Walk

/-- A valid manifest whose tokens stand on two names or more is assembled from a walk. -/
theorem assemble_walk {m : FileManifest} (h : m.validate = .ok ())
    (hlen : m.entries.length ≤ isizeMax) (hshared : Shared m.entries) :
    assemble m.root (walk m.entries) = .ok m := by
  obtain ⟨hn, -⟩ := tokens_of_validate h
  have hchecked : ∀ e ∈ m.entries, checkEntry e false = .ok () := by
    obtain ⟨⟨⟩, -, h⟩ := Outcome.bind_eq_ok.mp h
    exact checkEntry_of_checkAll h
  have hdir : ∀ e ∈ m.entries, e.token ≠ 0 → e.fileType ≠ .dir := by
    intro e he hne hdir
    exact hne (token_of_checkEntry (hchecked e he) hdir)
  have hlinked : ∀ w ∈ walk m.entries, Linked (countLinks (walk m.entries)) w ↔
      w.entry.inodeToken ≠ 0 := by
    intro w hw
    rw [Linked, getD_countLinks]
    obtain ⟨row, hrow, rfl⟩ := List.mem_map.mp hw
    obtain ⟨hlt, hget⟩ := List.mem_zipIdx' hrow
    have hmem : row.1 ∈ m.entries := hget ▸ List.getElem_mem _
    dsimp only
    by_cases hzero : row.1.inodeToken = 0
    · rw [if_pos hzero]
      have hone := countP_own_le hlen (fun e he => hn.le_length he) hlt
      exact iff_of_false (fun h => absurd hone (Nat.not_le.mpr h.2)) (not_not.mpr hzero)
    · rw [if_neg hzero]
      have htoken := mt token_eq_zero.mp hzero
      have htwo := hshared row.1 hmem htoken
      simp only [token_eq_iff] at htwo
      exact iff_of_true ⟨hdir row.1 hmem htoken, htwo.trans (countP_token_le hdir hzero)⟩ hzero
  have hinode : ∀ w ∈ walk m.entries, w.entry.inodeToken ≠ 0 → w.inode = w.entry.inodeToken := by
    intro w hw hne
    obtain ⟨row, -, rfl⟩ := List.mem_map.mp hw
    exact if_neg hne
  have hheld : Held ∅ [] := ⟨rfl, fun _ _ => ExtTreeMap.getElem?_empty⟩
  have hassign := assignTokens_eq hheld hlinked hinode
    (by rwa [List.nil_append, map_entry_walk])
  unfold assemble
  simp only [sortByName_walk h, hassign, map_entry_walk, h]
  rfl

/-! ### What the records state -/

/-- The token a record states, zero where it states none. -/
def statedToken (fromSlice : Bytes → Except Str Value) (body : Bytes) : UInt64 :=
  match jsonObject fromSlice body with
  | .ok map =>
    match number map Key.inodeToken with
    | .ok token => token.getD 0
    | _ => 0
  | _ => 0

/-- Every token that a record behind the root's states is stated by another as well. -/
def StatedTwice (fromSlice : Bytes → Except Str Value) (b : Bytes) : Prop :=
  ∀ bodies, records b = .ok bodies → ∀ body ∈ bodies.tail.dropLast,
    statedToken fromSlice body ≠ 0 →
      2 ≤ bodies.tail.dropLast.countP fun other =>
        statedToken fromSlice other = statedToken fromSlice body

section Parse
variable {fromSlice : Bytes → Except Str Value} {b body : Bytes} {m : FileManifest} {e : FileEntry}

theorem number_of_readEntry {map : List (Str × Value)} {isRoot : Bool}
    (h : readEntry map isRoot = .ok e) :
    ∃ token, number map Key.inodeToken = .ok token ∧ e.inodeToken = token.getD 0 := by
  unfold readEntry at h
  split at h
  · obtain ⟨⟨⟩, h, -⟩ := Outcome.bind_eq_ok.mp h
    cases h
  obtain ⟨media, -, h⟩ := Outcome.bind_eq_ok.mp h
  obtain ⟨name, -, h⟩ := Outcome.bind_eq_ok.mp h
  obtain ⟨⟨⟩, -, h⟩ := Outcome.bind_eq_ok.mp h
  obtain ⟨fileType, -, h⟩ := Outcome.bind_eq_ok.mp h
  obtain ⟨target, -, h⟩ := Outcome.bind_eq_ok.mp h
  obtain ⟨xattrs, -, h⟩ := Outcome.bind_eq_ok.mp h
  obtain ⟨device, -, h⟩ := Outcome.bind_eq_ok.mp h
  obtain ⟨mode, -, h⟩ := Outcome.bind_eq_ok.mp h
  obtain ⟨uid, -, h⟩ := Outcome.bind_eq_ok.mp h
  obtain ⟨uid, -, h⟩ := Outcome.bind_eq_ok.mp h
  obtain ⟨gid, -, h⟩ := Outcome.bind_eq_ok.mp h
  obtain ⟨gid, -, h⟩ := Outcome.bind_eq_ok.mp h
  obtain ⟨mtimeNsec, -, h⟩ := Outcome.bind_eq_ok.mp h
  obtain ⟨mtimeNsec, -, h⟩ := Outcome.bind_eq_ok.mp h
  obtain ⟨size, -, h⟩ := Outcome.bind_eq_ok.mp h
  obtain ⟨sha256, -, h⟩ := Outcome.bind_eq_ok.mp h
  obtain ⟨token, htoken, h⟩ := Outcome.bind_eq_ok.mp h
  obtain rfl := Outcome.ok.inj h
  exact ⟨token, htoken, rfl⟩

theorem statedToken_of_readCanonical {isRoot : Bool}
    (h : readCanonical fromSlice body isRoot = .ok e) : statedToken fromSlice body = e.inodeToken := by
  obtain ⟨⟨map, hmap, hentry⟩, -⟩ := readCanonical_eq_ok.mp h
  obtain ⟨token, htoken, heq⟩ := number_of_readEntry hentry
  simp only [statedToken, hmap, htoken, heq]

/-- What the records state are the tokens of the entries. -/
theorem statedTwice_iff (h : parse fromSlice b = .ok m) :
    StatedTwice fromSlice b ↔ Shared m.entries := by
  obtain ⟨first, middle, hrecords, -, hentries, -⟩ := parse_eq_ok.mp h
  have hmap : middle.map (statedToken fromSlice) = m.entries.map FileEntry.inodeToken := by
    have hrel := Outcome.forall₂_of_mapM hentries
    generalize m.entries = entries at hrel
    clear hrecords hentries
    induction hrel with
    | nil => rfl
    | cons hhead _ ih => rw [List.map_cons, List.map_cons, ih, statedToken_of_readCanonical hhead]
  have hcount : ∀ t, middle.countP (fun body => statedToken fromSlice body = t) =
      m.entries.countP fun e => e.inodeToken = t := by
    intro t
    have heq := congrArg (List.countP (· = t)) hmap
    rwa [List.countP_map, List.countP_map] at heq
  unfold StatedTwice Shared
  constructor
  · intro hs e he hne
    have htwice := hs _ hrecords
    rw [List.tail_cons, List.dropLast_concat] at htwice
    have hmem : e.inodeToken ∈ middle.map (statedToken fromSlice) :=
      hmap ▸ List.mem_map_of_mem he
    obtain ⟨body, hbody, heq⟩ := List.mem_map.mp hmem
    have htwo := htwice body hbody (heq ▸ mt token_eq_zero.mpr hne)
    rw [hcount, heq] at htwo
    simpa only [token_eq_iff] using htwo
  · intro hs bodies hbodies
    obtain rfl := Outcome.ok.inj (hrecords.symm.trans hbodies)
    rw [List.tail_cons, List.dropLast_concat]
    intro body hbody hne
    have hmem : statedToken fromSlice body ∈ m.entries.map FileEntry.inodeToken :=
      hmap ▸ List.mem_map_of_mem hbody
    obtain ⟨e, he, heq⟩ := List.mem_map.mp hmem
    have htwo := hs e he (mt token_eq_zero.mp (heq ▸ hne))
    rw [hcount, ← heq]
    simpa only [token_eq_iff] using htwo

theorem length_entries_le (h : parse fromSlice b = .ok m) : m.entries.length ≤ b.length := by
  have hlen : ∀ bodies : List Bytes, bodies.length ≤ (framed bodies).length := by
    intro bodies
    induction bodies with
    | nil => exact Nat.zero_le _
    | cons body bodies ih =>
      simp only [framed, List.flatMap_cons, List.length_append, List.length_cons] at ih ⊢
      omega
  have := hlen (bodies m)
  rw [← toBytes_eq, toBytes_of_parse h] at this
  simp only [bodies, List.length_cons, List.length_append, List.length_map] at this
  omega

/-- What is accepted is what can be written exactly where every token is stated twice. The order of
the tokens and the fields of a group hold either way. -/
theorem writable_iff {b : Slice UInt8} (h : parse fromSlice b.1 = .ok m) :
    ((∃ root walked, assemble root walked = .ok m) ∧ Shared m.entries ∧
      NumberedInOrder FileEntry.token m.entries ∧ OneInode m.entries) ↔
      StatedTwice fromSlice b.1 := by
  obtain ⟨-, -, -, -, -, hvalid⟩ := parse_eq_ok.mp h
  rw [statedTwice_iff h]
  constructor
  · rintro ⟨-, hshared, -⟩
    exact hshared
  · intro hshared
    have hlen := (length_entries_le h).trans b.2
    exact ⟨⟨m.root, walk m.entries, assemble_walk hvalid hlen hshared⟩, hshared,
      tokens_of_validate hvalid⟩

end Parse

/-- One regular file with a token. -/
def tokenAlone : FileManifest := ⟨plain [] .dir, [{ plain ['a'] .reg with inodeToken := 1 }]⟩

theorem parse_tokenAlone : parse fromText tokenAlone.toBytes = .ok tokenAlone :=
  parse_toBytes readsCompact_fromText rfl

theorem tokenAlone_fits : tokenAlone.toBytes.length ≤ isizeMax := by decide +kernel

/-- The reader accepts it, and no walk is assembled to it. -/
theorem lone_token_accepted : ∃ b : Slice UInt8, ∃ m, parse fromText b.1 = .ok m ∧
    ¬∃ root walked, assemble root walked = .ok m := by
  refine ⟨⟨tokenAlone.toBytes, tokenAlone_fits⟩, tokenAlone, parse_tokenAlone, ?_⟩
  rintro ⟨root, walked, h⟩
  exact absurd (shared_of_assemble h _ List.mem_cons_self (by decide)) (by decide)

/-- Two names of one regular file. -/
def tokenShared : FileManifest := ⟨plain [] .dir,
  [{ plain ['a'] .reg with inodeToken := 1 }, { plain ['b'] .reg with inodeToken := 1 }]⟩

theorem writable_tokenShared : StatedTwice fromText tokenShared.toBytes :=
  (@writable_iff fromText tokenShared ⟨tokenShared.toBytes, by decide +kernel⟩
    (@parse_toBytes fromText tokenShared readsCompact_fromText rfl)).mp
    ⟨⟨plain [] .dir, walk tokenShared.entries, rfl⟩, by
      unfold Shared
      decide, @tokens_of_validate tokenShared rfl⟩

end Boot2Deb.Core.Files
