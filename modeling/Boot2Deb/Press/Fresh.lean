import Boot2Deb.Press.Identity

/-!
# What a fresh identity leaves of the build's

`firstIdentifier` finds an identifier exactly if the bytes spell one out in any letter case, so a
tree that passes the check has no file of its own under `/etc` and `/boot` that names one. The check
skips hard links: a name under `/etc` of a file that is stored elsewhere is not read.
-/

namespace Boot2Deb.Press
open Rust Image Std

variable {read : FileRange → Except String Bytes} {len : Str → Option UInt64}
  {entries t t' : List SourceEntry} {k : TreeRekey} {ident : ImageIdentity} {bytes w : Bytes}
  {path : Bytes} {e : SourceEntry} {u : Uuid}

/-! ### The text of a UUID -/

/-- The characters of a hyphenated UUID. -/
def IsUuidChar (c : Char) : Prop := c = '-' ∨ ∃ n < 16, c = Nat.digitChar n

theorem isUuidChar_of_hexByte {l : List UInt8} : ∀ c ∈ l.flatMap hexByte, IsUuidChar c := by
  intro c hc
  obtain ⟨b, -, hb⟩ := List.mem_flatMap.mp hc
  have hlt : b.toNat < 256 := b.toNat_lt
  rcases List.mem_cons.mp hb with rfl | hb
  · exact .inr ⟨b.toNat / 16, by omega, rfl⟩
  · exact .inr ⟨b.toNat % 16, by omega, List.mem_singleton.mp hb⟩

theorem length_hex (l : List UInt8) : (l.flatMap hexByte).length = 2 * l.length := by
  induction l with
  | nil => rfl
  | cons b l ih =>
    rw [List.flatMap_cons, List.length_append, ih, List.length_cons]
    simp only [hexByte, List.length_cons, List.length_nil]
    omega

/-- A hyphenated UUID in its five groups. -/
theorem exists_groups (u : Uuid) : ∃ a b c d e : Str,
    u.hyphenated = a ++ '-' :: b ++ '-' :: c ++ '-' :: d ++ '-' :: e ∧
    a.length = 8 ∧ b.length = 4 ∧ c.length = 4 ∧ d.length = 4 ∧ e.length = 12 := by
  refine ⟨_, _, _, _, _, rfl, ?_, ?_, ?_, ?_, ?_⟩
  all_goals
    rw [length_hex, List.length_drop, List.length_take, Vector.length_toList]
    rfl

theorem isUuidChar_of_mem : ∀ c ∈ u.hyphenated, IsUuidChar c := by
  intro c hc
  simp only [Uuid.hyphenated, List.mem_append, List.mem_cons] at hc
  rcases hc with (((h | rfl | h) | rfl | h) | rfl | h) | rfl | h
  all_goals first | exact .inl rfl | exact isUuidChar_of_hexByte _ h

/-- A property of the characters of a UUID is checked digit by digit. -/
theorem forall_uuidChar {P : Char → Prop} (hhyphen : P '-') (hdigit : ∀ n < 16, P (Nat.digitChar n)) :
    ∀ c ∈ u.hyphenated, P c := by
  intro c hc
  rcases isUuidChar_of_mem c hc with rfl | ⟨n, hn, rfl⟩
  · exact hhyphen
  · exact hdigit n hn

theorem hyphenated_eq : hyphenated u = u.hyphenated := by
  have hlower : ∀ c ∈ u.hyphenated, c.toLower = c := forall_uuidChar (by decide) (by decide)
  unfold hyphenated toAsciiLowercase
  rw [List.map_congr_left hlower, List.map_id']

theorem asBytes_hyphenated : asBytes (hyphenated u) = u.hyphenated.map fun c => c.val.toUInt8 := by
  rw [hyphenated_eq, asBytes_of_ascii (forall_uuidChar (by decide) (by decide))]

theorem map_lowerByte_hyphenated : (asBytes (hyphenated u)).map lowerByte = asBytes (hyphenated u) := by
  rw [asBytes_hyphenated, List.map_map]
  exact List.map_congr_left (forall_uuidChar (by decide) (by decide))

theorem length_hyphenated : (asBytes (hyphenated u)).length = UUID_TEXT_LEN := by
  obtain ⟨a, b, c, d, e, hu, ha, hb, hc, hd, he⟩ := exists_groups u
  rw [asBytes_hyphenated, List.length_map, hu]
  simp [ha, hb, hc, hd, he, UUID_TEXT_LEN]

theorem getElem?_hyphenated {i : ℕ} (hi : i ∈ [8, 13, 18, 23]) :
    (asBytes (hyphenated u))[i]? = some 0x2d := by
  obtain ⟨a, b, c, d, e, hu, ha, hb, hc, hd, he⟩ := exists_groups u
  have hchar : u.hyphenated[i]? = some '-' := by
    rw [hu]
    simp only [List.mem_cons, List.not_mem_nil, or_false] at hi
    rcases hi with rfl | rfl | rfl | rfl
    all_goals simp [List.getElem?_append, ha, hb, hc, hd]
  rw [asBytes_hyphenated, List.getElem?_map, hchar]
  rfl

/-! ### The scanner -/

/-- Some part of the bytes is the identifier, in any letter case. -/
def SpellsOut (u : Uuid) (bytes : Bytes) : Prop :=
  ∃ w, w <:+: bytes ∧ w.map lowerByte = asBytes (hyphenated u)

/-- The bytes name no identifier of the image. -/
def NamesNone (ident : ImageIdentity) (bytes : Bytes) : Prop := ∀ x ∈ identifiers ident, ¬SpellsOut x.1 bytes

theorem getElem?_identifierNames_eq_none :
    (identifierNames ident)[w]? = none ↔ ∀ x ∈ identifiers ident, asBytes (hyphenated x.1) ≠ w := by
  unfold identifierNames
  rw [getElem?_foldl_insert_map, ExtTreeMap.getElem?_empty, Option.or_none, Option.map_eq_none_iff,
    firstWith_eq_none]
  simp only [List.mem_reverse]

/-- A window that is an identifier has its hyphens where the scanner looks for them. -/
theorem hyphens_of_map_lowerByte (h : w.map lowerByte = asBytes (hyphenated u)) :
    [8, 13, 18, 23].any (fun i => w[i]? != some 0x2d) = false := by
  refine List.any_eq_false.mpr fun i hi => ?_
  have hget : (w[i]?).map lowerByte = some 0x2d := by
    rw [← List.getElem?_map, h, getElem?_hyphenated hi]
  obtain ⟨b, hb, hlower⟩ := Option.map_eq_some_iff.mp hget
  simp [hb, lowerByte_eq_hyphen hlower]

/-- The scanner misses nothing and makes nothing up. -/
theorem firstIdentifier_eq_none :
    firstIdentifier bytes (identifierNames ident) = none ↔ NamesNone ident bytes := by
  unfold firstIdentifier
  rw [List.findSome?_eq_none_iff]
  constructor
  · rintro h x hx ⟨w, hinfix, hw⟩
    have hlen : w.length = UUID_TEXT_LEN := by
      rw [← @List.length_map _ _ w lowerByte, hw, length_hyphenated]
    have hnone := h w ((mem_windows (by decide)).mpr ⟨hlen, hinfix⟩)
    rw [hyphens_of_map_lowerByte hw, if_neg (by simp)] at hnone
    exact getElem?_identifierNames_eq_none.mp hnone x hx hw.symm
  · intro h w hw
    split_ifs
    · rfl
    · refine getElem?_identifierNames_eq_none.mpr fun x hx heq => h x hx ⟨w, ?_, heq.symm⟩
      exact ((mem_windows (by decide)).mp hw).2

theorem rootfsPartuuid_mem : (ident.rootfsPartuuid, "root PARTUUID") ∈ identifiers ident :=
  List.mem_append_left _ List.mem_cons_self

/-- Text that holds the root PARTUUID spells it out. -/
theorem not_namesNone {text pre : Str} (h : pre ++ hyphenated ident.rootfsPartuuid <:+: text) :
    ¬NamesNone ident (asBytes text) := by
  intro hnone
  obtain ⟨before, after, rfl⟩ := h
  refine hnone _ rootfsPartuuid_mem ⟨asBytes (hyphenated ident.rootfsPartuuid), ?_,
    map_lowerByte_hyphenated⟩
  refine ⟨asBytes (before ++ pre), asBytes after, ?_⟩
  simp [asBytes, List.flatMap_append]

/-! ### The check -/

/-- A tree that passes has no file of its own below the checked directories that names one. -/
theorem check_eq_ok (h : k.check read entries = .ok ()) (he : e ∈ entries) (hpath : Checked e.path)
    {content : FileContent} (hkind : e.kind = .file content) :
    ∃ bytes, content.read read = .ok bytes ∧ NamesNone k.built bytes := by
  unfold TreeRekey.check at h
  obtain ⟨left, hleft, h⟩ := Outcome.bind_eq_ok.mp h
  obtain ⟨found, hfound, hrun⟩ := (Outcome.mapM_eq_ok hleft).1 e he
  have hnone : found = none := by
    split at h
    · rename_i hnil
      cases hf : found with
      | none => rfl
      | some note =>
        have hmem : note ∈ left.filterMap id := List.mem_filterMap.mpr ⟨_, hfound, hf⟩
        rw [hnil] at hmem
        cases hmem
    · cases h
  subst hnone
  unfold leftIdentifier at hrun
  rw [if_pos hpath, hkind] at hrun
  simp only at hrun
  split at hrun
  · cases hrun
  · rename_i bytes hread
    have hscan := Option.map_eq_none_iff.mp (Outcome.ok.inj hrun)
    exact ⟨bytes, hread, firstIdentifier_eq_none.mp hscan⟩

/-! ### The rewrite -/

/-- What a path leads to, through the hard links. -/
abbrev Leads (t : List SourceEntry) (path : Bytes) (e : SourceEntry) : Prop :=
  LeadsTo SourceEntry.path SourceEntry.link id t path e

/-- An entry once the files at some paths have other content. -/
def rewritten (swaps : List (Bytes × FileContent)) (e : SourceEntry) : SourceEntry :=
  ((firstWith Prod.fst swaps e.path).map fun s => e.withContent s.2).getD e

/-- The file at the path is text that names the build's root behind `pre`, and `content` is that
text with the fresh root in its place. -/
def Rerooted (k : TreeRekey) (read : FileRange → Except String Bytes) (t : List SourceEntry)
    (path : Bytes) (pre : Str) (content : FileContent) : Prop :=
  ∃ e ∈ t, e.path = path ∧ ∃ old text, e.kind = .file old ∧ old.read read = .ok (asBytes text) ∧
    1 ≤ countMatches text (pre ++ hyphenated k.built.rootfsPartuuid) ∧
    content = .owned (asBytes (replace text (pre ++ hyphenated k.built.rootfsPartuuid)
      (pre ++ hyphenated k.fresh.rootfsPartuuid)))

variable {swaps : List (Bytes × FileContent)} {content : FileContent}

@[simp] theorem rewritten_path : (rewritten swaps e).path = e.path := by
  unfold rewritten
  cases firstWith Prod.fst swaps e.path <;> rfl

theorem map_path_rewritten :
    (t.map (rewritten swaps)).map SourceEntry.path = t.map SourceEntry.path := by
  rw [List.map_map]
  exact List.map_congr_left fun _ _ => rewritten_path

theorem rewritten_eq_self (h : e.path ∉ swaps.map Prod.fst) : rewritten swaps e = e := by
  have hnone : firstWith Prod.fst swaps e.path = none :=
    firstWith_eq_none.mpr fun s hs he => h (List.mem_map.mpr ⟨s, hs, he⟩)
  rw [rewritten, hnone]
  rfl

theorem rewritten_of_mem (hn : (swaps.map Prod.fst).Nodup) (h : (e.path, content) ∈ swaps) :
    rewritten swaps e = e.withContent content := by
  rw [rewritten, (firstWith_eq_some_iff hn).mpr ⟨h, rfl⟩]
  rfl

/-- The position of a file in a tree, and what it is. -/
theorem regularFile_eq_ok {i : ℕ} (h : regularFile entries path = .ok (i, content)) :
    (entries.findIdx? fun e => e.path = path) = some i ∧
      ∃ e ∈ entries, e.path = path ∧ e.kind = .file content := by
  unfold regularFile at h
  split at h
  · cases h
  · rename_i j hj
    split at h
    · rename_i content' hkind
      obtain ⟨rfl, rfl⟩ := Prod.mk.inj (Outcome.ok.inj h)
      obtain ⟨e, he, hk⟩ := Option.map_eq_some_iff.mp hkind
      obtain ⟨hlt, hpath, -⟩ := List.findIdx?_eq_some_iff_getElem.mp hj
      obtain ⟨_, hget⟩ := List.getElem?_eq_some_iff.mp he
      rw [hget] at hpath
      exact ⟨hj, e, List.mem_of_getElem? he, by simpa using hpath, hk⟩
    · cases h

/-- Giving the file at one more path other content. -/
theorem modify_rewritten {i : ℕ} (hn : (t.map SourceEntry.path).Nodup)
    (hfresh : path ∉ swaps.map Prod.fst)
    (hi : ((t.map (rewritten swaps)).findIdx? fun e => e.path = path) = some i)
    (hmem : path ∈ t.map SourceEntry.path) :
    (t.map (rewritten swaps)).modify i (.withContent content) =
      t.map (rewritten (swaps ++ [(path, content)])) := by
  have hpaths : (t.map (rewritten swaps)).map SourceEntry.path = t.map SourceEntry.path :=
    map_path_rewritten
  have hmodify : (t.map (rewritten swaps) ++ []).modify i (.withContent content) = _ :=
    modify_findIdx? (hpaths ▸ hn) (hpaths ▸ hmem) (by rwa [List.append_nil])
  rw [List.append_nil, List.append_nil] at hmodify
  rw [hmodify, List.map_map]
  refine List.map_congr_left fun e _ => ?_
  rw [Function.comp_apply, rewritten_path]
  unfold rewritten
  rw [firstWith_append]
  split_ifs with hpath
  · have hnone : firstWith Prod.fst swaps e.path = none := firstWith_eq_none.mpr fun s hs he =>
      hfresh (List.mem_map.mpr ⟨s, hs, he.trans hpath⟩)
    have hsome : firstWith Prod.fst [(path, content)] e.path = some (path, content) := by
      simp [firstWith, hpath]
    rw [hnone, Option.none_or, hsome]
    rfl
  · have hnone : firstWith Prod.fst [(path, content)] e.path = none :=
      firstWith_eq_none.mpr (by simpa using Ne.symm hpath)
    rw [hnone, Option.or_none]

/-- The files of a tree that the rewrites so far did not touch are those of the tree. -/
theorem mem_of_rewritten {e' : SourceEntry} (he' : e' ∈ t.map (rewritten swaps))
    (hfresh : e'.path ∉ swaps.map Prod.fst) : e' ∈ t := by
  obtain ⟨e, he, rfl⟩ := List.mem_map.mp he'
  rw [rewritten_path] at hfresh
  rwa [rewritten_eq_self hfresh]

theorem rewriteText_eq_ok {pre : Str} {rule : Occurrences} {count : ℕ}
    (hn : (t.map SourceEntry.path).Nodup) (hfresh : path ∉ swaps.map Prod.fst)
    (h : rewriteText read (t.map (rewritten swaps)) path (pre ++ hyphenated k.built.rootfsPartuuid)
      (pre ++ hyphenated k.fresh.rootfsPartuuid) rule = .ok (t', count)) :
    ∃ content, Rerooted k read t path pre content ∧
      t' = t.map (rewritten (swaps ++ [(path, content)])) := by
  unfold rewriteText at h
  obtain ⟨⟨i, old⟩, hfile, h⟩ := Outcome.bind_eq_ok.mp h
  obtain ⟨hi, e, he, hpath, hkind⟩ := regularFile_eq_ok hfile
  have hmem : e ∈ t := mem_of_rewritten he (hpath ▸ hfresh)
  simp only at h
  split at h
  · cases h
  · rename_i bytes hread
    split at h
    · cases h
    · rename_i text htext
      split_ifs at h with hrule
      obtain ⟨rfl, -⟩ := Prod.mk.inj (Outcome.ok.inj h)
      have hcount : 1 ≤ countMatches text (pre ++ hyphenated k.built.rootfsPartuuid) := by
        cases rule <;> simp at hrule <;> omega
      refine ⟨_, ⟨e, hmem, hpath, old, text, hkind, ?_, hcount, rfl⟩, ?_⟩
      · rw [hread, eq_asBytes_of_fromUtf8 htext]
      · exact modify_rewritten hn hfresh hi (List.mem_map.mpr ⟨e, hmem, hpath⟩)

/-- The files a rewrite gives other content: those that name the build's root, and the kernel. -/
structure Rewrites (k : TreeRekey) (read : FileRange → Except String Bytes) (len : Str → Option UInt64)
    (t : List SourceEntry) (swaps : List (Bytes × FileContent)) : Prop where
  nodup : (swaps.map Prod.fst).Nodup
  checked : ∀ s ∈ swaps, Checked s.1
  fstab : ∃ content, (FSTAB, content) ∈ swaps ∧ Rerooted k read t FSTAB "PARTUUID=".toList content
  extlinux : k.extlinux = true → ∃ content, (EXTLINUX_CONF, content) ∈ swaps ∧
    Rerooted k read t EXTLINUX_CONF "root=PARTUUID=".toList content
  kernel : ∀ kpart, k.kpart = some kpart → ∃ size, len kpart.resigned = some size ∧
    (kpart.treePath, .range ⟨kpart.resigned, 0, size⟩) ∈ swaps ∧
    ∃ e ∈ t, e.path = kpart.treePath ∧ ∃ content, e.kind = .file content
  each : ∀ s ∈ swaps, (∃ pre, Rerooted k read t s.1 pre s.2) ∨
    ∃ kpart, k.kpart = some kpart ∧ s.1 = kpart.treePath

theorem treePath_checked (kpart : Kpart) : Checked kpart.treePath := by
  refine ⟨asBytes "/boot/".toList, by simp [CHECKED_PREFIXES], ?_⟩
  refine ⟨asBytes ("depthcharge/".toList ++ kpart.name), ?_⟩
  rw [Kpart.treePath, ← asBytes_append]
  rfl

theorem treePath_ne (kpart : Kpart) : kpart.treePath ≠ FSTAB ∧ kpart.treePath ≠ EXTLINUX_CONF := by
  constructor
  · intro h
    have htake : "/boot/d".toList = "/etc/fs".toList := congrArg (List.take 7) (asBytes_injective h)
    exact absurd htake (by decide)
  · intro h
    have htake : "/boot/d".toList = "/boot/e".toList := congrArg (List.take 7) (asBytes_injective h)
    exact absurd htake (by decide)

theorem extlinux_ne_fstab : EXTLINUX_CONF ≠ FSTAB := by decide +kernel

theorem fstab_checked : Checked FSTAB := by decide +kernel

theorem extlinux_checked : Checked EXTLINUX_CONF := by decide +kernel

/-- The change to the extlinux menu, on a board that boots by one. -/
def MenuRewrite (k : TreeRekey) (read : FileRange → Except String Bytes) (t : List SourceEntry)
    (menu : List (Bytes × FileContent)) : Prop :=
  (k.extlinux = false ∧ menu = []) ∨ ∃ content, k.extlinux = true ∧
    menu = [(EXTLINUX_CONF, content)] ∧
    Rerooted k read t EXTLINUX_CONF "root=PARTUUID=".toList content

/-- The change to the signed kernel, where the press re-signed one. -/
def KernelSwap (k : TreeRekey) (len : Str → Option UInt64) (t : List SourceEntry)
    (kernel : List (Bytes × FileContent)) : Prop :=
  (k.kpart = none ∧ kernel = []) ∨ ∃ kpart size, k.kpart = some kpart ∧
    len kpart.resigned = some size ∧
    kernel = [(kpart.treePath, .range ⟨kpart.resigned, 0, size⟩)] ∧
    ∃ e ∈ t, e.path = kpart.treePath ∧ ∃ content, e.kind = .file content

theorem rewrites_of {fstab : FileContent} {menu kernel : List (Bytes × FileContent)}
    (hfstab : Rerooted k read t FSTAB "PARTUUID=".toList fstab) (hmenu : MenuRewrite k read t menu)
    (hkernel : KernelSwap k len t kernel) :
    Rewrites k read len t ((FSTAB, fstab) :: (menu ++ kernel)) := by
  have hmenumem : ∀ s ∈ menu, s.1 = EXTLINUX_CONF ∧ ∃ pre, Rerooted k read t s.1 pre s.2 := by
    rintro s hs
    rcases hmenu with ⟨-, rfl⟩ | ⟨content, -, rfl, hroot⟩
    · cases hs
    · rw [List.mem_singleton.mp hs]
      exact ⟨rfl, _, hroot⟩
  have hkernelmem : ∀ s ∈ kernel, ∃ kpart, k.kpart = some kpart ∧ s.1 = kpart.treePath := by
    rintro s hs
    rcases hkernel with ⟨-, rfl⟩ | ⟨kpart, size, hk, -, rfl, -⟩
    · cases hs
    · rw [List.mem_singleton.mp hs]
      exact ⟨kpart, hk, rfl⟩
  refine ⟨?nodup, ?checked, ⟨fstab, List.mem_cons_self, hfstab⟩, ?extlinux, ?kernel, ?each⟩
  case nodup =>
    rcases hmenu with ⟨-, rfl⟩ | ⟨content, -, rfl, -⟩
    all_goals
      rcases hkernel with ⟨-, rfl⟩ | ⟨kpart, size, -, -, rfl, -⟩
    · simp
    · simp [(treePath_ne kpart).1.symm]
    · simp [extlinux_ne_fstab.symm]
    · simp [extlinux_ne_fstab.symm, (treePath_ne kpart).1.symm, (treePath_ne kpart).2.symm]
  case checked =>
    intro s hs
    rcases List.mem_cons.mp hs with rfl | hs
    · exact fstab_checked
    · rcases List.mem_append.mp hs with hs | hs
      · rw [(hmenumem s hs).1]
        exact extlinux_checked
      · obtain ⟨kpart, -, hpath⟩ := hkernelmem s hs
        rw [hpath]
        exact treePath_checked kpart
  case extlinux =>
    intro hext
    rcases hmenu with ⟨hno, -⟩ | ⟨content, -, rfl, hroot⟩
    · rw [hno] at hext
      cases hext
    · exact ⟨content, by simp, hroot⟩
  case kernel =>
    intro kpart hk
    rcases hkernel with ⟨hno, -⟩ | ⟨kpart', size, hk', hlen, rfl, hfile⟩
    · rw [hno] at hk
      cases hk
    · obtain rfl := Option.some.inj (hk'.symm.trans hk)
      exact ⟨size, hlen, by simp, hfile⟩
  case each =>
    intro s hs
    rcases List.mem_cons.mp hs with rfl | hs
    · exact .inl ⟨_, hfstab⟩
    · rcases List.mem_append.mp hs with hs | hs
      · exact .inl (hmenumem s hs).2
      · exact .inr (hkernelmem s hs)

theorem apply_rewrites {log : List (List Note)} (hn : (t.map SourceEntry.path).Nodup)
    (h : k.apply read len t = .ok (t', log)) :
    ∃ swaps, Rewrites k read len t swaps ∧ t' = t.map (rewritten swaps) := by
  have hnil : t.map (rewritten []) = t := List.map_id t
  unfold TreeRekey.apply at h
  obtain ⟨⟨t₁, log₁⟩, h₁, h⟩ := Outcome.bind_eq_ok.mp h
  obtain ⟨⟨t₁', count⟩, h₁', h₁⟩ := Outcome.bind_eq_ok.mp h₁
  rw [← hnil] at h₁'
  obtain ⟨fstab, hfstab, rfl⟩ := rewriteText_eq_ok hn (by simp) h₁'
  obtain ⟨rfl, -⟩ := Prod.mk.inj (Outcome.ok.inj h₁)
  obtain ⟨⟨t₂, log₂⟩, h₂, h⟩ := Outcome.bind_eq_ok.mp h
  obtain ⟨menu, hmenu, rfl⟩ : ∃ menu, MenuRewrite k read t menu ∧
      t₂ = t.map (rewritten ((FSTAB, fstab) :: menu)) := by
    unfold TreeRekey.rewriteMenu at h₂
    split_ifs at h₂ with hext
    · obtain ⟨⟨t₂', count₂⟩, h₂', h₂⟩ := Outcome.bind_eq_ok.mp h₂
      obtain ⟨content, hroot, rfl⟩ := rewriteText_eq_ok hn
        (by simpa using extlinux_ne_fstab) h₂'
      obtain ⟨rfl, -⟩ := Prod.mk.inj (Outcome.ok.inj h₂)
      exact ⟨_, .inr ⟨content, hext, rfl, hroot⟩, rfl⟩
    · obtain ⟨rfl, -⟩ := Prod.mk.inj (Outcome.ok.inj h₂)
      exact ⟨[], .inl ⟨by simpa using hext, rfl⟩, rfl⟩
  rw [TreeRekey.replaceKernel] at h
  split at h
  · rename_i hk
    obtain ⟨rfl, -⟩ := Prod.mk.inj (Outcome.ok.inj h)
    exact ⟨_, rewrites_of hfstab hmenu (.inl ⟨hk, rfl⟩), by rw [List.append_nil]⟩
  · rename_i kpart hk
    obtain ⟨size, hsize, h⟩ := Outcome.bind_eq_ok.mp h
    obtain ⟨⟨i, old⟩, hfile, h⟩ := Outcome.bind_eq_ok.mp h
    obtain ⟨rfl, -⟩ := Prod.mk.inj (Outcome.ok.inj h)
    obtain ⟨hi, e, he, hpath, hkind⟩ := regularFile_eq_ok hfile
    have hfresh : kpart.treePath ∉ ((FSTAB, fstab) :: menu).map Prod.fst := by
      rcases hmenu with ⟨-, rfl⟩ | ⟨content, -, rfl, -⟩
      · simpa using (treePath_ne kpart).1
      · simpa using treePath_ne kpart
    have hmem : e ∈ t := mem_of_rewritten he (hpath ▸ hfresh)
    refine ⟨_, rewrites_of hfstab hmenu (.inr ⟨kpart, size, hk, by simpa using hsize, rfl,
      e, hmem, hpath, old, hkind⟩), ?_⟩
    exact modify_rewritten hn hfresh hi (List.mem_map.mpr ⟨e, hmem, hpath⟩)

/-! ### A freshly pressed tree -/

/-- No file with a name under `/etc` or `/boot` names an identifier of the build, the references to
the root name the fresh one, and every file that named none is as it was. -/
structure Fresh (k : TreeRekey) (read : FileRange → Except String Bytes) (len : Str → Option UInt64)
    (t t' : List SourceEntry) : Prop where
  clean : ∀ path, Checked path → ∀ e, Leads t' path e → ∀ content bytes, e.kind = .file content →
    content.read read = .ok bytes → NamesNone k.built bytes
  fstab : ∃ content, Rerooted k read t FSTAB "PARTUUID=".toList content ∧
    ∃ e ∈ t', e.path = FSTAB ∧ e.kind = .file content
  menu : k.extlinux = true → ∃ content, Rerooted k read t EXTLINUX_CONF "root=PARTUUID=".toList content ∧
    ∃ e ∈ t', e.path = EXTLINUX_CONF ∧ e.kind = .file content
  kernel : ∀ kpart, k.kpart = some kpart → ∃ size, len kpart.resigned = some size ∧
    ∃ e ∈ t', e.path = kpart.treePath ∧ e.kind = .file (.range ⟨kpart.resigned, 0, size⟩)
  kept : ∀ path e content bytes, Leads t path e → e.kind = .file content →
    content.read read = .ok bytes → NamesNone k.built bytes →
    ∃ e' content', Leads t' path e' ∧ e'.kind = .file content' ∧ content'.read read = .ok bytes

/-- A file that only a hard link names under `/etc` or `/boot` names no identifier of the build. -/
def LinksClean (k : TreeRekey) (read : FileRange → Except String Bytes) (t : List SourceEntry) : Prop :=
  ∀ path, Checked path → ∀ e, Leads t path e → ¬Checked e.path → ∀ content bytes,
    e.kind = .file content → content.read read = .ok bytes → NamesNone k.built bytes

/-- The kernel that is replaced names an identifier of the build, or is replaced by itself. -/
def KernelNamed (k : TreeRekey) (read : FileRange → Except String Bytes) (len : Str → Option UInt64)
    (t : List SourceEntry) : Prop :=
  ∀ kpart, k.kpart = some kpart → ∀ e ∈ t, e.path = kpart.treePath → ∀ content bytes,
    e.kind = .file content → content.read read = .ok bytes → NamesNone k.built bytes →
    ∀ size, len kpart.resigned = some size → read ⟨kpart.resigned, 0, size⟩ = .ok bytes

theorem rewritten_link (h : ∀ s ∈ swaps, ∀ e ∈ t, e.path = s.1 → ∃ content, e.kind = .file content)
    (he : e ∈ t) : (rewritten swaps e).link = e.link := by
  by_cases hmem : e.path ∈ swaps.map Prod.fst
  · obtain ⟨s, hs, hpath⟩ := List.mem_map.mp hmem
    obtain ⟨content, hkind⟩ := h s hs e he hpath.symm
    unfold rewritten SourceEntry.link
    rw [hkind]
    cases firstWith Prod.fst swaps e.path with
    | none => simp [hkind]
    | some s => simp [SourceEntry.withContent]
  · rw [rewritten_eq_self hmem]

variable {log : List (List Note)}

/-- Each file whose content changes is one of the tree. -/
theorem Rewrites.isFile (h : Rewrites k read len t swaps) (hn : (t.map SourceEntry.path).Nodup) :
    ∀ s ∈ swaps, ∀ e ∈ t, e.path = s.1 → ∃ content, e.kind = .file content := by
  intro s hs e he hpath
  rcases h.each s hs with ⟨pre, f, hf, hfpath, old, text, hkind, -⟩ | ⟨kpart, hk, htree⟩
  · rw [List.inj_on_of_nodup_map hn he hf (hpath.trans hfpath.symm)]
    exact ⟨old, hkind⟩
  · obtain ⟨-, -, -, f, hf, hfpath, hfile⟩ := h.kernel kpart hk
    rwa [List.inj_on_of_nodup_map hn he hf (hpath.trans (htree.trans hfpath.symm))]

/-- A path leads to the same entry as before, perhaps with other content. -/
theorem Rewrites.leads_iff (h : Rewrites k read len t swaps) (hn : (t.map SourceEntry.path).Nodup)
    {e' : SourceEntry} : Leads (t.map (rewritten swaps)) path e' ↔
      ∃ e, Leads t path e ∧ e' = rewritten swaps e :=
  LeadsTo.map_iff (fun _ _ => rewritten_path) fun _ he => rewritten_link (h.isFile hn) he

/-- The file of a path that was given other content. -/
theorem Rewrites.exists_file (h : Rewrites k read len t swaps) (hmem : (path, content) ∈ swaps)
    (he : e ∈ t) (hpath : e.path = path) :
    ∃ e' ∈ t.map (rewritten swaps), e'.path = path ∧ e'.kind = .file content := by
  refine ⟨_, List.mem_map_of_mem he, rewritten_path.trans hpath, ?_⟩
  rw [rewritten_of_mem h.nodup (hpath ▸ hmem)]
  rfl

/-- Text that was rewritten named the build's root. -/
theorem Rerooted.not_namesNone {pre : Str} (hn : (t.map SourceEntry.path).Nodup)
    (h : Rerooted k read t path pre content) (he : e ∈ t) (hpath : e.path = path) {old : FileContent}
    (hkind : e.kind = .file old) (hread : old.read read = .ok bytes) : ¬NamesNone k.built bytes := by
  obtain ⟨f, hf, hfpath, old', text, hfkind, htext, hcount, -⟩ := h
  obtain rfl := List.inj_on_of_nodup_map hn he hf (hpath.trans hfpath.symm)
  obtain rfl := EntryKind.file.inj (hkind.symm.trans hfkind)
  obtain rfl := Except.ok.inj (hread.symm.trans htext)
  refine Press.not_namesNone (infix_of_countMatches ?_ hcount)
  intro hnil
  have hlen : (asBytes (hyphenated k.built.rootfsPartuuid)).length = 0 := by
    rw [(List.append_eq_nil_iff.mp hnil).2]
    rfl
  rw [length_hyphenated] at hlen
  cases hlen

/-- A press that rewrote and checked a tree left none of the build's identifiers in it, exactly if no
hard link under `/etc` or `/boot` is the only name there of a file that holds one. -/
theorem fresh_iff (hn : (t.map SourceEntry.path).Nodup) (happly : k.apply read len t = .ok (t', log))
    (hcheck : k.check read t' = .ok ()) :
    Fresh k read len t t' ↔ LinksClean k read t ∧ KernelNamed k read len t := by
  obtain ⟨swaps, hswaps, rfl⟩ := apply_rewrites hn happly
  have hn' : ((t.map (rewritten swaps)).map SourceEntry.path).Nodup := by
    rwa [map_path_rewritten]
  have hunchecked : ∀ e : SourceEntry, ¬Checked e.path → rewritten swaps e = e := fun e he =>
    rewritten_eq_self fun hmem => by
      obtain ⟨s, hs, hpath⟩ := List.mem_map.mp hmem
      exact he (hpath ▸ hswaps.checked s hs)
  constructor
  · intro h
    refine ⟨?links, ?kernel⟩
    case links =>
      intro path hpath e hlead hout content bytes hkind hread
      have hlead' : Leads (t.map (rewritten swaps)) path e :=
        (hswaps.leads_iff hn).mpr ⟨e, hlead, (hunchecked e hout).symm⟩
      exact h.clean path hpath e hlead' content bytes hkind hread
    case kernel =>
      intro kpart hk e he hpath content bytes hkind hread hnone size hsize
      have hlink : e.link = none := by rw [SourceEntry.link, hkind]
      obtain ⟨e', content', hlead, hkind', hread'⟩ :=
        h.kept e.path e content bytes (.here he hlink) hkind hread hnone
      obtain ⟨size', hsize', f, hf, hfpath, hfkind⟩ := h.kernel kpart hk
      have hflink : f.link = none := by rw [SourceEntry.link, hfkind]
      have hsame : e' = f := by
        rw [hpath, ← hfpath] at hlead
        exact hlead.unique hn' (.here hf hflink)
      rw [hsame] at hkind'
      obtain rfl := EntryKind.file.inj (hkind'.symm.trans hfkind)
      obtain rfl := Option.some.inj (hsize.symm.trans hsize')
      exact hread'
  · rintro ⟨hlinks, hkernel⟩
    refine ⟨?clean, ?fstab, ?menu, ?kernel, ?kept⟩
    case clean =>
      intro path hpath e' hlead content bytes hkind hread
      obtain ⟨e, hold, rfl⟩ := (hswaps.leads_iff hn).mp hlead
      by_cases hout : Checked e.path
      · obtain ⟨bytes', hread', hnone⟩ := check_eq_ok hcheck hlead.row_mem.1
          (by rwa [rewritten_path]) hkind
        obtain rfl := Except.ok.inj (hread.symm.trans hread')
        exact hnone
      · rw [hunchecked e hout] at hkind
        exact hlinks path hpath e hold hout content bytes hkind hread
    case fstab =>
      obtain ⟨content, hmem, hroot⟩ := hswaps.fstab
      obtain ⟨e, he, hpath, -⟩ := id hroot
      exact ⟨content, hroot, hswaps.exists_file hmem he hpath⟩
    case menu =>
      intro hext
      obtain ⟨content, hmem, hroot⟩ := hswaps.extlinux hext
      obtain ⟨e, he, hpath, -⟩ := id hroot
      exact ⟨content, hroot, hswaps.exists_file hmem he hpath⟩
    case kernel =>
      intro kpart hk
      obtain ⟨size, hsize, hmem, e, he, hpath, -⟩ := hswaps.kernel kpart hk
      exact ⟨size, hsize, hswaps.exists_file hmem he hpath⟩
    case kept =>
      intro path e content bytes hlead hkind hread hnone
      have he : e ∈ t := hlead.row_mem.1
      by_cases hmem : e.path ∈ swaps.map Prod.fst
      · obtain ⟨s, hs, hpath⟩ := List.mem_map.mp hmem
        rcases hswaps.each s hs with ⟨pre, hroot⟩ | ⟨kpart, hk, htree⟩
        · exact absurd hnone (hroot.not_namesNone hn he hpath.symm hkind hread)
        · obtain ⟨size, hsize, hswap, -⟩ := hswaps.kernel kpart hk
          have hepath : e.path = kpart.treePath := hpath.symm.trans htree
          refine ⟨_, .range ⟨kpart.resigned, 0, size⟩, (hswaps.leads_iff hn).mpr ⟨e, hlead, rfl⟩,
            ?_, hkernel kpart hk e he hepath content bytes hkind hread hnone size hsize⟩
          rw [rewritten_of_mem hswaps.nodup (hepath ▸ hswap)]
          rfl
      · exact ⟨e, content, (hswaps.leads_iff hn).mpr ⟨e, hlead, (rewritten_eq_self hmem).symm⟩,
          hkind, hread⟩

/-- Also where additions are merged before the check, no file of its own under `/etc` or `/boot` names
an identifier of the build. -/
theorem PressTree.apply_clean {Rest : Type} {p : PressTree} {out : Outside Rest}
    (h : p.apply len out t = .ok (t', log)) (hk : p.rekey = some k) (he : e ∈ t') (hpath : Checked e.path)
    (hkind : e.kind = .file content) :
    ∃ bytes, content.read out.read = .ok bytes ∧ NamesNone k.built bytes := by
  unfold PressTree.apply at h
  rw [hk] at h
  obtain ⟨⟨t₁, log₁⟩, -, h⟩ := Outcome.bind_eq_ok.mp h
  obtain ⟨t₂, -, h⟩ := Outcome.bind_eq_ok.mp h
  obtain ⟨_, hcheck, h⟩ := Outcome.bind_eq_ok.mp h
  obtain ⟨rfl, -⟩ := Prod.mk.inj (Outcome.ok.inj h)
  exact check_eq_ok hcheck he hpath hkind

/-! ### Two presses with a fresh identity -/

/-- Identifiers whose last bytes are `n` and count up. -/
def numberedIdentity (n : UInt8) : ImageIdentity where
  ext4Uuid := .ofFn fun i => if i = 15 then n else 0
  diskGuid := .ofFn fun i => if i = 15 then n + 1 else 0
  rootfsPartuuid := .ofFn fun i => if i = 15 then n + 2 else 0
  seedPartuuid := .ofFn fun i => if i = 15 then n + 3 else 0
  kpartGuids := .ofFn fun slot => .ofFn fun i => if i = 15 then n + 4 + UInt8.ofNat slot.1 else 0

def numberedRekey : TreeRekey := ⟨numberedIdentity 0x10, numberedIdentity 0xa0, false, none⟩

/-- A tree with a root entry, and a note that is stored at `stored` and named by `link` too. -/
def notedTree (stored link note : String) : List SourceEntry :=
  let root := String.ofList (hyphenated numberedRekey.built.rootfsPartuuid)
  let file (path body : String) : SourceEntry :=
    ⟨asBytes path.toList, .file (.owned (asBytes body.toList)), .new 0o644 ⟨0, 0⟩⟩
  [file "/etc/fstab" ("PARTUUID=" ++ root ++ "\t/\text4\n"), file stored note,
    ⟨asBytes link.toList, .hardLink (asBytes stored.toList), .new 0o644 ⟨0, 0⟩⟩]

def noHost : FileRange → Except String Bytes := fun _ => .error "not a file of this host"

theorem fresh_note : ∃ t' log,
    numberedRekey.apply noHost (fun _ => none) (notedTree "/etc/note" "/etc/alias" "d") = .ok (t', log) ∧
    numberedRekey.check noHost t' = .ok () ∧
    Fresh numberedRekey noHost (fun _ => none) (notedTree "/etc/note" "/etc/alias" "d") t' := by
  have hrun : (numberedRekey.apply noHost (fun _ => none)
      (notedTree "/etc/note" "/etc/alias" "d")).toOption.any
        fun r => numberedRekey.check noHost r.1 = .ok () := by decide +kernel
  obtain ⟨⟨t', log⟩, hok, hcheck⟩ := (Option.any_eq_true _ _).mp hrun
  have happly := Outcome.mem_toOption.mp hok
  have hchecked := of_decide_eq_true hcheck
  refine ⟨t', log, happly, hchecked, (fresh_iff (by decide +kernel) happly hchecked).mpr ⟨?_, ?_⟩⟩
  · intro path _ e hlead hout
    have hall : ∀ e ∈ notedTree "/etc/note" "/etc/alias" "d", Checked e.path := by decide +kernel
    exact absurd (hall e hlead.row_mem.1) hout
  · intro kpart hk
    cases hk

/-- A note under `/srv` that names the build's root stays one under `/etc` by its hard link there. -/
theorem linked_note_left : ∃ t' log,
    numberedRekey.apply noHost (fun _ => none) (notedTree "/srv/note" "/etc/note"
      (String.ofList (hyphenated numberedRekey.built.rootfsPartuuid))) = .ok (t', log) ∧
    numberedRekey.check noHost t' = .ok () ∧
    ∃ path e content bytes, Checked path ∧ Leads t' path e ∧ e.kind = .file content ∧
      content.read noHost = .ok bytes ∧ ¬NamesNone numberedRekey.built bytes := by
  let note : SourceEntry := ⟨asBytes "/srv/note".toList,
    .file (.owned (asBytes (hyphenated numberedRekey.built.rootfsPartuuid))), .new 0o644 ⟨0, 0⟩⟩
  let alias_ : SourceEntry := ⟨asBytes "/etc/note".toList, .hardLink note.path, .new 0o644 ⟨0, 0⟩⟩
  have hrun : (numberedRekey.apply noHost (fun _ => none) (notedTree "/srv/note" "/etc/note"
      (String.ofList (hyphenated numberedRekey.built.rootfsPartuuid)))).toOption.any fun r =>
        numberedRekey.check noHost r.1 = .ok () ∧ note ∈ r.1 ∧ alias_ ∈ r.1 := by decide +kernel
  obtain ⟨⟨t', log⟩, hok, hrest⟩ := (Option.any_eq_true _ _).mp hrun
  obtain ⟨hcheck, hnote, halias⟩ := of_decide_eq_true hrest
  refine ⟨t', log, Outcome.mem_toOption.mp hok, hcheck, alias_.path, note, _, _, by decide +kernel,
    .step halias rfl (.here hnote rfl), rfl, rfl, fun hnone => ?_⟩
  exact hnone _ rootfsPartuuid_mem ⟨_, List.infix_rfl, map_lowerByte_hyphenated⟩

end Boot2Deb.Press
