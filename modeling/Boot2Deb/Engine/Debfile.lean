import Boot2Deb.Core.Debcheck
import Boot2Deb.Rust.Lines
import Boot2Deb.Rust.Lossy
import Boot2Deb.Rust.Outcome
import Boot2Deb.Rust.Text

/-!
# Reading a package (`engine/src/debfile.rs`)

`read` walks the members of an `ar` archive and hands each tar member to its decompressor, as many
of its bytes as the file has. A file that ends in a header or in a member reads as one that ends
there, and a second member of a kind replaces what the first gave: what is read is the package
exactly where nothing of that is so (`read_sound_iff`).
-/

namespace Boot2Deb.Engine.Debfile
open Rust Core.Debcheck

deriving instance DecidableEq for DebEntry

def AR_MAGIC : Bytes := asBytes "!<arch>\n".toList

def AR_HEADER_LEN : ℕ := 60

/-- The end of a member header. -/
def AR_END : Bytes := asBytes "`\n".toList

def ELF_IDENT_LEN : ℕ := 20

/-! ### Decompressors and tar -/

/-- How a package fails to read: it is malformed, or a read of it fails. -/
inductive ReadError where
  | malformed (why : Str)
  | io (why : Str)
deriving DecidableEq

/-- What a reader yields, and how it breaks behind that. -/
structure Stream where
  bytes : Bytes
  broken : Option Str
deriving DecidableEq

inductive Compression where
  | xz | gz | zst
deriving DecidableEq

inductive EntryType where
  | regular | continuous | directory | symlink | link | other
deriving DecidableEq

/-- An entry of a tar archive, as the library reads it. -/
structure TarEntry where
  entryType : EntryType
  mode : Outcome Str UInt32
  uid : Outcome Str UInt64
  gid : Outcome Str UInt64
  pathBytes : Bytes
  content : Stream
deriving DecidableEq

/-- The libraries a tar member is read through. -/
structure Crates where
  /-- A decompressor over the bytes of a member. -/
  inflate : Compression → Bytes → Outcome Str Stream
  /-- The entries of a tar stream in order, and the error the last is followed by. -/
  tarEntries : Stream → List TarEntry × Option Str

variable (crates : Crates)

/-- `decompress`. -/
def decompress (member : Bytes) (suffix : Str) : Outcome ReadError Stream :=
  if suffix = [] then .ok ⟨member, none⟩
  else if suffix = ".xz".toList then (crates.inflate .xz member).mapErr .io
  else if suffix = ".gz".toList then (crates.inflate .gz member).mapErr .io
  else if suffix = ".zst".toList then (crates.inflate .zst member).mapErr .io
  else .err (.io ("an unknown tar compression '".toList ++ suffix ++ "'".toList))

/-! ### The tar members -/

/-- `read_to_string`. -/
def readToString (s : Stream) : Outcome Str Str :=
  match s.broken with
  | some e => .err e
  | none => Outcome.okOr (fromUtf8 s.bytes) "stream did not contain valid UTF-8".toList

/-- `read_control` over the entries. -/
def readControl : List TarEntry → Option Str → Outcome Str Str
  | [], some e => .err e
  | [], none => .err "no control file in the control archive".toList
  | entry :: entries, e =>
    let path := fromUtf8Lossy entry.pathBytes
    if path = "./control".toList ∨ path = "control".toList then readToString entry.content
    else readControl entries e

/-- `elf_ident`. -/
def elfIdent (pre : Bytes) : Option ElfIdent :=
  if pre.length < ELF_IDENT_LEN ∨ pre.take 4 ≠ [0x7f, 0x45, 0x4c, 0x46] then none
  else do
    let wide ← match pre.getD 4 0 with
      | 1 => some false
      | 2 => some true
      | _ => none
    let low := (pre.getD 18 0).toNat
    let high := (pre.getD 19 0).toNat
    let machine ← match pre.getD 5 0 with
      | 1 => some (low + 256 * high)
      | 2 => some (high + 256 * low)
      | _ => none
    some ⟨wide, UInt16.ofNat machine⟩

def EntryType.kind : EntryType → EntryKind
  | regular | continuous => .file
  | directory => .dir
  | symlink => .symlink
  | link => .hardlink
  | other => .other

/-- The first bytes of a file, as far as it has them. -/
def readPrefix (s : Stream) : Outcome Str Bytes :=
  match s.broken with
  | some e => if s.bytes.length < ELF_IDENT_LEN then .err e else .ok (s.bytes.take ELF_IDENT_LEN)
  | none => .ok (s.bytes.take ELF_IDENT_LEN)

/-- One turn of `read_data`. -/
def debEntry (entry : TarEntry) : Outcome Str DebEntry := do
  let kind := entry.entryType.kind
  let mode ← entry.mode
  let uid ← entry.uid
  let gid ← entry.gid
  let elf ← if kind = .file then (readPrefix entry.content).bind fun pre => .ok (elfIdent pre)
    else .ok none
  .ok ⟨fromUtf8Lossy entry.pathBytes, kind, mode, uid, gid, elf⟩

/-- `read_data` over the entries. -/
def readData : List TarEntry → Option Str → Outcome Str (List DebEntry)
  | [], some e => .err e
  | [], none => .ok []
  | entry :: entries, e => do
    let first ← debEntry entry
    let rest ← readData entries e
    .ok (first :: rest)

/-- `parse_control`: the fields, a line that continues one joined to it. -/
def parseControl (text : Str) : Str → Option Str :=
  ((lines text).foldl (fun (state : (Str → Option Str) × Option Str) line =>
    match line with
    | ' ' :: _ | '\t' :: _ =>
      match state.2 with
      | some key => (Function.update state.1 key
          ((state.1 key).map fun value => value ++ '\n' :: trim line), state.2)
      | none => state
    | _ =>
      match splitOnce line ':' with
      | some (key, value) =>
        (Function.update state.1 (trim key) (some (trim value)), some (trim key))
      | none => state) (fun _ => none, none)).1

/-! ### The archive -/

/-- A member by its header, its data as far as the file has it, and the byte that aligns it. -/
structure Member where
  header : Bytes
  data : Bytes
  pad : Bytes
deriving DecidableEq

/-- The name in a member header. -/
def memberName (header : Bytes) : Str :=
  (trimEnd (fromUtf8Lossy (header.take 16))).rdropWhile (· = '/')

/-- The size in a member header. -/
def memberSize (header : Bytes) : Option ℕ :=
  (parseU64 (trim (fromUtf8Lossy ((header.drop 48).take 10)))).map UInt64.toNat

def CONTROL : Str := "control.tar".toList

def DATA : Str := "data.tar".toList

/-- The text of the control file of a member. -/
def controlOf (m : Member) (suffix : Str) : Outcome ReadError Str := do
  let stream ← decompress crates m.data suffix
  let (entries, e) := crates.tarEntries stream
  (readControl entries e).mapErr fun e => .malformed (memberName m.header ++ ": ".toList ++ e)

def dataOf (m : Member) (suffix : Str) : Outcome ReadError (List DebEntry) := do
  let stream ← decompress crates m.data suffix
  let (entries, e) := crates.tarEntries stream
  (readData entries e).mapErr fun e => .malformed (memberName m.header ++ ": ".toList ++ e)

/-- What the members gave so far: the last control file, the last list of entries. -/
structure State where
  control : Option Str
  entries : Option (List DebEntry)
deriving DecidableEq

/-- What one member adds. -/
def takeMember (state : State) (m : Member) : Outcome ReadError State :=
  match stripPrefix (memberName m.header) CONTROL with
  | some suffix => (controlOf crates m suffix).bind fun control =>
      .ok { state with control := some control }
  | none =>
    match stripPrefix (memberName m.header) DATA with
    | some suffix => (dataOf crates m suffix).bind fun entries =>
        .ok { state with entries := some entries }
    | none => .ok state

/-- One turn of the loop, on a file that still has a header. -/
def readMember (state : State) (rest : Bytes) : Outcome ReadError (State × Bytes) := do
  let header := rest.take AR_HEADER_LEN
  if header.drop 58 ≠ AR_END then .err (.malformed "a corrupt ar member header".toList)
  else
    let size ← Outcome.okOr (memberSize header) (.malformed ("ar member ".toList ++
      memberName header ++ " has no valid size".toList))
    let behind := (rest.drop AR_HEADER_LEN).drop size
    let state ← takeMember crates state ⟨header, (rest.drop AR_HEADER_LEN).take size, []⟩
    if size % 2 = 1 ∧ behind = [] then .err (.io "failed to fill whole buffer".toList)
    else .ok (state, behind.drop (size % 2))

theorem readMember_length {state state' : State} {rest behind : Bytes}
    (h : readMember crates state rest = .ok (state', behind)) :
    behind.length ≤ rest.length - AR_HEADER_LEN := by
  rw [readMember] at h
  split_ifs at h
  obtain ⟨size, -, h⟩ := Outcome.bind_eq_ok.mp h
  obtain ⟨_, -, h⟩ := Outcome.bind_eq_ok.mp h
  split_ifs at h
  obtain ⟨-, rfl⟩ := Prod.mk.inj (Outcome.ok.inj h)
  simp only [List.length_drop]
  omega

/-- The loop. Where the file has no whole header left, it is at its end. -/
def readMembers (state : State) (rest : Bytes) : Outcome ReadError State :=
  if _h : rest.length < AR_HEADER_LEN then .ok state
  else match _hstep : readMember crates state rest with
    | .ok (state', behind) => readMembers state' behind
    | .err e => .err e
    | .panic => .panic
termination_by rest.length
decreasing_by
  have := readMember_length crates _hstep
  have : 0 < AR_HEADER_LEN := by decide
  omega

/-- `read`, of the bytes of a file. -/
def read (file : Bytes) : Outcome ReadError DebContents := do
  if file.length < 8 then
    .err (.malformed "not an ar archive (failed to fill whole buffer)".toList)
  else if file.take 8 ≠ AR_MAGIC then .err (.malformed "not an ar archive".toList)
  else
    let state ← readMembers crates ⟨none, none⟩ (file.drop 8)
    match state.control, state.entries with
    | some control, some entries => .ok ⟨parseControl control, entries⟩
    | _, _ => .err (.malformed
        "a .deb contains a control.tar and a data.tar member, and this does not".toList)

/-! ### Whole archives -/

def Member.bytes (m : Member) : Bytes := m.header ++ m.data ++ m.pad

def isControl (m : Member) : Bool := CONTROL <+: memberName m.header

def isData (m : Member) : Bool := DATA <+: memberName m.header

/-- A member all of which is in the file. -/
structure Member.Whole (m : Member) : Prop where
  header : m.header.length = AR_HEADER_LEN
  ending : m.header.drop 58 = AR_END
  size : memberSize m.header = some m.data.length
  pad : m.pad.length = m.data.length % 2

/-- An archive of whole members and nothing else. -/
structure IsArchive (file : Bytes) (ms : List Member) : Prop where
  bytes : file = AR_MAGIC ++ ms.flatMap Member.bytes
  whole : ∀ m ∈ ms, m.Whole

/-- A list of entries is that of a data member: every member of its archive, in order, and the
archive ends without an error. -/
def AllEntries (m : Member) (entries : List DebEntry) : Prop :=
  ∃ suffix stream found, stripPrefix (memberName m.header) DATA = some suffix ∧
    decompress crates m.data suffix = .ok stream ∧ crates.tarEntries stream = (found, none) ∧
    List.Forall₂ (fun e entry => debEntry e = .ok entry) found entries

/-- A package read as it is: a whole archive, one control and one data member, and all its entries. -/
def Sound (file : Bytes) (contents : DebContents) : Prop :=
  ∃ ms control data, IsArchive file ms ∧ ms.filter isControl = [control] ∧
    ms.filter isData = [data] ∧ AllEntries crates data contents.entries

/-- The members a walk along the headers finds, and what is behind the last. -/
def walk (rest : Bytes) : List Member × Bytes :=
  if _h : rest.length < AR_HEADER_LEN then ([], rest)
  else match memberSize (rest.take AR_HEADER_LEN) with
    | none => ([], rest)
    | some size =>
      let body := rest.drop AR_HEADER_LEN
      let behind := body.drop size
      let (ms, trailing) := walk (behind.drop (size % 2))
      (⟨rest.take AR_HEADER_LEN, body.take size, behind.take (size % 2)⟩ :: ms, trailing)
termination_by rest.length
decreasing_by
  have : 0 < AR_HEADER_LEN := by decide
  simp only [List.length_drop]
  omega

/-- What `read` does not look at: whether the file ends in a header or in a member, and whether a
kind comes twice. -/
structure Complete (file : Bytes) : Prop where
  trailing : (walk (file.drop 8)).2 = []
  short : ∀ m ∈ (walk (file.drop 8)).1, ∀ size, memberSize m.header = some size →
    size ≤ m.data.length
  control : ((walk (file.drop 8)).1.filter isControl).length ≤ 1
  data : ((walk (file.drop 8)).1.filter isData).length ≤ 1

/-! ### The walk -/

variable {crates : Crates} {state state' : State} {rest file : Bytes} {m : Member}
  {ms : List Member} {contents : DebContents}

theorem walk_bytes_append (hm : m.Whole) (more : Bytes) :
    walk (m.bytes ++ more) = (m :: (walk more).1, (walk more).2) := by
  have hbytes : m.bytes ++ more = m.header ++ (m.data ++ (m.pad ++ more)) := by
    simp only [Member.bytes, List.append_assoc]
  have htake : (m.bytes ++ more).take AR_HEADER_LEN = m.header := by
    rw [hbytes, ← hm.header, List.take_left]
  have hdrop : (m.bytes ++ more).drop AR_HEADER_LEN = m.data ++ (m.pad ++ more) := by
    rw [hbytes, ← hm.header, List.drop_left]
  have hlong : ¬(m.bytes ++ more).length < AR_HEADER_LEN := by
    rw [hbytes, List.length_append, hm.header]
    omega
  rw [walk, dif_neg hlong, htake, hdrop, hm.size]
  simp only [List.take_left, List.drop_left, ← hm.pad]

/-- Whole members are found as they are, whatever follows them. -/
theorem walk_flatMap (hms : ∀ m ∈ ms, m.Whole) (more : Bytes) :
    walk (ms.flatMap Member.bytes ++ more) = (ms ++ (walk more).1, (walk more).2) := by
  induction ms with
  | nil => rfl
  | cons m ms ih =>
    obtain ⟨hm, hms⟩ := List.forall_mem_cons.mp hms
    rw [List.flatMap_cons, List.append_assoc, walk_bytes_append hm, ih hms, List.cons_append]

theorem IsArchive.walk_eq (h : IsArchive file ms) : walk (file.drop 8) = (ms, []) := by
  have hdrop : file.drop 8 = ms.flatMap Member.bytes ++ [] := by
    rw [h.bytes, List.append_nil]
    exact @List.drop_left _ AR_MAGIC _
  have hnil : walk [] = ([], []) := by rw [walk, dif_pos (by decide)]
  rw [hdrop, walk_flatMap h.whole, hnil, List.append_nil]

/-- What a run that ends well makes of the members of the walk. -/
def takeAll (crates : Crates) : State → List Member → Outcome ReadError State
  | state, [] => .ok state
  | state, m :: ms => (takeMember crates state m).bind fun state => takeAll crates state ms

/-- A member the walk found in a file that reads: all but its data is there. -/
structure Found (m : Member) : Prop where
  header : m.header.length = AR_HEADER_LEN
  ending : m.header.drop 58 = AR_END
  size : ∃ size, memberSize m.header = some size ∧
    (size ≤ m.data.length → size = m.data.length ∧ m.pad.length = m.data.length % 2)

/-- One turn takes the member the walk finds. -/
theorem readMember_walk (hlong : ¬rest.length < AR_HEADER_LEN) {behind : Bytes}
    (h : readMember crates state rest = .ok (state', behind)) :
    ∃ m, walk rest = (m :: (walk behind).1, (walk behind).2) ∧
      takeMember crates state m = .ok state' ∧ Found m ∧ rest = m.bytes ++ behind := by
  rw [readMember] at h
  split_ifs at h with hending
  obtain ⟨size, hsize, h⟩ := Outcome.bind_eq_ok.mp h
  obtain ⟨next, htake, h⟩ := Outcome.bind_eq_ok.mp h
  split_ifs at h with hpad
  obtain ⟨rfl, rfl⟩ := Prod.mk.inj (Outcome.ok.inj h)
  have hsize : memberSize (rest.take AR_HEADER_LEN) = some size := by
    cases hs : memberSize (rest.take AR_HEADER_LEN) with
    | none =>
      rw [hs] at hsize
      cases hsize
    | some n =>
      rw [hs] at hsize
      rw [Outcome.ok.inj hsize]
  refine ⟨⟨rest.take AR_HEADER_LEN, (rest.drop AR_HEADER_LEN).take size,
    ((rest.drop AR_HEADER_LEN).drop size).take (size % 2)⟩, ?_, htake, ⟨?_, ?_, size, hsize, ?_⟩, ?_⟩
  · rw [walk, dif_neg hlong, hsize]
  · rw [List.length_take]
    omega
  · exact not_not.mp hending
  · intro hle
    have hlen := List.length_take (i := size) (l := rest.drop AR_HEADER_LEN)
    have hdata : size = ((rest.drop AR_HEADER_LEN).take size).length := by
      show size = _
      simp only at hle
      omega
    refine ⟨hdata, ?_⟩
    show (((rest.drop AR_HEADER_LEN).drop size).take (size % 2)).length = _
    rw [← hdata, List.length_take]
    rcases Nat.mod_two_eq_zero_or_one size with heven | hodd
    · omega
    · have := List.length_pos_of_ne_nil fun he => hpad ⟨hodd, he⟩
      omega
  · simp only [Member.bytes, List.append_assoc, List.take_append_drop]

theorem readMembers_walk (h : readMembers crates state rest = .ok state') :
    takeAll crates state (walk rest).1 = .ok state' ∧ (∀ m ∈ (walk rest).1, Found m) ∧
      rest = (walk rest).1.flatMap Member.bytes ++ (walk rest).2 := by
  induction hlen : rest.length using Nat.strong_induction_on generalizing rest state with
  | h n ih =>
    rw [readMembers] at h
    split at h
    · rename_i hshort
      obtain rfl := Outcome.ok.inj h
      rw [walk, dif_pos hshort]
      exact ⟨rfl, fun _ h => (nomatch h), rfl⟩
    · rename_i hlong
      split at h
      · rename_i next behind hstep
        obtain ⟨m, hwalk, htake, hfound, hrest⟩ := readMember_walk hlong hstep
        have hlt := readMember_length crates hstep
        have hpos : 0 < AR_HEADER_LEN := by decide
        obtain ⟨hall, hmore, hbehind⟩ := ih behind.length (by omega) h rfl
        rw [hwalk]
        refine ⟨?_, List.forall_mem_cons.mpr ⟨hfound, hmore⟩, ?_⟩
        · rw [takeAll, htake]
          exact hall
        · rw [List.flatMap_cons, List.append_assoc, ← hbehind]
          exact hrest
      · cases h
      · cases h

/-! ### What the members give -/

theorem not_isData_of_isControl (h : isControl m = true) : isData m = false := by
  rw [isControl, decide_eq_true_eq] at h
  rw [isData, decide_eq_false_iff_not]
  intro hd
  obtain ⟨a, ha⟩ := h
  obtain ⟨b, hb⟩ := hd
  rw [← ha] at hb
  exact absurd (List.cons.inj hb).1 (by decide)

theorem takeMember_cases (h : takeMember crates state m = .ok state') :
    (isControl m = true ∧ state'.entries = state.entries) ∨
      (isControl m = false ∧ isData m = true ∧ state'.control = state.control ∧
        ∃ suffix entries, stripPrefix (memberName m.header) DATA = some suffix ∧
          dataOf crates m suffix = .ok entries ∧ state'.entries = some entries) ∨
      (isControl m = false ∧ isData m = false ∧ state' = state) := by
  rw [takeMember] at h
  split at h
  · rename_i suffix hsuffix
    obtain ⟨control, -, h⟩ := Outcome.bind_eq_ok.mp h
    obtain rfl := Outcome.ok.inj h
    rw [stripPrefix] at hsuffix
    split_ifs at hsuffix with hpre
    exact .inl ⟨decide_eq_true hpre, rfl⟩
  · rename_i hcontrol
    have hcontrol : isControl m = false := by
      rw [stripPrefix] at hcontrol
      split_ifs at hcontrol with hpre
      exact decide_eq_false hpre
    split at h
    · rename_i suffix hsuffix
      obtain ⟨entries, hentries, h⟩ := Outcome.bind_eq_ok.mp h
      obtain rfl := Outcome.ok.inj h
      have hdata : isData m = true := by
        rw [stripPrefix] at hsuffix
        split_ifs at hsuffix with hpre
        exact decide_eq_true hpre
      exact .inr (.inl ⟨hcontrol, hdata, rfl, suffix, entries, hsuffix, hentries, rfl⟩)
    · rename_i hdata
      obtain rfl := Outcome.ok.inj h
      refine .inr (.inr ⟨hcontrol, ?_, rfl⟩)
      rw [stripPrefix] at hdata
      split_ifs at hdata with hpre
      exact decide_eq_false hpre

/-- Without a member of a kind, nothing of it is taken. -/
theorem takeAll_none (h : takeAll crates state ms = .ok state') :
    (ms.filter isControl = [] → state'.control = state.control) ∧
      (ms.filter isData = [] → state'.entries = state.entries) := by
  induction ms generalizing state with
  | nil =>
    obtain rfl := Outcome.ok.inj h
    exact ⟨fun _ => rfl, fun _ => rfl⟩
  | cons m ms ih =>
    obtain ⟨next, hstep, h⟩ := Outcome.bind_eq_ok.mp h
    obtain ⟨ihControl, ihData⟩ := ih h
    rcases takeMember_cases hstep with ⟨hc, hkept⟩ | ⟨hc, hd, hkept, -⟩ | ⟨hc, hd, rfl⟩
    · rw [List.filter_cons_of_pos hc, List.filter_cons_of_neg (by simp [not_isData_of_isControl hc])]
      exact ⟨fun h => (nomatch h), fun h => (ihData h).trans hkept⟩
    · rw [List.filter_cons_of_neg (by simp [hc]), List.filter_cons_of_pos hd]
      exact ⟨fun h => (ihControl h).trans hkept, fun h => (nomatch h)⟩
    · rw [List.filter_cons_of_neg (by simp [hc]), List.filter_cons_of_neg (by simp [hd])]
      exact ⟨ihControl, ihData⟩

/-- With one data member, its entries are taken. -/
theorem takeAll_data {d : Member} (h : takeAll crates state ms = .ok state')
    (hone : ms.filter isData = [d]) : ∃ suffix entries,
      stripPrefix (memberName d.header) DATA = some suffix ∧
        dataOf crates d suffix = .ok entries ∧ state'.entries = some entries := by
  induction ms generalizing state with
  | nil => cases hone
  | cons m ms ih =>
    obtain ⟨next, hstep, hrest⟩ := Outcome.bind_eq_ok.mp h
    rcases takeMember_cases hstep with ⟨hc, -⟩ | ⟨hc, hd, -, suffix, entries, hsuffix, hentries, hset⟩ |
      ⟨-, hd, rfl⟩
    · rw [List.filter_cons_of_neg (by simp [not_isData_of_isControl hc])] at hone
      exact ih hrest hone
    · rw [List.filter_cons_of_pos hd] at hone
      obtain ⟨rfl, hnone⟩ := List.cons.inj hone
      exact ⟨suffix, entries, hsuffix, hentries, ((takeAll_none hrest).2 hnone).trans hset⟩
    · rw [List.filter_cons_of_neg (by simp [hd])] at hone
      exact ih hrest hone

theorem readData_eq_ok {found : List TarEntry} {e : Option Str} {entries : List DebEntry}
    (h : readData found e = .ok entries) :
    e = none ∧ List.Forall₂ (fun e entry => debEntry e = .ok entry) found entries := by
  induction found generalizing entries with
  | nil =>
    cases e with
    | none =>
      obtain rfl := Outcome.ok.inj h
      exact ⟨rfl, .nil⟩
    | some e => cases h
  | cons first found ih =>
    obtain ⟨entry, hentry, h⟩ := Outcome.bind_eq_ok.mp h
    obtain ⟨more, hmore, h⟩ := Outcome.bind_eq_ok.mp h
    obtain rfl := Outcome.ok.inj h
    obtain ⟨hnone, hall⟩ := ih hmore
    exact ⟨hnone, .cons hentry hall⟩

theorem allEntries_of_dataOf {suffix : Str} {entries : List DebEntry}
    (hsuffix : stripPrefix (memberName m.header) DATA = some suffix)
    (h : dataOf crates m suffix = .ok entries) : AllEntries crates m entries := by
  obtain ⟨stream, hstream, h⟩ := Outcome.bind_eq_ok.mp h
  cases hfound : crates.tarEntries stream with
  | mk found e =>
    simp only [hfound] at h
    have hread : readData found e = .ok entries := by
      cases hr : readData found e <;> rw [hr] at h <;> cases h
      rfl
    obtain ⟨rfl, hall⟩ := readData_eq_ok hread
    exact ⟨suffix, stream, found, hsuffix, hstream, hfound, hall⟩

/-- A data member has one list of entries. -/
theorem AllEntries.unique {entries entries' : List DebEntry} (h : AllEntries crates m entries)
    (h' : AllEntries crates m entries') : entries = entries' := by
  obtain ⟨suffix, stream, found, hsuffix, hstream, hfound, hall⟩ := h
  obtain ⟨suffix', stream', found', hsuffix', hstream', hfound', hall'⟩ := h'
  obtain rfl := Option.some.inj (hsuffix.symm.trans hsuffix')
  obtain rfl := Outcome.ok.inj (hstream.symm.trans hstream')
  obtain ⟨rfl, -⟩ := Prod.mk.inj (hfound.symm.trans hfound')
  clear hfound hfound'
  induction hall generalizing entries' with
  | nil => cases hall'; rfl
  | cons hfirst _ ih =>
    cases hall' with
    | cons hfirst' hmore' =>
      rw [Outcome.ok.inj (hfirst.symm.trans hfirst'), ih hmore']

/-! ### What is read -/

theorem read_eq_ok (h : read crates file = .ok contents) :
    file = AR_MAGIC ++ file.drop 8 ∧ ∃ state control, readMembers crates ⟨none, none⟩ (file.drop 8) =
      .ok state ∧ state.control = some control ∧ state.entries = some contents.entries := by
  rw [read] at h
  split_ifs at h with hshort hmagic
  obtain ⟨state, hrun, h⟩ := Outcome.bind_eq_ok.mp h
  split at h
  · rename_i control entries hcontrol hentries
    obtain rfl := Outcome.ok.inj h
    refine ⟨?_, state, control, hrun, hcontrol, hentries⟩
    rw [← not_not.mp hmagic, List.take_append_drop]
  · cases h

theorem eq_singleton_of_length_le_one {α : Type*} {l : List α} (h : l.length ≤ 1) (hne : l ≠ []) :
    ∃ a, l = [a] := by
  match l, h, hne with
  | [a], _, _ => exact ⟨a, rfl⟩

theorem sound_of_complete (h : read crates file = .ok contents) (hc : Complete file) :
    Sound crates file contents := by
  obtain ⟨hmagic, state, control, hrun, hcontrol, hentries⟩ := read_eq_ok h
  obtain ⟨hall, hfound, hbytes⟩ := readMembers_walk hrun
  obtain ⟨hnoControl, hnoData⟩ := takeAll_none hall
  obtain ⟨c, hone⟩ := eq_singleton_of_length_le_one hc.control fun hnil => by
    rw [hnoControl hnil] at hcontrol
    cases hcontrol
  obtain ⟨d, hdata⟩ := eq_singleton_of_length_le_one hc.data fun hnil => by
    rw [hnoData hnil] at hentries
    cases hentries
  obtain ⟨suffix, entries, hsuffix, hread, hset⟩ := takeAll_data hall hdata
  obtain rfl := Option.some.inj (hentries.symm.trans hset)
  refine ⟨_, c, d, ⟨?_, fun m hm => ?_⟩, hone, hdata, allEntries_of_dataOf hsuffix hread⟩
  · rw [hc.trailing, List.append_nil] at hbytes
    rw [← hbytes]
    exact hmagic
  · obtain ⟨hheader, hending, size, hsize, hwhole⟩ := hfound m hm
    obtain ⟨rfl, hpad⟩ := hwhole (hc.short m hm size hsize)
    exact ⟨hheader, hending, hsize, hpad⟩

theorem Sound.complete (h : Sound crates file contents) : Complete file := by
  obtain ⟨ms, control, data, harchive, hcontrol, hdata, -⟩ := h
  have hwalk := harchive.walk_eq
  refine ⟨by rw [hwalk], fun m hm size hsize => ?_, ?_, ?_⟩
  · rw [hwalk] at hm
    rw [(harchive.whole m hm).size] at hsize
    exact (Option.some.inj hsize).ge
  · rw [hwalk, hcontrol]
    exact le_refl 1
  · rw [hwalk, hdata]
    exact le_refl 1

/-- A file that ends inside the data of a member is not complete. -/
theorem not_complete_cut {front : List Member} {q : Bytes} (hfront : ∀ m ∈ front, m.Whole)
    (hm : m.Whole) (hq : q.length < m.data.length) :
    ¬Complete (AR_MAGIC ++ (front.flatMap Member.bytes ++ (m.header ++ q))) := by
  intro h
  have hdrop : (AR_MAGIC ++ (front.flatMap Member.bytes ++ (m.header ++ q))).drop 8 =
      front.flatMap Member.bytes ++ (m.header ++ q) := @List.drop_left _ AR_MAGIC _
  have hlong : ¬(m.header ++ q).length < AR_HEADER_LEN := by
    rw [List.length_append, hm.header]
    omega
  have htake : (m.header ++ q).take AR_HEADER_LEN = m.header ∧
      (m.header ++ q).drop AR_HEADER_LEN = q := by
    rw [← hm.header]
    exact ⟨List.take_left, List.drop_left⟩
  obtain ⟨m', more, hwalk, hheader, hdata⟩ : ∃ m' more, (walk (m.header ++ q)).1 = m' :: more ∧
      m'.header = m.header ∧ m'.data = q := by
    rw [walk, dif_neg hlong, htake.1, htake.2, hm.size]
    exact ⟨_, _, rfl, rfl, List.take_of_length_le hq.le⟩
  have hshort := h.short m' (by
    rw [hdrop, walk_flatMap hfront, hwalk]
    exact List.mem_append_right _ (List.mem_cons_self ..)) _ (hheader ▸ hm.size)
  rw [hdata] at hshort
  omega

/-- What is read is the package exactly if the file is complete; and of complete files, none is
another cut in its data member, and one with members more has the same entries. -/
theorem read_sound_iff (h : read crates file = .ok contents) :
    (Sound crates file contents ↔ Complete file) ∧
      ∀ ms, IsArchive file ms →
        (∀ front m back q, ms = front ++ m :: back → isData m = true → q <+: m.data → q ≠ m.data →
          ¬Complete (AR_MAGIC ++ (front.flatMap Member.bytes ++ (m.header ++ q)))) ∧
        (Complete file → ∀ file' ms' contents', IsArchive file' ms' → ms.Sublist ms' →
          read crates file' = .ok contents' → Complete file' →
            contents'.entries = contents.entries) := by
  refine ⟨⟨Sound.complete, sound_of_complete h⟩, fun ms hms => ⟨?_, ?_⟩⟩
  · rintro front m back q rfl - hq hne
    have hwhole := hms.whole
    refine not_complete_cut (fun m hm => hwhole m (List.mem_append_left _ hm))
      (hwhole m (List.mem_append_right _ (List.mem_cons_self ..))) ?_
    exact lt_of_le_of_ne hq.length_le fun hlen => hne (hq.eq_of_length hlen)
  · intro hcomplete file' ms' contents' hms' hsub h' hcomplete'
    obtain ⟨ms₁, -, d, harchive, -, hdata, hentries⟩ := sound_of_complete h hcomplete
    obtain ⟨ms₂, -, d', harchive', -, hdata', hentries'⟩ := sound_of_complete h' hcomplete'
    obtain ⟨rfl, -⟩ := Prod.mk.inj (hms.walk_eq.symm.trans harchive.walk_eq)
    obtain ⟨rfl, -⟩ := Prod.mk.inj (hms'.walk_eq.symm.trans harchive'.walk_eq)
    have hone := hsub.filter isData
    rw [hdata, hdata'] at hone
    obtain rfl : d = d' := List.mem_singleton.mp (hone.subset (List.mem_singleton_self d))
    exact hentries'.unique hentries

/-! ### A package that loses a member -/

/-- The number of an octal field. -/
def octalField (b : Bytes) : ℕ :=
  (b.takeWhile fun d => 0x30 ≤ d && d ≤ 0x37).foldl (fun v d => v * 8 + (d.toNat - 0x30)) 0

/-- The entries of a plain tar stream. One that ends before a header is at its end. -/
def plainEntries : ℕ → Bytes → List TarEntry × Option Str
  | 0, _ => ([], none)
  | blocks + 1, bytes =>
    if bytes.isEmpty then ([], none)
    else if bytes.length < 512 then ([], some "failed to read entire block".toList)
    else if (bytes.take 512).all (· = 0) then ([], none)
    else
      let size := octalField ((bytes.drop 124).take 12)
      let entry : TarEntry :=
        { entryType := if bytes.getD 156 0 = 0x35 then .directory else .regular
          mode := .ok (UInt32.ofNat (octalField ((bytes.drop 100).take 8)))
          uid := .ok (UInt64.ofNat (octalField ((bytes.drop 108).take 8)))
          gid := .ok (UInt64.ofNat (octalField ((bytes.drop 116).take 8)))
          pathBytes := (bytes.take 100).takeWhile (· ≠ 0)
          content := ⟨(bytes.drop 512).take size, none⟩ }
      let (entries, e) := plainEntries blocks (bytes.drop (512 + (size + 511) / 512 * 512))
      (entry :: entries, e)

/-- The libraries on a package that stores its tar members as they are. -/
def plainCrates : Crates where
  inflate _ _ := .err "not compressed".toList
  tarEntries stream := plainEntries (stream.bytes.length / 512 + 1) stream.bytes

def tarHeader (name mode size checksum : String) (type : UInt8) : Bytes :=
  let path := asBytes name.toList
  path ++ List.replicate (100 - path.length) 0 ++ asBytes mode.toList ++ [0] ++
    asBytes "0000000".toList ++ [0] ++ asBytes "0000000".toList ++ [0] ++ asBytes size.toList ++
    [0] ++ asBytes "00000000000".toList ++ [0] ++ asBytes checksum.toList ++ [0, 0x20, type] ++
    List.replicate 100 0 ++ asBytes "ustar".toList ++ [0, 0x30, 0x30] ++ List.replicate 247 0

def arHeader (name size : String) : Bytes :=
  asBytes (name ++ "0           0     0     100644  " ++ size ++ "`\n").toList

def dirA : Bytes := tarHeader "./a/" "0000755" "00000000000" "006322" 0x35

def dirB : Bytes := tarHeader "./b/" "0000755" "00000000000" "006323" 0x35

def controlTar : Bytes :=
  tarHeader "./control" "0000644" "00000000013" "007477" 0x30 ++ asBytes "Package: a\n".toList ++
    List.replicate 501 0

/-- A package up to its second directory, and with it. -/
def cutDeb : Bytes :=
  AR_MAGIC ++ arHeader "control.tar     " "1024      " ++ controlTar ++
    arHeader "data.tar        " "1024      " ++ dirA

def wholeDeb : Bytes := cutDeb ++ dirB

theorem wholeDeb_read : (read plainCrates wholeDeb).toOption.map (·.entries.map (·.path)) =
    some ["./a/".toList, "./b/".toList] := by
  decide +kernel

theorem cutDeb_read : (read plainCrates cutDeb).toOption.map (·.entries.map (·.path)) =
    some ["./a/".toList] := by
  decide +kernel

/-- The package that is cut is one without its second directory. -/
theorem cutDeb_loses : cutDeb <+: wholeDeb ∧ cutDeb ≠ wholeDeb ∧ ∃ contents contents',
    read plainCrates wholeDeb = .ok contents ∧ read plainCrates cutDeb = .ok contents' ∧
      contents'.entries ≠ contents.entries := by
  obtain ⟨contents, hread, hpaths⟩ := Option.map_eq_some_iff.mp wholeDeb_read
  obtain ⟨contents', hread', hpaths'⟩ := Option.map_eq_some_iff.mp cutDeb_read
  refine ⟨List.prefix_append _ _, by decide +kernel, contents, contents',
    Outcome.mem_toOption.mp hread, Outcome.mem_toOption.mp hread', fun he => ?_⟩
  rw [he, hpaths] at hpaths'
  exact absurd hpaths' (by decide)

theorem wholeDeb_complete : Complete wholeDeb :=
  ⟨by decide +kernel, by decide +kernel, by decide +kernel, by decide +kernel⟩

/-- The whole package is read as it is. -/
theorem wholeDeb_sound : ∃ contents, read plainCrates wholeDeb = .ok contents ∧
    (Sound plainCrates wholeDeb contents ↔ Complete wholeDeb) ∧ Complete wholeDeb := by
  obtain ⟨contents, hread, -⟩ := Option.map_eq_some_iff.mp wholeDeb_read
  exact ⟨contents, Outcome.mem_toOption.mp hread,
    (read_sound_iff (Outcome.mem_toOption.mp hread)).1, wholeDeb_complete⟩

end Boot2Deb.Engine.Debfile
