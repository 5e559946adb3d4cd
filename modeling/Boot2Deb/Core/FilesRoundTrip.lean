import Mathlib
import Boot2Deb.Core.FilesOrder
import Boot2Deb.Core.FilesText

/-!
# Files manifests round trip

What the writer emits for an assembled manifest the reader reads as that manifest, given a JSON
parser that reads compact texts; and what the reader accepts is, byte for byte, what the writer
emits for it: `round_trip`.
-/

namespace Boot2Deb.Core.Files

open Rust Json

/-! ### The object of an entry as a value -/

theorem quote_eq (s : Str) : quote s = Json.quote s := by
  have hhex : ∀ n < 32, hex04 n = ['0', '0', hexDigit (n / 16), hexDigit (n % 16)] := by
    decide +kernel
  unfold quote Json.quote
  refine congrArg (fun text => '"' :: (text ++ ['"'])) (congrArg (s.flatMap ·) (funext fun c => ?_))
  unfold quoteChar
  split_ifs with hquote hslash hcontrol
  · rfl
  · rfl
  · rw [hhex _ hcontrol]
  · rfl

def unsignedValue (n : UInt64) : Value := .number (.unsigned n)

/-- The fields of an entry's object, in the order they are put in. -/
def rows (e : FileEntry) (isRoot : Bool) : List (Str × Option Value) := [
  (Key.mediaType, if isRoot then some (.string MEDIA_TYPE) else none),
  (Key.name, if isRoot then none else some (.string e.name)),
  (Key.type, some (.string e.fileType.asStr)),
  (Key.mode, if e.fileType ≠ .lnk then some (unsignedValue e.mode.toUInt64) else none),
  (Key.uid, some (unsignedValue e.uid.toUInt64)),
  (Key.gid, some (unsignedValue e.gid.toUInt64)),
  (Key.mTimeNSec, some (unsignedValue e.mtimeNsec)),
  (Key.size, if e.fileType.isSized then some (unsignedValue e.size) else none),
  (Key.sha256, e.sha256.map .string),
  (Key.contents, e.target.map fun target =>
    .array [.object [("literal".toList, .string (Base64.encode target))]]),
  (Key.major, e.device.map fun device => unsignedValue device.1.toUInt64),
  (Key.minor, e.device.map fun device => unsignedValue device.2.toUInt64),
  (Key.inodeToken, if e.inodeToken ≠ 0 then some (unsignedValue e.inodeToken) else none),
  (Key.xattrs, if e.xattrs.rows.isEmpty then none
    else some (.object (e.xattrs.rows.map fun row => (row.1, .string (Base64.encode row.2)))))]

/-- The fields of an entry's object. -/
def fieldsOf (e : FileEntry) (isRoot : Bool) : List (Str × Value) := insertRows (rows e isRoot) []

theorem finish_map (fields : List (Str × Value)) :
    Fields.finish (fields.map (Prod.map id render)) = render (.object fields) := by
  unfold Fields.finish
  rw [render_object, List.map_map]
  refine congrArg (fun text => '{' :: (join [','] text ++ ['}'])) (List.map_congr_left ?_)
  intro field _
  show quote field.1 ++ ':' :: render field.2 = Json.quote field.1 ++ ':' :: render field.2
  rw [quote_eq]

theorem render_string (s : Str) : render (.string s) = quote s := by
  rw [render, quote_eq]

theorem render_unsigned (n : UInt64) : render (unsignedValue n) = Nat.toDigits 10 n.toNat := by
  rw [unsignedValue, render]

theorem render_contents (target : Bytes) :
    render (.array [.object [("literal".toList, .string (Base64.encode target))]]) =
      ['[', '{'] ++ quote "literal".toList ++ ':' :: quote (Base64.encode target) ++ ['}', ']'] := by
  rw [render, List.map_singleton, ← finish_map]
  simp [Fields.finish, join, render_string, List.intercalate]

theorem render_xattrs (attrs : List (Str × Bytes)) :
    render (.object (attrs.map fun row => (row.1, .string (Base64.encode row.2)))) =
      '{' :: (join [','] (attrs.map fun row => quote row.1 ++ ':' :: quote (Base64.encode row.2)) ++
        ['}']) := by
  rw [← finish_map, List.map_map]
  unfold Fields.finish
  rw [List.map_map]
  refine congrArg (fun text => '{' :: (join [','] text ++ ['}'])) (List.map_congr_left ?_)
  intro row _
  show quote row.1 ++ ':' :: render (.string (Base64.encode row.2)) = _
  rw [render_string]

/-- The text of an entry is the compact text of its fields. -/
theorem object_eq (e : FileEntry) (isRoot : Bool) :
    object e isRoot = render (.object (fieldsOf e isRoot)) := by
  rw [← finish_map, fieldsOf, map_insertRows]
  unfold object
  refine congrArg Fields.finish ?_
  obtain ⟨name, fileType, mode, uid, gid, mtimeNsec, size, sha256, target, device, token, xattrs⟩ := e
  have hroot : (if isRoot = true then insertRow Key.mediaType (quote MEDIA_TYPE) []
      else insertRow Key.name (quote name) []) =
      insertSome Key.name (if isRoot = true then none else some (quote name))
        (insertSome Key.mediaType (if isRoot = true then some (quote MEDIA_TYPE) else none) []) := by
    split_ifs <;> rfl
  cases sha256 <;> cases target <;> cases device <;>
    simp only [rows, List.map_cons, List.map_nil, Prod.map_apply, id_eq, insertRows,
      List.foldl_cons, List.foldl_nil, apply_ite (Option.map render), Option.map_some,
      Option.map_none, ← insertSome_ite, ← insertSome_ite_none, render_string, render_unsigned,
      render_xattrs, render_contents, UInt32.toNat_toUInt64, hroot, Fields.number,
      Fields.string, Fields.raw] <;> rfl

/-! ### Looking the fields up -/

theorem keys_rows (e : FileEntry) (isRoot : Bool) : (rows e isRoot).map Prod.fst = [Key.mediaType,
    Key.name, Key.type, Key.mode, Key.uid, Key.gid, Key.mTimeNSec, Key.size, Key.sha256,
    Key.contents, Key.major, Key.minor, Key.inodeToken, Key.xattrs] := rfl

theorem lookup_fieldsOf {e : FileEntry} {isRoot : Bool} {key : Str} {o : Option Value}
    (h : (key, o) ∈ rows e isRoot) : lookup key (fieldsOf e isRoot) = o := by
  have hnodup : ((rows e isRoot).map Prod.fst).Nodup := by
    rw [keys_rows]
    decide +kernel
  exact lookup_insertRows hnodup h rfl

theorem known_fieldsOf (e : FileEntry) (isRoot : Bool) :
    ((fieldsOf e isRoot).map Prod.fst).find? (fun k => !KNOWN.contains k) = none := by
  have hknown : ∀ k ∈ (rows e isRoot).map Prod.fst, KNOWN.contains k = true := by
    rw [keys_rows]
    decide +kernel
  rw [List.find?_eq_none]
  intro k hk
  obtain ⟨row, hrow, rfl⟩ := List.mem_map.mp hk
  rcases mem_insertRows hrow with hrow | hrow
  · simp only [hknown row.1 (List.mem_map_of_mem hrow), Bool.not_true, Bool.false_eq_true,
      not_false_iff]
  · cases hrow

section Fields
variable {e : FileEntry} {isRoot : Bool} {key : Str}

theorem string_fieldsOf {o : Option Str} (h : (key, o.map Value.string) ∈ rows e isRoot) :
    string (fieldsOf e isRoot) key = .ok o := by
  unfold string field
  rw [lookup_fieldsOf h]
  cases o <;> rfl

theorem number_fieldsOf {o : Option UInt64} (h : (key, o.map unsignedValue) ∈ rows e isRoot) :
    number (fieldsOf e isRoot) key = .ok o := by
  unfold number field
  rw [lookup_fieldsOf h]
  cases o <;> rfl

theorem small_fieldsOf {o : Option UInt32}
    (h : (key, o.map fun n => unsignedValue n.toUInt64) ∈ rows e isRoot) :
    small (fieldsOf e isRoot) key = .ok o := by
  have hnumber : number (fieldsOf e isRoot) key = .ok (o.map UInt32.toUInt64) :=
    number_fieldsOf (by rwa [Option.map_map])
  unfold small
  rw [hnumber]
  cases o with
  | none => rfl
  | some n =>
    show (if n.toUInt64.toNat < 2 ^ 32 then _ else _) = _
    rw [if_pos (by rw [UInt32.toNat_toUInt64]; exact n.toNat_lt), UInt32.toUInt32_toUInt64]
    rfl

end Fields

theorem parse_asStr (t : FileType) : FileType.parse t.asStr = some t := by
  cases t <;> rfl

theorem readAttrs_encoded {map : List (Str × Value)} (attrs : List (Str × Bytes))
    (held : SortedMap Str Bytes) :
    readAttrs map held (attrs.map fun row => (row.1, .string (Base64.encode row.2))) =
      .ok (attrs.foldl (fun m row => m.insert row.1 row.2) held) := by
  induction attrs generalizing held with
  | nil => rfl
  | cons row attrs ih =>
    rw [List.map_cons, readAttrs]
    simp only [asStr, Option.bind_some, Base64.decode_encode, List.foldl_cons]
    exact ih _

/-! ### Reading an entry back -/

/-- What the checks of an entry say of the fields its object leaves out. -/
theorem of_checkEntry {e : FileEntry} {isRoot : Bool} (h : checkEntry e isRoot = .ok ()) :
    (isRoot = true → e.name = []) ∧ (e.fileType = .lnk → e.mode = 0) ∧
      (e.fileType.isSized = false → e.size = 0) := by
  obtain ⟨⟨⟩, hroot, h⟩ := Outcome.bind_eq_ok.mp h
  obtain ⟨⟨⟩, hmode, h⟩ := Outcome.bind_eq_ok.mp h
  obtain ⟨⟨⟩, hsize, -⟩ := Outcome.bind_eq_ok.mp h
  refine ⟨fun hr => ?_, fun hlnk => ?_, fun hsized => ?_⟩
  · by_contra hne
    simp [checkRoot, hr, hne, FileEntry.bad] at hroot
  · by_contra hne
    unfold checkMode at hmode
    split_ifs at hmode with hgreat hboth
    · cases hmode
    · cases hmode
    · exact hboth ⟨hlnk, hne⟩
  · by_contra hne
    simp [checkSize, hsized, hne, FileEntry.bad] at hsize

section Read
variable (e : FileEntry) (isRoot : Bool)

theorem readType_fieldsOf : readType (fieldsOf e isRoot) = .ok e.fileType := by
  have htype : string (fieldsOf e isRoot) Key.type = .ok (some e.fileType.asStr) :=
    string_fieldsOf (@List.mem_of_getElem? _ _ 2 _ rfl)
  have hparse : (some e.fileType.asStr).bind FileType.parse = some e.fileType :=
    parse_asStr e.fileType
  unfold readType
  rw [htype, Outcome.ok_bind, hparse]
  rfl

theorem readTarget_fieldsOf : readTarget (fieldsOf e isRoot) = .ok e.target := by
  unfold readTarget
  rw [lookup_fieldsOf (@List.mem_of_getElem? _ _ 9 _ rfl)]
  cases e.target with
  | none => rfl
  | some target =>
    have hliteral : literal (.object [("literal".toList, .string (Base64.encode target))]) =
        some (Base64.encode target) := rfl
    simp only [Option.map_some, hliteral, Base64.decode_encode]

theorem readXattrs_fieldsOf : readXattrs (fieldsOf e isRoot) = .ok e.xattrs := by
  unfold readXattrs
  rw [lookup_fieldsOf (@List.mem_of_getElem? _ _ 13 _ rfl)]
  split_ifs with hempty
  · have hrows : e.xattrs.rows = [] := List.isEmpty_iff.mp hempty
    exact congrArg Outcome.ok (SortedMap.ext_rows hrows.symm)
  · show readAttrs (fieldsOf e isRoot) .empty _ = _
    rw [readAttrs_encoded, SortedMap.foldl_insert]

theorem readDevice_fieldsOf : readDevice (fieldsOf e isRoot) = .ok e.device := by
  have hmajor : small (fieldsOf e isRoot) Key.major = .ok (e.device.map Prod.fst) :=
    small_fieldsOf (by rw [Option.map_map]; exact @List.mem_of_getElem? _ _ 10 _ rfl)
  have hminor : small (fieldsOf e isRoot) Key.minor = .ok (e.device.map Prod.snd) :=
    small_fieldsOf (by rw [Option.map_map]; exact @List.mem_of_getElem? _ _ 11 _ rfl)
  unfold readDevice
  rw [hmajor, hminor]
  cases e.device <;> rfl

theorem readMode_fieldsOf (h : e.fileType = .lnk → e.mode = 0) :
    readMode (fieldsOf e isRoot) e.fileType = .ok e.mode := by
  unfold readMode
  by_cases hlnk : e.fileType = .lnk
  · have hlookup : lookup Key.mode (fieldsOf e isRoot) = none :=
      lookup_fieldsOf (@List.mem_of_getElem? _ _ 3 _ (by simp [rows, hlnk]))
    rw [if_pos hlnk, hlookup, h hlnk]
    rfl
  · have hmode : small (fieldsOf e isRoot) Key.mode = .ok (some e.mode) :=
      small_fieldsOf (@List.mem_of_getElem? _ _ 3 _ (by simp [rows, hlnk]))
    rw [if_neg hlnk, hmode]
    rfl

theorem readSize_fieldsOf (h : e.fileType.isSized = false → e.size = 0) :
    readSize (fieldsOf e isRoot) e.fileType = .ok e.size := by
  unfold readSize
  cases hsized : e.fileType.isSized with
  | true =>
    have hsize : number (fieldsOf e isRoot) Key.size = .ok (some e.size) :=
      number_fieldsOf (@List.mem_of_getElem? _ _ 7 _ (by simp [rows, hsized]))
    rw [if_pos rfl, hsize]
    rfl
  | false =>
    have hlookup : lookup Key.size (fieldsOf e isRoot) = none :=
      lookup_fieldsOf (@List.mem_of_getElem? _ _ 7 _ (by simp [rows, hsized]))
    rw [if_neg Bool.false_ne_true, hlookup, h hsized]
    rfl

end Read

/-- An entry that passes its checks is read back from its fields. -/
theorem readEntry_fieldsOf {e : FileEntry} {isRoot : Bool} (h : checkEntry e isRoot = .ok ()) :
    readEntry (fieldsOf e isRoot) isRoot = .ok e := by
  obtain ⟨hroot, hmode, hsize⟩ := of_checkEntry h
  have hmedia : string (fieldsOf e isRoot) Key.mediaType =
      .ok (if isRoot then some MEDIA_TYPE else none) :=
    string_fieldsOf (@List.mem_of_getElem? _ _ 0 _ (by cases isRoot <;> rfl))
  have hname : string (fieldsOf e isRoot) Key.name = .ok (if isRoot then none else some e.name) :=
    string_fieldsOf (@List.mem_of_getElem? _ _ 1 _ (by cases isRoot <;> rfl))
  have hkind : checkKind (fieldsOf e isRoot) isRoot (if isRoot then some MEDIA_TYPE else none)
      (if isRoot then none else some e.name) = .ok () := by
    cases isRoot <;> rfl
  have huid : small (fieldsOf e isRoot) Key.uid = .ok (some e.uid) :=
    small_fieldsOf (@List.mem_of_getElem? _ _ 4 _ rfl)
  have hgid : small (fieldsOf e isRoot) Key.gid = .ok (some e.gid) :=
    small_fieldsOf (@List.mem_of_getElem? _ _ 5 _ rfl)
  have hmtime : number (fieldsOf e isRoot) Key.mTimeNSec = .ok (some e.mtimeNsec) :=
    number_fieldsOf (@List.mem_of_getElem? _ _ 6 _ rfl)
  have hsha : string (fieldsOf e isRoot) Key.sha256 = .ok e.sha256 :=
    string_fieldsOf (@List.mem_of_getElem? _ _ 8 _ rfl)
  have htoken : number (fieldsOf e isRoot) Key.inodeToken =
      .ok (if e.inodeToken ≠ 0 then some e.inodeToken else none) :=
    number_fieldsOf (@List.mem_of_getElem? _ _ 12 _ (by split_ifs with h <;> simp [rows, h]))
  have hnameEq : (if isRoot then none else some e.name).getD [] = e.name := by
    cases isRoot with
    | true => exact (hroot rfl).symm
    | false => rfl
  have htokenEq : (if e.inodeToken ≠ 0 then some e.inodeToken else none).getD 0 = e.inodeToken := by
    split_ifs with h
    · rfl
    · exact (not_not.mp h).symm
  unfold readEntry
  rw [known_fieldsOf]
  simp only [Outcome.pure_eq, Outcome.ok_bind, hmedia, hname, hkind, readType_fieldsOf,
    readTarget_fieldsOf, readXattrs_fieldsOf, readDevice_fieldsOf, readMode_fieldsOf e isRoot hmode,
    huid, hgid, hmtime, readSize_fieldsOf e isRoot hsize, hsha, htoken, required, hnameEq, htokenEq]

/-! ### The records -/

theorem plain_fieldsOf (e : FileEntry) (isRoot : Bool) (d : ℕ) :
    Plain (d + 3) (.object (fieldsOf e isRoot)) := by
  have hrows : ∀ row ∈ rows e isRoot, ∀ v, row.2 = some v → Plain (d + 2) v := by
    simp only [rows, List.forall_mem_cons, Option.map_eq_some_iff, ite_eq_iff, Option.some.injEq,
      reduceCtorEq, and_false, or_false, false_or, List.not_mem_nil, false_imp_iff, implies_true,
      and_true]
    refine ⟨?_, ?_, ?_, ?_, ?_, ?_, ?_, ?_, ?_, ?_, ?_, ?_, ?_, ?_⟩
    · rintro v ⟨-, rfl⟩
      exact .string _
    · rintro v ⟨-, rfl⟩
      exact .string _
    · rintro v rfl
      exact .string _
    · rintro v ⟨-, rfl⟩
      exact .number _
    · rintro v rfl
      exact .number _
    · rintro v rfl
      exact .number _
    · rintro v rfl
      exact .number _
    · rintro v ⟨-, rfl⟩
      exact .number _
    · rintro v ⟨_, -, rfl⟩
      exact .string _
    · rintro v ⟨target, -, rfl⟩
      refine .array fun v hv => ?_
      rw [List.mem_singleton.mp hv]
      refine .object (fun field hfield => ?_) (List.pairwise_singleton ..)
      rw [List.mem_singleton.mp hfield]
      exact .string _
    · rintro v ⟨_, -, rfl⟩
      exact .number _
    · rintro v ⟨_, -, rfl⟩
      exact .number _
    · rintro v ⟨-, rfl⟩
      exact .number _
    · rintro v ⟨-, rfl⟩
      refine .object (fun field hfield => ?_) ?_
      · obtain ⟨row, -, rfl⟩ := List.mem_map.mp hfield
        exact .string _
      · unfold Ascending
        rw [List.map_map]
        exact e.xattrs.ascending
  refine .object (fun field hfield => ?_) (ascending_insertRows List.Pairwise.nil)
  rcases mem_insertRows hfield with hmem | hmem
  · exact hrows _ hmem _ rfl
  · cases hmem

/-- The text of an entry holds no line feed. -/
theorem lf_not_mem_object (e : FileEntry) (isRoot : Bool) : LF ∉ asBytes (object e isRoot) := by
  intro h
  obtain ⟨c, hc, hcode⟩ := exists_of_mem_asBytes (by decide) h
  rw [object_eq] at hc
  have hgreat := toNat_of_mem_render (plain_fieldsOf e isRoot 0) c hc
  rw [hcode] at hgreat
  exact absurd hgreat (by decide)

theorem lf_not_mem_trailer : LF ∉ asBytes trailer := by decide +kernel

/-- Every body behind its separator and before its line feed. -/
def framed (bodies : List Bytes) : Bytes := bodies.flatMap fun body => RS :: (body ++ [LF])

theorem records_cons {body rest : Bytes} (h : LF ∉ body) :
    records (RS :: (body ++ LF :: rest)) = (records rest).bind fun bodies =>
      .ok (body :: bodies) := by
  have hne : ∀ b ∈ body, decide (b ≠ LF) = true :=
    fun b hb => decide_eq_true fun he => h (he ▸ hb)
  have hdrop : (body ++ LF :: rest).dropWhile (· ≠ LF) = LF :: rest := by
    rw [List.dropWhile_append_of_pos hne, List.dropWhile_cons_of_neg (by simp)]
  have htake : (body ++ LF :: rest).takeWhile (· ≠ LF) = body := by
    rw [List.takeWhile_append_of_pos hne, List.takeWhile_cons_of_neg (by simp), List.append_nil]
  rw [records, if_neg (not_not.mpr rfl), htake]
  split
  · rw [hdrop] at *
    contradiction
  · rename_i hcons
    rw [hdrop] at hcons
    rw [(List.cons.inj hcons).2]

theorem records_framed {bodies : List Bytes} (h : ∀ body ∈ bodies, LF ∉ body) :
    records (framed bodies) = .ok bodies := by
  induction bodies with
  | nil => rw [framed, List.flatMap_nil, records]
  | cons body bodies ih =>
    have hrest := ih fun b hb => h b (List.mem_cons_of_mem _ hb)
    have htext : framed (body :: bodies) = RS :: (body ++ LF :: framed bodies) := by
      simp [framed]
    rw [htext, records_cons (h body List.mem_cons_self), hrest]
    rfl

theorem framed_of_records {b : Bytes} {bodies : List Bytes} (h : records b = .ok bodies) :
    framed bodies = b := by
  induction b using records.induct generalizing bodies with
  | case1 =>
    rw [records] at h
    obtain rfl := Outcome.ok.inj h
    rfl
  | case2 b body hb =>
    rw [records, if_pos hb] at h
    cases h
  | case3 b body hb hnil =>
    rw [records, if_neg hb] at h
    split at h
    · cases h
    · rename_i hcons
      rw [hnil] at hcons
      cases hcons
  | case4 b body hb c rest hcons ih =>
    rw [records, if_neg hb] at h
    split at h
    · cases h
    · rename_i c' rest' hcons'
      obtain ⟨rfl, rfl⟩ := List.cons.inj (hcons.symm.trans hcons')
      obtain ⟨bodies', hrest, h⟩ := Outcome.bind_eq_ok.mp h
      obtain rfl := Outcome.ok.inj h
      have hc : c = LF := by
        have hhead := List.head?_dropWhile_not (fun x => decide (x ≠ LF)) body
        rw [hcons] at hhead
        simpa using hhead
      have hbody := List.takeWhile_append_dropWhile (p := fun x => decide (x ≠ LF)) (l := body)
      rw [hcons, hc] at hbody
      have hframed : framed (body.takeWhile (· ≠ LF) :: bodies') =
          RS :: (body.takeWhile (· ≠ LF) ++ LF :: framed bodies') := by
        simp [framed]
      rw [hframed, ih hrest, hbody, not_not.mp hb]

/-! ### Whole manifests -/

/-- The texts of the records of a manifest. -/
def bodies (m : FileManifest) : List Bytes :=
  asBytes (object m.root true) :: (m.entries.map (fun e => asBytes (object e false)) ++
    [asBytes trailer])

theorem toBytes_eq (m : FileManifest) : m.toBytes = framed (bodies m) := by
  simp [FileManifest.toBytes, framed, bodies, record, List.flatMap_map]

theorem records_toBytes (m : FileManifest) : records m.toBytes = .ok (bodies m) := by
  rw [toBytes_eq]
  refine records_framed fun body hbody => ?_
  rcases List.mem_cons.mp hbody with rfl | hbody
  · exact lf_not_mem_object m.root true
  rcases List.mem_append.mp hbody with hbody | hbody
  · obtain ⟨e, -, rfl⟩ := List.mem_map.mp hbody
    exact lf_not_mem_object e false
  · rw [List.mem_singleton.mp hbody]
    exact lf_not_mem_trailer

/-- A parser that reads the compact text of a value as the value. -/
def ReadsCompact (fromSlice : Bytes → Except Str Value) : Prop :=
  ∀ v, Plain 127 v → fromSlice (asBytes (render v)) = .ok v

section Parse
variable {fromSlice : Bytes → Except Str Value} {b body : Bytes} {m : FileManifest} {e : FileEntry}
  {isRoot : Bool}

theorem readCanonical_eq_ok : readCanonical fromSlice body isRoot = .ok e ↔
    (∃ map, jsonObject fromSlice body = .ok map ∧ readEntry map isRoot = .ok e) ∧
      asBytes (object e isRoot) = body := by
  unfold readCanonical
  constructor
  · intro h
    obtain ⟨map, hmap, h⟩ := Outcome.bind_eq_ok.mp h
    obtain ⟨entry, hentry, h⟩ := Outcome.bind_eq_ok.mp h
    split_ifs at h with hbody
    · cases h
    · obtain rfl := Outcome.ok.inj h
      exact ⟨⟨map, hmap, hentry⟩, not_not.mp hbody⟩
  · rintro ⟨⟨map, hmap, hentry⟩, hbody⟩
    simp only [hmap, hentry, Outcome.ok_bind, if_neg (not_not.mpr hbody)]
    rfl

theorem readCanonical_object (hfrom : ReadsCompact fromSlice) (h : checkEntry e isRoot = .ok ()) :
    readCanonical fromSlice (asBytes (object e isRoot)) isRoot = .ok e := by
  refine readCanonical_eq_ok.mpr ⟨⟨fieldsOf e isRoot, ?_, readEntry_fieldsOf h⟩, rfl⟩
  unfold jsonObject
  rw [object_eq, hfrom _ (plain_fieldsOf e isRoot 124)]

/-- What a manifest that is read consists of. -/
theorem parse_eq_ok : parse fromSlice b = .ok m ↔ ∃ first middle,
    records b = .ok (first :: (middle ++ [asBytes trailer])) ∧
      readCanonical fromSlice first true = .ok m.root ∧
      Outcome.mapM (readCanonical fromSlice · false) middle = .ok m.entries ∧
      m.validate = .ok () := by
  unfold parse
  constructor
  · intro h
    obtain ⟨rs, hrecords, h⟩ := Outcome.bind_eq_ok.mp h
    split at h
    · cases h
    · rename_i first tail
      split at h
      · cases h
      · rename_i last hlast
        obtain ⟨middle, rfl⟩ := List.getLast?_eq_some_iff.mp hlast
        split_ifs at h with htrailer
        · cases h
        · obtain ⟨root, hroot, h⟩ := Outcome.bind_eq_ok.mp h
          obtain ⟨entries, hentries, h⟩ := Outcome.bind_eq_ok.mp h
          obtain ⟨⟨⟩, hvalid, h⟩ := Outcome.bind_eq_ok.mp h
          obtain rfl := Outcome.ok.inj h
          rw [List.dropLast_concat] at hentries
          rw [not_not.mp htrailer] at hrecords
          exact ⟨first, middle, hrecords, hroot, hentries, hvalid⟩
  · rintro ⟨first, middle, hrecords, hroot, hentries, hvalid⟩
    simp only [hrecords, Outcome.ok_bind, List.getLast?_concat, ne_eq, not_true_eq_false, if_false,
      List.dropLast_concat, hroot, hentries, hvalid]
    rfl

theorem checkEntry_of_checkAll {entries : List FileEntry} {seen : Seen}
    (h : checkAll seen entries = .ok ()) : ∀ e ∈ entries, checkEntry e false = .ok () := by
  induction entries generalizing seen with
  | nil => exact fun e he => absurd he List.not_mem_nil
  | cons entry entries ih =>
    obtain ⟨seen', hnext, h⟩ := Outcome.bind_eq_ok.mp h
    obtain ⟨⟨⟩, -, hnext⟩ := Outcome.bind_eq_ok.mp hnext
    obtain ⟨⟨⟩, hentry, -⟩ := Outcome.bind_eq_ok.mp hnext
    intro e he
    rcases List.mem_cons.mp he with rfl | he
    · exact hentry
    · exact ih h e he

/-- A valid manifest is read back from the bytes it writes. -/
theorem parse_toBytes (hfrom : ReadsCompact fromSlice) (h : m.validate = .ok ()) :
    parse fromSlice m.toBytes = .ok m := by
  obtain ⟨⟨⟩, hroot, hall⟩ := Outcome.bind_eq_ok.mp h
  refine parse_eq_ok.mpr ⟨_, _, records_toBytes m, readCanonical_object hfrom hroot, ?_, h⟩
  exact Outcome.mapM_map fun e he => readCanonical_object hfrom (checkEntry_of_checkAll hall e he)

/-- A manifest that is read writes the bytes it was read from. -/
theorem toBytes_of_parse (h : parse fromSlice b = .ok m) : m.toBytes = b := by
  obtain ⟨first, middle, hrecords, hroot, hentries, -⟩ := parse_eq_ok.mp h
  have hfirst := (readCanonical_eq_ok.mp hroot).2
  have hmiddle := Outcome.map_of_mapM (g := fun e => asBytes (object e false))
    (fun body e he => (readCanonical_eq_ok.mp he).2) hentries
  rw [toBytes_eq, bodies, hfirst, hmiddle]
  exact framed_of_records hrecords

end Parse

/-- The writer and the reader are inverse to each other, either way round. -/
theorem files_round_trip {fromSlice : Bytes → Except Str Value} (hfrom : ReadsCompact fromSlice) :
    (∀ root walked m, assemble root walked = .ok m → parse fromSlice m.toBytes = .ok m) ∧
      ∀ b m, parse fromSlice b = .ok m → m.toBytes = b :=
  ⟨fun _ _ _ h => parse_toBytes hfrom (validate_of_assemble h).1, fun _ _ => toBytes_of_parse⟩

/-- A parser of JSON texts, nested at most 127 deep. -/
def fromText (b : Bytes) : Except Str Value :=
  match (fromUtf8 b).bind (parseText 127) with
  | some v => .ok v
  | none => .error "expected value".toList

theorem readsCompact_fromText : ReadsCompact fromText := by
  intro v hv
  unfold fromText
  rw [fromUtf8_asBytes, Option.bind_some, parseText_render hv]

theorem files_round_trip_siblings : ∃ m, assemble (plain [] .dir) siblings = .ok m ∧
    parse fromText m.toBytes = .ok m :=
  ⟨_, rfl, (files_round_trip readsCompact_fromText).1 (plain [] .dir) siblings _ rfl⟩

end Boot2Deb.Core.Files
