import Mathlib
import Boot2Deb.Rust.Lossy

/-!
# The console filter

The guest's console is read in chunks. The filter drops control sequences and carriage returns,
holds a sequence a chunk cuts, and gives one back that grows too long; what a chunk prints is
decoded on its own. `Reads` says of a whole stream which of its bytes stand outside control
sequences, and the filter prints these however the stream is cut (`reads_iff`).
-/

namespace Boot2Deb.Engine.Tryboot

open Rust

def ESC : UInt8 := 0x1b
def CR : UInt8 := 0x0d
def BEL : UInt8 := 0x07

/-- Largest control sequence held while waiting for its terminator. -/
def MAX_SEQUENCE : ℕ := 4096

/-- What ends a CSI sequence. -/
def isFinal (b : UInt8) : Bool := 0x40 ≤ b && b ≤ 0x7e

/-- `]`, `P`, `X`, `^` and `_`: a string follows. -/
def STRING : Bytes := [0x5d, 0x50, 0x58, 0x5e, 0x5f]

/-- The introducers of escapes of three bytes. -/
def SHORT : Bytes := [0x28, 0x29, 0x2a, 0x2b, 0x2d, 0x2e, 0x2f, 0x25, 0x23, 0x20]

namespace VtFilter

/-- Whether a sequence, which starts with `ESC`, is whole. -/
def complete (seq : Bytes) : Bool :=
  match seq with
  | _ :: introducer :: _ =>
    let last := seq.getLastD 0
    if introducer = 0x5b then 3 ≤ seq.length && isFinal last
    else if introducer ∈ STRING then
      last = BEL || (4 ≤ seq.length && seq.dropLast.getLastD 0 = ESC && last = 0x5c)
    else if introducer ∈ SHORT then 3 ≤ seq.length
    else true
  | _ => false

/-- One byte: what it prints, and the sequence that is pending behind it. -/
def filterByte (pending : Bytes) (byte : UInt8) : Bytes × Bytes :=
  if pending.isEmpty then
    if byte = ESC then ([], [byte])
    else if byte = CR then ([], [])
    else ([byte], [])
  else if complete (pending ++ [byte]) then ([], [])
  else if MAX_SEQUENCE < (pending ++ [byte]).length then ((pending ++ [byte]).tail, [])
  else ([], pending ++ [byte])

/-- The bytes of a chunk that are printed, and what is pending behind it. -/
def feed (pending : Bytes) : Bytes → Bytes × Bytes
  | [] => ([], pending)
  | byte :: chunk =>
    let (out, pending) := filterByte pending byte
    let (rest, pending) := feed pending chunk
    (out ++ rest, pending)

/-- The text of a chunk. -/
def push (pending chunk : Bytes) : Str × Bytes :=
  let (out, pending) := feed pending chunk
  (fromUtf8Lossy out, pending)

/-- The text of chunks one after another. -/
def pushAll (pending : Bytes) : List Bytes → Str × Bytes
  | [] => ([], pending)
  | chunk :: chunks =>
    let (text, pending) := push pending chunk
    let (rest, pending) := pushAll pending chunks
    (text ++ rest, pending)

end VtFilter

/-- All text of a stream that comes in these chunks. -/
def transcript (chunks : List Bytes) : Str := (VtFilter.pushAll [] chunks).1

/-! ### What a stream reads -/

/-- Behind the introducer of a string: it ends with `BEL`, or with `ESC` and a backslash. -/
def EndsString (body : Bytes) : Prop := [BEL] <:+ body ∨ [ESC, 0x5c] <:+ body

inductive ControlSequence : Bytes → Prop where
  | csi {params : Bytes} {final : UInt8} : (∀ b ∈ params, isFinal b = false) →
      isFinal final = true → ControlSequence (ESC :: 0x5b :: (params ++ [final]))
  | string {introducer : UInt8} {body : Bytes} : introducer ∈ STRING → EndsString body →
      (∀ start, start <+: body → start ≠ body → ¬EndsString start) →
      ControlSequence (ESC :: introducer :: body)
  | short {introducer b : UInt8} : introducer ∈ SHORT → ControlSequence [ESC, introducer, b]
  | two {b : UInt8} : b ≠ 0x5b → b ∉ STRING → b ∉ SHORT → ControlSequence [ESC, b]

/-- No control sequence begins where these bytes do. -/
def Unfinished (bytes : Bytes) : Prop := ∀ seq, seq <+: bytes → ¬ControlSequence seq

/-- A stream, its bytes outside control sequences, and the bodies of the sequences that are none:
those that have no end within the bound. The last one may be cut off. -/
inductive Reads : Bytes → Bytes → List Bytes → Prop where
  | done : Reads [] [] []
  | plain {b : UInt8} {s t bodies} : b ≠ ESC → b ≠ CR → Reads s t bodies →
      Reads (b :: s) (b :: t) bodies
  | ret {s t bodies} : Reads s t bodies → Reads (CR :: s) t bodies
  | sequence {seq s t bodies} : ControlSequence seq → seq.length ≤ MAX_SEQUENCE + 1 →
      Reads s t bodies → Reads (seq ++ s) t bodies
  | unending {body s t bodies} : Unfinished (ESC :: body) → body.length = MAX_SEQUENCE →
      Reads s t bodies → Reads (ESC :: body ++ s) (body ++ t) (body :: bodies)
  | cutOff {body} : Unfinished (ESC :: body) → body.length < MAX_SEQUENCE →
      Reads (ESC :: body) [] []

/-- The bytes of a stream outside control sequences. -/
def outside (stream : Bytes) : Bytes := (VtFilter.feed [] stream).1

/-- Whether a byte makes the pending sequence one that is given back. -/
def tooLong (pending : Bytes) (byte : UInt8) : Bool :=
  !pending.isEmpty && !VtFilter.complete (pending ++ [byte]) &&
    MAX_SEQUENCE < (pending ++ [byte]).length

def givenBackFrom (pending : Bytes) : Bytes → List Bytes
  | [] => []
  | byte :: stream =>
    (if tooLong pending byte then [(pending ++ [byte]).tail] else []) ++
      givenBackFrom (VtFilter.filterByte pending byte).2 stream

/-- The bodies of the sequences of a stream that are none. -/
def givenBack (stream : Bytes) : List Bytes := givenBackFrom [] stream

/-! ### Whole sequences -/

namespace VtFilter
variable {seq rest body pending : Bytes} {introducer b : UInt8}

theorem getLastD_concat (first : UInt8) (params : Bytes) (b : UInt8) :
    (ESC :: first :: (params ++ [b])).getLastD 0 = b :=
  @List.getLastD_concat _ _ _ (ESC :: first :: params)

theorem dropLast_concat (first : UInt8) (params : Bytes) (b : UInt8) :
    (ESC :: first :: (params ++ [b])).dropLast = ESC :: first :: params :=
  @List.dropLast_concat _ (ESC :: first :: params) b

theorem complete_csi : complete (ESC :: 0x5b :: rest) = rest.getLast?.any isFinal := by
  rcases List.eq_nil_or_concat rest with rfl | ⟨params, final, rfl⟩
  · rfl
  · rw [complete, if_pos rfl, List.concat_eq_append, getLastD_concat, List.getLast?_concat]
    simp

theorem singleton_suffix_iff {a b : UInt8} {l : Bytes} : [a] <:+ l ++ [b] ↔ b = a := by
  rw [List.suffix_concat_iff]
  constructor
  · rintro (h | ⟨start, h, -⟩)
    · exact nomatch h
    · obtain ⟨-, hlast⟩ := List.append_inj' (show [] ++ [a] = start ++ [b] from h) rfl
      exact (List.head_eq_of_cons_eq hlast).symm
  · rintro rfl
    exact .inr ⟨[], rfl, List.nil_suffix⟩

theorem pair_suffix_iff {a b c : UInt8} {l : Bytes} :
    [a, b] <:+ l ++ [c] ↔ c = b ∧ [a] <:+ l := by
  rw [List.suffix_concat_iff]
  constructor
  · rintro (h | ⟨start, h, hsuffix⟩)
    · exact nomatch h
    · obtain ⟨hstart, hlast⟩ := List.append_inj' (show [a] ++ [b] = start ++ [c] from h) rfl
      exact ⟨(List.head_eq_of_cons_eq hlast).symm, hstart ▸ hsuffix⟩
  · rintro ⟨rfl, hsuffix⟩
    exact .inr ⟨[a], rfl, hsuffix⟩

theorem complete_string (h : introducer ∈ STRING) :
    complete (ESC :: introducer :: rest) = true ↔ EndsString rest := by
  have hcsi : introducer ≠ 0x5b := fun heq => absurd (heq ▸ h) (by decide)
  have hbel : introducer ≠ BEL := fun heq => absurd (heq ▸ h) (by decide)
  rw [complete, if_neg hcsi, if_pos h, EndsString]
  rcases List.eq_nil_or_concat rest with rfl | ⟨body, last, rfl⟩
  · rw [List.suffix_nil, List.suffix_nil]
    simp [hbel]
  rw [List.concat_eq_append, getLastD_concat, dropLast_concat, singleton_suffix_iff,
    pair_suffix_iff, Bool.or_eq_true, Bool.and_eq_true, Bool.and_eq_true, decide_eq_true_eq,
    decide_eq_true_eq, decide_eq_true_eq]
  rcases List.eq_nil_or_concat body with rfl | ⟨body, before, rfl⟩
  · rw [List.suffix_nil]
    simp
  · rw [List.concat_eq_append, getLastD_concat, singleton_suffix_iff, decide_eq_true_eq]
    refine or_congr_right ⟨fun hboth => ⟨hboth.2, hboth.1.2⟩, fun hboth => ⟨⟨?_, hboth.2⟩, hboth.1⟩⟩
    rw [List.length_cons, List.length_cons, List.length_append, List.length_append]
    simp only [List.length_singleton]
    omega

theorem complete_short (h : introducer ∈ SHORT) :
    complete (ESC :: introducer :: rest) = true ↔ rest ≠ [] := by
  have hcsi : introducer ≠ 0x5b := fun heq => absurd (heq ▸ h) (by decide)
  have hapart : ∀ b ∈ SHORT, b ∉ STRING := by decide +kernel
  rw [complete, if_neg hcsi, if_neg (hapart _ h), if_pos h, decide_eq_true_eq, List.length_cons,
    List.length_cons, ← List.length_pos_iff]
  omega

theorem complete_two (hcsi : b ≠ 0x5b) (hstring : b ∉ STRING) (hshort : b ∉ SHORT) :
    complete (ESC :: b :: rest) = true := by
  rw [complete, if_neg hcsi, if_neg hstring, if_neg hshort]

/-- A control sequence is whole. -/
theorem complete_of_controlSequence (h : ControlSequence seq) : complete seq = true := by
  cases h with
  | csi hparams hfinal =>
    rw [complete_csi, List.getLast?_concat]
    exact hfinal
  | string hintro hends hfirst => exact (complete_string hintro).mpr hends
  | short hintro => exact (complete_short hintro).mpr (List.cons_ne_nil _ _)
  | two hcsi hstring hshort => exact complete_two hcsi hstring hshort

/-- What starts with two bytes is nothing, one of them, or both and more. -/
theorem prefix_cons_cons {start : Bytes} {a : UInt8} (h : start <+: a :: b :: body)
    (hcomplete : complete start = true) : ∃ more, start = a :: b :: more ∧ more <+: body := by
  rcases start with _ | ⟨first, _ | ⟨second, more⟩⟩
  · exact absurd hcomplete Bool.false_ne_true
  · exact absurd hcomplete Bool.false_ne_true
  · obtain ⟨rfl, htail⟩ := List.cons_prefix_cons.mp h
    obtain ⟨rfl, hmore⟩ := List.cons_prefix_cons.mp htail
    exact ⟨more, rfl, hmore⟩

/-- No shorter start of a control sequence is whole. -/
theorem complete_start_of_controlSequence (h : ControlSequence seq) {start : Bytes}
    (hstart : start <+: seq) (hcomplete : complete start = true) : start = seq := by
  cases h with
  | @csi params final hparams hfinal =>
    obtain ⟨more, rfl, hmore⟩ := prefix_cons_cons hstart hcomplete
    rcases List.prefix_concat_iff.mp hmore with rfl | hmore
    · rfl
    · rw [complete_csi] at hcomplete
      obtain ⟨last, hlast, hlastFinal⟩ := Option.any_eq_true _ _ |>.mp hcomplete
      have hmem := hmore.subset (List.mem_of_getLast? hlast)
      rw [hparams last hmem] at hlastFinal
      exact absurd hlastFinal Bool.false_ne_true
  | @string introducer body hintro hends hfirst =>
    obtain ⟨more, rfl, hmore⟩ := prefix_cons_cons hstart hcomplete
    by_contra hne
    refine hfirst more hmore (fun heq => hne (heq ▸ rfl)) ((complete_string hintro).mp hcomplete)
  | @short introducer b hintro =>
    obtain ⟨more, rfl, hmore⟩ := prefix_cons_cons hstart hcomplete
    have hne := (complete_short hintro).mp hcomplete
    rcases List.prefix_cons_iff.mp hmore with rfl | ⟨rest, rfl, hrest⟩
    · exact absurd rfl hne
    · rw [List.prefix_nil.mp hrest]
  | two hcsi hstring hshort =>
    obtain ⟨more, rfl, hmore⟩ := prefix_cons_cons hstart hcomplete
    rw [List.prefix_nil.mp hmore]

/-- What is whole and no shorter start is, is a control sequence. -/
theorem controlSequence_of_complete (hcomplete : complete (ESC :: body) = true)
    (hstart : ∀ start, start <+: ESC :: body → complete start = true → start = ESC :: body) :
    ControlSequence (ESC :: body) := by
  rcases body with _ | ⟨introducer, body⟩
  · exact absurd hcomplete Bool.false_ne_true
  have hshorter : ∀ start, start <+: body → complete (ESC :: introducer :: start) = true →
      start = body := fun start hs hc => by
    have h := hstart (ESC :: introducer :: start)
      (List.cons_prefix_cons.mpr ⟨rfl, List.cons_prefix_cons.mpr ⟨rfl, hs⟩⟩) hc
    exact (List.cons.inj (List.cons.inj h).2).2
  by_cases hcsi : introducer = 0x5b
  · subst hcsi
    rw [complete_csi] at hcomplete
    rcases List.eq_nil_or_concat body with rfl | ⟨params, final, rfl⟩
    · exact absurd hcomplete Bool.false_ne_true
    rw [List.concat_eq_append] at *
    rw [List.getLast?_concat] at hcomplete
    refine .csi (fun b hb => Bool.eq_false_iff.mpr fun hfinal => ?_) hcomplete
    obtain ⟨l, r, rfl⟩ := List.append_of_mem hb
    have hlast : complete (ESC :: 0x5b :: (l ++ [b])) = true := by
      rw [complete_csi, List.getLast?_concat]
      exact hfinal
    have heq := hshorter (l ++ [b]) ⟨r ++ [final], by simp⟩ hlast
    have hlength := congrArg List.length heq
    simp at hlength
  by_cases hstring : introducer ∈ STRING
  · refine .string hstring ((complete_string hstring).mp hcomplete) fun start hs hne hends => ?_
    exact hne (hshorter start hs ((complete_string hstring).mpr hends))
  by_cases hshort : introducer ∈ SHORT
  · obtain ⟨b, rest, rfl⟩ := List.exists_cons_of_ne_nil ((complete_short hshort).mp hcomplete)
    have heq := hshorter [b] ⟨rest, rfl⟩ ((complete_short hshort).mpr (List.cons_ne_nil _ _))
    rw [← heq]
    exact .short hshort
  · have heq := hshorter [] List.nil_prefix (complete_two hcsi hstring hshort)
    rw [← heq]
    exact .two hcsi hstring hshort

theorem exists_start (h : ControlSequence seq) : ∃ rest, seq = ESC :: rest := by
  cases h <;> exact ⟨_, rfl⟩

/-- As long as no control sequence begins there, no start is whole. -/
theorem unfinished_iff : Unfinished (ESC :: body) ↔
    ∀ start, start <+: ESC :: body → complete start = false := by
  constructor
  · intro h start hstart
    induction hn : start.length using Nat.strong_induction_on generalizing start with
    | _ n ih =>
      subst hn
      rw [Bool.eq_false_iff]
      intro hcomplete
      rcases List.prefix_cons_iff.mp hstart with rfl | ⟨rest, rfl, hrest⟩
      · exact absurd hcomplete Bool.false_ne_true
      refine h _ hstart (controlSequence_of_complete hcomplete fun shorter hshorter hc => ?_)
      by_contra hne
      have hlt : shorter.length < (ESC :: rest).length :=
        lt_of_le_of_ne hshorter.length_le fun heq => hne (hshorter.eq_of_length heq)
      rw [ih _ hlt shorter (hshorter.trans hstart) rfl] at hc
      exact absurd hc Bool.false_ne_true
  · intro h seq hseq hcontrol
    exact absurd (complete_of_controlSequence hcontrol) (by rw [h seq hseq]; exact Bool.false_ne_true)

/-! ### Runs of the filter -/

variable {a s t : Bytes}

theorem feed_cons (pending : Bytes) (b : UInt8) (s : Bytes) : feed pending (b :: s) =
    ((filterByte pending b).1 ++ (feed (filterByte pending b).2 s).1,
      (feed (filterByte pending b).2 s).2) := rfl

theorem feed_append (pending a s : Bytes) : feed pending (a ++ s) =
    ((feed pending a).1 ++ (feed (feed pending a).2 s).1, (feed (feed pending a).2 s).2) := by
  induction a generalizing pending with
  | nil => rfl
  | cons b a ih =>
    rw [List.cons_append, feed_cons, ih, feed_cons, List.append_assoc]

theorem feed_singleton (pending : Bytes) (b : UInt8) : feed pending [b] = filterByte pending b := by
  rw [feed_cons, feed, List.append_nil]

theorem filterByte_plain (hesc : b ≠ ESC) (hcr : b ≠ CR) : filterByte [] b = ([b], []) := by
  rw [filterByte, if_pos List.isEmpty_nil, if_neg hesc, if_neg hcr]

theorem givenBackFrom_append (pending a s : Bytes) : givenBackFrom pending (a ++ s) =
    givenBackFrom pending a ++ givenBackFrom (feed pending a).2 s := by
  induction a generalizing pending with
  | nil => rfl
  | cons b a ih =>
    rw [List.cons_append, givenBackFrom, ih, givenBackFrom, List.append_assoc]
    rfl

/-- A byte behind a pending sequence that is not whole with it, nor too long. -/
theorem filterByte_held (hne : pending ≠ []) (hopen : complete (pending ++ [b]) = false)
    (hlength : (pending ++ [b]).length ≤ MAX_SEQUENCE) :
    filterByte pending b = ([], pending ++ [b]) ∧ tooLong pending b = false := by
  refine ⟨?_, ?_⟩
  · rw [filterByte, if_neg (by simpa using hne), hopen, if_neg Bool.false_ne_true,
      if_neg (by omega)]
  · rw [tooLong, decide_eq_false (by omega), Bool.and_false]

theorem filterByte_whole (hne : pending ≠ []) (hwhole : complete (pending ++ [b]) = true) :
    filterByte pending b = ([], []) ∧ tooLong pending b = false := by
  refine ⟨?_, ?_⟩
  · rw [filterByte, if_neg (by simpa using hne), if_pos hwhole]
  · rw [tooLong, hwhole, Bool.not_true, Bool.and_false, Bool.false_and]

theorem filterByte_back (hne : pending ≠ []) (hopen : complete (pending ++ [b]) = false)
    (hlength : MAX_SEQUENCE < (pending ++ [b]).length) :
    filterByte pending b = ((pending ++ [b]).tail, []) ∧ tooLong pending b = true := by
  refine ⟨?_, ?_⟩
  · rw [filterByte, if_neg (by simpa using hne), hopen, if_neg Bool.false_ne_true, if_pos hlength]
  · rw [tooLong, hopen, decide_eq_true hlength, Bool.and_true, Bool.not_false, Bool.and_true]
    simpa using hne

/-- A start that is not whole yet is held. -/
theorem feed_unfinished (h : Unfinished (ESC :: body)) (hlength : body.length < MAX_SEQUENCE) :
    feed [] (ESC :: body) = ([], ESC :: body) ∧ givenBackFrom [] (ESC :: body) = [] := by
  rw [unfinished_iff] at h
  induction body using List.reverseRecOn with
  | nil => exact ⟨rfl, rfl⟩
  | append_singleton body b ih =>
    rw [List.length_append, List.length_singleton] at hlength
    have hshorter : ESC :: body <+: ESC :: (body ++ [b]) := ⟨[b], rfl⟩
    obtain ⟨hfeed, hback⟩ := ih (fun start hs => h start (hs.trans hshorter)) (by omega)
    have hopen : complete (ESC :: body ++ [b]) = false := h _ List.prefix_rfl
    obtain ⟨hbyte, hlong⟩ := filterByte_held (List.cons_ne_nil _ _) hopen (by simp; omega)
    rw [← List.cons_append, feed_append, givenBackFrom_append, hfeed, hback, feed_singleton, hbyte,
      givenBackFrom, hlong]
    exact ⟨rfl, rfl⟩

/-- A control sequence prints nothing. -/
theorem feed_controlSequence (h : ControlSequence seq) (hlength : seq.length ≤ MAX_SEQUENCE + 1) :
    feed [] seq = ([], []) ∧ givenBackFrom [] seq = [] := by
  obtain ⟨rest, rfl⟩ := exists_start h
  rcases List.eq_nil_or_concat rest with rfl | ⟨body, b, rfl⟩
  · exact absurd (complete_of_controlSequence h) Bool.false_ne_true
  rw [List.concat_eq_append] at *
  have hshorter : ESC :: body <+: ESC :: (body ++ [b]) := ⟨[b], rfl⟩
  have hopen : Unfinished (ESC :: body) := unfinished_iff.mpr fun start hs => by
    rw [Bool.eq_false_iff]
    intro hcomplete
    have heq := complete_start_of_controlSequence h (hs.trans hshorter) hcomplete
    have hle := hs.length_le
    rw [heq] at hle
    simp at hle
  rw [List.length_cons, List.length_append, List.length_singleton] at hlength
  obtain ⟨hfeed, hback⟩ := feed_unfinished hopen (by omega)
  obtain ⟨hbyte, hlong⟩ := filterByte_whole (List.cons_ne_nil ESC body)
    (complete_of_controlSequence h)
  rw [← List.cons_append, feed_append, givenBackFrom_append, hfeed, hback, feed_singleton, hbyte,
    givenBackFrom, hlong]
  exact ⟨rfl, rfl⟩

/-- A start that is never whole is given back. -/
theorem feed_unending (h : Unfinished (ESC :: body)) (hlength : body.length = MAX_SEQUENCE) :
    feed [] (ESC :: body) = (body, []) ∧ givenBackFrom [] (ESC :: body) = [body] := by
  rcases List.eq_nil_or_concat body with rfl | ⟨body, b, rfl⟩
  · exact absurd hlength (by decide)
  rw [List.concat_eq_append] at *
  have hshorter : ESC :: body <+: ESC :: (body ++ [b]) := ⟨[b], rfl⟩
  have hopen : complete (ESC :: body ++ [b]) = false := unfinished_iff.mp h _ List.prefix_rfl
  rw [List.length_append, List.length_singleton] at hlength
  obtain ⟨hfeed, hback⟩ := feed_unfinished (fun seq hs => h seq (hs.trans hshorter)) (by omega)
  obtain ⟨hbyte, hlong⟩ := filterByte_back (List.cons_ne_nil ESC body) hopen (by simp; omega)
  rw [← List.cons_append, feed_append, givenBackFrom_append, hfeed, hback, feed_singleton, hbyte,
    givenBackFrom, hlong]
  exact ⟨rfl, rfl⟩

end VtFilter

open VtFilter

/-- What a stream reads is what the filter prints of it. -/
theorem Reads.eq {s t : Bytes} {bodies : List Bytes} (h : Reads s t bodies) :
    outside s = t ∧ givenBack s = bodies := by
  induction h with
  | done => exact ⟨rfl, rfl⟩
  | @plain b s t bodies hesc hcr _ ih =>
    obtain ⟨rfl, rfl⟩ := ih
    rw [outside, feed_cons, filterByte_plain hesc hcr, givenBack, givenBackFrom,
      filterByte_plain hesc hcr]
    exact ⟨rfl, rfl⟩
  | ret _ ih =>
    obtain ⟨rfl, rfl⟩ := ih
    exact ⟨rfl, rfl⟩
  | sequence hseq hlength _ ih =>
    obtain ⟨rfl, rfl⟩ := ih
    obtain ⟨hfeed, hback⟩ := feed_controlSequence hseq hlength
    rw [outside, feed_append, givenBack, givenBackFrom_append, hfeed, hback]
    exact ⟨rfl, rfl⟩
  | unending hopen hlength _ ih =>
    obtain ⟨rfl, rfl⟩ := ih
    obtain ⟨hfeed, hback⟩ := feed_unending hopen hlength
    rw [outside, feed_append, givenBack, givenBackFrom_append, hfeed, hback]
    exact ⟨rfl, rfl⟩
  | cutOff hopen hlength =>
    obtain ⟨hfeed, hback⟩ := feed_unfinished hopen hlength
    rw [outside, givenBack, hfeed, hback]
    exact ⟨rfl, rfl⟩

/-- What follows a pending start, read with it. -/
theorem reads_from {body : Bytes} (hopen : Unfinished (ESC :: body))
    (hlength : body.length < MAX_SEQUENCE) (s : Bytes)
    (hrest : ∀ s', s'.length < s.length → Reads s' (outside s') (givenBack s')) :
    Reads (ESC :: body ++ s) (feed (ESC :: body) s).1 (givenBackFrom (ESC :: body) s) := by
  induction s generalizing body with
  | nil =>
    rw [List.append_nil]
    exact .cutOff hopen hlength
  | cons b s ih =>
    have hassoc : ESC :: body ++ b :: s = (ESC :: (body ++ [b])) ++ s := by simp
    have hnext := hrest s (Nat.lt_succ_self _)
    have hlen : (ESC :: body ++ [b]).length = body.length + 2 := by simp
    by_cases hwhole : complete (ESC :: body ++ [b]) = true
    · obtain ⟨hbyte, hlong⟩ := filterByte_whole (List.cons_ne_nil ESC body) hwhole
      rw [feed_cons, hbyte, givenBackFrom, hlong, hbyte, hassoc]
      refine .sequence (controlSequence_of_complete hwhole fun start hs hc => ?_) (by simp; omega)
        hnext
      rcases List.prefix_concat_iff.mp (show start <+: ESC :: body ++ [b] from hs) with heq | hs
      · exact heq
      · rw [unfinished_iff.mp hopen start hs] at hc
        exact absurd hc Bool.false_ne_true
    · rw [Bool.not_eq_true] at hwhole
      have hopen' : Unfinished (ESC :: (body ++ [b])) := unfinished_iff.mpr fun start hs => by
        rcases List.prefix_concat_iff.mp (show start <+: ESC :: body ++ [b] from hs) with rfl | hs
        · exact hwhole
        · exact unfinished_iff.mp hopen start hs
      by_cases hmax : MAX_SEQUENCE < body.length + 2
      · obtain ⟨hbyte, hlong⟩ := filterByte_back (List.cons_ne_nil ESC body) hwhole (by omega)
        rw [feed_cons, hbyte, givenBackFrom, hlong, hbyte, hassoc]
        exact .unending hopen' (by simp; omega) hnext
      · obtain ⟨hbyte, hlong⟩ := filterByte_held (List.cons_ne_nil ESC body) hwhole (by omega)
        rw [feed_cons, hbyte, givenBackFrom, hlong, hbyte, hassoc]
        exact ih hopen' (by simp; omega) fun s' hs' => hrest s' (Nat.lt_succ_of_lt hs')

/-- Every stream reads what the filter prints of it, and what it gives back. -/
theorem reads (s : Bytes) : Reads s (outside s) (givenBack s) := by
  induction hn : s.length using Nat.strong_induction_on generalizing s with
  | _ n ih =>
    subst hn
    cases s with
    | nil => exact .done
    | cons b s =>
      have hrest : ∀ s', s'.length < (b :: s).length → Reads s' (outside s') (givenBack s') :=
        fun s' hs' => ih _ hs' s' rfl
      by_cases hesc : b = ESC
      · subst hesc
        have hopen : Unfinished [ESC] := unfinished_iff.mpr fun start hs => by
          rcases List.prefix_cons_iff.mp hs with rfl | ⟨rest, rfl, hrest⟩
          · rfl
          · rw [List.prefix_nil.mp hrest]
            rfl
        exact reads_from hopen (by decide) s fun s' hs' => hrest s' (Nat.lt_succ_of_lt hs')
      · have hnext := hrest s (Nat.lt_succ_self _)
        by_cases hcr : b = CR
        · subst hcr
          exact .ret hnext
        · rw [outside, feed_cons, filterByte_plain hesc hcr, givenBack, givenBackFrom,
            filterByte_plain hesc hcr]
          exact .plain hesc hcr hnext

theorem reads_iff {s t : Bytes} {bodies : List Bytes} :
    Reads s t bodies ↔ outside s = t ∧ givenBack s = bodies := by
  constructor
  · exact Reads.eq
  · rintro ⟨rfl, rfl⟩
    exact reads s

end Boot2Deb.Engine.Tryboot
