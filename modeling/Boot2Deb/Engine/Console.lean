import Mathlib
import Boot2Deb.Engine.VtFilter

/-!
# The guest's console

The transcript is what the chunks print, each decoded on its own. It is the text of the stream just
where no chunk begins inside a character, and free of carriage returns and escapes just where no
sequence that holds one is given back. A command's exit code and output are read off the transcript
as it grows: the first sentinel of the whole transcript decides, however its chunks fall.
-/

namespace Boot2Deb.Engine.Tryboot

open Rust VtFilter

/-- `EngineError::TryBoot`. -/
structure TryBoot where
  context : Str
  message : Str
deriving DecidableEq

/-- The console: the pending sequence, the transcript so far, where the next scan starts, and what
was written to the guest. -/
structure Console where
  pending : Bytes
  buf : Str
  cursor : ℕ
  written : Str
deriving DecidableEq

namespace Console

/-- A console nothing came from yet. -/
def new : Console := ⟨[], [], 0, []⟩

/-- One chunk of the reader. -/
def receive (c : Console) (chunk : Bytes) : Console :=
  let (text, pending) := push c.pending chunk
  { c with pending := pending, buf := c.buf ++ text }

/-- `Console::pump`, with the chunks that were there. -/
def pump (c : Console) (chunks : List Bytes) : Console := chunks.foldl receive c

end Console

def SENTINEL : Str := "\nB2D-RC-".toList

def ECHO : Str := "B2D-RC-$?".toList

/-- `str::find` of a text. -/
def findText (s pat : Str) : Option ℕ := s.tails.findIdx? pat.isPrefixOf

/-- The digits of a sentinel that starts here, if another character follows them. -/
def codeHere (window : Str) : Option Str :=
  if SENTINEL.isPrefixOf window then
    let digits := (window.drop SENTINEL.length).takeWhile Char.isDigit
    if !digits.isEmpty && ((window.drop SENTINEL.length).drop digits.length).head?.isSome then
      some digits
    else none
  else none

/-- The first sentinel of the window that is complete: where it starts, and its digits. -/
def findCode : Str → Option (ℕ × Str)
  | [] => none
  | c :: window =>
    match codeHere (c :: window) with
    | some digits => some (0, digits)
    | none => (findCode window).map fun (pos, digits) => (pos + 1, digits)

/-- What follows the line of the echoed command. -/
def afterEcho (output : Str) : Str :=
  match findText output ECHO with
  | some echo =>
    match find (output.drop echo) '\n' with
    | some nl => output.drop (echo + nl + 1)
    | none => []
  | none => output

/-- The result for a sentinel that was found. -/
def finish (window : Str) (pos : ℕ) (digits : Str) : Except TryBoot (ℕ × Str) :=
  if decimal digits ≤ 2147483647 then .ok (decimal digits, afterEcho (window.take pos))
  else .error ⟨"parse a guest exit code".toList, "bad digits '".toList ++ digits ++ "'".toList⟩

/-- The loop of `run_cmd`, with what each pump brings before the deadline. -/
def runLoop (cmd : Str) (timeout start : ℕ) (pumps : List (List Bytes)) (c : Console) :
    Except TryBoot (ℕ × Str) × Console :=
  match findCode (c.buf.drop start), pumps with
  | some (pos, digits), _ =>
    (finish (c.buf.drop start) pos digits,
      { c with cursor := start + pos + SENTINEL.length + digits.length })
  | none, [] =>
    (.error ⟨"run a command in the guest".toList, '\'' :: (cmd ++
      "' produced no exit code within ".toList ++ Nat.toDigits 10 timeout ++ "s".toList)⟩, c)
  | none, chunks :: pumps => runLoop cmd timeout start pumps (c.pump chunks)

/-- Run a command in the guest's shell: its exit code and its output. -/
def runCmd (c : Console) (cmd : Str) (timeout : ℕ) (sent : Except Str Unit)
    (pumps : List (List Bytes)) : Except TryBoot (ℕ × Str) × Console :=
  match sent with
  | .error message => (.error ⟨"write to the guest console".toList, message⟩, c)
  | .ok () =>
    runLoop cmd timeout c.cursor pumps
      { c with written := c.written ++ cmd ++ "; echo B2D-RC-$?\n".toList }

/-! ### The transcript -/

/-- What each chunk prints. -/
def parts (pending : Bytes) : List Bytes → List Bytes
  | [] => []
  | chunk :: chunks => (feed pending chunk).1 :: parts (feed pending chunk).2 chunks

variable {pending : Bytes} {chunks before behind : List Bytes} {c : Console}

theorem pushAll_cons (pending chunk : Bytes) (chunks : List Bytes) :
    pushAll pending (chunk :: chunks) =
      (fromUtf8Lossy (feed pending chunk).1 ++ (pushAll (feed pending chunk).2 chunks).1,
        (pushAll (feed pending chunk).2 chunks).2) := rfl

theorem pushAll_eq : pushAll pending chunks =
    ((parts pending chunks).flatMap fromUtf8Lossy, (feed pending chunks.flatten).2) := by
  induction chunks generalizing pending with
  | nil => rfl
  | cons chunk chunks ih =>
    rw [List.flatten_cons, feed_append, parts, List.flatMap_cons, pushAll_cons, ih]

theorem flatten_parts : (parts pending chunks).flatten = (feed pending chunks.flatten).1 := by
  induction chunks generalizing pending with
  | nil => rfl
  | cons chunk chunks ih =>
    rw [List.flatten_cons, feed_append, parts, List.flatten_cons, ih]

theorem length_parts : (parts pending chunks).length = chunks.length := by
  induction chunks generalizing pending with
  | nil => rfl
  | cons chunk chunks ih => rw [parts, List.length_cons, List.length_cons, ih]

theorem parts_append : parts pending (before ++ behind) =
    parts pending before ++ parts (feed pending before.flatten).2 behind := by
  induction before generalizing pending with
  | nil => rfl
  | cons chunk before ih =>
    rw [List.cons_append, parts, parts, ih, List.flatten_cons, feed_append, List.cons_append]

/-- No chunk begins inside a character of what is printed. -/
def Uncut (chunks : List Bytes) : Prop :=
  ∀ before behind, chunks = before ++ behind →
    ¬CutsChar (outside before.flatten)
      ((outside chunks.flatten).drop (outside before.flatten).length)

/-- The transcript is the text of the stream where no chunk begins inside a character. -/
theorem transcript_eq_iff : transcript chunks = fromUtf8Lossy (outside chunks.flatten) ↔
    Uncut chunks := by
  have hparts := fromUtf8Lossy_parts_iff [] (parts [] chunks)
  rw [List.nil_append, flatten_parts] at hparts
  have hempty : fromUtf8Lossy [] = [] := rfl
  rw [transcript, pushAll_eq, eq_comm, outside, ← List.nil_append (List.flatMap _ _), ← hempty,
    hparts]
  constructor
  · rintro h before behind rfl
    have hcut := h (parts [] before) _ parts_append
    rw [flatten_parts, flatten_parts, List.nil_append] at hcut
    rw [List.flatten_append, outside, outside, feed_append]
    rwa [List.drop_left]
  · intro h front back heq
    have hlength := congrArg List.length heq
    rw [length_parts, List.length_append] at hlength
    obtain ⟨before, behind, rfl, hbefore⟩ :
        ∃ before behind, chunks = before ++ behind ∧ before.length = front.length :=
      ⟨_, _, (List.take_append_drop front.length chunks).symm, by rw [List.length_take]; omega⟩
    rw [parts_append] at heq
    obtain ⟨hfront, hback⟩ := List.append_inj heq (by rw [length_parts, hbefore])
    have hcut := h before behind rfl
    rw [List.flatten_append, outside, outside, feed_append, List.drop_left] at hcut
    rw [List.nil_append, ← hfront, ← hback, flatten_parts, flatten_parts]
    exact hcut

/-- In the text of a stream there is a carriage return or an escape just where a sequence that was
given back holds one. -/
theorem Reads.forall_mem {s t : Bytes} {bodies : List Bytes} (h : Reads s t bodies) :
    (CR ∉ t ∧ ESC ∉ t) ↔ ∀ body ∈ bodies, CR ∉ body ∧ ESC ∉ body := by
  induction h with
  | done => simp
  | plain hesc hcr _ ih =>
    rw [← ih, List.mem_cons, List.mem_cons, not_or, not_or]
    exact ⟨fun h => ⟨h.1.2, h.2.2⟩, fun h => ⟨⟨hcr.symm, h.1⟩, hesc.symm, h.2⟩⟩
  | ret _ ih => exact ih
  | sequence _ _ _ ih => exact ih
  | unending _ _ _ ih =>
    rw [List.forall_mem_cons, ← ih, List.mem_append, List.mem_append, not_or, not_or]
    exact ⟨fun h => ⟨⟨h.1.1, h.2.1⟩, h.1.2, h.2.2⟩, fun h => ⟨⟨h.1.1, h.2.1⟩, h.1.2, h.2.2⟩⟩
  | cutOff => simp

theorem notMem_text_iff (s : Bytes) :
    ('\r' ∉ fromUtf8Lossy (outside s) ∧ '\x1b' ∉ fromUtf8Lossy (outside s)) ↔
      ∀ body ∈ givenBack s, CR ∉ body ∧ ESC ∉ body := by
  rw [← (reads s).forall_mem, mem_fromUtf8Lossy (by decide), mem_fromUtf8Lossy (by decide)]
  have hbyte : ∀ b : UInt8, (∃ c ∈ outside s, c.toNat = b.toNat) ↔ b ∈ outside s := fun b =>
    ⟨fun ⟨c, hc, heq⟩ => UInt8.toNat_inj.mp heq ▸ hc, fun hb => ⟨b, hb, rfl⟩⟩
  exact and_congr (not_congr (hbyte CR)) (not_congr (hbyte ESC))

/-! ### Commands -/

/-- A complete sentinel: a line that starts with its mark, digits, and one character more. -/
def SentinelAt (window : Str) (pos : ℕ) (digits : Str) : Prop :=
  ∃ next rest, window.drop pos = SENTINEL ++ (digits ++ next :: rest) ∧ digits ≠ [] ∧
    (∀ d ∈ digits, d.isDigit = true) ∧ next.isDigit = false

theorem takeWhile_digits {digits rest : Str} {next : Char} (h : ∀ d ∈ digits, d.isDigit = true)
    (hnext : next.isDigit = false) :
    (digits ++ next :: rest).takeWhile Char.isDigit = digits := by
  rw [List.takeWhile_append_of_pos h, List.takeWhile_cons_of_neg (by simp [hnext]), List.append_nil]

theorem codeHere_eq_some {window digits : Str} :
    codeHere window = some digits ↔ SentinelAt window 0 digits := by
  rw [codeHere, SentinelAt, List.drop_zero]
  by_cases hmark : SENTINEL.isPrefixOf window = true
  swap
  · rw [if_neg hmark]
    refine iff_of_false (fun h => nomatch h) fun ⟨next, rest, h, _⟩ => hmark ?_
    rw [List.isPrefixOf_iff_prefix]
    exact ⟨_, h.symm⟩
  rw [if_pos hmark]
  obtain ⟨tail, rfl⟩ := List.isPrefixOf_iff_prefix.mp hmark
  rw [List.drop_left, Option.ite_none_right_eq_some, Bool.and_eq_true]
  constructor
  · rintro ⟨⟨hne, hsome⟩, hdigits⟩
    obtain ⟨rest, htail⟩ := List.takeWhile_prefix Char.isDigit (l := tail)
    have hall : ∀ d ∈ tail.takeWhile Char.isDigit, d.isDigit = true := fun d => List.mem_takeWhile_imp
    rw [Option.some.inj hdigits] at htail hall hne hsome
    subst htail
    rw [List.drop_left] at hsome
    rcases rest with _ | ⟨next, rest⟩
    · exact absurd hsome Bool.false_ne_true
    refine ⟨next, rest, rfl, by simpa using hne, hall, ?_⟩
    by_contra hnext
    have hlonger := congrArg List.length (Option.some.inj hdigits)
    rw [List.takeWhile_append_of_pos hall, List.takeWhile_cons_of_pos (by simpa using hnext),
      List.length_append, List.length_cons] at hlonger
    omega
  · rintro ⟨next, rest, h, hne, hall, hnext⟩
    rw [List.append_right_inj] at h
    subst h
    rw [takeWhile_digits hall hnext, List.drop_left]
    exact ⟨⟨by simpa using hne, rfl⟩, rfl⟩

theorem not_sentinelAt_nil {digits : Str} {pos : ℕ} : ¬SentinelAt [] pos digits := by
  rintro ⟨next, rest, h, -⟩
  rw [List.drop_nil] at h
  exact nomatch h

/-- The scan finds the first complete sentinel. -/
theorem findCode_eq_some {window digits : Str} {pos : ℕ} : findCode window = some (pos, digits) ↔
    SentinelAt window pos digits ∧ ∀ pos' < pos, ∀ digits', ¬SentinelAt window pos' digits' := by
  induction window generalizing pos with
  | nil => exact iff_of_false (fun h => nomatch h) fun h => not_sentinelAt_nil h.1
  | cons c window ih =>
    have hshift : ∀ {n ds}, SentinelAt (c :: window) (n + 1) ds ↔ SentinelAt window n ds := Iff.rfl
    rw [findCode]
    cases hcode : codeHere (c :: window) with
    | some found =>
      have hhere := codeHere_eq_some.mp hcode
      constructor
      · intro h
        obtain ⟨rfl, rfl⟩ := Prod.mk.inj (Option.some.inj h)
        exact ⟨hhere, fun pos' hlt => absurd hlt (Nat.not_lt_zero _)⟩
      · rintro ⟨h, hfirst⟩
        rcases pos with _ | pos
        · obtain rfl := Option.some.inj (hcode.symm.trans (codeHere_eq_some.mpr h))
          rfl
        · exact absurd hhere (hfirst 0 (Nat.succ_pos _) found)
    | none =>
      have hhere : ∀ digits', ¬SentinelAt (c :: window) 0 digits' := fun digits' h =>
        nomatch hcode.symm.trans (codeHere_eq_some.mpr h)
      constructor
      · intro h
        obtain ⟨⟨pos', digits'⟩, hfound, heq⟩ := Option.map_eq_some_iff.mp h
        obtain ⟨rfl, rfl⟩ := Prod.mk.inj heq
        obtain ⟨hat, hfirst⟩ := ih.mp hfound
        refine ⟨hshift.mpr hat, fun n hn => ?_⟩
        rcases n with _ | n
        · exact hhere
        · exact fun ds h => hfirst n (by omega) ds (hshift.mp h)
      · rintro ⟨h, hfirst⟩
        rcases pos with _ | pos
        · exact absurd h (hhere digits)
        · have hfound := ih.mpr ⟨hshift.mp h, fun n hn ds h' =>
            hfirst (n + 1) (by omega) ds (hshift.mpr h')⟩
          exact Option.map_eq_some_iff.mpr ⟨_, hfound, rfl⟩

/-- A sentinel that is complete stays so. -/
theorem SentinelAt.append {window digits : Str} {pos : ℕ} (h : SentinelAt window pos digits)
    (more : Str) : SentinelAt (window ++ more) pos digits := by
  obtain ⟨next, rest, hdrop, hne, hall, hnext⟩ := h
  have hle : pos ≤ window.length := by
    by_contra hlt
    rw [List.drop_eq_nil_of_le (by omega)] at hdrop
    exact nomatch hdrop
  refine ⟨next, rest ++ more, ?_, hne, hall, hnext⟩
  rw [List.drop_append_of_le_length hle, hdrop]
  simp

/-- A sentinel before the start of a line that is there is complete by then. -/
theorem SentinelAt.of_append {window more digits : Str} {pos line : ℕ}
    (h : SentinelAt (window ++ more) pos digits) (hlt : pos < line) (hline : window[line]? = some '\n') :
    SentinelAt window pos digits := by
  obtain ⟨next, rest, hdrop, hne, hall, hnext⟩ := h
  have hlength : line < window.length := (List.getElem?_eq_some_iff.mp hline).1
  have hle : pos ≤ window.length := by omega
  rw [List.drop_append_of_le_length hle] at hdrop
  -- The mark and the digits hold no line break behind the one the mark starts with.
  have hbehind : (SENTINEL ++ digits).length ≤ line - pos := by
    by_contra hshort
    have hchar : (SENTINEL ++ digits)[line - pos]? = some '\n' := by
      have hat := congrArg (fun l => l[line - pos]?) hdrop
      rw [List.getElem?_append_left (by rw [List.length_drop]; omega), List.getElem?_drop,
        Nat.add_sub_cancel' hlt.le, hline, ← List.append_assoc,
        List.getElem?_append_left (by omega)] at hat
      exact hat.symm
    obtain ⟨n, hn⟩ : ∃ n, line - pos = n + 1 := ⟨line - pos - 1, by omega⟩
    rw [hn] at hchar
    have hmem : '\n' ∈ "B2D-RC-".toList ++ digits := List.mem_of_getElem? hchar
    rcases List.mem_append.mp hmem with hmark | hdigit
    · exact absurd hmark (by decide)
    · exact absurd (hall _ hdigit) (by decide)
  rw [← List.append_assoc, List.append_cons] at hdrop
  have hlen : (SENTINEL ++ digits ++ [next]).length ≤ (window.drop pos).length := by
    rw [List.length_append, List.length_singleton, List.length_drop]
    omega
  obtain ⟨rest', hrest⟩ := List.prefix_of_prefix_length_le ⟨rest, hdrop.symm⟩
    (List.prefix_append (window.drop pos) more) hlen
  refine ⟨next, rest', ?_, hne, hall, hnext⟩
  rw [← hrest]
  simp

/-- What the scan finds, it finds however much more comes. -/
theorem findCode_append {window digits : Str} {pos : ℕ} (h : findCode window = some (pos, digits))
    (more : Str) : findCode (window ++ more) = some (pos, digits) := by
  obtain ⟨hat, hfirst⟩ := findCode_eq_some.mp h
  have hline : window[pos]? = some '\n' := by
    obtain ⟨next, rest, hdrop, -⟩ := hat
    rw [← List.head?_drop, hdrop]
    rfl
  exact findCode_eq_some.mpr ⟨hat.append more, fun pos' hlt digits' h' =>
    hfirst pos' hlt digits' (h'.of_append hlt hline)⟩

/-! ### The loop -/

variable {pumps : List (List Bytes)} {cmd : Str} {timeout start pos : ℕ} {digits : Str}

theorem pump_eq : c.pump chunks = { c with
    pending := (pushAll c.pending chunks).2
    buf := c.buf ++ (pushAll c.pending chunks).1 } := by
  induction chunks generalizing c with
  | nil => simp [Console.pump, pushAll]
  | cons chunk chunks ih =>
    have hstep : c.pump (chunk :: chunks) = (c.receive chunk).pump chunks := rfl
    rw [hstep, ih, pushAll_cons, Console.receive, push, List.append_assoc]

theorem finish_append {window : Str} (h : findCode window = some (pos, digits)) (more : Str) :
    finish (window ++ more) pos digits = finish window pos digits := by
  obtain ⟨⟨next, rest, hdrop, -⟩, -⟩ := findCode_eq_some.mp h
  have hle : pos ≤ window.length := by
    by_contra hlt
    rw [List.drop_eq_nil_of_le (by omega)] at hdrop
    exact nomatch hdrop
  rw [finish, finish, List.take_append_of_le_length hle]

theorem runLoop_found (h : findCode (c.buf.drop start) = some (pos, digits)) :
    (runLoop cmd timeout start pumps c).1 = finish (c.buf.drop start) pos digits := by
  unfold runLoop
  rw [h]

theorem runLoop_next (h : findCode (c.buf.drop start) = none) (chunks : List Bytes) :
    runLoop cmd timeout start (chunks :: pumps) c =
      runLoop cmd timeout start pumps (c.pump chunks) := by
  rw [runLoop.eq_def, h]

/-- The loop ends with the first sentinel of all that comes. -/
theorem runLoop_eq (hstart : start ≤ c.buf.length)
    (h : findCode ((c.pump pumps.flatten).buf.drop start) = some (pos, digits)) :
    (runLoop cmd timeout start pumps c).1 =
      finish ((c.pump pumps.flatten).buf.drop start) pos digits := by
  induction pumps generalizing c with
  | nil => exact runLoop_found h
  | cons chunks pumps ih =>
    have hnext : (c.pump (chunks :: pumps).flatten) = (c.pump chunks).pump pumps.flatten := by
      rw [List.flatten_cons, Console.pump, List.foldl_append]
      rfl
    have hgrown : ∀ l, ∃ more, (c.pump l).buf.drop start = c.buf.drop start ++ more := fun l => by
      rw [pump_eq]
      exact ⟨_, List.drop_append_of_le_length hstart⟩
    cases hfound : findCode (c.buf.drop start) with
    | some hit =>
      obtain ⟨pos', digits'⟩ := hit
      obtain ⟨more, hmore⟩ := hgrown (chunks :: pumps).flatten
      rw [hmore, findCode_append hfound more] at h
      obtain ⟨rfl, rfl⟩ := Prod.mk.inj (Option.some.inj h)
      rw [hmore, finish_append hfound, runLoop_found hfound]
    | none =>
      have hlength : start ≤ (c.pump chunks).buf.length := by
        rw [pump_eq, List.length_append]
        omega
      rw [hnext] at h ⊢
      rw [runLoop_next hfound]
      exact ih hlength h

theorem runCmd_eq (hcursor : c.cursor ≤ c.buf.length)
    (h : findCode ((c.pump pumps.flatten).buf.drop c.cursor) = some (pos, digits)) :
    (runCmd c cmd timeout (.ok ()) pumps).1 =
      finish ((c.pump pumps.flatten).buf.drop c.cursor) pos digits := by
  have hsent : ∀ written, (Console.pump { c with written := written } pumps.flatten).buf =
      (c.pump pumps.flatten).buf := fun written => by rw [pump_eq, pump_eq]
  rw [← hsent (c.written ++ cmd ++ "; echo B2D-RC-$?\n".toList)] at h ⊢
  exact runLoop_eq hcursor h

/-! ### However the reads fall -/

/-- The result of every command is the one the text of the stream has: the command starts behind
some chunks, at any place of the transcript, and the others come in any pumps. -/
def ResultOfStream (chunks : List Bytes) : Prop :=
  ∀ (seen : List Bytes) (pumps : List (List Bytes)) (cursor : ℕ) (cmd : Str) (timeout pos : ℕ)
    (digits : Str), chunks = seen ++ pumps.flatten → cursor ≤ (transcript seen).length →
    let window := (fromUtf8Lossy (outside chunks.flatten)).drop cursor
    SentinelAt window pos digits → (∀ pos' < pos, ∀ digits', ¬SentinelAt window pos' digits') →
    (runCmd { Console.new.pump seen with cursor := cursor } cmd timeout (.ok ()) pumps).1 =
      finish window pos digits

theorem pushAll_append {before behind : List Bytes} : pushAll pending (before ++ behind) =
    ((pushAll pending before).1 ++ (pushAll (pushAll pending before).2 behind).1,
      (pushAll (pushAll pending before).2 behind).2) := by
  induction before generalizing pending with
  | nil => rfl
  | cons chunk before ih =>
    rw [List.cons_append, pushAll_cons, ih, pushAll_cons, List.append_assoc]

theorem buf_pump_new (seen : List Bytes) : (Console.new.pump seen).buf = transcript seen := by
  rw [pump_eq]
  rfl

/-- Where the transcript is the text of the stream, so are the results of the commands. -/
theorem resultOfStream (h : transcript chunks = fromUtf8Lossy (outside chunks.flatten)) :
    ResultOfStream chunks := by
  rintro seen pumps cursor cmd timeout pos digits rfl hcursor window hat hfirst
  have hbuf : (Console.pump { Console.new.pump seen with cursor := cursor } pumps.flatten).buf =
      transcript (seen ++ pumps.flatten) := by
    rw [pump_eq, pump_eq, transcript, pushAll_append]
    rfl
  have hwindow : window = (transcript (seen ++ pumps.flatten)).drop cursor := by rw [h]
  have hfound := findCode_eq_some.mpr ⟨hat, hfirst⟩
  rw [hwindow, ← hbuf] at hfound
  rw [hwindow, ← hbuf]
  rw [← buf_pump_new] at hcursor
  exact runCmd_eq hcursor hfound

/-- The transcript is the bytes outside control sequences, decoded once, with no carriage return and
no escape, and the commands have the results of that text, just where no chunk begins inside a
character and no sequence that holds a carriage return or an escape is given back. -/
theorem transcript_iff (chunks : List Bytes) :
    (∃ printed bodies, Reads chunks.flatten printed bodies ∧
      transcript chunks = fromUtf8Lossy printed) ∧
      '\r' ∉ transcript chunks ∧ '\x1b' ∉ transcript chunks ∧ ResultOfStream chunks ↔
    Uncut chunks ∧ ∀ printed bodies, Reads chunks.flatten printed bodies →
      ∀ body ∈ bodies, CR ∉ body ∧ ESC ∉ body := by
  have hbodies : (∀ printed bodies, Reads chunks.flatten printed bodies →
      ∀ body ∈ bodies, CR ∉ body ∧ ESC ∉ body) ↔
      ∀ body ∈ givenBack chunks.flatten, CR ∉ body ∧ ESC ∉ body := by
    constructor
    · exact fun h => h _ _ (reads _)
    · intro h printed bodies hreads
      rw [← hreads.eq.2]
      exact h
  rw [hbodies, ← notMem_text_iff, ← transcript_eq_iff]
  constructor
  · rintro ⟨⟨printed, bodies, hreads, htext⟩, hcr, hesc, -⟩
    rw [← hreads.eq.1] at htext
    rw [← htext]
    exact ⟨rfl, hcr, hesc⟩
  · rintro ⟨htext, hcr, hesc⟩
    exact ⟨⟨_, _, reads _, htext⟩, htext ▸ hcr, htext ▸ hesc, resultOfStream htext⟩

/-- One letter of two bytes, read in two chunks and in one. -/
theorem letter_cut : ¬∀ chunks chunks' : List Bytes, chunks.flatten = chunks'.flatten →
    transcript chunks = transcript chunks' := by
  intro h
  have := h [[0xc3], [0xa9]] [[0xc3, 0xa9]] rfl
  revert this
  decide +kernel

end Boot2Deb.Engine.Tryboot
