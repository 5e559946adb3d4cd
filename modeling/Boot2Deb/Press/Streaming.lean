import Mathlib
import Boot2Deb.Engine.Signature
import Boot2Deb.Image.Assembled

/-!
# Streaming an image (`press/write.rs`, `press/verify.rs`, `image/files.rs`)

An image is read through its decoder in pieces of the decoder's choice, written as it is read, and
read again to check the file. The cut of the pieces, in either reading, is nowhere seen in what is
written: `stream_verified` says what a checked file holds, `sparse_copy_exact` what a file that skips
zeroes does.
-/

namespace Boot2Deb.Press
open Rust

/-- The variants of `EngineError` a stream ends in. -/
inductive StreamError where
  | io (path : Str)
  | imageVerifyShortRead (target : Str) (expectedBytes readBytes : ℕ)
  | imageVerifyDigest (target expected actual : Str)
deriving DecidableEq, Repr

/-- What one `read` into a buffer of `room` bytes returns. At the end of a stream it returns nothing,
which is the end of a list of these. -/
inductive ReadCall (room : ℕ) where
  | data (bytes : Bytes) (ne : bytes ≠ []) (fits : bytes.length ≤ room)
  | failed

/-- The bytes in front of the first failure. -/
def readable {room : ℕ} : List (ReadCall room) → Bytes
  | [] => []
  | .failed :: _ => []
  | .data bytes _ _ :: calls => bytes ++ readable calls

/-- The chunk size of the copy loop. -/
def CHUNK : ℕ := 4 * 2 ^ 20

/-! ### The write -/

/-- `WrittenImage`. -/
structure WrittenImage where
  bytes : ℕ
  sha256 : Str
deriving DecidableEq, Repr

/-- The copy loop between two reads. -/
structure Streaming where
  dest : Bytes
  hashed : Bytes
  written : ℕ
  lastPct : ℕ
  progress : List ℕ

def Streaming.start : Streaming := ⟨[], [], 0, 0, []⟩

/-- The percentage a loop has come to, and what it then reports. -/
def stepProgress (total consumed cap lastPct : ℕ) : ℕ × List ℕ :=
  if total = 0 then (lastPct, [])
  else
    let pct := min consumed total * 100 / total
    if lastPct < pct then (pct, [min pct cap]) else (lastPct, [])

/-- An artifact as its decoder yields it: what each read returns, and how much of the file is
consumed by then. -/
structure Artifact where
  path : Str
  compressedLen : ℕ
  reads : List (ReadCall CHUNK × ℕ)

def Artifact.calls (artifact : Artifact) : List (ReadCall CHUNK) := artifact.reads.map Prod.fst

/-- A destination: whether it takes a chunk behind what it has, and whether it can be flushed. -/
structure Sink where
  takes : Bytes → Bytes → Bool
  flushes : Bytes → Bool

def streamLoop (artifact : Artifact) (sink : Sink) :
    List (ReadCall CHUNK × ℕ) → Streaming → Outcome StreamError Streaming
  | [], st => .ok st
  | (.failed, _) :: _, _ => .err (.io artifact.path)
  | (.data bytes _ _, consumed) :: reads, st =>
    if sink.takes st.dest bytes then
      let (lastPct, reported) := stepProgress artifact.compressedLen consumed 99 st.lastPct
      streamLoop artifact sink reads {
        dest := st.dest ++ bytes
        hashed := st.hashed ++ bytes
        written := st.written + bytes.length
        lastPct
        progress := st.progress ++ reported }
    else .err (.io artifact.path)

/-- `stream_image`: the destination, what was measured, and the progress reported. -/
def streamImage (sha256Hex : Bytes → Str) (artifact : Artifact) (sink : Sink) :
    Outcome StreamError (Bytes × WrittenImage × List ℕ) := do
  let st ← streamLoop artifact sink artifact.reads Streaming.start
  if sink.flushes st.dest then
    .ok (st.dest, ⟨st.written, sha256Hex st.hashed⟩, st.progress ++ [100])
  else .err (.io artifact.path)

/-! ### The check -/

/-- The loop of `verify_digest`, with `remaining` bytes to go. The last read is no longer than
they are. -/
def verifyLoop (target : Str) (total : ℕ) :
    List (ReadCall CHUNK) → (remaining : ℕ) → Bytes → (lastPct : ℕ) → List ℕ →
      Outcome StreamError (Bytes × List ℕ)
  | _, 0, hashed, _, progress => .ok (hashed, progress)
  | [], remaining + 1, _, _, _ =>
    .err (.imageVerifyShortRead target total (total - (remaining + 1)))
  | .failed :: _, _ + 1, _, _, _ => .err (.io target)
  | .data bytes _ _ :: calls, remaining + 1, hashed, lastPct, progress =>
    let got := bytes.take (remaining + 1)
    let left := remaining + 1 - got.length
    let (lastPct, reported) := stepProgress total (total - left) 100 lastPct
    verifyLoop target total calls left (hashed ++ got) lastPct (progress ++ reported)

/-- `verify_digest`. -/
def verifyDigest (sha256Hex : Bytes → Str) (target : Str) (calls : List (ReadCall CHUNK))
    (written : WrittenImage) : Outcome StreamError (List ℕ) := do
  let (hashed, progress) ← verifyLoop target written.bytes calls written.bytes [] 0 []
  let actual := sha256Hex hashed
  if actual ≠ written.sha256 then .err (.imageVerifyDigest target written.sha256 actual)
  else .ok progress

/-! ### The head of an image, and a copy that skips zeroes -/

/-- The loop of `decompressed_prefix`, with room for `want` more bytes. -/
def prefixLoop {room : ℕ} (path : Str) :
    List (ReadCall room) → (want : ℕ) → Bytes → Outcome StreamError Bytes
  | _, 0, out => .ok out
  | [], _ + 1, out => .ok out
  | .failed :: _, _ + 1, _ => .err (.io path)
  | .data bytes _ _ :: calls, want + 1, out =>
    prefixLoop path calls (want + 1 - bytes.length) (out ++ bytes.take (want + 1))

/-- `decompressed_prefix`. -/
def decompressedPrefix {room : ℕ} (path : Str) (calls : List (ReadCall room)) (len : ℕ) :
    Outcome StreamError Bytes := prefixLoop path calls len []

/-- The buffer of the sparse copy. -/
def SPARSE_CHUNK : ℕ := 2 ^ 20

/-- `File::set_len`. -/
def setLen (file : Bytes) (len : ℕ) : Bytes :=
  file.take len ++ List.replicate (len - file.length) 0

/-- The loop of `decompress_sparse`: the file, and the position in it. -/
def sparseLoop (path : Str) (takes : ℕ → Bytes → Bool) :
    List (ReadCall SPARSE_CHUNK) → Bytes → (pos len : ℕ) → Outcome StreamError (Bytes × ℕ)
  | [], out, _, len => .ok (out, len)
  | .failed :: _, _, _, _ => .err (.io path)
  | .data bytes _ _ :: calls, out, pos, len =>
    if bytes.all (· == 0) then sparseLoop path takes calls out (pos + bytes.length) (len + bytes.length)
    else if takes pos bytes then
      sparseLoop path takes calls (Image.writeAt out pos bytes) (pos + bytes.length)
        (len + bytes.length)
    else .err (.io path)

/-- `decompress_sparse`, into a new file. -/
def decompressSparse (path : Str) (takes : ℕ → Bytes → Bool) (grows : ℕ → Bool)
    (calls : List (ReadCall SPARSE_CHUNK)) : Outcome StreamError Bytes := do
  let (out, len) ← sparseLoop path takes calls [] 0 0
  if grows len then .ok (setLen out len) else .err (.io path)

/-! ### Whole streams -/

section
variable {room : ℕ} {call : ReadCall room} {calls : List (ReadCall room)}

/-- No read of the stream fails. -/
def Unbroken (calls : List (ReadCall room)) : Prop := ReadCall.failed ∉ calls

theorem unbroken_data {bytes : Bytes} {ne : bytes ≠ []} {fits : bytes.length ≤ room} :
    Unbroken (.data bytes ne fits :: calls) ↔ Unbroken calls := by
  unfold Unbroken
  rw [List.mem_cons, not_or]
  exact and_iff_right (by intro h; cases h)

theorem not_unbroken_failed : ¬Unbroken ((ReadCall.failed : ReadCall room) :: calls) :=
  fun h => h List.mem_cons_self

end

variable {sha256Hex : Bytes → Str} {artifact : Artifact} {sink : Sink} {st st' : Streaming}
  {reads : List (ReadCall CHUNK × ℕ)} {target : Str} {dest : Bytes} {progress : List ℕ}

/-- Each chunk of the stream is taken behind those before it. -/
def Sink.TakesAll (sink : Sink) : Bytes → List (ReadCall CHUNK × ℕ) → Prop
  | _, [] => True
  | dest, (.data bytes _ _, _) :: reads => sink.takes dest bytes = true ∧ sink.TakesAll (dest ++ bytes) reads
  | dest, (.failed, _) :: reads => sink.TakesAll dest reads

/-- The reports of a loop never fall, and stay below the end. -/
structure Rising (cap lastPct : ℕ) (progress : List ℕ) : Prop where
  sorted : progress.Pairwise (· ≤ ·)
  below : ∀ p ∈ progress, p ≤ cap
  last : ∀ p ∈ progress, p ≤ min lastPct cap

theorem stepProgress_cases (total consumed cap lastPct : ℕ) :
    stepProgress total consumed cap lastPct = (lastPct, []) ∨
    ∃ pct, lastPct < pct ∧ stepProgress total consumed cap lastPct = (pct, [min pct cap]) := by
  unfold stepProgress
  by_cases htotal : total = 0
  · exact .inl (if_pos htotal)
  · rw [if_neg htotal]
    by_cases hless : lastPct < min consumed total * 100 / total
    · exact .inr ⟨_, hless, if_pos hless⟩
    · exact .inl (if_neg hless)

theorem Rising.step {total consumed cap lastPct : ℕ} (h : Rising cap lastPct progress) :
    Rising cap (stepProgress total consumed cap lastPct).1
      (progress ++ (stepProgress total consumed cap lastPct).2) := by
  rcases stepProgress_cases total consumed cap lastPct with heq | ⟨pct, hless, heq⟩
  · rw [heq, List.append_nil]
    exact h
  · rw [heq]
    have hall : ∀ p ∈ progress ++ [min pct cap], p ≤ min pct cap := by
      intro p hp
      rcases List.mem_append.mp hp with hp | hp
      · have hlast := h.last p hp
        omega
      · exact (List.mem_singleton.mp hp).le
    refine ⟨List.pairwise_append.mpr ⟨h.sorted, List.pairwise_singleton _ _, ?_⟩, ?_, hall⟩
    · intro p hp q hq
      obtain rfl := List.mem_singleton.mp hq
      exact hall p (List.mem_append_left _ hp)
    · exact fun p hp => (hall p hp).trans (min_le_right _ _)

/-- What the copy loop has made of the reads behind it. -/
theorem streamLoop_eq_ok : streamLoop artifact sink reads st = .ok st' →
    Unbroken (reads.map Prod.fst) ∧ sink.TakesAll st.dest reads ∧
      st'.dest = st.dest ++ readable (reads.map Prod.fst) ∧
      st'.hashed = st.hashed ++ readable (reads.map Prod.fst) ∧
      st'.written = st.written + (readable (reads.map Prod.fst)).length ∧
      (Rising 99 st.lastPct st.progress → Rising 99 st'.lastPct st'.progress) := by
  induction reads generalizing st with
  | nil =>
    intro h
    obtain rfl := Outcome.ok.inj h
    exact ⟨List.not_mem_nil, trivial, by simp [readable], by simp [readable], by simp [readable], id⟩
  | cons read reads ih =>
    obtain ⟨call, consumed⟩ := read
    cases call with
    | failed =>
      intro h
      cases h
    | data bytes ne fits =>
      intro h
      unfold streamLoop at h
      split_ifs at h with htakes
      obtain ⟨hunbroken, htakesAll, hdest, hhashed, hwritten, hrising⟩ := ih h
      refine ⟨unbroken_data.mpr hunbroken, ⟨htakes, htakesAll⟩, ?_, ?_, ?_, fun hst =>
        hrising hst.step⟩
      · rw [hdest]
        exact List.append_assoc _ _ _
      · rw [hhashed]
        exact List.append_assoc _ _ _
      · rw [hwritten, List.map_cons, readable, List.length_append]
        exact Nat.add_assoc _ _ _

theorem exists_streamLoop (hunbroken : Unbroken (reads.map Prod.fst))
    (htakes : sink.TakesAll st.dest reads) : ∃ st', streamLoop artifact sink reads st = .ok st' := by
  induction reads generalizing st with
  | nil => exact ⟨st, rfl⟩
  | cons read reads ih =>
    obtain ⟨call, consumed⟩ := read
    cases call with
    | failed => exact absurd hunbroken not_unbroken_failed
    | data bytes ne fits =>
      unfold streamLoop
      rw [if_pos htakes.1]
      exact ih (unbroken_data.mp hunbroken) htakes.2

/-- What is written and measured is the image, however its decoder cut it, and the reports rise to
the end. -/
theorem streamImage_eq_ok {written : WrittenImage}
    (h : streamImage sha256Hex artifact sink = .ok (dest, written, progress)) :
    Unbroken artifact.calls ∧ sink.TakesAll [] artifact.reads ∧ sink.flushes dest = true ∧
      dest = readable artifact.calls ∧ written = ⟨dest.length, sha256Hex dest⟩ ∧
      ∃ before, progress = before ++ [100] ∧ before.Pairwise (· ≤ ·) ∧ ∀ p ∈ before, p ≤ 99 := by
  obtain ⟨st, hst, h⟩ := Outcome.bind_eq_ok.mp h
  split_ifs at h with hflush
  obtain ⟨hunbroken, htakes, hdest, hhashed, hwritten, hrising⟩ := streamLoop_eq_ok hst
  have hall : st.dest = readable artifact.calls := hdest
  have hsame : st.hashed = st.dest := hhashed.trans hdest.symm
  have hlen : st.written = st.dest.length := by
    rw [hwritten, hdest, List.length_append]
    rfl
  have hend : Rising 99 st.lastPct st.progress :=
    hrising ⟨.nil, by simp [Streaming.start], by simp [Streaming.start]⟩
  have heq := Outcome.ok.inj h
  rw [hsame, hlen] at heq
  obtain ⟨rfl, hrest⟩ := Prod.mk.inj heq
  obtain ⟨rfl, rfl⟩ := Prod.mk.inj hrest
  exact ⟨hunbroken, htakes, hflush, hall, rfl, st.progress, rfl, hend.sorted, hend.below⟩

/-- An image is written exactly if its stream does not break and the destination takes it. -/
theorem streamImage_accepts_iff :
    (∃ out, streamImage sha256Hex artifact sink = .ok out) ↔
      Unbroken artifact.calls ∧ sink.TakesAll [] artifact.reads ∧
        sink.flushes (readable artifact.calls) = true := by
  constructor
  · rintro ⟨⟨dest, written, progress⟩, h⟩
    obtain ⟨hunbroken, htakes, hflush, rfl, -⟩ := streamImage_eq_ok h
    exact ⟨hunbroken, htakes, hflush⟩
  · rintro ⟨hunbroken, htakes, hflush⟩
    obtain ⟨st, hst⟩ := @exists_streamLoop artifact sink Streaming.start _ hunbroken htakes
    obtain ⟨-, -, hdest, -⟩ := streamLoop_eq_ok hst
    have hall : st.dest = readable artifact.calls := hdest
    refine ⟨_, Outcome.bind_eq_ok.mpr ⟨st, hst, if_pos ?_⟩⟩
    rw [hall]
    exact hflush

/-! ### The check -/

theorem verifyLoop_eq_ok {total remaining lastPct : ℕ} {calls : List (ReadCall CHUNK)}
    {hashed out : Bytes} {reported : List ℕ} :
    verifyLoop target total calls remaining hashed lastPct progress = .ok (out, reported) →
      remaining ≤ (readable calls).length ∧ out = hashed ++ (readable calls).take remaining := by
  induction calls generalizing remaining hashed lastPct progress with
  | nil =>
    intro h
    cases remaining with
    | zero =>
      obtain ⟨rfl, -⟩ := Prod.mk.inj (Outcome.ok.inj h)
      exact ⟨Nat.zero_le _, (List.append_nil _).symm⟩
    | succ remaining => cases h
  | cons call calls ih =>
    intro h
    cases remaining with
    | zero =>
      obtain ⟨rfl, -⟩ : hashed = out ∧ progress = reported := by
        cases call <;> exact Prod.mk.inj (Outcome.ok.inj h)
      exact ⟨Nat.zero_le _, (List.append_nil _).symm⟩
    | succ remaining =>
      cases call with
      | failed => cases h
      | data bytes ne fits =>
        obtain ⟨hlen, rfl⟩ := ih h
        rw [List.length_take] at hlen ⊢
        rw [readable, List.length_append, List.take_append, List.append_assoc]
        refine ⟨by omega, ?_⟩
        rw [show remaining + 1 - min (remaining + 1) bytes.length = remaining + 1 - bytes.length by omega]

theorem exists_verifyLoop {total remaining lastPct : ℕ} {calls : List (ReadCall CHUNK)}
    {hashed : Bytes} (h : remaining ≤ (readable calls).length) :
    ∃ reported, verifyLoop target total calls remaining hashed lastPct progress =
      .ok (hashed ++ (readable calls).take remaining, reported) := by
  induction calls generalizing remaining hashed lastPct progress with
  | nil =>
    obtain rfl := Nat.le_zero.mp h
    exact ⟨progress, by rw [List.take_zero, List.append_nil]; rfl⟩
  | cons call calls ih =>
    cases remaining with
    | zero =>
      refine ⟨progress, ?_⟩
      rw [List.take_zero, List.append_nil]
      cases call <;> rfl
    | succ remaining =>
      cases call with
      | failed => exact absurd h (by simp [readable])
      | data bytes ne fits =>
        rw [readable, List.length_append] at h
        rw [verifyLoop]
        have hleft : remaining + 1 - (bytes.take (remaining + 1)).length ≤ (readable calls).length := by
          rw [List.length_take]
          omega
        have hreported := fun lastPct progress =>
          @ih progress _ lastPct (hashed ++ bytes.take (remaining + 1)) hleft
        obtain ⟨reported, hreported⟩ := hreported _ _
        refine ⟨reported, hreported.trans ?_⟩
        rw [readable, List.take_append, List.append_assoc, List.length_take,
          show remaining + 1 - min (remaining + 1) bytes.length = remaining + 1 - bytes.length by omega]

/-- A file checked against what was written is accepted exactly if it starts with that. -/
theorem verifyDigest_accepts_iff (hsha : Function.Injective sha256Hex) (target : Str)
    (calls : List (ReadCall CHUNK)) (dest : Bytes) :
    (∃ reported, verifyDigest sha256Hex target calls ⟨dest.length, sha256Hex dest⟩ = .ok reported) ↔
      dest <+: readable calls := by
  constructor
  · rintro ⟨reported, h⟩
    obtain ⟨⟨hashed, verified⟩, hloop, h⟩ := Outcome.bind_eq_ok.mp h
    dsimp only at h
    split_ifs at h with hne
    have hsame := hsha (not_not.mp hne)
    obtain ⟨-, hhashed⟩ := verifyLoop_eq_ok hloop
    rw [List.nil_append] at hhashed
    rw [← hsame, hhashed]
    exact List.take_prefix _ _
  · rintro ⟨rest, hrest⟩
    have hlen : dest.length ≤ (readable calls).length := by
      rw [← hrest, List.length_append]
      exact Nat.le_add_right _ _
    obtain ⟨reported, hloop⟩ := @exists_verifyLoop target [] dest.length dest.length 0 calls [] hlen
    have htake : (readable calls).take dest.length = dest := by
      rw [← hrest, List.take_left']
      rfl
    rw [List.nil_append, htake] at hloop
    refine ⟨reported, Outcome.bind_eq_ok.mpr ⟨_, hloop, ?_⟩⟩
    exact if_neg (not_not.mpr rfl)

/-- An image is written exactly if its stream does not break and the destination takes it. What is
then written is the image, and checking a file accepts it exactly if it starts with the image. The
cut of the pieces is not seen in either reading; a file that was cut short, was changed, or cannot be
read so far is refused. -/
theorem stream_verified (hsha : Function.Injective sha256Hex) (artifact : Artifact) (sink : Sink) :
    ((∃ out, streamImage sha256Hex artifact sink = .ok out) ↔
      Unbroken artifact.calls ∧ sink.TakesAll [] artifact.reads ∧
        sink.flushes (readable artifact.calls) = true) ∧
    ∀ dest written progress,
      streamImage sha256Hex artifact sink = .ok (dest, written, progress) →
      dest = readable artifact.calls ∧ ∀ target (calls : List (ReadCall CHUNK)),
        (∃ reported, verifyDigest sha256Hex target calls written = .ok reported) ↔
          dest <+: readable calls := by
  refine ⟨streamImage_accepts_iff, fun dest written progress h => ?_⟩
  obtain ⟨-, -, -, hdest, rfl, -⟩ := streamImage_eq_ok h
  exact ⟨hdest, fun target calls => verifyDigest_accepts_iff hsha target calls dest⟩

/-- Seven bytes in two reads, three of five percent at once. -/
def shortImage : Artifact where
  path := "short.img.xz".toList
  compressedLen := 5
  reads := [(.data [0x62, 0x32, 0x64] (by decide) (by decide), 3),
    (.data [0, 0, 0x6f, 0x6b] (by decide) (by decide), 5)]

def shortDigest : Bytes → Str := Engine.digestTable
  [([0x62, 0x32, 0x64, 0, 0, 0x6f, 0x6b],
    "2bd5da9caaa9a5d853cf9fda3d373ea0b3d7acafc8179a19a45ddd0829479b01".toList)]

/-- A longer file that starts with the image, read in other pieces. -/
theorem stream_verified_short : ∃ reported, verifyDigest shortDigest "sd.img".toList
    [.data [0x62] (by decide) (by decide), .data [0x32, 0x64, 0, 0] (by decide) (by decide),
      .data [0x6f, 0x6b, 9] (by decide) (by decide), .failed]
    ⟨7, "2bd5da9caaa9a5d853cf9fda3d373ea0b3d7acafc8179a19a45ddd0829479b01".toList⟩ =
      .ok reported := by
  have hsha : Function.Injective shortDigest :=
    Engine.digestTable_injective (by decide) (by decide)
  have hwritten : streamImage shortDigest shortImage ⟨fun _ _ => true, fun _ => true⟩ =
      .ok (readable shortImage.calls,
        ⟨7, "2bd5da9caaa9a5d853cf9fda3d373ea0b3d7acafc8179a19a45ddd0829479b01".toList⟩,
        [60, 99, 100]) := by
    decide +kernel
  refine (((stream_verified hsha shortImage ⟨fun _ _ => true, fun _ => true⟩).2 _ _ _ hwritten).2
    _ _).mpr ?_
  decide

/-! ### The head and the sparse copy -/

theorem prefixLoop_eq {room : ℕ} {path : Str} {calls : List (ReadCall room)} {want : ℕ} {out : Bytes}
    (h : Unbroken calls ∨ want ≤ (readable calls).length) :
    prefixLoop path calls want out = .ok (out ++ (readable calls).take want) := by
  induction calls generalizing want out with
  | nil =>
    rw [readable, List.take_nil, List.append_nil]
    cases want <;> rfl
  | cons call calls ih =>
    cases want with
    | zero =>
      rw [List.take_zero, List.append_nil]
      cases call <;> rfl
    | succ want =>
      cases call with
      | failed =>
        rcases h with h | h
        · exact absurd h not_unbroken_failed
        · exact absurd h (by simp [readable])
      | data bytes ne fits =>
        rw [prefixLoop, ih, readable, List.take_append, List.append_assoc]
        refine h.imp unbroken_data.mp fun hlen => ?_
        rw [readable, List.length_append] at hlen
        omega

/-- The file of the sparse copy is what was read, up to zeroes at its end. -/
theorem sparseLoop_eq {path : Str} {takes : ℕ → Bytes → Bool} {calls : List (ReadCall SPARSE_CHUNK)}
    {out seen : Bytes} {pos : ℕ} (hunbroken : Unbroken calls) (htakes : ∀ n bytes, takes n bytes = true)
    (hpos : pos = seen.length) (hlen : out.length ≤ pos)
    (hseen : seen = out ++ List.replicate (pos - out.length) 0) :
    ∃ file, sparseLoop path takes calls out pos pos = .ok (file, (seen ++ readable calls).length) ∧
      file.length ≤ (seen ++ readable calls).length ∧
      seen ++ readable calls =
        file ++ List.replicate ((seen ++ readable calls).length - file.length) 0 := by
  induction calls generalizing out seen pos with
  | nil =>
    rw [readable, List.append_nil, ← hpos]
    exact ⟨out, rfl, hlen, hseen⟩
  | cons call calls ih =>
    cases call with
    | failed => exact absurd hunbroken not_unbroken_failed
    | data bytes ne fits =>
      have hrest := unbroken_data.mp hunbroken
      rw [readable, ← List.append_assoc]
      unfold sparseLoop
      split_ifs with hzero htake
      · refine ih hrest (by rw [List.length_append, hpos]) (by omega) ?_
        have hbytes := Image.eq_replicate_of_all_zero hzero
        have hsum : pos + bytes.length - out.length = (pos - out.length) + bytes.length := by omega
        rw [hsum, List.replicate_add, ← List.append_assoc, ← hseen, ← hbytes]
      · have hwrite : Image.writeAt out pos bytes = seen ++ bytes := by
          have hpad : (out ++ List.replicate (pos - out.length) 0).length = pos := by
            rw [List.length_append, List.length_replicate]
            omega
          unfold Image.writeAt overwrite
          rw [if_neg ne, List.take_of_length_le hpad.le, List.drop_of_length_le (by omega),
            List.append_nil, ← hseen]
        rw [hwrite]
        refine ih hrest (by rw [List.length_append, hpos]) (by rw [List.length_append, hpos]) ?_
        rw [List.length_append, hpos, Nat.sub_self, List.replicate_zero, List.append_nil]
      · exact absurd (htakes pos bytes) htake

theorem setLen_eq {file seen : Bytes} (hlen : file.length ≤ seen.length)
    (h : seen = file ++ List.replicate (seen.length - file.length) 0) :
    setLen file seen.length = seen := by
  unfold setLen
  rw [List.take_of_length_le hlen, ← h]

/-- However the decoder cuts an image, the file that skips its zeroes is the image byte for byte, and
the head that is read for the partition table is the image's. -/
theorem sparse_copy_exact {path : Str} {takes : ℕ → Bytes → Bool} {grows : ℕ → Bool}
    {calls : List (ReadCall SPARSE_CHUNK)} (hunbroken : Unbroken calls)
    (htakes : ∀ n bytes, takes n bytes = true) (hgrows : ∀ n, grows n = true) :
    decompressSparse path takes grows calls = .ok (readable calls) ∧
      ∀ (room len : ℕ) (head : List (ReadCall room)), Unbroken head →
        readable head = readable calls →
        decompressedPrefix path head len = .ok ((readable calls).take len) := by
  constructor
  · obtain ⟨file, hloop, hlen, hfile⟩ := @sparseLoop_eq path takes calls [] [] 0 hunbroken htakes
      rfl le_rfl rfl
    rw [List.nil_append] at hloop hlen hfile
    refine Outcome.bind_eq_ok.mpr ⟨_, hloop, ?_⟩
    dsimp only
    rw [if_pos (hgrows _), setLen_eq hlen hfile]
  · intro room len head hhead hsame
    unfold decompressedPrefix
    rw [prefixLoop_eq (.inl hhead), List.nil_append, hsame]

/-- A copy that starts and ends in zeroes. -/
theorem sparse_copy_zeroes :
    decompressSparse "a.img.xz".toList (fun _ _ => true) (fun _ => true)
        [.data [0, 0] (by decide) (by decide), .data [7] (by decide) (by decide),
          .data [0] (by decide) (by decide)] = .ok [0, 0, 7, 0] := by
  have hunbroken : @Unbroken SPARSE_CHUNK [.data [0, 0] (by decide) (by decide),
      .data [7] (by decide) (by decide), .data [0] (by decide) (by decide)] := by
    unfold Unbroken
    simp
  exact (sparse_copy_exact hunbroken (fun _ _ => rfl) fun _ => rfl).1

end Boot2Deb.Press
