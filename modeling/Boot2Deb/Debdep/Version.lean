import Boot2Deb.Rust.Str
import Boot2Deb.Lib.PadLex

/-!
# Version comparison (`core/src/debdep.rs`)

`compareVersions` and what it calls, as the source computes them: a version part is its UTF-8 bytes,
an `i32` ordinal is an `Int`.
-/

namespace Boot2Deb.Debdep
open Rust

def isAsciiDigit (c : UInt8) : Bool := 0x30 ≤ c && c ≤ 0x39

def isAsciiAlphabetic (c : UInt8) : Bool := (0x41 ≤ c && c ≤ 0x5a) || (0x61 ≤ c && c ≤ 0x7a)

/-- `ordinal`: `~` before the end of the string, the end before letters, letters before everything
else. -/
def ordinal : Option UInt8 → Int
  | none => 0
  | some c =>
    if c = 0x7e then -1
    else if isAsciiAlphabetic c then c.toNat
    else c.toNat + 256

/-- `compare_nondigit`: the first position whose ordinals differ decides. -/
def compareNondigit (a b : Bytes) : Ordering :=
  (List.range (max a.length b.length)).foldr
    (fun i rest => match compare (ordinal a[i]?) (ordinal b[i]?) with
      | .eq => rest
      | ord => ord) .eq

/-- `compare_numeric`: two digit runs as numbers, leading zeroes insignificant. -/
def compareNumeric (a b : Bytes) : Ordering :=
  let trim (s : Bytes) := s.length - (s.findIdx? (· != 0x30)).getD s.length
  (compare (trim a) (trim b)).then
    (compare (a.dropWhile (· == 0x30)) (b.dropWhile (· == 0x30)))

/-- `take_while`: split off the leading run of bytes matching `pred`. -/
def takeWhile (s : Bytes) (pred : UInt8 → Bool) : Bytes × Bytes :=
  s.splitAt ((s.findIdx? (!pred ·)).getD s.length)

theorem takeWhile_eq (s : Bytes) (pred : UInt8 → Bool) :
    takeWhile s pred = (s.takeWhile pred, s.dropWhile pred) := by
  rw [takeWhile, List.splitAt_eq]
  induction s with
  | nil => rfl
  | cons c s ih =>
    by_cases hc : pred c
    · rw [List.findIdx?_cons]
      cases hs : s.findIdx? (!pred ·) with
      | none => simpa [hc, hs] using ih
      | some i => simpa [hc, hs] using ih
    · simp [List.findIdx?_cons, hc]

/-- What is left of a part behind its leading non-digit run and the digit run that follows. -/
def behindRuns (s : Bytes) : Bytes := (s.dropWhile (!isAsciiDigit ·)).dropWhile isAsciiDigit

theorem length_behindRuns_le (s : Bytes) : (behindRuns s).length ≤ s.length :=
  (List.length_dropWhile_le ..).trans (List.length_dropWhile_le ..)

theorem length_behindRuns_lt {s : Bytes} (h : s ≠ []) : (behindRuns s).length < s.length := by
  cases s with
  | nil => exact absurd rfl h
  | cons c s =>
    by_cases hc : isAsciiDigit c
    · simpa [behindRuns, hc] using Nat.lt_succ_of_le (List.length_dropWhile_le ..)
    · simpa [behindRuns, hc] using Nat.lt_succ_of_le (length_behindRuns_le s)

theorem behindRuns_eq (s : Bytes) :
    (takeWhile (takeWhile s (!isAsciiDigit ·)).2 isAsciiDigit).2 = behindRuns s := by
  rw [takeWhile_eq, takeWhile_eq, behindRuns]

/-- A round that leaves something has consumed something. -/
theorem length_behindRuns_add_lt {a b : Bytes}
    (h : ¬((behindRuns a).isEmpty && (behindRuns b).isEmpty) = true) :
    (behindRuns a).length + (behindRuns b).length < a.length + b.length := by
  have ha := length_behindRuns_le a
  have hb := length_behindRuns_le b
  rcases eq_or_ne a [] with rfl | hne
  · rcases eq_or_ne b [] with rfl | hne
    · exact absurd rfl h
    · have := length_behindRuns_lt hne
      omega
  · have := length_behindRuns_lt hne
    omega

/-- `compare_part`: the alternating loop over the two parts. Every round but a last one consumes a
byte of one of them. -/
def comparePart (a b : Bytes) : Ordering :=
  let a₁ := takeWhile a (!isAsciiDigit ·)
  let b₁ := takeWhile b (!isAsciiDigit ·)
  match compareNondigit a₁.1 b₁.1 with
  | .eq =>
    let a₂ := takeWhile a₁.2 isAsciiDigit
    let b₂ := takeWhile b₁.2 isAsciiDigit
    match compareNumeric a₂.1 b₂.1 with
    | .eq => if a₂.2.isEmpty && b₂.2.isEmpty then .eq else comparePart a₂.2 b₂.2
    | ord => ord
  | ord => ord
termination_by a.length + b.length
decreasing_by
  rename_i h
  have ha : a₂.2 = behindRuns a := behindRuns_eq a
  have hb : b₂.2 = behindRuns b := behindRuns_eq b
  rw [ha, hb] at h
  show a₂.2.length + b₂.2.length < a.length + b.length
  rw [ha, hb]
  exact length_behindRuns_add_lt h

/-- The epoch of a version and what is behind its colon. -/
def splitEpoch (v : Str) : UInt64 × Str :=
  match find v ':' with
  | some i => ((parseU64 (v.take i)).getD 0, v.drop (i + 1))
  | none => (0, v)

/-- The upstream version and the revision, an absent one being empty. -/
def splitRevision (rest : Str) : Str × Str :=
  match rfind rest '-' with
  | some i => (rest.take i, rest.drop (i + 1))
  | none => (rest, [])

/-- `split_version`: epoch, upstream and revision. -/
def splitVersion (v : Str) : UInt64 × Str × Str :=
  let (epoch, rest) := splitEpoch (trim v)
  let (upstream, revision) := splitRevision rest
  (epoch, upstream, revision)

/-- `compare_versions`: the order of `dpkg --compare-versions`. -/
def compareVersions (a b : Str) : Ordering :=
  let (ea, ua, ra) := splitVersion a
  let (eb, ub, rb) := splitVersion b
  (compare ea eb).then
    ((comparePart (asBytes ua) (asBytes ub)).then (comparePart (asBytes ra) (asBytes rb)))

end Boot2Deb.Debdep
