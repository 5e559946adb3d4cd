import Mathlib
import Boot2Deb.Rust.Lines
import Boot2Deb.Size

/-!
# Sizes written and read

A derived byte count is written in a unit and read back, and an authored image size is a size or the
room a fit leaves. What is read is what the text denotes: `size_codec_exact`.
-/

namespace Boot2Deb.Size
open Rust

/-! ### The codec -/

/-- The units a byte count is written in, the largest first. -/
def UNITS : List (Str × UInt64) :=
  [("TiB".toList, 1024 * 1024 * 1024 * 1024), ("GiB".toList, 1024 * 1024 * 1024),
    ("MiB".toList, 1024 * 1024), ("KiB".toList, 1024)]

/-- A byte count in the largest unit that divides it exactly. -/
def formatSize (bytes : UInt64) : Str :=
  match UNITS.find? fun (_, mult) => mult ≤ bytes && U64.isMultipleOf bytes mult with
  | some (unit, mult) => Nat.toDigits 10 (bytes / mult).toNat ++ unit
  | none => Nat.toDigits 10 bytes.toNat

/-- How much of a fitted root filesystem remains free. -/
inductive Slack where
  | bytes (n : UInt64)
  /-- In hundredths of one percent. -/
  | share (hundredths : UInt16)
deriving DecidableEq

/-- What an authored `image_size` asks for. -/
inductive ImageSize where
  | fixed (n : UInt64)
  | fit (slack : Slack)
deriving DecidableEq

def checkedU32 (n : ℕ) : Option ℕ := if n < 2 ^ 32 then some n else none

/-- `str::parse::<u32>`. -/
def parseU32 (s : Str) : Option ℕ :=
  let ds := unsigned s
  if !ds.isEmpty && ds.all Char.isDigit then checkedU32 (decimal ds) else none

/-- The second half of `parse_hundredths`: the digits before and behind the point. -/
def hundredthsOfParts (whole frac input : Str) : Outcome ConfigError UInt16 :=
  if whole.isEmpty && frac.isEmpty then .err (.invalidImageSize input)
  else if !whole.all Char.isDigit || !frac.all Char.isDigit then .err (.invalidImageSize input)
  else do
    let whole ← (if whole.isEmpty then .ok 0
      else .okOr (parseU32 whole) (.invalidImageSize input) : Outcome ConfigError ℕ)
    -- right-padded, so that `.5` is five tenths
    let frac ← .okOr (parseU32 (frac ++ List.replicate (2 - frac.length) '0'))
      (.invalidImageSize input)
    .okOr ((checkedU32 (whole * 100)).bind fun w => (checkedU32 (w + frac)).bind fun h =>
      if h < 2 ^ 16 then some (UInt16.ofNat h) else none) (.invalidImageSize input)

/-- A percentage in hundredths of one percent. -/
def parseHundredths (share input : Str) : Outcome ConfigError UInt16 :=
  match splitOnce share '.' with
  | some (whole, frac) =>
    if byteLen frac ≤ 2 then hundredthsOfParts whole frac input else .err (.invalidImageSize input)
  | none => hundredthsOfParts share [] input

def parseImageSize (input : Str) : Outcome ConfigError ImageSize :=
  let spec := trim input
  match stripPrefix spec "fit".toList with
  | none => do return .fixed (← parseSize spec)
  | some slack => do
    let slack ← .okOr (stripPrefix slack ['+']) (.invalidImageSize input)
    match stripSuffix slack ['%'] with
    | some share => return .fit (.share (← parseHundredths share input))
    | none => return .fit (.bytes (← (parseSize slack).mapErr fun _ => .invalidImageSize input))

/-! ### What a text denotes -/

/-- The names of the powers of 1024. -/
def UNIT_NAMES : List (List Str) :=
  [["".toList, "b".toList], ["k".toList, "kb".toList, "kib".toList],
    ["m".toList, "mb".toList, "mib".toList], ["g".toList, "gb".toList, "gib".toList],
    ["t".toList, "tb".toList, "tib".toList]]

def UnitPower (unit : Str) (power : ℕ) : Prop :=
  ∃ names, UNIT_NAMES[power]? = some names ∧ toAsciiLowercase unit ∈ names

/-- A number of a unit. -/
def SizeDenotes (s : Str) (v : ℕ) : Prop :=
  ∃ digits unit power, trim s = digits ++ unit ∧ digits ≠ [] ∧ (∀ c ∈ digits, c.isDigit) ∧
    (∀ c ∈ unit.head?, ¬c.isDigit) ∧ UnitPower (trim unit) power ∧ v = decimal digits * 1024 ^ power

/-- A decimal of at most two places. -/
def PercentDenotes (s : Str) (q : ℚ) : Prop :=
  ∃ whole frac, (s = whole ++ '.' :: frac ∨ (s = whole ∧ frac = [])) ∧ (whole ≠ [] ∨ frac ≠ []) ∧
    (∀ c ∈ whole ++ frac, c.isDigit) ∧ frac.length ≤ 2 ∧
    q = decimal whole + decimal frac / 10 ^ frac.length

/-- A byte count, or the room a fit leaves: a byte count, or a share in percent. -/
inductive Meaning where
  | fixed (v : ℕ)
  | fitBytes (v : ℕ)
  | fitPercent (q : ℚ)

def Denotes (s : Str) : Meaning → Prop
  | .fixed v => ¬"fit".toList <+: trim s ∧ SizeDenotes s v
  | .fitBytes v => ∃ slack, trim s = "fit+".toList ++ slack ∧ ¬['%'] <:+ slack ∧ SizeDenotes slack v
  | .fitPercent q => ∃ share, trim s = "fit+".toList ++ share ++ ['%'] ∧ PercentDenotes share q

def ImageSize.meaning : ImageSize → Meaning
  | fixed n => .fixed n.toNat
  | fit (.bytes n) => .fitBytes n.toNat
  | fit (.share hundredths) => .fitPercent (hundredths.toNat / 100)

/-! ### Reading a size -/

theorem unitMultiplier_of_power {unit : Str} {power : ℕ} (h : UnitPower unit power) :
    power < 5 ∧ (unitMultiplier unit).map UInt64.toNat = some (1024 ^ power) := by
  obtain ⟨names, hnames, hunit⟩ := h
  have hspec : ∀ power < 5, ∀ names ∈ UNIT_NAMES[power]?, ∀ name ∈ names,
      (unitMultiplier name).map UInt64.toNat = some (1024 ^ power) ∧
        toAsciiLowercase name = name := by
    decide +kernel
  have hpower : power < 5 := (List.getElem?_eq_some_iff.mp hnames).1
  obtain ⟨hname, hlower⟩ := hspec power hpower names hnames _ hunit
  have hsame : unitMultiplier (toAsciiLowercase unit) = unitMultiplier unit := by
    unfold unitMultiplier
    rw [hlower]
  exact ⟨hpower, hsame ▸ hname⟩

theorem unitMultiplier_eq_some {unit : Str} {mult : UInt64} :
    unitMultiplier unit = some mult ↔ ∃ power, UnitPower unit power ∧ mult.toNat = 1024 ^ power := by
  constructor
  · intro h
    unfold unitMultiplier at h
    extract_lets lower at h
    split_ifs at h with h0 h1 h2 h3 h4
    all_goals obtain rfl := Option.some.inj h
    · exact ⟨0, ⟨_, rfl, h0⟩, by decide⟩
    · exact ⟨1, ⟨_, rfl, h1⟩, by decide⟩
    · exact ⟨2, ⟨_, rfl, h2⟩, by decide⟩
    · exact ⟨3, ⟨_, rfl, h3⟩, by decide⟩
    · exact ⟨4, ⟨_, rfl, h4⟩, by decide⟩
  · rintro ⟨power, hpower, hmult⟩
    have hname := (unitMultiplier_of_power hpower).2
    rw [← hmult] at hname
    obtain ⟨mult', hmult', heq⟩ := Option.map_eq_some_iff.mp hname
    rw [hmult', UInt64.toNat_inj.mp heq]

theorem unsigned_of_digits {ds : Str} (h : ∀ c ∈ ds, c.isDigit) : unsigned ds = ds := by
  refine unsigned_of_head fun hhead => ?_
  exact absurd (h _ (List.mem_of_head? hhead)) (by decide)

/-- A run of digits is read where its number fits. -/
theorem parseU64_digits {ds : Str} {v : UInt64} (h : ∀ c ∈ ds, c.isDigit) :
    parseU64 ds = some v ↔ ds ≠ [] ∧ v.toNat = decimal ds := by
  have hall : ds.all Char.isDigit = true := List.all_eq_true.mpr h
  unfold parseU64
  rw [unsigned_of_digits h]
  simp only [hall, Bool.and_true, Bool.and_eq_true, decide_eq_true_eq, Option.ite_none_right_eq_some,
    Option.some.injEq, Bool.not_eq_true', List.isEmpty_eq_false_iff, ← UInt64.toNat_inj,
    UInt64.toNat_ofNat']
  constructor
  · rintro ⟨⟨hne, hlt⟩, hv⟩
    exact ⟨hne, by omega⟩
  · rintro ⟨hne, hv⟩
    have := v.toNat_lt
    exact ⟨⟨hne, by omega⟩, by omega⟩

/-- The cut between the digits and the unit. -/
theorem span_digits {s digits unit : Str} (h : s = digits ++ unit) (hdigits : ∀ c ∈ digits, c.isDigit)
    (hunit : ∀ c ∈ unit.head?, ¬c.isDigit) :
    s.takeWhile Char.isDigit = digits ∧ s.dropWhile Char.isDigit = unit := by
  subst h
  have hnone : unit.takeWhile Char.isDigit = [] ∧ unit.dropWhile Char.isDigit = unit := by
    cases unit with
    | nil => exact ⟨rfl, rfl⟩
    | cons c unit =>
      have hc := hunit c rfl
      exact ⟨List.takeWhile_cons_of_neg hc, List.dropWhile_cons_of_neg hc⟩
  rw [List.takeWhile_append_of_pos hdigits, List.dropWhile_append_of_pos hdigits, hnone.1, hnone.2,
    List.append_nil]
  exact ⟨rfl, rfl⟩

theorem head_dropWhile (s : Str) : ∀ c ∈ (s.dropWhile Char.isDigit).head?, ¬c.isDigit := by
  intro c hc hdigit
  have := List.head?_dropWhile_not Char.isDigit s
  rw [hc] at this
  simp [hdigit] at this

/-- A size is read where it denotes a number, and the number fits. -/
theorem parseSize_eq_ok {s : Str} {n : UInt64} : parseSize s = .ok n ↔ SizeDenotes s n.toNat := by
  unfold parseSize
  extract_lets trimmed num unit
  have hdigits : ∀ c ∈ num, c.isDigit := fun c hc => List.mem_takeWhile_imp hc
  simp only [Outcome.bind_eq_ok, Outcome.okOr_eq_ok, U64.checkedMul_eq_some]
  constructor
  · rintro ⟨value, hvalue, mult, hmult, hn⟩
    obtain ⟨hne, hv⟩ := (parseU64_digits hdigits).mp hvalue
    obtain ⟨power, hpower, hm⟩ := unitMultiplier_eq_some.mp hmult
    exact ⟨num, unit, power, List.takeWhile_append_dropWhile.symm, hne, hdigits,
      head_dropWhile trimmed, hpower, by rw [hn, hv, hm]⟩
  · rintro ⟨digits, rest, power, hs, hne, hds, hhead, hpower, hn⟩
    obtain ⟨hnum, hunit⟩ := span_digits hs hds hhead
    have hlt := n.toNat_lt
    have hpos : 1 ≤ 1024 ^ power := Nat.one_le_pow _ _ (by decide)
    have hdecimal : decimal digits < 2 ^ 64 :=
      lt_of_le_of_lt (Nat.le_mul_of_pos_right _ hpos) (hn ▸ hlt)
    have hpower5 := (unitMultiplier_of_power hpower).1
    have hmult : (1024 : ℕ) ^ power < 2 ^ 64 :=
      lt_of_le_of_lt (Nat.pow_le_pow_right (by decide) (Nat.le_of_lt_succ hpower5)) (by decide)
    refine ⟨UInt64.ofNat (decimal digits), ?_, UInt64.ofNat (1024 ^ power), ?_, ?_⟩
    · rw [parseU64_digits hdigits, show num = digits from hnum]
      exact ⟨hne, UInt64.toNat_ofNat_of_lt' hdecimal⟩
    · rw [unitMultiplier_eq_some, show unit = rest from hunit]
      exact ⟨power, hpower, UInt64.toNat_ofNat_of_lt' hmult⟩
    · rw [hn, UInt64.toNat_ofNat_of_lt' hdecimal, UInt64.toNat_ofNat_of_lt' hmult]

/-! ### Reading a percentage -/

theorem decimal_zeros (ds : Str) (k : ℕ) :
    decimal (ds ++ List.replicate k '0') = decimal ds * 10 ^ k := by
  induction k with
  | zero => simp
  | succ k ih =>
    rw [List.replicate_succ', ← List.append_assoc, decimal_append_singleton, ih, pow_succ]
    show 10 * (decimal ds * 10 ^ k) + 0 = _
    ring

theorem byteLen_digits {ds : Str} (h : ∀ c ∈ ds, c.isDigit) : byteLen ds = ds.length := by
  induction ds with
  | nil => rfl
  | cons c ds ih =>
    obtain ⟨hc, hds⟩ := List.forall_mem_cons.mp h
    have hone : c.utf8Size = 1 := by
      rw [Char.isDigit_iff_toNat] at hc
      refine Char.utf8Size_eq_one_iff.mpr (UInt32.le_iff_toNat_le.mpr ?_)
      exact hc.2.trans (by decide)
    rw [List.length_cons, ← ih hds, byteLen, byteLen, List.map_cons, List.sum_cons, hone]
    omega

/-- The hundredths of a decimal of two places. -/
def hundredthsOf (whole frac : Str) : ℕ :=
  decimal whole * 100 + decimal frac * 10 ^ (2 - frac.length)

theorem hundredthsOf_eq_iff {whole frac : Str} (hfrac : frac.length ≤ 2) {h : ℕ} :
    (h : ℚ) / 100 = decimal whole + decimal frac / 10 ^ frac.length ↔ h = hundredthsOf whole frac := by
  have hpow : (100 : ℚ) = 10 ^ (2 - frac.length) * 10 ^ frac.length := by
    rw [← pow_add, Nat.sub_add_cancel hfrac]
    norm_num
  have hscale : (decimal frac : ℚ) / 10 ^ frac.length * 100 =
      decimal frac * 10 ^ (2 - frac.length) := by
    rw [hpow]
    field_simp
  rw [div_eq_iff (by norm_num), add_mul, hscale, hundredthsOf]
  exact_mod_cast Iff.rfl

/-- What the three checked operations leave of the digits. -/
theorem hundredths_eq_some {whole frac : ℕ} {h : UInt16} :
    ((checkedU32 (whole * 100)).bind fun w => (checkedU32 (w + frac)).bind fun h =>
      if h < 2 ^ 16 then some (UInt16.ofNat h) else none) = some h ↔ h.toNat = whole * 100 + frac := by
  have hlt := h.toNat_lt
  unfold checkedU32
  constructor
  · intro heq
    obtain ⟨w, hw, heq⟩ := Option.bind_eq_some_iff.mp heq
    obtain ⟨v, hv, heq⟩ := Option.bind_eq_some_iff.mp heq
    rw [Option.ite_none_right_eq_some] at hw hv heq
    obtain ⟨hbound, heq⟩ := heq
    rw [← Option.some.inj heq, UInt16.toNat_ofNat_of_lt' hbound, ← Option.some.inj hv.2,
      ← Option.some.inj hw.2]
  · intro heq
    rw [if_pos (by omega), Option.bind_some, if_pos (by omega), Option.bind_some, if_pos (by omega),
      ← heq, UInt16.ofNat_toNat]

theorem parseU32_digits {ds : Str} {v : ℕ} (h : ∀ c ∈ ds, c.isDigit) :
    parseU32 ds = some v ↔ ds ≠ [] ∧ decimal ds < 2 ^ 32 ∧ v = decimal ds := by
  have hall : ds.all Char.isDigit = true := List.all_eq_true.mpr h
  unfold parseU32 checkedU32
  rw [unsigned_of_digits h]
  simp only [hall, Bool.and_true, Bool.not_eq_true', List.isEmpty_eq_false_iff,
    Option.ite_none_right_eq_some, Option.some.injEq]
  exact ⟨fun ⟨hne, hlt, hv⟩ => ⟨hne, hlt, hv.symm⟩, fun ⟨hne, hlt, hv⟩ => ⟨hne, hlt, hv.symm⟩⟩

/-- The digits before and behind the point. -/
theorem hundredthsOfParts_eq_ok {whole frac input : Str} {h : UInt16} (hlen : frac.length ≤ 2) :
    hundredthsOfParts whole frac input = .ok h ↔ (whole ≠ [] ∨ frac ≠ []) ∧
      (∀ c ∈ whole ++ frac, c.isDigit) ∧ h.toNat = hundredthsOf whole frac := by
  have hlt := h.toNat_lt
  unfold hundredthsOfParts
  by_cases hempty : whole = [] ∧ frac = []
  · obtain ⟨rfl, rfl⟩ := hempty
    simp
  rw [if_neg (by simpa using hempty)]
  by_cases hdigits : ∀ c ∈ whole ++ frac, c.isDigit
  · have hwhole : ∀ c ∈ whole, c.isDigit := fun c hc => hdigits c (List.mem_append_left _ hc)
    have hfrac : ∀ c ∈ frac, c.isDigit := fun c hc => hdigits c (List.mem_append_right _ hc)
    have hpadded : ∀ c ∈ frac ++ List.replicate (2 - frac.length) '0', c.isDigit := by
      intro c hc
      rcases List.mem_append.mp hc with hc | hc
      · exact hfrac c hc
      · rw [List.eq_of_mem_replicate hc]
        decide
    have hne : frac ++ List.replicate (2 - frac.length) '0' ≠ [] := by
      intro hnil
      have hzero := congrArg List.length hnil
      rw [List.length_append, List.length_replicate, List.length_nil] at hzero
      omega
    have hw : ∀ w, (if whole.isEmpty then Outcome.ok 0
        else Outcome.okOr (parseU32 whole) (ConfigError.invalidImageSize input)) = .ok w ↔
          decimal whole < 2 ^ 32 ∧ w = decimal whole := by
      intro w
      cases whole with
      | nil => exact ⟨fun heq => ⟨by decide, (Outcome.ok.inj heq).symm⟩, fun heq => heq.2 ▸ rfl⟩
      | cons c whole =>
        rw [if_neg (by simp), Outcome.okOr_eq_ok, parseU32_digits hwhole]
        simp
    rw [if_neg (by rw [List.all_eq_true.mpr hwhole, List.all_eq_true.mpr hfrac]; decide)]
    simp only [Outcome.bind_eq_ok, Outcome.okOr_eq_ok, hw, parseU32_digits hpadded,
      hundredths_eq_some, decimal_zeros]
    unfold hundredthsOf
    constructor
    · rintro ⟨w, ⟨-, rfl⟩, f, ⟨-, -, rfl⟩, heq⟩
      exact ⟨not_and_or.mp hempty, hdigits, heq⟩
    · rintro ⟨-, -, heq⟩
      exact ⟨_, ⟨by omega, rfl⟩, _, ⟨hne, by omega, rfl⟩, heq⟩
  · have hbad : (!whole.all Char.isDigit || !frac.all Char.isDigit) = true := by
      rw [← Bool.not_and, ← List.all_append, Bool.not_eq_true', List.all_eq_false]
      push Not at hdigits
      obtain ⟨c, hc, hdigit⟩ := hdigits
      exact ⟨c, hc, hdigit⟩
    rw [if_pos hbad]
    exact iff_of_false (by intro heq; cases heq) fun heq => hdigits heq.2.1

theorem notMem_point {ds : Str} (h : ∀ c ∈ ds, c.isDigit) : '.' ∉ ds :=
  fun hmem => absurd (h _ hmem) (by decide)

/-- A percentage is read where it is a decimal of two places, and the hundredths fit. -/
theorem parseHundredths_eq_ok {share input : Str} {h : UInt16} :
    parseHundredths share input = .ok h ↔ PercentDenotes share ((h.toNat : ℚ) / 100) := by
  constructor
  · intro hok
    have hparts : ∃ whole frac, (share = whole ++ '.' :: frac ∨ (share = whole ∧ frac = [])) ∧
        byteLen frac ≤ 2 ∧ hundredthsOfParts whole frac input = .ok h := by
      unfold parseHundredths at hok
      cases hsplit : splitOnce share '.' with
      | none =>
        rw [hsplit] at hok
        exact ⟨share, [], .inr ⟨rfl, rfl⟩, Nat.zero_le _, hok⟩
      | some parts =>
        rw [hsplit] at hok
        by_cases hlen : byteLen parts.2 ≤ 2
        · exact ⟨parts.1, parts.2, .inl (eq_of_splitOnce hsplit).1, hlen, (if_pos hlen).symm.trans hok⟩
        · exact nomatch (if_neg hlen).symm.trans hok
    obtain ⟨whole, frac, hshare, hbytes, hok⟩ := hparts
    have hlen : frac.length ≤ 2 := by
      refine Nat.le_trans ?_ hbytes
      rw [byteLen, ← List.length_map Char.utf8Size]
      exact List.length_le_sum_of_one_le _ fun n hn => by
        obtain ⟨c, -, rfl⟩ := List.mem_map.mp hn
        exact c.utf8Size_pos
    obtain ⟨hne, hdigits, hh⟩ := (hundredthsOfParts_eq_ok hlen).mp hok
    exact ⟨whole, frac, hshare, hne, hdigits, hlen, (hundredthsOf_eq_iff hlen).mpr hh⟩
  · rintro ⟨whole, frac, hshare, hne, hdigits, hlen, hq⟩
    have hwhole := notMem_point fun c hc => hdigits c (List.mem_append_left _ hc)
    have hfrac : ∀ c ∈ frac, c.isDigit := fun c hc => hdigits c (List.mem_append_right _ hc)
    have hparts := (@hundredthsOfParts_eq_ok _ _ input _ hlen).mpr
      ⟨hne, hdigits, (hundredthsOf_eq_iff hlen).mp hq⟩
    rcases hshare with rfl | ⟨rfl, rfl⟩
    · rw [parseHundredths, splitOnce_append_cons hwhole]
      show (if _ then _ else _) = _
      rw [if_pos (by rw [byteLen_digits hfrac]; exact hlen), hparts]
    · rw [parseHundredths, splitOnce_eq_none.mpr hwhole]
      exact hparts

/-! ### Reading an image size -/

theorem sizeDenotes_trim {s : Str} {v : ℕ} : SizeDenotes (trim s) v ↔ SizeDenotes s v := by
  rw [SizeDenotes, SizeDenotes, trim_trim]

theorem fit_plus (slack : Str) : "fit+".toList ++ slack = "fit".toList ++ '+' :: slack := rfl

/-- An image size is read as what it denotes, where that fits. -/
theorem parseImageSize_eq_ok {s : Str} {r : ImageSize} :
    parseImageSize s = .ok r ↔ Denotes s r.meaning := by
  rw [parseImageSize]
  cases hfit : stripPrefix (trim s) "fit".toList with
  | none =>
    have hnot : ¬"fit".toList <+: trim s := by
      rintro ⟨rest, hrest⟩
      rw [stripPrefix_eq_some.mpr hrest.symm] at hfit
      cases hfit
    have hother : ∀ slack, trim s ≠ "fit+".toList ++ slack := fun slack hslack =>
      hnot ⟨'+' :: slack, (hslack.trans (fit_plus slack)).symm⟩
    refine Outcome.bind_eq_ok.trans ?_
    cases r with
    | fixed n =>
      show _ ↔ _ ∧ SizeDenotes s n.toNat
      rw [← sizeDenotes_trim, ← parseSize_eq_ok]
      constructor
      · rintro ⟨m, hm, heq⟩
        cases heq
        exact ⟨hnot, hm⟩
      · rintro ⟨-, hn⟩
        exact ⟨n, hn, rfl⟩
    | fit slack =>
      refine iff_of_false (by rintro ⟨_, _, heq⟩; cases heq) ?_
      cases slack with
      | bytes n =>
        rintro ⟨slack, hslack, -⟩
        exact hother slack hslack
      | share h =>
        rintro ⟨share, hshare, -⟩
        exact hother (share ++ ['%']) (hshare.trans (List.append_assoc ..))
  | some rest =>
    have htrim := stripPrefix_eq_some.mp hfit
    refine Outcome.bind_eq_ok.trans ?_
    simp only [Outcome.okOr_eq_ok, stripPrefix_eq_some]
    -- what the text is where it denotes a fit
    have hrest : ∀ slack, trim s = "fit+".toList ++ slack → rest = ['+'] ++ slack := by
      intro slack hslack
      rw [htrim, fit_plus] at hslack
      exact List.append_cancel_left hslack
    cases r with
    | fixed n =>
      refine iff_of_false ?_ fun hn => hn.1 ⟨rest, htrim.symm⟩
      rintro ⟨slack, -, heq⟩
      cases hshare : stripSuffix slack ['%'] with
      | none =>
        rw [hshare] at heq
        obtain ⟨_, _, heq⟩ := Outcome.bind_eq_ok.mp heq
        cases heq
      | some share =>
        rw [hshare] at heq
        obtain ⟨_, _, heq⟩ := Outcome.bind_eq_ok.mp heq
        cases heq
    | fit room =>
      cases room with
      | bytes n =>
        constructor
        · rintro ⟨slack, rfl, heq⟩
          cases hshare : stripSuffix slack ['%'] with
          | none =>
            rw [hshare] at heq
            obtain ⟨m, hm, heq⟩ := Outcome.bind_eq_ok.mp heq
            cases heq
            refine ⟨slack, htrim, fun hsuffix => ?_, parseSize_eq_ok.mp (Outcome.mapErr_eq_ok.mp hm)⟩
            obtain ⟨share, rfl⟩ := hsuffix
            rw [stripSuffix_concat] at hshare
            cases hshare
          | some share =>
            rw [hshare] at heq
            obtain ⟨_, _, heq⟩ := Outcome.bind_eq_ok.mp heq
            cases heq
        · rintro ⟨slack, hslack, hpercent, hn⟩
          refine ⟨slack, hrest slack hslack, ?_⟩
          rw [stripSuffix_eq_none hpercent]
          exact Outcome.bind_eq_ok.mpr ⟨n, Outcome.mapErr_eq_ok.mpr (parseSize_eq_ok.mpr hn), rfl⟩
      | share h =>
        constructor
        · rintro ⟨slack, rfl, heq⟩
          cases hshare : stripSuffix slack ['%'] with
          | none =>
            rw [hshare] at heq
            obtain ⟨_, _, heq⟩ := Outcome.bind_eq_ok.mp heq
            cases heq
          | some share =>
            rw [hshare] at heq
            obtain ⟨m, hm, heq⟩ := Outcome.bind_eq_ok.mp heq
            cases heq
            refine ⟨share, ?_, parseHundredths_eq_ok.mp hm⟩
            rw [htrim, stripSuffix_eq_some.mp hshare]
            rfl
        · rintro ⟨share, hshare, hh⟩
          rw [List.append_assoc] at hshare
          refine ⟨share ++ ['%'], hrest _ hshare, ?_⟩
          rw [stripSuffix_concat]
          exact Outcome.bind_eq_ok.mpr ⟨h, parseHundredths_eq_ok.mpr hh, rfl⟩

/-! ### What a text denotes is one thing -/

theorem SizeDenotes.unique {s : Str} {v v' : ℕ} (h : SizeDenotes s v) (h' : SizeDenotes s v') :
    v = v' := by
  obtain ⟨digits, unit, power, hs, -, hdigits, hunit, hpower, rfl⟩ := h
  obtain ⟨digits', unit', power', hs', -, hdigits', hunit', hpower', rfl⟩ := h'
  obtain ⟨rfl, rfl⟩ := span_digits hs hdigits hunit
  obtain ⟨rfl, rfl⟩ := span_digits hs' hdigits' hunit'
  have hmult := (unitMultiplier_of_power hpower).2
  rw [(unitMultiplier_of_power hpower').2, Option.some.injEq] at hmult
  rw [hmult]

theorem PercentDenotes.unique {s : Str} {q q' : ℚ} (h : PercentDenotes s q)
    (h' : PercentDenotes s q') : q = q' := by
  obtain ⟨whole, frac, hs, -, hdigits, -, rfl⟩ := h
  obtain ⟨whole', frac', hs', -, hdigits', -, rfl⟩ := h'
  have hwhole := notMem_point fun c hc => hdigits c (List.mem_append_left _ hc)
  have hwhole' := notMem_point fun c hc => hdigits' c (List.mem_append_left _ hc)
  have hsame : whole = whole' ∧ frac = frac' := by
    rcases hs with rfl | ⟨rfl, rfl⟩ <;> rcases hs' with hs' | ⟨hs', rfl⟩
    · have hsplit := @splitOnce_append_cons _ frac _ hwhole
      rw [hs', splitOnce_append_cons hwhole', Option.some.injEq, Prod.mk.injEq] at hsplit
      exact ⟨hsplit.1.symm, hsplit.2.symm⟩
    · exact absurd (hs' ▸ List.mem_append_right _ List.mem_cons_self) hwhole'
    · exact absurd (hs' ▸ List.mem_append_right _ List.mem_cons_self) hwhole
    · exact ⟨hs', rfl⟩
  rw [hsame.1, hsame.2]

theorem Denotes.unique {s : Str} {m m' : Meaning} (h : Denotes s m) (h' : Denotes s m') : m = m' := by
  have hnot : ∀ text, ¬"fit".toList <+: trim s → trim s ≠ "fit+".toList ++ text := fun text hnot htext =>
    hnot ⟨'+' :: text, htext.symm⟩
  cases m with
  | fixed v =>
    cases m' with
    | fixed v' => rw [h.2.unique h'.2]
    | fitBytes v' =>
      obtain ⟨slack, hslack, -⟩ := h'
      exact absurd hslack (hnot _ h.1)
    | fitPercent q' =>
      obtain ⟨share, hshare, -⟩ := h'
      exact absurd (hshare.trans (List.append_assoc ..)) (hnot _ h.1)
  | fitBytes v =>
    obtain ⟨slack, hslack, hpercent, hv⟩ := h
    cases m' with
    | fixed v' => exact absurd hslack (hnot _ h'.1)
    | fitBytes v' =>
      obtain ⟨slack', hslack', -, hv'⟩ := h'
      rw [hslack] at hslack'
      obtain rfl := List.append_cancel_left hslack'
      rw [hv.unique hv']
    | fitPercent q' =>
      obtain ⟨share, hshare, -⟩ := h'
      rw [hslack, List.append_assoc] at hshare
      exact absurd ⟨share, (List.append_cancel_left hshare).symm⟩ hpercent
  | fitPercent q =>
    obtain ⟨share, hshare, hq⟩ := h
    cases m' with
    | fixed v' => exact absurd (hshare.trans (List.append_assoc ..)) (hnot _ h'.1)
    | fitBytes v' =>
      obtain ⟨slack, hslack, hpercent, -⟩ := h'
      rw [hslack, List.append_assoc] at hshare
      exact absurd ⟨share, (List.append_cancel_left hshare).symm⟩ hpercent
    | fitPercent q' =>
      obtain ⟨share', hshare', hq'⟩ := h'
      rw [hshare] at hshare'
      obtain rfl := List.append_cancel_left (List.append_cancel_right hshare')
      rw [hq.unique hq']

theorem parseHundredths_ne_panic (share input : Str) : parseHundredths share input ≠ .panic := by
  have hparts : ∀ whole frac, hundredthsOfParts whole frac input ≠ .panic := by
    intro whole frac
    unfold hundredthsOfParts
    have hread : ∀ w : ℕ, (do
        let frac ← Outcome.okOr (parseU32 (frac ++ List.replicate (2 - frac.length) '0'))
          (ConfigError.invalidImageSize input)
        .okOr ((checkedU32 (w * 100)).bind fun w => (checkedU32 (w + frac)).bind fun h =>
          if h < 2 ^ 16 then some (UInt16.ofNat h) else none) (.invalidImageSize input)) ≠
        (.panic : Outcome ConfigError UInt16) := fun w =>
      Outcome.bind_ne_panic (Outcome.okOr_ne_panic _ _) fun _ _ => Outcome.okOr_ne_panic _ _
    split_ifs
    · simp
    · simp
    · exact hread 0
    · exact Outcome.bind_ne_panic (Outcome.okOr_ne_panic _ _) fun w _ => hread w
  unfold parseHundredths
  cases splitOnce share '.' with
  | none => exact hparts share []
  | some parts =>
    show (if byteLen parts.2 ≤ 2 then hundredthsOfParts parts.1 parts.2 input else _) ≠ _
    split_ifs
    · exact hparts _ _
    · simp

theorem parseImageSize_ne_panic (s : Str) : parseImageSize s ≠ .panic := by
  rw [parseImageSize]
  cases stripPrefix (trim s) "fit".toList with
  | none => exact Outcome.bind_ne_panic (parseSize_ne_panic _) fun _ _ => by simp
  | some rest =>
    refine Outcome.bind_ne_panic (Outcome.okOr_ne_panic _ _) fun slack _ => ?_
    cases stripSuffix slack ['%'] with
    | none =>
      refine Outcome.bind_ne_panic ?_ fun _ _ => by simp
      exact mt Outcome.mapErr_eq_panic.mp (parseSize_ne_panic _)
    | some share => exact Outcome.bind_ne_panic (parseHundredths_ne_panic _ _) fun _ _ => by simp

/-! ### Writing a size -/

/-- The texts of the powers of 1024. -/
def UNIT_TEXTS : List (Str × ℕ) :=
  [("".toList, 0), ("KiB".toList, 1), ("MiB".toList, 2), ("GiB".toList, 3), ("TiB".toList, 4)]

/-- The loop takes up the first unit that divides the count. -/
theorem find_unit {n : UInt64} {p : ℕ} {mult : UInt64} (hmult : mult.toNat = 1024 ^ p) :
    (decide (mult ≤ n) && U64.isMultipleOf n mult) = true ↔ n ≠ 0 ∧ 1024 ^ p ∣ n.toNat := by
  rw [Bool.and_eq_true, decide_eq_true_eq, U64.isMultipleOf_iff, UInt64.le_iff_toNat_le, hmult,
    ← Nat.dvd_iff_mod_eq_zero]
  have hzero : n ≠ 0 ↔ 0 < n.toNat := by
    rw [ne_eq, ← UInt64.toNat_inj, Nat.pos_iff_ne_zero]
    rfl
  rw [hzero]
  exact ⟨fun ⟨hle, hdvd⟩ => ⟨Nat.lt_of_lt_of_le (by positivity) hle, hdvd⟩,
    fun ⟨hpos, hdvd⟩ => ⟨Nat.le_of_dvd hpos hdvd, hdvd⟩⟩

theorem toDigits_div {n mult : UInt64} {p : ℕ} (hmult : mult.toNat = 1024 ^ p) :
    Nat.toDigits 10 (n / mult).toNat = Nat.toDigits 10 (n.toNat / 1024 ^ p) := by
  rw [UInt64.toNat_div, hmult]

/-- A byte count is written in the largest unit it has a whole number of, zero in bytes. -/
theorem formatSize_spec (n : UInt64) : ∃ unit power, (unit, power) ∈ UNIT_TEXTS ∧
    formatSize n = Nat.toDigits 10 (n.toNat / 1024 ^ power) ++ unit ∧ 1024 ^ power ∣ n.toNat ∧
    (n = 0 → power = 0) ∧ (n ≠ 0 → ∀ p ≤ 4, 1024 ^ p ∣ n.toNat → p ≤ power) := by
  by_cases hzero : n = 0
  · subst hzero
    exact ⟨[], 0, List.mem_cons_self, by decide, by decide, fun _ => rfl, fun h => absurd rfl h⟩
  have hfound : ∀ {p : ℕ} {mult : UInt64}, mult.toNat = 1024 ^ p → 1024 ^ p ∣ n.toNat →
      (decide (mult ≤ n) && U64.isMultipleOf n mult) = true := fun hmult hdvd =>
    (find_unit hmult).mpr ⟨hzero, hdvd⟩
  have hpassed : ∀ {p : ℕ} {mult : UInt64}, mult.toNat = 1024 ^ p → ¬1024 ^ p ∣ n.toNat →
      (decide (mult ≤ n) && U64.isMultipleOf n mult) = false := fun hmult hdvd =>
    Bool.eq_false_iff.mpr fun h => hdvd ((find_unit hmult).mp h).2
  have t4 : (1024 * 1024 * 1024 * 1024 : UInt64).toNat = 1024 ^ 4 := by decide
  have t3 : (1024 * 1024 * 1024 : UInt64).toNat = 1024 ^ 3 := by decide
  have t2 : (1024 * 1024 : UInt64).toNat = 1024 ^ 2 := by decide
  have t1 : (1024 : UInt64).toNat = 1024 ^ 1 := by decide
  unfold formatSize
  simp only [UNITS, List.find?_cons, List.find?_nil]
  by_cases d4 : 1024 ^ 4 ∣ n.toNat
  · rw [hfound t4 d4]
    exact ⟨_, 4, by simp [UNIT_TEXTS], congrArg (· ++ _) (toDigits_div t4), d4, fun h => absurd h hzero,
      fun _ p hp _ => hp⟩
  rw [hpassed t4 d4]
  by_cases d3 : 1024 ^ 3 ∣ n.toNat
  · rw [hfound t3 d3]
    refine ⟨_, 3, by simp [UNIT_TEXTS], congrArg (· ++ _) (toDigits_div t3), d3, fun h => absurd h hzero,
      fun _ p hp hd => ?_⟩
    by_contra hlt
    exact d4 ((pow_dvd_pow _ (by omega)).trans hd)
  rw [hpassed t3 d3]
  by_cases d2 : 1024 ^ 2 ∣ n.toNat
  · rw [hfound t2 d2]
    refine ⟨_, 2, by simp [UNIT_TEXTS], congrArg (· ++ _) (toDigits_div t2), d2, fun h => absurd h hzero,
      fun _ p hp hd => ?_⟩
    by_contra hlt
    exact d3 ((pow_dvd_pow _ (by omega)).trans hd)
  rw [hpassed t2 d2]
  by_cases d1 : 1024 ^ 1 ∣ n.toNat
  · rw [hfound t1 d1]
    refine ⟨_, 1, by simp [UNIT_TEXTS], congrArg (· ++ _) (toDigits_div t1), d1, fun h => absurd h hzero,
      fun _ p hp hd => ?_⟩
    by_contra hlt
    exact d2 ((pow_dvd_pow _ (by omega)).trans hd)
  rw [hpassed t1 d1]
  refine ⟨[], 0, List.mem_cons_self, ?_, one_dvd _, fun h => absurd h hzero, fun _ p hp hd => ?_⟩
  · rw [pow_zero, Nat.div_one, List.append_nil]
  · by_contra hlt
    exact d1 ((pow_dvd_pow _ (by omega)).trans hd)

theorem parseSize_formatSize (n : UInt64) : parseSize (formatSize n) = .ok n := by
  obtain ⟨unit, power, hunit, htext, hdvd, -⟩ := formatSize_spec n
  rw [parseSize_eq_ok, htext]
  have hne : Nat.toDigits 10 (n.toNat / 1024 ^ power) ≠ [] := Nat.toDigits_ne_nil
  have hdigits : ∀ c ∈ Nat.toDigits 10 (n.toNat / 1024 ^ power), c.isDigit := fun c hc =>
    isDigit_of_mem_toDigits hc
  have hvalue : n.toNat = decimal (Nat.toDigits 10 (n.toNat / 1024 ^ power)) * 1024 ^ power := by
    rw [decimal_toDigits, Nat.div_mul_cancel hdvd]
  generalize Nat.toDigits 10 (n.toNat / 1024 ^ power) = digits at *
  have hblank : ∀ c : Char, c.isDigit = true → isWhitespace c = false := by
    intro c hc
    rw [Char.isDigit_iff_toNat] at hc
    have h0 : 48 ≤ c.toNat := hc.1
    have h9 : c.toNat ≤ 57 := hc.2
    unfold isWhitespace
    simp only [Bool.or_eq_false_iff, Bool.and_eq_false_iff, decide_eq_false_iff_not, beq_eq_false_iff_ne]
    omega
  have hunits : trim unit = unit ∧ UnitPower unit power ∧ (∀ c ∈ unit.head?, ¬c.isDigit) ∧
      ∀ c ∈ unit.getLast?, isWhitespace c = false := by
    simp only [UNIT_TEXTS, List.mem_cons, List.not_mem_nil, or_false, Prod.mk.injEq] at hunit
    rcases hunit with ⟨rfl, rfl⟩ | ⟨rfl, rfl⟩ | ⟨rfl, rfl⟩ | ⟨rfl, rfl⟩ | ⟨rfl, rfl⟩
    all_goals
      refine ⟨by decide, ⟨_, rfl, by decide⟩, fun c hc => ?_, fun c hc => ?_⟩
      all_goals first
        | obtain rfl := Option.some.inj hc
          decide
        | cases hc
  obtain ⟨htrim, hpower, hhead, hlast⟩ := hunits
  refine ⟨digits, unit, power, ?_, hne, hdigits, hhead, htrim.symm ▸ hpower, hvalue⟩
  obtain ⟨c, hc⟩ : ∃ c, digits.head? = some c := ⟨_, List.head?_eq_some_head hne⟩
  obtain ⟨d, hd⟩ : ∃ d, digits.getLast? = some d := ⟨_, List.getLast?_eq_some_getLast hne⟩
  have hhead' : (digits ++ unit).head? = some c := by rw [List.head?_append, hc, Option.some_or]
  cases hunit' : unit.getLast? with
  | none =>
    refine trim_eq_self (hblank c (hdigits c (List.mem_of_head? hc)))
      (hblank d (hdigits d (List.mem_of_getLast? hd))) hhead' ?_
    rw [List.getLast?_append, hunit', Option.none_or, hd]
  | some e =>
    refine trim_eq_self (hblank c (hdigits c (List.mem_of_head? hc))) (hlast e hunit') hhead' ?_
    rw [List.getLast?_append, hunit', Option.some_or]

/-- A byte count is read back from the largest unit it has a whole number of, an image size is
read as what it denotes, and what does not fit is refused. -/
theorem size_codec_exact :
    (∀ n : UInt64, parseSize (formatSize n) = .ok n ∧ ∃ unit power, (unit, power) ∈ UNIT_TEXTS ∧
      formatSize n = Nat.toDigits 10 (n.toNat / 1024 ^ power) ++ unit ∧ 1024 ^ power ∣ n.toNat ∧
      (n = 0 → power = 0) ∧ (n ≠ 0 → ∀ p ≤ 4, 1024 ^ p ∣ n.toNat → p ≤ power)) ∧
    (∀ s r, parseImageSize s = .ok r ↔ Denotes s r.meaning) ∧
    (∀ s m m', Denotes s m → Denotes s m' → m = m') ∧
    ∀ s v, (Denotes s (.fixed v) ∨ Denotes s (.fitBytes v)) → 2 ^ 64 ≤ v →
      ∃ e, parseImageSize s = .err e := by
  refine ⟨fun n => ⟨parseSize_formatSize n, formatSize_spec n⟩, fun s r => parseImageSize_eq_ok,
    fun s m m' => Denotes.unique, fun s v h hv => ?_⟩
  cases hparse : parseImageSize s with
  | err e => exact ⟨e, rfl⟩
  | panic => exact absurd hparse (parseImageSize_ne_panic s)
  | ok r =>
    have hr := parseImageSize_eq_ok.mp hparse
    exfalso
    rcases h with h | h
    · have hmeaning := hr.unique h
      cases r with
      | fixed n =>
        have := n.toNat_lt
        have := Meaning.fixed.inj hmeaning
        omega
      | fit room => cases room <;> exact nomatch hmeaning
    · have hmeaning := hr.unique h
      cases r with
      | fixed n => exact nomatch hmeaning
      | fit room =>
        cases room with
        | bytes n =>
          have := n.toNat_lt
          have := Meaning.fitBytes.inj hmeaning
          omega
        | share h => exact nomatch hmeaning

/-- Zero is a whole number of every unit, and is written in none. -/
theorem formatSize_zero : ¬∀ n : UInt64, ∃ unit power, (unit, power) ∈ UNIT_TEXTS ∧
    formatSize n = Nat.toDigits 10 (n.toNat / 1024 ^ power) ++ unit ∧
    ∀ p ≤ 4, 1024 ^ p ∣ n.toNat → p ≤ power := by
  intro h
  obtain ⟨unit, power, hunit, htext, hlargest⟩ := h 0
  have hfour : 4 ≤ power := hlargest 4 le_rfl (dvd_zero _)
  have htib : unit = "TiB".toList := by
    simp only [UNIT_TEXTS, List.mem_cons, List.not_mem_nil, or_false, Prod.mk.injEq] at hunit
    rcases hunit with ⟨-, rfl⟩ | ⟨-, rfl⟩ | ⟨-, rfl⟩ | ⟨-, rfl⟩ | ⟨rfl, -⟩
    all_goals first | rfl | omega
  have hlength := congrArg List.length htext
  rw [List.length_append, htib] at hlength
  have hpos := List.length_pos_iff.mpr (Nat.toDigits_ne_nil (n := (0 : UInt64).toNat / 1024 ^ power) (b := 10))
  have hone : (formatSize 0).length = 1 := by decide
  have hthree : "TiB".toList.length = 3 := by decide
  omega

end Boot2Deb.Size
