import Mathlib
import Boot2Deb.Lib.Gregorian
import Boot2Deb.Lib.Padded
import Boot2Deb.Rust.Outcome
import Boot2Deb.Rust.Str

/-!
# UTC timestamps

Four spellings of an instant and the calendar conversion behind them. The conversion counts years
from March in eras of 400 years; it finds the date of the day in the calendar: `datetime_exact`.
-/

namespace Boot2Deb.Core.Datetime

open Rust Gregorian

variable {ε : Type}

/-! ### The conversion -/

/-- The exact result of an `i64` operation, where there is one. -/
def i64 (n : ℤ) : Outcome ε ℤ := if -2 ^ 63 ≤ n ∧ n < 2 ^ 63 then .ok n else .panic

/-- `as u32`. -/
def asU32 (n : ℤ) : ℕ := (n % 2 ^ 32).toNat

/-- The second half of `civil_from_days`: the date of a day of an era, its year of the era known. -/
def civilFromEra (era doe yoe : ℤ) : Outcome ε (ℤ × ℕ × ℕ) := do
  let y ← i64 (yoe + (← i64 (era * 400)))
  let doy ← i64 (doe - (← i64 ((← i64 ((← i64 (365 * yoe)) + yoe.tdiv 4)) - yoe.tdiv 100)))
  let mp := Int.tdiv (← i64 ((← i64 (5 * doy)) + 2)) 153
  let d := asU32 (← i64 ((← i64 (doy - Int.tdiv (← i64 ((← i64 (153 * mp)) + 2)) 5)) + 1))
  let m := asU32 (← if mp < 10 then i64 (mp + 3) else i64 (mp - 9))
  return (← if m ≤ 2 then i64 (y + 1) else pure y, m, d)

/-- Days since 1970-01-01 as year, month and day. -/
def civilFromDays (z : ℤ) : Outcome ε (ℤ × ℕ × ℕ) := do
  let z ← i64 (z + 719468)
  let era := Int.tdiv (← if z ≥ 0 then pure z else i64 (z - 146096)) 146097
  let doe ← i64 (z - (← i64 (era * 146097)))
  let yoe := Int.tdiv (← i64 ((← i64 ((← i64 (doe - doe.tdiv 1460)) + doe.tdiv 36524)) -
    doe.tdiv 146096)) 365
  civilFromEra era doe yoe

/-- Whole Unix seconds as UTC year, month, day, hour, minute and second. -/
def parts (unixSecs : UInt64) : Outcome ε (ℤ × ℕ × ℕ × ℕ × ℕ × ℕ) := do
  let days := ((unixSecs / 86400).toNat : ℤ)
  let sod := unixSecs % 86400
  let (y, mo, d) ← civilFromDays days
  return (y, mo, d, (sod / 3600).toNat, (sod % 3600 / 60).toNat, (sod % 60).toNat)

/-! ### The spellings -/

def WEEKDAYS : List Str :=
  ["Thu".toList, "Fri".toList, "Sat".toList, "Sun".toList, "Mon".toList, "Tue".toList, "Wed".toList]

def MONTHS : List Str :=
  ["Jan".toList, "Feb".toList, "Mar".toList, "Apr".toList, "May".toList, "Jun".toList, "Jul".toList,
    "Aug".toList, "Sep".toList, "Oct".toList, "Nov".toList, "Dec".toList]

/-- `{y:0width}` of an `i64`. -/
def paddedI64 (width : ℕ) (y : ℤ) : Str :=
  if y < 0 then '-' :: padded (width - 1) y.natAbs else padded width y.natAbs

/-- `{y}` of an `i64`. -/
def displayI64 (y : ℤ) : Str := paddedI64 0 y

/-- `{d:>2}`. -/
def rightAligned (d : ℕ) : Str :=
  List.replicate (2 - (Nat.toDigits 10 d).length) ' ' ++ Nat.toDigits 10 d

/-- `MONTHS[(mo - 1) as usize]`. -/
def monthName (mo : ℕ) : Outcome ε Str := if mo = 0 then .panic else .expect MONTHS[mo - 1]?

/-- `WEEKDAYS[((unix_secs / 86_400) % 7) as usize]`. -/
def weekdayName (unixSecs : UInt64) : Outcome ε Str :=
  .expect WEEKDAYS[(unixSecs / 86400 % 7).toNat]?

def formatCompact (unixSecs : UInt64) : Outcome ε Str := do
  let (y, mo, d, h, m, s) ← parts unixSecs
  return paddedI64 4 y ++ padded 2 mo ++ padded 2 d ++ 'T' :: padded 2 h ++ padded 2 m ++
    padded 2 s ++ ['Z']

def formatRfc3339 (unixSecs : UInt64) : Outcome ε Str := do
  let (y, mo, d, h, m, s) ← parts unixSecs
  return paddedI64 4 y ++ '-' :: padded 2 mo ++ '-' :: padded 2 d ++ 'T' :: padded 2 h ++
    ':' :: padded 2 m ++ ':' :: padded 2 s ++ ['Z']

def formatDateC (unixSecs : UInt64) : Outcome ε Str := do
  let (y, mo, d, h, m, s) ← parts unixSecs
  let weekday ← weekdayName unixSecs
  let month ← monthName mo
  return weekday ++ ' ' :: month ++ ' ' :: rightAligned d ++ ' ' :: padded 2 h ++
    ':' :: padded 2 m ++ ':' :: padded 2 s ++ " UTC ".toList ++ displayI64 y

def formatRfc2822 (unixSecs : UInt64) : Outcome ε Str := do
  let (y, mo, d, h, m, s) ← parts unixSecs
  let weekday ← weekdayName unixSecs
  let month ← monthName mo
  return weekday ++ ", ".toList ++ padded 2 d ++ ' ' :: month ++ ' ' :: displayI64 y ++
    ' ' :: padded 2 h ++ ':' :: padded 2 m ++ ':' :: padded 2 s ++ " +0000".toList

/-! ### The day of the era -/

theorem i64_eq_ok {n : ℤ} (h : -2 ^ 63 ≤ n ∧ n < 2 ^ 63) : i64 (ε := ε) n = .ok n := if_pos h

/-- The day of the era on which a year of the era begins, in March. -/
def yearStart (yoe : ℕ) : ℤ := 365 * yoe + yoe / 4 - yoe / 100 + yoe / 400

/-- What the year of the era is read from, at 365 a year. -/
def withoutLeapDays (doe : ℤ) : ℤ := doe - doe / 1460 + doe / 36524 - doe / 146096

theorem withoutLeapDays_mono {a b : ℤ} (h : a ≤ b) : withoutLeapDays a ≤ withoutLeapDays b := by
  have hquarter : ∀ n : ℤ, n / 146096 = n / 36524 / 4 := fun n => by omega
  have hfours : a - a / 1460 ≤ b - b / 1460 := by omega
  have hcenturies : ∀ p q : ℤ, p ≤ q → p - p / 4 ≤ q - q / 4 := fun p q hpq => by omega
  have hcentury := hcenturies (a / 36524) (b / 36524) (Int.ediv_le_ediv (by decide) h)
  unfold withoutLeapDays
  rw [hquarter, hquarter]
  omega

/-- At either end of a year of the era. -/
theorem withoutLeapDays_ends : ∀ yoe : ℕ, yoe < 400 → 365 * (yoe : ℤ) ≤ withoutLeapDays (yearStart yoe) ∧
    withoutLeapDays (yearStart (yoe + 1) - 1) < 365 * (yoe + 1) := by
  unfold withoutLeapDays yearStart
  decide +kernel

theorem exists_between {f : ℕ → ℤ} {n : ℕ} {x : ℤ} (h0 : f 0 ≤ x) (hn : x < f n) :
    ∃ k < n, f k ≤ x ∧ x < f (k + 1) := by
  induction n with
  | zero => omega
  | succ n ih =>
    by_cases hx : x < f n
    · obtain ⟨k, hk, hkx⟩ := ih hx
      exact ⟨k, by omega, hkx⟩
    · exact ⟨n, by omega, by omega, hn⟩

/-- The year of the era is the one the day is in. -/
theorem yearOfEra_spec {doe : ℤ} (h0 : 0 ≤ doe) (h : doe < 146097) :
    ∃ yoe : ℕ, yoe < 400 ∧ withoutLeapDays doe / 365 = yoe ∧
      yearStart yoe ≤ doe ∧ doe < yearStart (yoe + 1) := by
  obtain ⟨yoe, hyoe, hstart, hend⟩ := @exists_between yearStart 400 doe h0 h
  refine ⟨yoe, hyoe, ?_, hstart, hend⟩
  have hends := withoutLeapDays_ends yoe hyoe
  have hlow := withoutLeapDays_mono hstart
  have hhigh := withoutLeapDays_mono (show doe ≤ yearStart (yoe + 1) - 1 by omega)
  omega

/-! ### The day of the year -/

/-- The month a day counted from March is in, and its day there. -/
theorem monthOfYear_spec : ∀ doy < 366, ∃ mp < 12, (5 * doy + 2) / 153 = mp ∧
    (153 * mp + 2) / 5 ≤ doy ∧ doy - (153 * mp + 2) / 5 < 31 := by
  decide +kernel

theorem asU32_natCast {n : ℕ} (h : n < 2 ^ 32) : asU32 n = n := by
  unfold asU32
  omega

/-- Every operation on the day of an era is exact. -/
theorem civilFromEra_eq {era doe : ℤ} {yoe doy mp : ℕ} (h0 : 0 ≤ era) (hera : era < 2 ^ 48)
    (hyoe : yoe < 400) (hdoy : doy < 366) (hdoe : doe = 365 * yoe + yoe / 4 - yoe / 100 + doy)
    (hmp : (5 * doy + 2) / 153 = mp) (hmp12 : mp < 12) (hd : (153 * mp + 2) / 5 ≤ doy) :
    civilFromEra (ε := ε) era doe yoe = .ok
      (if mp < 10 then yoe + era * 400 else yoe + era * 400 + 1,
        if mp < 10 then mp + 3 else mp - 9, doy - (153 * mp + 2) / 5 + 1) := by
  have hdays : doe - (365 * yoe + yoe / 4 - yoe / 100) = doy := by omega
  have hleaps : 0 ≤ (yoe : ℤ) / 4 ∧ (yoe : ℤ) / 4 ≤ yoe ∧ 0 ≤ (yoe : ℤ) / 100 ∧
    (yoe : ℤ) / 100 ≤ yoe := by omega
  have hmpz : Int.tdiv (5 * doy + 2) 153 = mp := by
    rw [Int.tdiv_eq_ediv_of_nonneg (by omega)]
    omega
  have hdz : Int.tdiv (153 * mp + 2) 5 = ((153 * mp + 2) / 5 : ℕ) := by
    rw [Int.tdiv_eq_ediv_of_nonneg (by omega)]
    omega
  clear hmp
  rw [civilFromEra, i64_eq_ok (by omega), Outcome.ok_bind, i64_eq_ok (by omega), Outcome.ok_bind]
  simp only [Int.tdiv_eq_ediv_of_nonneg (Int.natCast_nonneg yoe)]
  generalize (yoe : ℤ) / 4 = fours, (yoe : ℤ) / 100 = hundreds at *
  rw [i64_eq_ok (by omega), Outcome.ok_bind, i64_eq_ok (by omega), Outcome.ok_bind,
    i64_eq_ok (by omega), Outcome.ok_bind, i64_eq_ok (by omega), Outcome.ok_bind]
  simp only [hdays]
  clear hdays hdoe hleaps
  rw [i64_eq_ok (by omega), Outcome.ok_bind, i64_eq_ok (by omega), Outcome.ok_bind]
  simp only [hmpz]
  rw [i64_eq_ok (by omega), Outcome.ok_bind, i64_eq_ok (by omega), Outcome.ok_bind]
  simp only [hdz]
  have hdu : asU32 (doy - ((153 * mp + 2) / 5 : ℕ) + 1) = doy - (153 * mp + 2) / 5 + 1 := by
    rw [← asU32_natCast (n := doy - (153 * mp + 2) / 5 + 1) (by omega)]
    congr 1
    omega
  generalize (153 * mp + 2) / 5 = before at *
  rw [i64_eq_ok (by omega), Outcome.ok_bind, i64_eq_ok (by omega), Outcome.ok_bind]
  simp only [hdu]
  by_cases hten : mp < 10
  · have hmu : asU32 (mp + 3) = mp + 3 := by
      rw [← asU32_natCast (n := mp + 3) (by omega)]
      congr 1
    rw [if_pos (by omega), if_pos hten, if_pos hten, i64_eq_ok (by omega), Outcome.ok_bind, hmu,
      if_neg (by omega)]
    rfl
  · have hmu : asU32 (mp - 9) = mp - 9 := by
      rw [← asU32_natCast (n := mp - 9) (by omega)]
      congr 1
      omega
    rw [if_neg (by omega), if_neg hten, if_neg hten, i64_eq_ok (by omega), Outcome.ok_bind, hmu,
      if_pos (by omega), i64_eq_ok (by omega), Outcome.ok_bind]
    rfl

/-- Every operation on a day to come is exact. -/
theorem civilFromDays_eq {z era doe : ℤ} {yoe : ℕ} (h0 : 0 ≤ z) (hz : z < 2 ^ 48)
    (hday : z + 719468 = era * 146097 + doe) (hdoe0 : 0 ≤ doe) (hdoe : doe < 146097)
    (hyear : withoutLeapDays doe / 365 = yoe) :
    civilFromDays (ε := ε) z = civilFromEra era doe yoe := by
  have hera : (z + 719468).tdiv 146097 = era := by
    rw [Int.tdiv_eq_ediv_of_nonneg (by omega)]
    omega
  have hdiff : z + 719468 - era * 146097 = doe := by omega
  rw [civilFromDays, i64_eq_ok (by omega), Outcome.ok_bind, if_pos (by omega), Outcome.pure_eq,
    Outcome.ok_bind]
  simp only [hera]
  rw [i64_eq_ok (by omega), Outcome.ok_bind, i64_eq_ok (by omega), Outcome.ok_bind]
  simp only [hdiff, Int.tdiv_eq_ediv_of_nonneg hdoe0]
  rw [i64_eq_ok (by omega), Outcome.ok_bind, i64_eq_ok (by omega), Outcome.ok_bind,
    i64_eq_ok (by omega), Outcome.ok_bind]
  have hw : doe - doe / 1460 + doe / 36524 - doe / 146096 = withoutLeapDays doe := rfl
  simp only [hw]
  rw [Int.tdiv_eq_ediv_of_nonneg (by unfold withoutLeapDays; omega), hyear]

/-! ### The date of a day -/

theorem daysBeforeMonth_eq (year : ℤ) : ∀ month, 1 ≤ month → month ≤ 12 →
    daysBeforeMonth year month = if month ≤ 2 then 31 * (month - 1)
      else (153 * (month - 3) + 2) / 5 + 59 + if IsLeap year then 1 else 0 := by
  intro month h1 h12
  by_cases h : IsLeap year <;> interval_cases month <;>
    simp [daysBeforeMonth, daysInMonth, List.range_succ, h]

/-- The first of March, by the year of an era and by the calendar. -/
theorem yearStart_eq {era : ℤ} {yoe : ℕ} (hyoe : yoe < 400) : era * 146097 + yearStart yoe =
    daysBeforeYear (yoe + era * 400) - daysBeforeYear 1970 + 719527 +
      if IsLeap (yoe + era * 400) then 1 else 0 := by
  unfold daysBeforeYear yearStart IsLeap
  split_ifs <;> omega

/-- A year of an era has the length of the calendar's year its February is in. -/
theorem yearStart_succ {era : ℤ} {yoe : ℕ} (hyoe : yoe < 400) :
    yearStart (yoe + 1) = yearStart yoe + yearLength (yoe + era * 400 + 1) := by
  unfold yearStart yearLength IsLeap
  split_ifs <;> omega

/-- The date the conversion finds: a day of the calendar, and the one of the number. -/
theorem exists_date {era : ℤ} {yoe doy mp : ℕ} (hyoe : yoe < 400)
    (hdoy : yearStart yoe + doy < yearStart (yoe + 1)) (hmp : (5 * doy + 2) / 153 = mp)
    (hmp12 : mp < 12) :
    ∃ date : Date, date.year = (if mp < 10 then yoe + era * 400 else yoe + era * 400 + 1) ∧
      date.month = (if mp < 10 then mp + 3 else mp - 9) ∧ date.day = doy - (153 * mp + 2) / 5 + 1 ∧
      date.epochDay + 719468 = era * 146097 + (yearStart yoe + doy) := by
  rw [@yearStart_succ era yoe hyoe] at hdoy
  have hstart := @yearStart_eq era yoe hyoe
  generalize yearStart yoe = start at *
  by_cases hten : mp < 10
  · rw [if_pos hten, if_pos hten]
    have hday : doy - (153 * mp + 2) / 5 + 1 ≤ daysInMonth (yoe + era * 400) (mp + 3) := by
      unfold daysInMonth
      interval_cases mp <;> simp only [Nat.reduceAdd, Nat.reduceEqDiff, if_false, if_true, or_false,
        false_or, or_self] <;> omega
    refine ⟨⟨yoe + era * 400, mp + 3, doy - (153 * mp + 2) / 5 + 1, by omega, by omega, by omega, hday⟩,
      rfl, rfl, rfl, ?_⟩
    rw [Date.epochDay]
    simp only [daysBeforeMonth_eq (yoe + era * 400) (mp + 3) (by omega) (by omega)]
    rw [if_neg (by omega), Nat.add_sub_cancel]
    split_ifs at hstart ⊢ <;> omega
  · rw [if_neg hten, if_neg hten]
    have hday : doy - (153 * mp + 2) / 5 + 1 ≤ daysInMonth (yoe + era * 400 + 1) (mp - 9) := by
      unfold daysInMonth
      unfold yearLength at hdoy
      have hcases : mp = 10 ∨ mp = 11 := by omega
      rcases hcases with rfl | rfl
      · simp only [Nat.reduceSub, Nat.reduceEqDiff, if_false, or_self]
        omega
      · simp only [Nat.reduceSub, if_true]
        split_ifs at hdoy ⊢ <;> omega
    refine ⟨⟨yoe + era * 400 + 1, mp - 9, doy - (153 * mp + 2) / 5 + 1, by omega, by omega, by omega,
      hday⟩, rfl, rfl, rfl, ?_⟩
    have hmonth := daysBeforeMonth_eq (yoe + era * 400 + 1) (mp - 9) (by omega) (by omega)
    rw [if_pos (by omega)] at hmonth
    rw [Date.epochDay]
    simp only [hmonth, daysBeforeYear_succ, yearLength]
    clear hday hdoy hmonth
    split_ifs at hstart ⊢ <;> omega

/-- The conversion finds the date of the day. -/
theorem civilFromDays_date {z : ℤ} (h0 : 0 ≤ z) (hz : z < 2 ^ 48) : ∃ date : Date,
    date.epochDay = z ∧ civilFromDays (ε := ε) z = .ok (date.year, date.month, date.day) := by
  have hday : z + 719468 = (z + 719468) / 146097 * 146097 + (z + 719468) % 146097 := by omega
  have hdoe0 : 0 ≤ (z + 719468) % 146097 := by omega
  have hdoe : (z + 719468) % 146097 < 146097 := by omega
  have hera0 : 0 ≤ (z + 719468) / 146097 := by omega
  have hera : (z + 719468) / 146097 < 2 ^ 48 := by omega
  generalize (z + 719468) / 146097 = era, (z + 719468) % 146097 = doe at *
  obtain ⟨yoe, hyoe, hyear, hlow, hhigh⟩ := yearOfEra_spec hdoe0 hdoe
  obtain ⟨doy, hdoy⟩ : ∃ doy : ℕ, doe = yearStart yoe + doy :=
    ⟨(doe - yearStart yoe).toNat, by omega⟩
  have hdoy366 : doy < 366 := by
    have hbound := @yearStart_succ era yoe hyoe
    unfold yearLength at hbound
    split_ifs at hbound <;> omega
  obtain ⟨mp, hmp12, hmp, hd, -⟩ := monthOfYear_spec doy hdoy366
  obtain ⟨date, hy, hm, hday', hepoch⟩ := @exists_date era yoe doy mp hyoe (hdoy ▸ hhigh) hmp hmp12
  refine ⟨date, by omega, ?_⟩
  rw [civilFromDays_eq h0 hz hday hdoe0 hdoe hyear, hy, hm, hday']
  refine civilFromEra_eq hera0 hera hyoe hdoy366 ?_ hmp hmp12 hd
  rw [hdoy, yearStart]
  omega

/-! ### The spellings of an instant -/

/-- Every number of seconds denotes an instant, which its parts are. -/
theorem parts_instant (secs : UInt64) : ∃ i : Instant, i.unixSeconds = secs.toNat ∧
    parts (ε := ε) secs =
      .ok (i.date.year, i.date.month, i.date.day, i.hour, i.minute, i.second) := by
  have hlt := secs.toNat_lt
  have hdays : ((secs / 86400).toNat : ℤ) = secs.toNat / 86400 := by
    rw [UInt64.toNat_div]
    rfl
  obtain ⟨date, hepoch, hcivil⟩ := @civilFromDays_date ε (secs / 86400).toNat (by omega) (by omega)
  refine ⟨⟨date, secs.toNat % 86400 / 3600, secs.toNat % 86400 % 3600 / 60, secs.toNat % 86400 % 60,
    by omega, by omega, by omega⟩, ?_, ?_⟩
  · rw [Instant.unixSeconds]
    simp only
    omega
  · rw [parts, hcivil]
    rfl

/-- A date and a time with something between the fields of either. -/
def stamp (a b : Str) (i : Instant) : Str :=
  padded 4 i.date.year.toNat ++ (a ++ (padded 2 i.date.month ++ (a ++ (padded 2 i.date.day ++
    ('T' :: (padded 2 i.hour ++ (b ++ (padded 2 i.minute ++ (b ++ (padded 2 i.second ++ ['Z']))))))))))

theorem paddedI64_of_nonneg {width : ℕ} {y : ℤ} (h : 0 ≤ y) : paddedI64 width y = padded width y.toNat := by
  rw [paddedI64, if_neg (by omega), show y.natAbs = y.toNat by omega]

theorem stamp_lt (a b : Str) {i j : Instant} (h : i.Before j) (hi : 0 ≤ i.date.year)
    (hj : j.date.year ≤ 9999) : stamp a b i < stamp a b j := by
  have hmonth := j.date.month_le
  have hday := (daysInMonth_bounds j.date.year j.date.month).2.trans' j.date.day_le
  have hhour := j.hour_lt
  have hminute := j.minute_lt
  have hsecond := j.second_lt
  rcases h with (hy | ⟨hy, hm | ⟨hm, hd⟩⟩) | ⟨hdate, htime⟩
  · exact padded_append_lt (by omega) (.inl (by omega))
  · refine padded_append_lt (by omega) (.inr ⟨by omega, List.append_left_lt ?_⟩)
    exact padded_append_lt (by omega) (.inl hm)
  · refine padded_append_lt (by omega) (.inr ⟨by omega, List.append_left_lt ?_⟩)
    refine padded_append_lt (by omega) (.inr ⟨hm, List.append_left_lt ?_⟩)
    exact padded_append_lt (by omega) (.inl hd)
  · unfold stamp
    rw [hdate]
    refine List.append_left_lt (List.append_left_lt (List.append_left_lt (List.append_left_lt
      (List.append_left_lt (List.cons_lt_cons_iff.mpr (.inr ⟨rfl, ?_⟩))))))
    rcases htime with hh | ⟨hh, hm | ⟨hm, hs⟩⟩
    · exact padded_append_lt (by omega) (.inl hh)
    · refine padded_append_lt (by omega) (.inr ⟨hh, List.append_left_lt ?_⟩)
      exact padded_append_lt (by omega) (.inl hm)
    · refine padded_append_lt (by omega) (.inr ⟨hh, List.append_left_lt ?_⟩)
      refine padded_append_lt (by omega) (.inr ⟨hm, List.append_left_lt ?_⟩)
      exact padded_append_lt (by omega) (.inl hs)

/-- The years counted from 1970 on. -/
theorem year_nonneg {i : Instant} (h : 0 ≤ i.unixSeconds) : 0 ≤ i.date.year := by
  by_contra hneg
  have hhour := i.hour_lt
  have hminute := i.minute_lt
  have hsecond := i.second_lt
  have hend := (Date.epochDay_bounds i.date).2
  have hmono := daysBeforeYear_mono (show i.date.year + 1 ≤ 0 by omega)
  rw [Instant.unixSeconds] at h
  have hgap : daysBeforeYear 0 - daysBeforeYear 1970 = -719528 := by decide
  omega

section Texts
variable {secs : UInt64} {i : Instant}

theorem formatCompact_eq (h : parts (ε := ε) secs =
    .ok (i.date.year, i.date.month, i.date.day, i.hour, i.minute, i.second))
    (hyear : 0 ≤ i.date.year) : formatCompact (ε := ε) secs = .ok (stamp [] [] i) := by
  rw [formatCompact, h, Outcome.ok_bind]
  simp only [paddedI64_of_nonneg hyear, stamp, List.append_assoc, List.cons_append, List.nil_append]
  rfl

theorem formatRfc3339_eq (h : parts (ε := ε) secs =
    .ok (i.date.year, i.date.month, i.date.day, i.hour, i.minute, i.second))
    (hyear : 0 ≤ i.date.year) : formatRfc3339 (ε := ε) secs = .ok (stamp ['-'] [':'] i) := by
  rw [formatRfc3339, h, Outcome.ok_bind]
  simp only [paddedI64_of_nonneg hyear, stamp, List.append_assoc, List.cons_append, List.nil_append]
  rfl

end Texts

/-- The name of a weekday. -/
def weekdayAbbreviation : Weekday → Str
  | .monday => "Mon".toList
  | .tuesday => "Tue".toList
  | .wednesday => "Wed".toList
  | .thursday => "Thu".toList
  | .friday => "Fri".toList
  | .saturday => "Sat".toList
  | .sunday => "Sun".toList

theorem weekdayName_eq (secs : UInt64) : weekdayName (ε := ε) secs =
    .ok (weekdayAbbreviation (weekdayAfter (secs.toNat / 86400))) := by
  have hindex : (secs / 86400 % 7).toNat = secs.toNat / 86400 % 7 := by
    rw [UInt64.toNat_mod, UInt64.toNat_div]
    rfl
  have hnames : ∀ n < 7, WEEKDAYS[n]? = some (weekdayAbbreviation (weekdayAfter n)) := by decide
  rw [weekdayName, hindex, weekdayAfter_mod]
  exact Outcome.expect_eq_ok.mpr (hnames _ (Nat.mod_lt _ (by decide)))

theorem exists_monthName (d : Date) : ∃ name, monthName (ε := ε) d.month = .ok name := by
  have h1 := d.one_le_month
  have h12 := d.month_le
  have hnames : MONTHS.length = 12 := rfl
  rw [monthName, if_neg (by omega)]
  exact ⟨MONTHS[d.month - 1], Outcome.expect_eq_ok.mpr (List.getElem?_eq_getElem _)⟩

/-- The parts of a number of seconds are those of the one instant with that number, the day after is
the next date, and the compact and the RFC 3339 texts rise with the seconds. -/
theorem datetime_exact (secs : UInt64) : ∃ i : Instant, i.unixSeconds = secs.toNat ∧
    (∀ j : Instant, j.unixSeconds = secs.toNat → j = i) ∧
    parts (ε := ε) secs =
      .ok (i.date.year, i.date.month, i.date.day, i.hour, i.minute, i.second) ∧
    weekdayName (ε := ε) secs =
      .ok (weekdayAbbreviation (weekdayAfter (secs.toNat / 86400))) ∧
    (∀ later : UInt64, later.toNat = secs.toNat + 86400 → parts (ε := ε) later =
      .ok (i.date.next.year, i.date.next.month, i.date.next.day, i.hour, i.minute, i.second)) ∧
    (∃ dateC rfc2822, formatDateC (ε := ε) secs = .ok dateC ∧
      formatRfc2822 (ε := ε) secs = .ok rfc2822) ∧
    ∃ compact rfc3339, formatCompact (ε := ε) secs = .ok compact ∧
      formatRfc3339 (ε := ε) secs = .ok rfc3339 ∧
      (i.date.year ≤ 9999 → ∀ earlier, earlier < secs → ∃ compact' rfc3339',
        formatCompact (ε := ε) earlier = .ok compact' ∧
        formatRfc3339 (ε := ε) earlier = .ok rfc3339' ∧ compact' < compact ∧ rfc3339' < rfc3339) := by
  obtain ⟨i, hi, hparts⟩ := parts_instant (ε := ε) secs
  have hyear := year_nonneg (i := i) (by omega)
  refine ⟨i, hi, fun j hj => Instant.unixSeconds_injective (hj.trans hi.symm), hparts,
    weekdayName_eq secs, fun later hlater => ?_, ?_, _, _, formatCompact_eq hparts hyear,
    formatRfc3339_eq hparts hyear, fun hend earlier hearlier => ?_⟩
  · obtain ⟨j, hj, hparts'⟩ := parts_instant (ε := ε) later
    have hnext : j = i.nextDay := by
      apply Instant.unixSeconds_injective
      rw [Instant.unixSeconds_nextDay, hi, hj, hlater]
      rfl
    rw [hparts', hnext]
    rfl
  · obtain ⟨month, hmonth⟩ := exists_monthName (ε := ε) i.date
    rw [formatDateC, formatRfc2822, hparts, weekdayName_eq]
    simp only [Outcome.ok_bind, hmonth]
    exact ⟨_, _, rfl, rfl⟩
  · obtain ⟨j, hj, hparts'⟩ := parts_instant (ε := ε) earlier
    have hyear' := year_nonneg (i := j) (by omega)
    have hlt : earlier.toNat < secs.toNat := UInt64.lt_iff_toNat_lt.mp hearlier
    have hbefore : j.Before i := Instant.before_of_unixSeconds_lt (by omega)
    exact ⟨_, _, formatCompact_eq hparts' hyear', formatRfc3339_eq hparts' hyear',
      stamp_lt _ _ hbefore hyear' hend, stamp_lt _ _ hbefore hyear' hend⟩

/-- A Thursday's text and the next day's, which begins with another weekday. -/
theorem dateC_not_rising : ¬∀ (earlier secs : UInt64) (a b : Str) (y : ℤ) (date : ℕ × ℕ × ℕ × ℕ × ℕ),
    earlier < secs → parts (ε := Empty) secs = .ok (y, date) → y ≤ 9999 →
    formatDateC (ε := Empty) earlier = .ok a → formatDateC (ε := Empty) secs = .ok b → a < b := by
  intro h
  have hlt := h 0 86400 "Thu Jan  1 00:00:00 UTC 1970".toList "Fri Jan  2 00:00:00 UTC 1970".toList
    1970 (1, 2, 0, 0, 0) (by decide) (by decide +kernel) (by decide) (by decide +kernel)
    (by decide +kernel)
  revert hlt
  decide

end Boot2Deb.Core.Datetime
