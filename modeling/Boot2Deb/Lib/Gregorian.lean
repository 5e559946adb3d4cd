import Mathlib.Tactic.IntervalCases
import Mathlib.Data.Prod.Lex
import Mathlib.Data.Int.Order.Lemmas
import Mathlib.Logic.Function.Iterate

/-!
# The proleptic Gregorian calendar

A `Date` is a year, a month and a day of that month. Dates follow one another by `next`, and each has
a number, `Date.epochDay`, one more than that of the date before: `epochDay_next`. The number rises
with the date, so it names it.
-/

namespace Boot2Deb.Gregorian

def IsLeap (year : ℤ) : Prop := (4 ∣ year ∧ ¬100 ∣ year) ∨ 400 ∣ year

instance (year : ℤ) : Decidable (IsLeap year) := inferInstanceAs (Decidable (_ ∨ _))

def daysInMonth (year : ℤ) (month : ℕ) : ℕ :=
  if month = 2 then if IsLeap year then 29 else 28
  else if month = 4 ∨ month = 6 ∨ month = 9 ∨ month = 11 then 30
  else 31

/-- A day of the calendar. -/
@[ext] structure Date where
  year : ℤ
  month : ℕ
  day : ℕ
  one_le_month : 1 ≤ month
  month_le : month ≤ 12
  one_le_day : 1 ≤ day
  day_le : day ≤ daysInMonth year month
deriving DecidableEq

theorem daysInMonth_bounds (year : ℤ) (month : ℕ) :
    28 ≤ daysInMonth year month ∧ daysInMonth year month ≤ 31 := by
  unfold daysInMonth
  split_ifs <;> omega

namespace Date

/-- The day after. -/
def next (d : Date) : Date :=
  if hday : d.day < daysInMonth d.year d.month then
    { d with day := d.day + 1, one_le_day := Nat.le_add_left .., day_le := hday }
  else if hmonth : d.month < 12 then
    ⟨d.year, d.month + 1, 1, Nat.le_add_left .., hmonth, le_rfl,
      Nat.le_trans (by decide) (daysInMonth_bounds ..).1⟩
  else ⟨d.year + 1, 1, 1, le_rfl, by decide, le_rfl, Nat.le_trans (by decide) (daysInMonth_bounds ..).1⟩

end Date

/-! ### The number of a date -/

def yearLength (year : ℤ) : ℤ := if IsLeap year then 366 else 365

/-- The days before a year, from a year in the distance. -/
def daysBeforeYear (year : ℤ) : ℤ :=
  365 * year + (year - 1) / 4 - (year - 1) / 100 + (year - 1) / 400

theorem daysBeforeYear_succ (year : ℤ) :
    daysBeforeYear (year + 1) = daysBeforeYear year + yearLength year := by
  unfold daysBeforeYear yearLength IsLeap
  split_ifs <;> omega

theorem daysBeforeYear_mono {a b : ℤ} (h : a ≤ b) : daysBeforeYear a ≤ daysBeforeYear b := by
  unfold daysBeforeYear
  omega

/-- The days of a year before a month. -/
def daysBeforeMonth (year : ℤ) (month : ℕ) : ℕ :=
  ((List.range (month - 1)).map fun i => daysInMonth year (i + 1)).sum

theorem daysBeforeMonth_succ (year : ℤ) {month : ℕ} (h : 1 ≤ month) :
    daysBeforeMonth year (month + 1) = daysBeforeMonth year month + daysInMonth year month := by
  obtain ⟨m, rfl⟩ := Nat.exists_eq_add_of_le' h
  simp [daysBeforeMonth, List.range_succ]

theorem daysBeforeMonth_mono (year : ℤ) {a b : ℕ} (ha : 1 ≤ a) (h : a ≤ b) :
    daysBeforeMonth year a ≤ daysBeforeMonth year b := by
  induction b, h using Nat.le_induction with
  | base => rfl
  | succ b hb ih =>
    rw [daysBeforeMonth_succ year (Nat.le_trans ha hb)]
    omega

theorem daysBeforeMonth_end (year : ℤ) : (daysBeforeMonth year 13 : ℤ) = yearLength year := by
  unfold yearLength
  by_cases h : IsLeap year <;> simp [daysBeforeMonth, daysInMonth, List.range_succ, h]

namespace Date

/-- The days from the first of January 1970. -/
def epochDay (d : Date) : ℤ :=
  daysBeforeYear d.year - daysBeforeYear 1970 + daysBeforeMonth d.year d.month + d.day - 1

/-- A date is within its year. -/
theorem epochDay_bounds (d : Date) :
    daysBeforeYear d.year - daysBeforeYear 1970 ≤ d.epochDay ∧
      d.epochDay < daysBeforeYear (d.year + 1) - daysBeforeYear 1970 := by
  have hmonth : daysBeforeMonth d.year (d.month + 1) ≤ daysBeforeMonth d.year 13 :=
    daysBeforeMonth_mono d.year (Nat.le_add_left 1 d.month) (Nat.add_le_add_right d.month_le 1)
  have hlength := daysBeforeMonth_end d.year
  rw [daysBeforeMonth_succ d.year d.one_le_month] at hmonth
  rw [daysBeforeYear_succ, epochDay, ← hlength]
  have := d.one_le_day
  have := d.day_le
  omega

theorem epochDay_next (d : Date) : d.next.epochDay = d.epochDay + 1 := by
  have hday := d.day_le
  have hmonth := d.month_le
  unfold next epochDay
  split_ifs with h1 h2
  · simp only
    omega
  · simp only [daysBeforeMonth_succ d.year d.one_le_month]
    omega
  · have hlength := daysBeforeMonth_end d.year
    have htwelve : d.month = 12 := by omega
    rw [htwelve] at hday h1 ⊢
    rw [daysBeforeMonth_succ d.year (by decide)] at hlength
    simp only [daysBeforeYear_succ, ← hlength]
    have hone : daysBeforeMonth (d.year + 1) 1 = 0 := rfl
    omega

/-- Year, then month, then day. -/
def Before (d e : Date) : Prop :=
  d.year < e.year ∨ (d.year = e.year ∧ (d.month < e.month ∨ (d.month = e.month ∧ d.day < e.day)))

theorem before_trichotomy (d e : Date) : d.Before e ∨ d = e ∨ e.Before d := by
  by_cases hy : d.year = e.year
  · by_cases hm : d.month = e.month
    · by_cases hd : d.day = e.day
      · exact .inr (.inl (Date.ext hy hm hd))
      · unfold Before
        omega
    · unfold Before
      omega
  · unfold Before
    omega

/-- The numbers rise with the dates. -/
theorem epochDay_lt_of_before {d e : Date} (h : d.Before e) : d.epochDay < e.epochDay := by
  rcases h with hy | ⟨hy, hm | ⟨hm, hd⟩⟩
  · have hd := (epochDay_bounds d).2
    have he := (epochDay_bounds e).1
    have hmono := daysBeforeYear_mono (show d.year + 1 ≤ e.year from hy)
    omega
  · have hmono := daysBeforeMonth_mono d.year (Nat.le_add_left 1 d.month) hm
    rw [daysBeforeMonth_succ d.year d.one_le_month] at hmono
    have := d.day_le
    have := e.one_le_day
    rw [epochDay, epochDay, ← hy]
    omega
  · rw [epochDay, epochDay, ← hy, ← hm]
    omega

theorem before_of_epochDay_lt {d e : Date} (h : d.epochDay < e.epochDay) : d.Before e := by
  rcases before_trichotomy d e with hbefore | rfl | hbefore
  · exact hbefore
  · exact absurd h (lt_irrefl _)
  · exact absurd (epochDay_lt_of_before hbefore) (lt_asymm h)

theorem epochDay_injective : Function.Injective epochDay := by
  intro d e h
  rcases before_trichotomy d e with hbefore | heq | hbefore
  · exact absurd h (epochDay_lt_of_before hbefore).ne
  · exact heq
  · exact absurd h (epochDay_lt_of_before hbefore).ne'

end Date

/-! ### Instants -/

/-- A second of a day of the calendar. -/
@[ext] structure Instant where
  date : Date
  hour : ℕ
  minute : ℕ
  second : ℕ
  hour_lt : hour < 24
  minute_lt : minute < 60
  second_lt : second < 60
deriving DecidableEq

namespace Instant

/-- The seconds from the first of January 1970. -/
def unixSeconds (i : Instant) : ℤ :=
  86400 * i.date.epochDay + 3600 * i.hour + 60 * i.minute + i.second

/-- The same time of the day after. -/
def nextDay (i : Instant) : Instant := { i with date := i.date.next }

theorem unixSeconds_nextDay (i : Instant) : i.nextDay.unixSeconds = i.unixSeconds + 86400 := by
  unfold unixSeconds nextDay
  simp only [Date.epochDay_next]
  omega

/-- Date, then hour, then minute, then second. -/
def Before (i j : Instant) : Prop :=
  i.date.Before j.date ∨ (i.date = j.date ∧ (i.hour < j.hour ∨ (i.hour = j.hour ∧
    (i.minute < j.minute ∨ (i.minute = j.minute ∧ i.second < j.second)))))

theorem before_of_unixSeconds_lt {i j : Instant} (h : i.unixSeconds < j.unixSeconds) :
    i.Before j := by
  have hi := i.hour_lt
  have hm := i.minute_lt
  have hs := i.second_lt
  have hj := j.hour_lt
  have hjm := j.minute_lt
  have hjs := j.second_lt
  unfold unixSeconds at h
  rcases lt_trichotomy i.date.epochDay j.date.epochDay with hday | hday | hday
  · exact .inl (Date.before_of_epochDay_lt hday)
  · refine .inr ⟨Date.epochDay_injective hday, ?_⟩
    omega
  · omega

theorem unixSeconds_injective : Function.Injective unixSeconds := by
  intro i j h
  have hi := i.hour_lt
  have hm := i.minute_lt
  have hs := i.second_lt
  have hj := j.hour_lt
  have hjm := j.minute_lt
  have hjs := j.second_lt
  unfold unixSeconds at h
  have hday : i.date.epochDay = j.date.epochDay := by omega
  exact Instant.ext (Date.epochDay_injective hday) (by omega) (by omega) (by omega)

end Instant

/-! ### Weekdays -/

inductive Weekday where
  | monday | tuesday | wednesday | thursday | friday | saturday | sunday
deriving DecidableEq

def Weekday.next : Weekday → Weekday
  | monday => tuesday
  | tuesday => wednesday
  | wednesday => thursday
  | thursday => friday
  | friday => saturday
  | saturday => sunday
  | sunday => monday

/-- The weekday so many days after a Thursday. -/
def weekdayAfter (n : ℕ) : Weekday := Weekday.next^[n] .thursday

theorem next_period (w : Weekday) : Weekday.next^[7] w = w := by
  cases w <;> rfl

theorem weekdayAfter_mod (n : ℕ) : weekdayAfter n = weekdayAfter (n % 7) := by
  conv_lhs => rw [← Nat.mod_add_div n 7]
  rw [weekdayAfter, Function.iterate_add_apply, Function.iterate_mul]
  exact congrArg _ (Function.iterate_fixed (next_period _) _)

end Boot2Deb.Gregorian
