/-
This file is about the calendar, for days before and after the first of January 1970,
from which they are counted.

Years are taken to begin in March, so that the leap day is the last of a year. A day
has a year, a month and a place in it; a month is the days from its first to the first
of the month after it, and what is counted from a date comes back to the date.
-/

import Mathlib.Tactic.IntervalCases
import Mathlib.Tactic.Linarith

namespace Systems.Calendars

/-! ### From a day to its date -/

/-- The first day of a year that begins in March, counted from the first of March of the year
nought. -/
def marchStart (year : Int) : Int := 365 * year + year / 4 - year / 100 + year / 400

/-- The days between the first of March of the year nought and the first of January 1970. -/
def EPOCH : Int := 719468

/-- The year of a day among the 400 years that days repeat after. -/
def yearOfEra (ofEra : Int) : Int :=
  (ofEra - ofEra / 1460 + ofEra / 36524 - ofEra / 146096) / 365

/-- The year that began in March before a day. -/
def marchYear (day : Int) : Int :=
  yearOfEra ((day + EPOCH) % 146097) + (day + EPOCH) / 146097 * 400

/-- How many days before a day its year began. -/
def dayOfYear (day : Int) : Int := day + EPOCH - marchStart (marchYear day)

/-- The month of a day; March is the first. -/
def marchMonth (day : Int) : Int := (5 * dayOfYear day + 2) / 153

/-- The days of a year before one of its months. -/
def monthStart (month : Int) : Int := (153 * month + 2) / 5

/-- The month of a day, from 0 on, January first. -/
def monthOf (day : Int) : Int := (marchMonth day + 2) % 12

def yearOf (day : Int) : Int := marchYear day + if marchMonth day < 10 then 0 else 1

/-- The place of a day in its month, from 1 on. -/
def dayOfMonth (day : Int) : Int := dayOfYear day - monthStart (marchMonth day) + 1

/-- The day of the week, from 0 on, Sunday first. -/
def weekday (day : Int) : Int := (day + 4) % 7

/-! ### From a date to its day -/

/-- The day of a date, whose month may be any number, January being 0: what is past a year counts
in the years after. -/
def makeDay (year month date : Int) : Int :=
  let whole := year + month / 12
  let within := month % 12
  let start := if within < 2 then marchStart (whole - 1) + monthStart (within + 10)
    else marchStart whole + monthStart (within - 2)
  start - EPOCH + date - 1

example : makeDay 1970 0 1 = 0 ∧ makeDay 2024 1 29 = 19782 ∧ makeDay 1969 12 31 = 30 := by decide

/-! ### Years and months -/

theorem yearOfEra_within {ofEra century : Int} (least : 36524 * century ≤ ofEra)
    (most : ofEra < 36524 * (century + 1)) (first : 0 ≤ century) (last : century ≤ 3) :
    yearOfEra ofEra / 100 = century ∧
      (ofEra / 1460 = yearOfEra ofEra / 4 ∨ ofEra / 1460 = yearOfEra ofEra / 4 + 1) := by
  have same : yearOfEra ofEra = (ofEra - ofEra / 1460 + century) / 365 := by
    unfold yearOfEra
    congr 1
    omega
  rw [same]
  interval_cases century <;> omega

/-- A day of an era is in its year. -/
theorem yearOfEra_spec {ofEra : Int} (first : 0 ≤ ofEra) (last : ofEra < 146097) :
    0 ≤ yearOfEra ofEra ∧ yearOfEra ofEra < 400 ∧ marchStart (yearOfEra ofEra) ≤ ofEra ∧
      ofEra < marchStart (yearOfEra ofEra + 1) := by
  by_cases end_ : ofEra = 146096
  · subst end_
    decide
  obtain ⟨century, least, most, low, high⟩ : ∃ century, 36524 * century ≤ ofEra ∧
      ofEra < 36524 * (century + 1) ∧ 0 ≤ century ∧ century ≤ 3 :=
    ⟨ofEra / 36524, by omega, by omega, by omega, by omega⟩
  obtain ⟨ofCentury, fours⟩ := yearOfEra_within least most low high
  have same : yearOfEra ofEra = (ofEra - ofEra / 1460 + century) / 365 := by
    unfold yearOfEra
    congr 1
    omega
  unfold marchStart
  generalize yearOfEra ofEra = year at *
  -- whether the year after is in the same four years, and in the same century
  have nextFour : (year + 1) / 4 = year / 4 ∧ year - 4 * (year / 4) ≤ 2 ∨
      (year + 1) / 4 = year / 4 + 1 ∧ year = 4 * (year / 4) + 3 := by omega
  have nextCentury : (year + 1) / 100 = century ∧ (year + 1) / 400 = 0 ∨
      (year + 1) / 100 = century + 1 ∧ year = 100 * century + 99 ∧
        (year + 1) / 400 = (century + 1) / 4 := by omega
  refine ⟨by omega, by omega, ?_, ?_⟩
  · interval_cases century <;> rcases fours with four | four <;> omega
  · interval_cases century <;> rcases fours with four | four <;>
      rcases nextFour with next | next <;> rcases nextCentury with turn | turn <;> omega

theorem marchStart_era (year era : Int) :
    marchStart (year + era * 400) = marchStart year + 146097 * era := by
  unfold marchStart
  omega

/-- A day is in its year. -/
theorem marchYear_spec (day : Int) :
    marchStart (marchYear day) ≤ day + EPOCH ∧ day + EPOCH < marchStart (marchYear day + 1) := by
  obtain ⟨-, -, least, most⟩ := yearOfEra_spec
    (Int.emod_nonneg (day + EPOCH) (by decide)) (Int.emod_lt_of_pos (day + EPOCH) (by decide))
  unfold marchYear
  rw [Int.add_right_comm, marchStart_era, marchStart_era]
  omega

theorem marchStart_mono {year later : Int} (after : year < later) :
    marchStart (year + 1) ≤ marchStart later := by
  unfold marchStart
  omega

/-- A year has eleven months and the shortest one at least. -/
theorem marchStart_succ (year : Int) :
    marchStart year + monthStart 11 + 28 ≤ marchStart (year + 1) := by
  unfold marchStart monthStart
  omega

/-- A day has no other year than the one it is in. -/
theorem marchYear_eq {day year : Int} (least : marchStart year ≤ day + EPOCH)
    (most : day + EPOCH < marchStart (year + 1)) : marchYear day = year := by
  obtain ⟨low, high⟩ := marchYear_spec day
  rcases Int.lt_trichotomy (marchYear day) year with before | same | after
  · have := marchStart_mono before
    omega
  · exact same
  · have := marchStart_mono after
    omega

theorem dayOfYear_within (day : Int) : 0 ≤ dayOfYear day ∧ dayOfYear day ≤ 365 := by
  have within := marchYear_spec day
  have long : marchStart (marchYear day + 1) ≤ marchStart (marchYear day) + 366 := by
    unfold marchStart
    omega
  unfold dayOfYear
  omega

/-- A day is in its month. -/
theorem marchMonth_spec (day : Int) : 0 ≤ marchMonth day ∧ marchMonth day ≤ 11 ∧
    monthStart (marchMonth day) ≤ dayOfYear day ∧
      dayOfYear day < monthStart (marchMonth day + 1) := by
  have within := dayOfYear_within day
  unfold monthStart marchMonth
  omega

/-- A day of a year has no other month than the one it is in. -/
theorem marchMonth_eq {day month : Int}
    (least : monthStart month ≤ dayOfYear day) (most : dayOfYear day < monthStart (month + 1)) :
    marchMonth day = month := by
  unfold monthStart at least most
  unfold marchMonth
  omega

/-- The first day of the month after a day's, counted as days of years that begin in March. -/
theorem makeDay_next (day : Int) :
    makeDay (yearOf day) (monthOf day + 1) 1 =
      (if marchMonth day < 11 then marchStart (marchYear day) + monthStart (marchMonth day + 1)
        else marchStart (marchYear day + 1)) - EPOCH := by
  obtain ⟨first, last, -, -⟩ := marchMonth_spec day
  unfold makeDay yearOf monthOf
  generalize marchYear day = year
  generalize marchMonth day = month at *
  interval_cases month <;> simp [monthStart]

/-- The month after a day's begins after the day. -/
theorem lt_makeDay_next (day : Int) : day < makeDay (yearOf day) (monthOf day + 1) 1 := by
  obtain ⟨_, most⟩ := marchYear_spec day
  obtain ⟨_, _, _, ofMonth⟩ := marchMonth_spec day
  rw [makeDay_next]
  unfold dayOfYear at ofMonth
  split <;> omega

/-- Every day from a day on to the month after it is in the same month. -/
theorem monthOf_eq {day other : Int} (after : day ≤ other)
    (before : other < makeDay (yearOf day) (monthOf day + 1) 1) : monthOf other = monthOf day := by
  obtain ⟨least, most⟩ := marchYear_spec day
  obtain ⟨first, last, ofMonth, toMonth⟩ := marchMonth_spec day
  rw [makeDay_next] at before
  have turn := marchStart_succ (marchYear day)
  have months : marchMonth day < 11 → monthStart (marchMonth day + 1) ≤ monthStart 11 := by
    intro
    unfold monthStart
    omega
  have year : marchYear other = marchYear day := by
    refine marchYear_eq (by omega) ?_
    split at before
    · next inside =>
      have := months inside
      omega
    · omega
  have place : dayOfYear other = other + EPOCH - marchStart (marchYear day) := by
    unfold dayOfYear
    rw [year]
  have month : marchMonth other = marchMonth day := by
    refine marchMonth_eq ?_ ?_
    · unfold dayOfYear at ofMonth
      omega
    · split at before
      · omega
      · have within := dayOfYear_within other
        have whole : marchMonth day = 11 := by omega
        rw [whole]
        unfold monthStart
        omega
  unfold monthOf
  rw [month]

/-- A date in the month of a day, which is in the same place before or after the day. -/
theorem makeDay_same (day date : Int) :
    makeDay (yearOf day) (monthOf day) date = day + date - dayOfMonth day := by
  obtain ⟨first, last, -, -⟩ := marchMonth_spec day
  have start : makeDay (yearOf day) (monthOf day) date =
      marchStart (marchYear day) + monthStart (marchMonth day) - EPOCH + date - 1 := by
    unfold makeDay yearOf monthOf
    generalize marchYear day = year
    generalize marchMonth day = month at *
    interval_cases month <;> simp [monthStart]
  rw [start]
  unfold dayOfMonth dayOfYear
  omega

/-- The month after a day's begins on the first. -/
theorem dayOfMonth_next (day : Int) :
    dayOfMonth (makeDay (yearOf day) (monthOf day + 1) 1) = 1 := by
  obtain ⟨first, last, -, -⟩ := marchMonth_spec day
  have long := marchStart_succ (marchYear day)
  have place (year month : Int) (least : 0 ≤ month) (most : month ≤ 11) :
      dayOfMonth (marchStart year + monthStart month - EPOCH) = 1 := by
    have longer := marchStart_succ year
    have within : 0 ≤ monthStart month ∧ monthStart month ≤ monthStart 11 := by
      unfold monthStart
      omega
    have inYear : marchYear (marchStart year + monthStart month - EPOCH) = year :=
      marchYear_eq (by omega) (by omega)
    have ofYear : dayOfYear (marchStart year + monthStart month - EPOCH) = monthStart month := by
      unfold dayOfYear
      rw [inYear]
      omega
    have inMonth : marchMonth (marchStart year + monthStart month - EPOCH) = month := by
      refine marchMonth_eq (by rw [ofYear]) ?_
      rw [ofYear]
      unfold monthStart
      omega
    unfold dayOfMonth
    rw [ofYear, inMonth]
    omega
  rw [makeDay_next]
  split
  · next inside => exact place _ _ (by omega) (by omega)
  · have start : monthStart 0 = 0 := rfl
    have here := place (marchYear day + 1) 0 (le_refl _) (by decide)
    rwa [start, Int.add_zero] at here

end Systems.Calendars
