/-!
# The Gregorian calendar

Days counted from 1970-01-01 as dates, before and after. The year is taken to begin in March, so
that the day that a leap year adds is its last; 400 years have 146097 days.
-/

namespace Roster

/-- A day of the calendar. -/
structure Date where
  year : Int
  month : Nat
  day : Nat
  deriving DecidableEq, Repr

/-- The days in 400 years, after which the calendar repeats itself. -/
def daysPerEra : Nat := 146097

/-- The day so many days after the first of January 1970. -/
def Date.ofDays (days : Int) : Date :=
  -- 719468 days lie between 0000-03-01 and 1970-01-01
  let shifted := days + 719468
  let era := shifted.fdiv daysPerEra
  let dayOfEra := (shifted.fmod daysPerEra).toNat
  let yearOfEra := (dayOfEra - dayOfEra / 1460 + dayOfEra / 36524 - dayOfEra / 146096) / 365
  let dayOfYear := dayOfEra - (365 * yearOfEra + yearOfEra / 4 - yearOfEra / 100)
  let monthFromMarch := (5 * dayOfYear + 2) / 153
  let month := if monthFromMarch < 10 then monthFromMarch + 3 else monthFromMarch - 9
  { year := era * 400 + yearOfEra + (if month ≤ 2 then 1 else 0)
    month
    day := dayOfYear - (153 * monthFromMarch + 2) / 5 + 1 }

end Roster
