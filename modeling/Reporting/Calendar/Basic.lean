/-!
The Gregorian calendar, extended to all years: month lengths, dates as day numbers, weekdays and
weeks.
-/
namespace Reporting.Calendar

def isLeapYear (year : Int) : Bool :=
  (year % 4 == 0 && year % 100 != 0) || year % 400 == 0

/-- The lengths of the months of a year. -/
def monthLengths (leap : Bool) : List Int :=
  [31, if leap then 29 else 28, 31, 30, 31, 30, 31, 31, 30, 31, 30, 31]

/-- The days of a month; months outside a year are counted on around it. -/
def daysInMonth (year month : Int) : Int :=
  ((monthLengths (isLeapYear year))[((month - 1) % 12).toNat]?).getD 0

/-- The days from the first day of year 1 to the first day of a year. -/
def daysBeforeYear (year : Int) : Int :=
  let y := year - 1
  365 * y + y / 4 - y / 100 + y / 400

/-- The days of a year before a month. -/
def daysBeforeMonth (leap : Bool) (month : Int) : Int :=
  ((monthLengths leap).take (month - 1).toNat).foldr (· + ·) 0

/-- The first and last years in which dates exist. -/
def firstYear : Int := -262143

def lastYear : Int := 262142

end Calendar

/-- A day of the calendar. -/
structure Date where
  year : Int
  month : Int
  day : Int
  deriving DecidableEq, Repr

namespace Date
open Calendar

/-- The date with the given parts, if there is such a day. -/
def ofParts? (year month day : Int) : Option Date :=
  if firstYear ≤ year ∧ year ≤ lastYear ∧ 1 ≤ month ∧ month ≤ 12 ∧
      1 ≤ day ∧ day ≤ daysInMonth year month then
    some ⟨year, month, day⟩
  else none

/-- The day of the year, from 0. -/
def ordinal (d : Date) : Int := daysBeforeMonth (isLeapYear d.year) d.month + (d.day - 1)

/-- The days from the first day of year 1. -/
def number (d : Date) : Int := daysBeforeYear d.year + d.ordinal

/-- The year that a day number falls into. -/
def yearOfNumber (n : Int) : Int :=
  let y := n * 400 / 146097 + 1
  if n < daysBeforeYear y then y - 1
  else if daysBeforeYear (y + 1) ≤ n then y + 1
  else y

/-- Counts a day of the year through the months, the first of which has number `month`. -/
def inMonths (month : Int) : List Int → Int → Int × Int
  | [], k => (month, k + 1)
  | length :: lengths, k =>
    if k < length then (month, k + 1) else inMonths (month + 1) lengths (k - length)

/-- The date of a day number, if it is within the calendar. -/
def ofNumber? (n : Int) : Option Date :=
  let year := yearOfNumber n
  let (month, day) := inMonths 1 (monthLengths (isLeapYear year)) (n - daysBeforeYear year)
  if firstYear ≤ year ∧ year ≤ lastYear then some ⟨year, month, day⟩ else none

/-- Moves a date by days. -/
def addDays? (d : Date) (days : Int) : Option Date := ofNumber? (d.number + days)

/-- The weekday, from 0 for Monday. -/
def weekday (d : Date) : Int := d.number % 7

/-- The weekday, from 0 for Sunday. -/
def weekdayFromSunday (d : Date) : Int := (d.weekday + 1) % 7

/-- The week of the year when weeks start on the weekday that has number 0; the days before the
first such day are in week 0. -/
def week (d : Date) (weekday : Int) : Int := (d.ordinal + 7 - weekday) / 7

/-- The weeks that a year has by the day its first day falls on. -/
def isoWeeks (year : Int) : Int :=
  let first := daysBeforeYear year % 7
  if first = 3 ∨ (first = 2 ∧ isLeapYear year) then 53 else 52

/-- The year and week of ISO 8601: weeks start on Monday, and the first one holds January 4. -/
def isoWeek (d : Date) : Int × Int :=
  let w := (d.ordinal - d.weekday + 10) / 7
  if w < 1 then (d.year - 1, isoWeeks (d.year - 1))
  else if isoWeeks d.year < w then (d.year + 1, 1)
  else (d.year, w)

end Date
end Reporting
