import Reporting.Calendar.Basic
import Reporting.Decimal.Digits
/-!
Dates, times of day, both together, and intervals, in one type of value.
-/
namespace Reporting

/-- Whether a written date may also be read with the month first. -/
inductive DateOrder
  | dayFirst
  | monthFirst
  deriving DecidableEq, Repr

/-- A date, a time of day, both, or an interval. Intervals count their fields freely. Adding months
to a date may cut its day at the end of the month; `carry` remembers up to three days that were cut,
so that a further addition of months can give them back. -/
structure Temporal where
  year : Int := 0
  month : Int := 0
  day : Int := 0
  hour : Int := 0
  minute : Int := 0
  second : Int := 0
  hasDate : Bool := false
  hasTime : Bool := false
  interval : Bool := false
  carry : Nat := 0
  deriving DecidableEq, Repr, Inhabited

namespace Temporal

def ofDate (year month day : Int) : Temporal := { year, month, day, hasDate := true }

def ofTime (hour minute second : Int) : Temporal := { hour, minute, second, hasTime := true }

def ofDateTime (year month day hour minute second : Int) : Temporal :=
  { year, month, day, hour, minute, second, hasDate := true, hasTime := true }

def ofInterval (year month day hour minute second : Int) : Temporal :=
  { year, month, day, hour, minute, second, interval := true }

/-- The day of the calendar, if there is one. -/
def date? (t : Temporal) : Option Date :=
  if t.hasDate then Date.ofParts? t.year t.month t.day else none

/-- Whether the time fields are a time of day. -/
def isClock (hour minute second : Int) : Bool :=
  0 ≤ hour && hour < 24 && 0 ≤ minute && minute < 60 && 0 ≤ second && second < 60

/-- The fields of the time of day, if they are one. -/
def time? (t : Temporal) : Option (Int × Int × Int) :=
  if isClock t.hour t.minute t.second then some (t.hour, t.minute, t.second) else none

/-- The time of day in seconds. -/
def secondsOfDay (t : Temporal) : Int := t.hour * 3600 + t.minute * 60 + t.second

/-- The fields of 32 binary digits with a sign wrap around. -/
def wrap (n : Int) : Int := Int.bmod n 0x100000000

/-- Replaces the time of day. -/
def withSeconds (t : Temporal) (seconds : Int) : Temporal :=
  { t with
    hour := wrap (seconds.tdiv 3600)
    minute := (seconds.tmod 3600).tdiv 60
    second := seconds.tmod 60
    hasTime := true }

/-- The date without a time. -/
def dateOnly (t : Temporal) : Temporal :=
  { t with hour := 0, minute := 0, second := 0, hasTime := false }

/-- The time without a date. -/
def timeOnly (t : Temporal) : Temporal :=
  { t with year := 0, month := 0, day := 0, hasDate := false, carry := 0 }

/-- The order by the fields, the year first. -/
def compare (s t : Temporal) : Ordering :=
  (Ord.compare s.year t.year).then <|
  (Ord.compare s.month t.month).then <|
  (Ord.compare s.day t.day).then <|
  (Ord.compare s.hour t.hour).then <|
  (Ord.compare s.minute t.minute).then <|
  Ord.compare s.second t.second

/-- The order by the date alone. -/
def compareDates (s t : Temporal) : Ordering :=
  (Ord.compare s.year t.year).then <|
  (Ord.compare s.month t.month).then <|
  Ord.compare s.day t.day

/-- The order by the time of day alone. -/
def compareTimes (s t : Temporal) : Ordering :=
  (Ord.compare s.hour t.hour).then <|
  (Ord.compare s.minute t.minute).then <|
  Ord.compare s.second t.second

end Temporal
end Reporting
