import Reporting.Temporal.Basic
/-!
Moving dates and times by numbers and intervals. Every operation is refused when a field leaves its
range or a date leaves the calendar.
-/
namespace Reporting.Temporal
open Calendar

/-- A field of 32 binary digits with a sign. -/
def checked (n : Int) : Option Int :=
  if -0x80000000 ≤ n ∧ n < 0x80000000 then some n else none

/-- Carries seconds into minutes, minutes into hours and hours into days. -/
def carryTime (t : Temporal) : Option Temporal := do
  let minute ← checked (t.minute + t.second / 60)
  let hour ← checked (t.hour + minute / 60)
  let day ← checked (t.day + hour / 24)
  return { t with day, hour := hour % 24, minute := minute % 60, second := t.second % 60 }

/-- Carries months into years; the months of an interval count from 0. -/
def carryMonths (t : Temporal) : Option Temporal := do
  if t.interval then
    let year ← checked (t.year + t.month / 12)
    return { t with year, month := t.month % 12 }
  else
    let month ← checked (t.month - 1)
    let year ← checked (t.year + month / 12)
    return { t with year, month := month % 12 + 1 }

/-- Moves a day outside its month into the month it falls in. -/
def rollDay (t : Temporal) : Option Temporal := do
  if 1 ≤ t.day ∧ t.day ≤ daysInMonth t.year t.month then return t
  else
    let first ← Date.ofParts? t.year t.month 1
    let d ← first.addDays? (t.day - 1)
    return { t with year := d.year, month := d.month, day := d.day }

/-- Cuts a day behind the end of its month and keeps what was cut as carry. -/
def cutDay (t : Temporal) : Temporal :=
  let days := daysInMonth t.year t.month
  if days < t.day then { t with day := days, carry := min (t.day - days).toNat 3 }
  else { t with carry := 0 }

/-- Brings month and day into their ranges; a day behind the end of the month rolls over. -/
def normalize (t : Temporal) : Option Temporal := do
  let t ← t.carryMonths
  if t.interval then return t else t.rollDay

/-- Brings month and day into their ranges; a day behind the end of the month is cut. -/
def normalizeCut (t : Temporal) : Option Temporal := do
  let t ← t.carryMonths
  if t.interval then return t else t.cutDay.rollDay

/-- Adds seconds to a full date with time. -/
def addSeconds (t : Temporal) (seconds : Int) : Option Temporal := do
  let date ← t.date?
  let _ ← t.time?
  let total := t.secondsOfDay + seconds
  let d ← date.addDays? (total / 86400)
  let rest := total % 86400
  return { ofDateTime d.year d.month d.day (rest / 3600) (rest % 3600 / 60) (rest % 60) with
    carry := t.carry }

/-- Adds a number: days to a date, and seconds to everything else. Times of day go around the
clock. -/
def addNumber (t : Temporal) (n : Int) : Option Temporal := do
  if t.interval then
    let t ← { t with second := ← checked (t.second + n) }.carryTime
    t.normalize
  else if t.hasDate then
    if t.hasTime then t.addSeconds n
    else
      let day ← checked (t.day + n)
      { t with day }.normalize
  else if t.hasTime then
    let t := t.withSeconds ((t.secondsOfDay + n % 86400) % 86400)
    return { t with year := 0, month := 0, day := 0 }
  else none

/-- Adds the fields of an interval to those of another. -/
def addFields (t i : Temporal) : Option Temporal := do
  let year ← checked (t.year + i.year)
  let month ← checked (t.month + i.month)
  let day ← checked (t.day + i.day)
  let hour ← checked (t.hour + i.hour)
  let minute ← checked (t.minute + i.minute)
  let second ← checked (t.second + i.second)
  return { t with year, month, day, hour, minute, second }

/-- Adds the time of an interval, and tells by how many days the time went around the clock. -/
def addClock (t i : Temporal) : Option (Temporal × Int) := do
  let hour ← checked (t.hour + i.hour)
  let minute ← checked (t.minute + i.minute)
  let second ← checked (t.second + i.second)
  let moved ← { t with hour, minute, second }.carryTime
  let days ← checked (moved.day - t.day)
  return ({ moved with day := t.day }, days)

/-- Adds years and months, with the pending carry given back to the day, and then days. -/
def addCalendar (t : Temporal) (years months days : Int) : Option Temporal := do
  let year ← checked (t.year + years)
  let month ← checked (t.month + months)
  let t ← { t with year, month, day := wrap (t.day + t.carry) }.normalizeCut
  if days = 0 then return t
  else
    let day ← checked (t.day + days)
    { t with day, carry := 0 }.normalize

/-- Adds an interval: to an interval field by field, and otherwise first the time, then years and
months, and then days. A part that the value does not have is added when the interval has it. -/
def addInterval (t i : Temporal) : Option Temporal := do
  if t.interval then
    let t ← t.addFields i
    let t ← t.carryTime
    let t ← t.normalize
    return { t with carry := 0 }
  else
    let hasDate := t.hasDate || i.year != 0 || i.month != 0 || i.day != 0
    let hasTime := t.hasTime || i.hour != 0 || i.minute != 0 || i.second != 0
    let t := { t with hasDate, hasTime }
    let (t, around) ← if hasTime then t.addClock i else some (t, 0)
    let days ← checked (i.day + around)
    if hasDate then t.addCalendar i.year i.month days else return t

/-- The interval that goes the other way. -/
def negated (t : Temporal) : Option Temporal := do
  let year ← checked (-t.year)
  let month ← checked (-t.month)
  let day ← checked (-t.day)
  let hour ← checked (-t.hour)
  let minute ← checked (-t.minute)
  let second ← checked (-t.second)
  return { t with year, month, day, hour, minute, second }

/-- Takes an interval away from a value, or gives the interval between two dates or times. -/
def sub (s t : Temporal) : Option Temporal := do
  if t.interval then s.addInterval (← t.negated)
  else if s.interval then none
  else
    let year ← checked (s.year - t.year)
    let month ← checked (s.month - t.month)
    let day ← checked (s.day - t.day)
    let hour ← checked (s.hour - t.hour)
    let minute ← checked (s.minute - t.minute)
    let second ← checked (s.second - t.second)
    let d ← (ofInterval year month day hour minute second).carryTime
    d.normalize

end Reporting.Temporal
