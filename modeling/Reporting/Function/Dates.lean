import Reporting.Function.Operands
import Reporting.Function.Formatting
import Reporting.Temporal.Reader
/-!
Functions of dates, times and intervals.
-/
namespace Reporting.Dates
open Operands

/-- The date or time of an operand, null or not. -/
def operand (v : Value) : Except Value Temporal := orInvalid v.temporal?

/-- The date or time of an operand that is no interval. -/
def calendarOperand (v : Value) : Except Value Temporal := do
  let t ← operand v
  if t.interval then invalid else return t

/-- What one operand gives once errors have gone on. -/
def withOne (args : List Value) (f : Value → Outcome) : Outcome := do
  surfaceErrors args
  match args with
  | v :: _ => f v
  | [] => invalid

/-- What two operands give once errors have gone on. -/
def withTwo (args : List Value) (f : Value → Value → Outcome) : Outcome := do
  surfaceErrors args
  match args with
  | v :: w :: _ => f v w
  | _ => invalid

/-- Reads a text as a date, a time or an interval; dates and times stay. -/
def ofText (args : List Value) (order : DateOrder) : Outcome :=
  withOne args fun v =>
    match v.payload with
    | .datetime _ => if v.isNull then throw (.null .datetime) else return v
    | .text s =>
      if v.isNull then throw (.null .datetime)
      else return .datetime (← orInvalid (Temporal.parse? s order))
    | _ => invalid

/-- The date in the format of the locale. -/
def toText (args : List Value) (order : DateOrder) : Outcome :=
  withOne args fun v => do
    let t ← calendarOperand v
    if v.isNull || !t.hasDate then throw (.null .text)
    else return .text (String.ofList (← orInvalid (t.format? order.pattern)))

/-- A field of the date, or the raw field of an interval. -/
def datePart (args : List Value) (f : Temporal → Int) : Outcome :=
  withOne args fun v => do
    let t ← operand v
    if v.isNull || (!t.interval && !t.hasDate) then throw (.null .number)
    else return .ofInt (f t)

/-- The days of the month of a date. -/
def daysInMonth (args : List Value) : Outcome :=
  withOne args fun v => do
    let t ← calendarOperand v
    if v.isNull || !t.hasDate then throw (.null .number)
    else return .ofInt (Calendar.daysInMonth t.year t.month)

/-- The day of an operand that is not null. -/
def day (v : Value) : Except Value Date := do
  let t ← calendarOperand v
  if v.isNull || !t.hasDate then throw (.null .number) else orInvalid t.date?

/-- The week of a day. -/
def weekOf (args : List Value) (week : Date → Int) : Outcome :=
  withOne args fun v => do return .ofInt (week (← day v))

/-- The week of the year when weeks start on Sunday. -/
def sundayWeek (d : Date) : Int := d.week d.weekdayFromSunday

/-- The week of the year when weeks start on Monday. -/
def mondayWeek (d : Date) : Int := d.week d.weekday

/-- The week of the year when weeks start a number of days after Sunday, counted on the day that
lies so many days before; where that day is in the year before, the week is 0. -/
def shiftedWeek? (d : Date) (offset : Int) : Option Int := do
  let shifted ← d.addDays? (-offset)
  return if sundayWeek d < sundayWeek shifted then 0 else sundayWeek shifted

def weekWithOffset (args : List Value) (p : Precision) : Outcome :=
  withTwo args fun v offset => do
    let _ ← calendarOperand v
    requireKind [offset] .number
    nullIfAny [v, offset] .number
    let d ← day v
    let offset ← integer offset p
    return .ofInt (← orInvalid (shiftedWeek? d (offset % 7)))

/-- The date part; an interval keeps its fields of the date. -/
def dateOf (args : List Value) : Outcome :=
  withOne args fun v => do
    let t ← operand v
    if v.isNull || (!t.interval && !t.hasDate) then throw (.null .datetime)
    else return .datetime t.dateOnly

/-- The time part; an interval keeps its fields of the time. -/
def timeOf (args : List Value) : Outcome :=
  withOne args fun v => do
    let t ← operand v
    if v.isNull || (!t.interval && !t.hasTime) then throw (.null .datetime)
    else return .datetime t.timeOnly

/-- A value with a part of another one. -/
def replacePart (args : List Value) (f : Temporal → Temporal → Temporal) : Outcome :=
  withTwo args fun v w => do
    let target ← calendarOperand v
    let donor ← calendarOperand w
    nullIfAny [v, w] .datetime
    let t := f target donor
    if !t.hasDate && !t.hasTime then throw (.null .datetime) else return .datetime t

/-- The first value with the date of the second. -/
def withDateOf (t donor : Temporal) : Temporal :=
  { t with year := donor.year, month := donor.month, day := donor.day,
           hasDate := donor.hasDate, carry := 0 }

/-- The first value with the time of the second. -/
def withTimeOf (t donor : Temporal) : Temporal :=
  { t with hour := donor.hour, minute := donor.minute, second := donor.second,
           hasTime := donor.hasTime }

/-- The time of day in seconds. -/
def secondsOf (args : List Value) : Outcome :=
  withOne args fun v => do
    let t ← calendarOperand v
    if v.isNull || !t.hasTime then throw (.null .number) else return .ofInt t.secondsOfDay

/-- A value with its time replaced by the seconds of a day. -/
def withSeconds (args : List Value) (p : Precision) : Outcome :=
  withTwo args fun v seconds => do
    let t ← calendarOperand v
    requireKind [seconds] .number
    nullIfAny [v, seconds] .datetime
    let s ← integer seconds p
    if 0 ≤ s ∧ s < 86400 then return .datetime (t.withSeconds s) else invalid

/-- A number operand as a field of an interval. -/
def field (p : Precision) (v : Value) : Except Value Int := do
  orInvalid (Temporal.checked (← integer v p))

/-- An interval from a text, or from its six fields. -/
def interval (args : List Value) (p : Precision) : Outcome := do
  if args.length ≠ 1 ∧ args.length ≠ 6 then invalid
  else do
    check args (if args.length = 6 then .number else .text) .datetime
    match args with
    | [s] => return .datetime (← orInvalid ((s.text?.bind fun s => Temporal.interval? s.toList)))
    | args =>
      match ← args.mapM (field p) with
      | [y, mo, d, h, mi, s] => return .datetime (.ofInterval y mo d h mi s)
      | _ => invalid

end Reporting.Dates
