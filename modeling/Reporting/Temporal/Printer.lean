import Reporting.Temporal.Basic
/-!
Writing dates, times and intervals.
-/
namespace Reporting.Temporal

/-- `2024-02-29`. -/
def renderDate (t : Temporal) : List Char :=
  Digits.pad 4 t.year ++ '-' :: Digits.pad 2 t.month ++ '-' :: Digits.pad 2 t.day

/-- `12:30:45`. -/
def renderTime (t : Temporal) : List Char :=
  Digits.pad 2 t.hour ++ ':' :: Digits.pad 2 t.minute ++ ':' :: Digits.pad 2 t.second

/-- The fields of an interval with their units. -/
def parts (t : Temporal) : List (Int × String) :=
  [(t.year, "years"), (t.month, "months"), (t.day, "days"),
   (t.hour, "hours"), (t.minute, "minutes"), (t.second, "seconds")]

/-- The fields that are not zero, such as `1 years 2 days`. -/
def renderInterval (t : Temporal) : List Char :=
  match t.parts.filter (·.1 ≠ 0) with
  | [] => "0 seconds".toList
  | ps => List.intercalate [' '] (ps.map fun (n, unit) => Digits.ofInt n ++ ' ' :: unit.toList)

/-- The value as text: the fields of an interval, or the parts that a value has. -/
def renderChars (t : Temporal) : List Char :=
  if t.interval then t.renderInterval
  else
    (if t.hasDate then t.renderDate else []) ++
    (if t.hasDate && t.hasTime then [' '] else []) ++
    (if t.hasTime then t.renderTime else [])

def render (t : Temporal) : String := String.ofList t.renderChars

end Reporting.Temporal
