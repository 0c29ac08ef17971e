import Reporting.Function.Operands
/-!
Comparison, choice, nulls and conversion.
-/
namespace Reporting.Compare
open Operands

/-- The order of texts by their code points. -/
def compareTexts (s t : String) : Ordering :=
  if s < t then .lt else if s = t then .eq else .gt

/-- Dates and times are compared on the parts that both have; without common parts they have no
order. -/
def compareTemporals (s t : Temporal) : Option Ordering :=
  if (s.hasDate && s.hasTime && t.hasDate && t.hasTime) || (s.interval && t.interval) then
    some (s.compare t)
  else if s.hasDate && t.hasDate then some (s.compareDates t)
  else if s.hasTime && t.hasTime then some (s.compareTimes t)
  else none

/-- The order of two payloads of one kind. -/
def comparePayloads : Payload → Payload → Option Ordering
  | .number a, .number b => some (a.compare b)
  | .text a, .text b => some (compareTexts a b)
  | .datetime a, .datetime b => compareTemporals a b
  | _, _ => none

/-- The order of two operands, which must be of one kind and not null. -/
def compareOperands (args : List Value) : Except Value (Option Ordering) := do
  surfaceErrors args
  match args with
  | a :: b :: _ =>
    if a.kind ≠ b.kind then invalid
    else do
      nullIfAny args .number
      return comparePayloads a.payload b.payload
  | _ => invalid

/-- Whether the operands are equal, or are not; values without an order are not equal. -/
def equality (args : List Value) (wanted : Bool) : Outcome := do
  let o ← compareOperands args
  return .ofBool ((o == some .eq) == wanted)

/-- Whether the operands are in an order; values without an order are in none. -/
def order (args : List Value) (accept : Ordering → Bool) : Outcome := do
  let o ← compareOperands args
  return .ofBool (o.any accept)

/-- The second operand if the first one, rounded to an integer, is not zero, and else the third. -/
def iif (args : List Value) (p : Precision) : Outcome := do
  match args with
  | [c, yes, no] =>
    let n ← orInvalid c.number?
    let chosen := if n.toInt64Rounded? p = some 0 then no else yes
    surfaceErrors [chosen]
    return chosen
  | _ => invalid

def isNull (args : List Value) : Outcome := do
  surfaceErrors args
  match args with
  | v :: _ => return .ofBool v.isNull
  | [] => invalid

/-- A null of the operand's kind. -/
def null (args : List Value) : Outcome := do
  surfaceErrors args
  match args with
  | v :: _ => return .null v.kind
  | [] => invalid

/-- The error with the operand as its message. -/
def error (args : List Value) : Outcome :=
  match args with
  | v :: _ =>
    if v.isNull then invalid
    else match v.payload with
      | .text message | .error message => .ok (.error message)
      | _ => invalid
  | [] => invalid

end Reporting.Compare
