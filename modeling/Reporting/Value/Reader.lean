import Reporting.Value.Basic
import Reporting.Decimal.Reader
import Reporting.Temporal.Reader
import Reporting.Config
/-!
Values from texts, and values as numbers.
-/
namespace Reporting

/-- What is needed to read the texts of a data source. -/
structure Coercion where
  precision : Precision
  dateOrder : DateOrder
  decimalComma : Bool
  deriving Repr

def Config.coercion (c : Config) : Coercion :=
  { precision := c.precision, dateOrder := c.dateOrder, decimalComma := c.decimalComma }

namespace Value

/-- The words that stand for truth values, in any case and with blanks around them. -/
def truthWord? (s : List Char) : Option Bool :=
  match String.ofList (Text.lower (Text.trim s)) with
  | "yes" | "true" | "t" => some true
  | "no" | "false" | "f" => some false
  | _ => none

/-- A text with a decimal comma, in which points and blanks group digits. -/
def commaToPoint (s : List Char) : List Char :=
  (s.filter fun c => c ≠ '.' && !Text.isBlank c).map fun c => if c = ',' then '.' else c

/-- The number of a column text. -/
def readNumber? (s : List Char) (c : Coercion) : Option Decimal :=
  match truthWord? s with
  | some b => some (.ofBool b)
  | none =>
    let s := if c.decimalComma && s.contains ',' then commaToPoint s else s
    Decimal.parse? s c.precision

/-- What a text holds as a kind. -/
def read? (k : Kind) (s : String) (c : Coercion) : Option Payload :=
  match k with
  | .text => some (.text s)
  | .error => some (.error s)
  | .number => (readNumber? s.toList c).map .number
  | .datetime => (Temporal.parse? s c.dateOrder).map .datetime

/-- The value of a column text, or null for no text. A text that does not fit its kind becomes an
error. -/
def ofText (k : Kind) (s : Option String) (c : Coercion) : Value :=
  match s with
  | none => null k
  | some s => match read? k s c with
    | some payload => ⟨k, false, payload⟩
    | none => (null k).degrade ("invalid " ++ k.name ++ " '" ++ s ++ "'")

/-- The value as a number: words that stand for truth values count as one and zero, and other texts
that are no numbers as zero. -/
def toNumber (v : Value) (p : Precision) : Value :=
  match v.payload with
  | .error message => error message
  | .datetime _ => invalidOperands
  | .number n => if v.isNull then null .number else number n
  | .text s =>
    if v.isNull then null .number
    else match truthWord? s.toList with
      | some b => ofBool b
      | none => number ((Decimal.parse? s.toList p).getD .zero)

end Value
end Reporting
