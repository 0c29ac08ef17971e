import Reporting.Decimal.Arithmetic
import Reporting.Decimal.Printer
import Reporting.Temporal.Arithmetic
import Reporting.Temporal.Printer
/-!
The values of expressions and columns.
-/
namespace Reporting

/-- The kinds of values. -/
inductive Kind
  | error | text | number | datetime
  deriving DecidableEq, Repr

namespace Kind

def name : Kind → String
  | error => "error"
  | text => "string"
  | number => "number"
  | datetime => "datetime"

def ofName? : String → Option Kind
  | "error" => some error
  | "string" => some text
  | "number" => some number
  | "datetime" => some datetime
  | _ => none

theorem ofName?_name (k : Kind) : ofName? k.name = some k := by
  cases k <;> rfl

end Kind

/-- What a value holds. -/
inductive Payload
  | error (message : String)
  | text (s : String)
  | number (n : Decimal)
  | datetime (t : Temporal)
  deriving DecidableEq, Repr

namespace Payload

def kind : Payload → Kind
  | error _ => .error
  | text _ => .text
  | number _ => .number
  | datetime _ => .datetime

/-- What a null of a kind holds. -/
def empty : Kind → Payload
  | .error => error ""
  | .text => text ""
  | .number => number .zero
  | .datetime => datetime {}

theorem kind_empty (k : Kind) : (empty k).kind = k := by
  cases k <;> rfl

end Payload

/-- A value that may be null. A failed computation replaces what the value holds by an error, and
the kind that was declared stays. -/
structure Value where
  declared : Kind
  isNull : Bool
  payload : Payload
  deriving DecidableEq, Repr

namespace Value

def error (message : String) : Value := ⟨.error, false, .error message⟩

def text (s : String) : Value := ⟨.text, false, .text s⟩

def datetime (t : Temporal) : Value := ⟨.datetime, false, .datetime t⟩

def null (k : Kind) : Value := ⟨k, true, .empty k⟩

instance : Inhabited Value := ⟨null .number⟩

/-- Replaces what a value holds by an error. -/
def degrade (v : Value) (message : String) : Value :=
  { v with isNull := false, payload := .error message }

/-- A number, unless it is out of range. -/
def number (n : Decimal) : Value :=
  if n.inRange then ⟨.number, false, .number n⟩ else (null .number).degrade "numeric overflow"

def ofInt (n : Int) : Value := number (.ofInt n)

def ofBool (b : Bool) : Value := number (.ofBool b)

/-- The failure of operands that do not fit. -/
def invalidOperands : Value := error "invalid operand(s)"

/-- Makes a value null and keeps its kind. -/
def setNull (v : Value) : Value := { v with isNull := true }

/-- The kind of what the value holds. -/
def kind (v : Value) : Kind := v.payload.kind

def isError (v : Value) : Bool := v.kind == .error

/-- The message of an error, null or not. -/
def errorMessage? (v : Value) : Option String :=
  match v.payload with
  | .error message => some message
  | _ => none

/-- The number of a value that is not null. -/
def number? (v : Value) : Option Decimal :=
  match v.payload with
  | .number n => if v.isNull then none else some n
  | _ => none

/-- The text of a value that is not null. -/
def text? (v : Value) : Option String :=
  match v.payload with
  | .text s => if v.isNull then none else some s
  | _ => none

/-- The date or time of a value, null or not. -/
def temporal? (v : Value) : Option Temporal :=
  match v.payload with
  | .datetime t => some t
  | _ => none

/-- The date or time of a value that is not null. -/
def datetime? (v : Value) : Option Temporal :=
  if v.isNull then none else v.temporal?

/-- Whether the value holds an interval, null or not. -/
def isInterval (v : Value) : Bool := v.temporal?.any (·.interval)

/-- A value is true when it is a number other than zero. -/
def isTrue (v : Value) : Bool := v.number?.any fun n => !n.isZero

/-- Whether two payloads are equal as far as a change of group goes. -/
def samePayload : Payload → Payload → Bool
  | .number a, .number b => a.compare b == .eq
  | .text a, .text b => a == b
  | .error a, .error b => a == b
  | .datetime a, .datetime b =>
    a.hasDate == b.hasDate && a.hasTime == b.hasTime && a.interval == b.interval &&
      a.compare b == .eq
  | _, _ => false

/-- Whether two values belong to one group: two nulls of one kind do, and a null and another value
do not. -/
def sameAs (v w : Value) : Bool :=
  if v.isNull || w.isNull then v.isNull == w.isNull && v.kind == w.kind
  else samePayload v.payload w.payload

/-- The value as text: nulls are empty, and an error is its message. -/
def render (v : Value) : String :=
  match v.payload with
  | .error message => message
  | .text s => if v.isNull then "" else s
  | .number n => if v.isNull then "" else n.render
  | .datetime t => if v.isNull then "" else t.render

end Value
end Reporting
