import Reporting.Function.Basic
/-!
Checks of operands that functions share. An outcome is a result, or an early one: an error or a
null that the operands call for.
-/
namespace Reporting

/-- A result, or an early one. -/
abbrev Outcome := Except Value Value

def Outcome.value : Outcome → Value
  | .ok v => v
  | .error v => v

namespace Operands

/-- Operands that do not fit. -/
def invalid : Except Value α := .error .invalidOperands

/-- What there must be for operands that fit. -/
def orInvalid : Option α → Except Value α
  | some a => .ok a
  | none => invalid

/-- The first error among the operands goes on. -/
def surfaceErrors (args : List Value) : Except Value Unit :=
  match args.findSome? Value.errorMessage? with
  | some message => .error (.error message)
  | none => .ok ()

def requireKind (args : List Value) (k : Kind) : Except Value Unit :=
  if args.all fun a => a.kind == k then .ok () else invalid

/-- A null operand makes the result null. -/
def nullIfAny (args : List Value) (k : Kind) : Except Value Unit :=
  if args.any Value.isNull then .error (.null k) else .ok ()

/-- Errors count before wrong kinds, and those before nulls. -/
def check (args : List Value) (kind result : Kind) : Except Value Unit := do
  surfaceErrors args
  requireKind args kind
  nullIfAny args result

def atLeast (args : List Value) (n : Nat) : Except Value Unit :=
  if args.length < n then invalid else .ok ()

/-- The numbers among the operands. -/
def numbers (args : List Value) : List Decimal := args.filterMap Value.number?

/-- How many operands are of a kind. -/
def countKind (args : List Value) (k : Kind) : Nat := args.countP fun a => a.kind == k

/-- A function of one number. -/
def unary (args : List Value) (f : Decimal → Option Decimal) : Outcome := do
  check args .number .number
  match numbers args with
  | n :: _ => return .number (← orInvalid (f n))
  | [] => invalid

/-- A function of two numbers, with what is said when it has no value. -/
def binary (args : List Value) (f : Decimal → Decimal → Option Decimal) (failure : Value) :
    Outcome := do
  check args .number .number
  match numbers args with
  | a :: b :: _ => match f a b with
    | some n => return .number n
    | none => throw failure
  | _ => invalid

/-- The integer of a number operand, rounded. -/
def integer (arg : Value) (p : Precision) : Except Value Int :=
  orInvalid (arg.number?.bind (·.toInt64Rounded? p))

end Operands
end Reporting
