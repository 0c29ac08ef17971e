import Reporting.Function.Operands
import Reporting.Decimal.Power
import Reporting.Decimal.Root
/-!
Arithmetic of numbers and dates, logic, and operations on binary digits.
-/
namespace Reporting.Arithmetic
open Operands

/-- A running value of a sum that mixes numbers and dates. -/
inductive Term
  | number (n : Decimal)
  | datetime (t : Temporal)

namespace Term

def ofValue (v : Value) : Except Value Term :=
  match v.number?, v.datetime? with
  | some n, _ => .ok (number n)
  | none, some t => .ok (datetime t)
  | none, none => invalid

def value : Term → Value
  | number n => .number n
  | datetime t => .datetime t

end Term

def outOfRange : Except Value α := .error (.error "datetime out of range")

/-- What there must be for a date within the calendar. -/
def orOutOfRange : Option α → Except Value α
  | some a => .ok a
  | none => outOfRange

/-- The whole days or seconds of a number; its fraction is dropped. -/
def whole (n : Decimal) : Except Value Int := orInvalid n.trunc.toInt64?

/-- Adds a number to a date in days or seconds, and an interval to a date. -/
def addTerms (p : Precision) : Term → Term → Except Value Term
  | .number a, .number b => .ok (.number (a.add b p))
  | .number n, .datetime t | .datetime t, .number n => do
    return .datetime (← orOutOfRange (t.addNumber (← whole n)))
  | .datetime a, .datetime b =>
    if !a.interval && !b.interval then invalid
    else do
      let sum := if a.interval && !b.interval then b.addInterval a else a.addInterval b
      return .datetime (← orOutOfRange sum)

/-- Takes a number or an interval from a date, and gives the interval between two dates. -/
def subTerms (p : Precision) : Term → Term → Except Value Term
  | .number a, .number b => .ok (.number (a.sub b p))
  | .datetime t, .number n => do
    let n ← whole n
    if Decimal.fits64 (-n) then return .datetime (← orOutOfRange (t.addNumber (-n)))
    else outOfRange
  | .number _, .datetime _ => invalid
  | .datetime a, .datetime b =>
    if a.interval && !b.interval then invalid
    else do return .datetime (← orOutOfRange (a.sub b))

/-- Combines the operands from the left. -/
def foldTerms (step : Term → Term → Except Value Term) : List Value → Outcome
  | [] => invalid
  | v :: vs => do
    let first ← Term.ofValue v
    let last ← vs.foldlM (fun acc v => do step acc (← Term.ofValue v)) first
    return last.value

/-- Combines the numbers among the operands from the left. -/
def foldNumbers (step : Decimal → Decimal → Decimal) (args : List Value) : Outcome := do
  check args .number .number
  match numbers args with
  | n :: ns => return .number (ns.foldl step n)
  | [] => invalid

/-- Combines numbers and dates; a null among them makes a null date. -/
def foldMixed (step : Term → Term → Except Value Term) (args : List Value) : Outcome := do
  if countKind args .datetime = 0 ∨
      countKind args .datetime + countKind args .number ≠ args.length then invalid
  else do
    nullIfAny args .datetime
    foldTerms step args

def add (args : List Value) (p : Precision) : Outcome := do
  atLeast args 2
  surfaceErrors args
  if countKind args .number = args.length then foldNumbers (·.add · p) args
  else if countKind args .text = args.length then do
    check args .text .text
    return .text (String.join (args.filterMap Value.text?))
  else foldMixed (addTerms p) args

def sub (args : List Value) (p : Precision) : Outcome := do
  atLeast args 2
  surfaceErrors args
  if countKind args .number = args.length then foldNumbers (·.sub · p) args
  else foldMixed (subTerms p) args

def mul (args : List Value) (p : Precision) : Outcome := do
  atLeast args 2
  foldNumbers (·.mul · p) args

def divisionByZero : Value := .error "division by zero"

def div (args : List Value) (p : Precision) : Outcome := do
  atLeast args 2
  check args .number .number
  match numbers args with
  | n :: ns =>
    let q ← ns.foldlM (fun acc n => match acc.div? n p with
      | some q => Except.ok q
      | none => .error divisionByZero) n
    return .number q
  | [] => invalid

def remainder (args : List Value) (p : Precision) : Outcome :=
  binary args (·.rem? · p) divisionByZero

def pow (args : List Value) (p : Precision) : Outcome :=
  binary args (·.pow? · p) .invalidOperands

/-- Adds one or takes one away: a number, a day or a second. -/
def step (args : List Value) (amount : Int) (p : Precision) : Outcome := do
  surfaceErrors args
  match args with
  | v :: _ => match v.kind with
    | .number => match v.number? with
      | some n => return .number (n.add (.ofInt amount) p)
      | none => throw (.null .number)
    | .datetime => match v.datetime? with
      | some t => return .datetime (← orOutOfRange (t.addNumber amount))
      | none => throw (.null .datetime)
    | _ => invalid
  | [] => invalid

/-! Logic -/

def logical (args : List Value) (combine : List Bool → Bool) : Outcome := do
  atLeast args 2
  check args .number .number
  return .ofBool (combine ((numbers args).map fun n => !n.isZero))

/-! Binary digits -/

/-- An operation on 64 binary digits. -/
def bits (f : BitVec 64 → BitVec 64 → BitVec 64) (a b : Int) : Int :=
  (f (BitVec.ofInt 64 a) (BitVec.ofInt 64 b)).toInt

def bitwise (args : List Value) (f : BitVec 64 → BitVec 64 → BitVec 64) : Outcome := do
  atLeast args 2
  check args .number .number
  match ← (numbers args).mapM whole with
  | n :: ns => return .ofInt (ns.foldl (bits f) n)
  | [] => invalid

def complement (args : List Value) : Outcome := do
  check args .number .number
  match ← (numbers args).mapM whole with
  | n :: _ => return .ofInt (-n - 1)
  | [] => invalid

/-- Shifts by less than 64 digits; what is shifted out is lost. -/
def shift (args : List Value) (f : Int → Nat → Int) : Outcome := do
  check args .number .number
  match ← (numbers args).mapM whole with
  | n :: k :: _ => if 0 ≤ k ∧ k < 64 then return .ofInt (f n k.toNat) else invalid
  | _ => invalid

def shiftLeft (n : Int) (k : Nat) : Int := Int.bmod (n * Nat.pow 2 k) 0x10000000000000000

def shiftRight (n : Int) (k : Nat) : Int := n / Nat.pow 2 k

end Reporting.Arithmetic
