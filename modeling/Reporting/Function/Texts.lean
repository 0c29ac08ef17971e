import Reporting.Function.Operands
import Reporting.Decimal.Power
import Reporting.Value.Reader
/-!
Functions of texts. Lengths and offsets count characters.
-/
namespace Reporting.Texts
open Operands

/-- A text operand that numbers follow. -/
def textAndNumbers (args : List Value) : Except Value (List Char) := do
  surfaceErrors args
  match args with
  | s :: ns =>
    if s.kind ≠ .text ∨ ns.any fun n => n.kind != .number then invalid
    else do
      nullIfAny args .text
      return (← orInvalid s.text?).toList
  | [] => invalid

/-- A count; a negative one counts as zero. -/
def count (arg : Value) (p : Precision) : Except Value Nat := do
  return (← integer arg p).toNat

def ofChars (s : List Char) : Value := .text (String.ofList s)

def concat (args : List Value) : Outcome := do
  atLeast args 2
  check args .text .text
  return .text (String.join (args.filterMap Value.text?))

/-- The first characters. -/
def left (args : List Value) (p : Precision) : Outcome := do
  let s ← textAndNumbers args
  match args with
  | [_, n] => return ofChars (s.take (← count n p))
  | _ => invalid

/-- The last characters. -/
def right (args : List Value) (p : Precision) : Outcome := do
  let s ← textAndNumbers args
  match args with
  | [_, n] => return ofChars (s.drop (s.length - (← count n p)))
  | _ => invalid

/-- Where a part starts: a positive offset counts from 1, and a negative one from the end. -/
def startOf (offset : Int) (length : Nat) : Nat :=
  if offset < 0 then length - offset.natAbs else offset.toNat - 1

/-- A part of a text, by its offset and its length. -/
def mid (args : List Value) (p : Precision) : Outcome := do
  let s ← textAndNumbers args
  match args with
  | [_, offset, length] =>
    let offset ← integer offset p
    let length ← count length p
    return ofChars ((s.drop (startOf offset s.length)).take length)
  | _ => invalid

/-- A function of one text. -/
def map (args : List Value) (f : List Char → List Char) : Outcome := do
  check args .text .text
  match args with
  | v :: _ => return ofChars (f (← orInvalid v.text?).toList)
  | [] => invalid

def length (args : List Value) : Outcome := do
  check args .text .number
  match args with
  | v :: _ => return .ofInt (← orInvalid v.text?).length
  | [] => invalid

/-- Spaces in front up to a width. -/
def padLeft (width : Nat) (s : List Char) : List Char :=
  List.replicate (width - s.length) ' ' ++ s

/-- A number with fixed decimals in a width. -/
def str (args : List Value) (p : Precision) : Outcome := do
  check args .number .text
  match args with
  | [n, width, decimals] =>
    let n ← orInvalid n.number?
    let width ← count width p
    let decimals ← count decimals p
    return ofChars (padLeft width (n.renderFixed decimals p.rounding).toList)
  | _ => invalid

/-- A number, or a text that is read as one, divided by a power of ten. -/
def fixedPoint (args : List Value) (p : Precision) : Outcome := do
  surfaceErrors args
  match args with
  | [v, digits] =>
    if (v.kind ≠ .text ∧ v.kind ≠ .number) ∨ digits.kind ≠ .number then invalid
    else do
      nullIfAny args .number
      let n ← match v.text? with
        | some s => Except.ok ((Decimal.parse? s.toList p).getD .zero)
        | none => orInvalid v.number?
      let digits ← orInvalid digits.number?
      let scale ← orInvalid ((Decimal.ofInt 10).pow? digits p)
      return .number (← orInvalid (n.div? scale p))
  | _ => invalid

/-- The text itself: no catalog of messages is loaded. -/
def translate (args : List Value) : Outcome :=
  match args with
  | v :: _ => if v.kind ≠ .text ∨ v.isNull then invalid else .ok v
  | [] => invalid

/-- The singular of a text that is given with its plural and a count. -/
def translatePlural (args : List Value) : Outcome := do
  if args.any Value.isNull then invalid
  else do
    surfaceErrors args
    match args with
    | [one, many, n] =>
      if one.kind = .text ∧ many.kind = .text ∧ n.kind = .number then return one else invalid
    | _ => invalid

end Reporting.Texts
