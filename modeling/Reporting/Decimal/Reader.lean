import Reporting.Decimal.Basic
import Reporting.Text.Blank
/-!
Reading decimal numbers.
-/
namespace Reporting.Decimal

/-- A sign and at least one digit. -/
def integer? (plus : Bool) : List Char → Option Int
  | '-' :: ds => if ds ≠ [] ∧ ds.all Char.isDigit then some (-(Digits.value ds : Int)) else none
  | '+' :: ds => if plus ∧ ds ≠ [] ∧ ds.all Char.isDigit then some (Digits.value ds) else none
  | ds => if ds ≠ [] ∧ ds.all Char.isDigit then some (Digits.value ds) else none

/-- The bound of exponents while they are read. -/
def fits128 (n : Int) : Bool :=
  -0x80000000000000000000000000000000 ≤ n && n < 0x80000000000000000000000000000000

/-- The digits of a mantissa with its point removed, and how many of them follow the point. A point
at the end may be followed by nothing. -/
def splitPoint (s : List Char) : List Char × Nat :=
  let (whole, r) := Text.splitWhile (· ≠ '.') s
  match r with
  | [] | ['.'] => (whole, 0)
  | _ :: fraction => (whole ++ fraction, fraction.length)

/-- Reads a mantissa with an optional exponent, without rounding. -/
def ofChars? (s : List Char) : Option Decimal := do
  let (body, r) := Text.splitWhile (fun c => c ≠ 'e' && c ≠ 'E') s
  let exponent ← match r with
    | [] => some 0
    | _ :: e => integer? true e
  let (digits, places) := splitPoint body
  let mantissa ← integer? true digits
  let scale := places - exponent
  if fits128 exponent && fits64 scale then some ⟨mantissa, scale⟩ else none

/-- The characters of numbers. -/
def isNumeral (c : Char) : Bool :=
  c.isDigit || c == '.' || c == '-' || c == '+' || c == 'e' || c == 'E'

/-- Puts the zero in front of a leading point. -/
def leadingZero : List Char → List Char
  | '-' :: '.' :: r => '-' :: '0' :: '.' :: r
  | '.' :: r => '0' :: '.' :: r
  | r => r

/-- Reads a number such as `1`, `-1.5`, `.5` or `1e5`, with blanks and a plus sign before it, and
rounds it. -/
def parse? (s : List Char) (p : Precision) : Option Decimal :=
  let s := match Text.trim s with
    | '+' :: r => r
    | r => r
  if s.all isNumeral && s.any Char.isDigit then
    match ofChars? (leadingZero s) with
    | some x => let x := x.rounded p; if x.inRange then some x else none
    | none => none
  else none

end Reporting.Decimal
