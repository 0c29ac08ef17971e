/-!
Rounding modes, rounded quotients and the precision of computed numbers.
-/
namespace Reporting

/-- How a value between two representable numbers is rounded. -/
inductive Rounding
  /-- To the nearer one, a half to the even one. -/
  | nearest
  | towardZero
  /-- Toward positive infinity. -/
  | up
  /-- Toward negative infinity. -/
  | down
  | awayFromZero
  deriving DecidableEq, Repr

namespace Rounding

/-- The name that settings use. -/
def name : Rounding → String
  | nearest => "nearest"
  | towardZero => "toward_zero"
  | up => "up"
  | down => "down"
  | awayFromZero => "away_from_zero"

def ofName? : String → Option Rounding
  | "nearest" => some nearest
  | "toward_zero" => some towardZero
  | "up" => some up
  | "down" => some down
  | "away_from_zero" => some awayFromZero
  | _ => none

/-- Accepts the names with and without underscores and short names, in any case. -/
def ofLooseName? (s : String) : Option Rounding :=
  match String.ofList (s.toList.map Char.toLower) with
  | "nearest" | "rndn" => some nearest
  | "toward_zero" | "towardzero" | "rndz" => some towardZero
  | "up" | "rndu" => some up
  | "down" | "rndd" => some down
  | "away_from_zero" | "awayfromzero" | "rnda" => some awayFromZero
  | _ => none

theorem ofName?_name (r : Rounding) : ofName? r.name = some r := by
  cases r <;> rfl

/-- The quotient of two integers, rounded to an integer. The divisor is not zero. -/
def divide (mode : Rounding) (n d : Int) : Int :=
  let q := n.tdiv d
  let r := n.tmod d
  if r = 0 then q
  else
    let negative : Bool := (n < 0) != (d < 0)
    let away := if negative then q - 1 else q + 1
    match mode with
    | towardZero => q
    | awayFromZero => away
    | up => if negative then q else away
    | down => if negative then away else q
    | nearest =>
      if 2 * r.natAbs < d.natAbs then q
      else if d.natAbs < 2 * r.natAbs then away
      else if q % 2 = 0 then q
      else away

end Rounding

/-- How many significant digits a computed number keeps, and how the rest is rounded. -/
structure Precision where
  digits : Nat
  rounding : Rounding
  digits_pos : 0 < digits := by decide
  deriving DecidableEq, Repr

namespace Precision

/-- The logarithm of two to base ten as a binary64 number, in units of `1 / logUnit`. -/
def logTwo : Nat := 0x134413509F79FF

/-- Two to the power of 54. -/
def logUnit : Nat := 0x40000000000000

/-- A natural number rounded to its 53 leading binary digits, a half to even. -/
def round53 (n : Nat) : Nat :=
  let e := n.log2 - 52
  (Rounding.nearest.divide n (Nat.pow 2 e)).toNat * Nat.pow 2 e

/-- The decimal digits that stand for a number of binary digits: the binary64 product with the
logarithm of two, rounded up. -/
def digitsOfBits (bits : Nat) : Nat :=
  max 1 ((round53 (bits * logTwo) + logUnit - 1) / logUnit)

/-- The precision of a number of binary digits. -/
def ofBits (bits : Nat) (rounding : Rounding) : Precision where
  digits := digitsOfBits bits
  rounding := rounding
  digits_pos := Nat.lt_of_lt_of_le Nat.zero_lt_one (Nat.le_max_left _ _)

end Precision
end Reporting
