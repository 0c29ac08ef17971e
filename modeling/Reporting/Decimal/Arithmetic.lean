import Reporting.Decimal.Basic
/-!
Arithmetic in a precision. A result is computed exactly or with spare digits, and then rounded.
-/
namespace Reporting.Decimal

/-- The operand that alone decides a sum, when the other one is zero or lies below its last kept
digit. -/
def dominant? (x y : Decimal) (p : Precision) : Option Decimal :=
  if x.isZero then some y
  else if y.isZero then some x
  else
    let gap := x.adjustedExponent - y.adjustedExponent
    let limit : Int := p.digits + 2
    if gap > limit then some x
    else if gap < -limit then some y
    else none

/-- The exact sum. -/
def exactAdd (x y : Decimal) : Decimal :=
  let scale := max x.scale y.scale
  ⟨x.mantissaAt scale + y.mantissaAt scale, scale⟩

def add (x y : Decimal) (p : Precision) : Decimal :=
  ((x.dominant? y p).getD (x.exactAdd y)).rounded p

def sub (x y : Decimal) (p : Precision) : Decimal := x.add y.neg p

/-- The exact product; a product with one takes its other factor without zeros at the end. -/
def exactMul (x y : Decimal) : Decimal :=
  if x = one then y.normalized
  else if y = one then x.normalized
  else ⟨x.mantissa * y.mantissa, x.scale + y.scale⟩

def mul (x y : Decimal) (p : Precision) : Decimal := (x.exactMul y).rounded p

/-- The quotient, or none for a zero divisor. The dividend is scaled so that the integer quotient
has two digits to spare. -/
def div? (x y : Decimal) (p : Precision) : Option Decimal :=
  if y.isZero then none
  else
    let shift := p.digits + 2 + y.digitCount - x.digitCount
    let q := p.rounding.divide (x.mantissa * Nat.pow 10 shift) y.mantissa
    some (Decimal.rounded ⟨q, x.scale + shift - y.scale⟩ p)

/-- The remainder of the truncated quotient, or none for a zero divisor. -/
def rem? (x y : Decimal) (p : Precision) : Option Decimal := do
  let q ← x.div? y p
  return x.sub (q.trunc.mul y p) p

/-- Repeated squaring: `result * base ^ n`. -/
def powNatFrom (p : Precision) (result base : Decimal) (n : Nat) : Decimal :=
  if n = 0 then result
  else
    let result := if n % 2 = 1 then result.mul base p else result
    if n / 2 = 0 then result else powNatFrom p result (base.mul base p) (n / 2)
termination_by n

/-- A power with a natural exponent. -/
def powNat (x : Decimal) (n : Nat) (p : Precision) : Decimal := powNatFrom p one x n

/-- A power with an integer exponent, or none for the inverse of zero. -/
def powInt? (x : Decimal) (n : Int) (p : Precision) : Option Decimal :=
  if n < 0 then one.div? (x.powNat n.natAbs p) p else some (x.powNat n.natAbs p)

/-- The largest operand of the factorial. -/
def maxFactorial : Nat := 5000

/-- The product of the numbers from `lo + 1` to `lo + k`. -/
def productFrom (lo k : Nat) : Nat :=
  if k = 0 then 1
  else if k = 1 then lo + 1
  else productFrom lo (k / 2) * productFrom (lo + k / 2) (k - k / 2)
termination_by k

/-- The factorial of a natural number that is not too large. -/
def factorial? (x : Decimal) (p : Precision) : Option Decimal :=
  if x.isNegative || !x.isInteger then none
  else do
    let n ← x.toInt64?
    if n ≤ maxFactorial then
      return Decimal.rounded (ofInt (productFrom 0 n.toNat)) p
    else none

end Reporting.Decimal
