import Reporting.Decimal.Basic
/-!
Square roots to a hundred significant digits.
-/
namespace Reporting.Decimal

/-- Newton's iteration for the integer part of a square root, from a guess that is not below it. -/
def wholeRootFrom (n guess : Nat) : Nat :=
  let next := (guess + n / guess) / 2
  if next < guess then wholeRootFrom n next else guess
termination_by guess

/-- The integer part of the square root of a natural number. -/
def wholeRoot (n : Nat) : Nat :=
  if n = 0 then 0 else wholeRootFrom n (Nat.pow 2 (n.log2 / 2 + 1))

/-- The significant digits of a square root. -/
def rootDigits : Nat := 100

/-- The zeros that make a mantissa long enough for its root to have more than `rootDigits` digits,
and the scale even. -/
def rootZeros (x : Decimal) : Nat :=
  let zeros := 2 * (rootDigits + 1) - x.digitCount
  zeros + ((x.scale + zeros) % 2).toNat

theorem rootZeros_even (x : Decimal) : (x.scale + x.rootZeros) % 2 = 0 := by
  unfold rootZeros
  grind

/-- The integer part of the square root of a natural number, and one more digit, which is zero just
for a square. Rounding at a digit before it rounds the root itself. -/
def wholeRootAndMore (n : Nat) : Nat :=
  let s := wholeRoot n
  10 * s + if s * s = n then 0 else 1

/-- A square root of a number that is not negative, rounded to `rootDigits`, halves to even. Zero
and one are their own roots. -/
def root (x : Decimal) : Decimal :=
  if x.isZero || x = one then x
  else
    let s := wholeRootAndMore (x.mantissa.natAbs * Nat.pow 10 x.rootZeros)
    let scale := (x.scale + x.rootZeros) / 2 + 1
    (Decimal.mk s scale).dropDigits (Digits.count s - rootDigits) .nearest

/-- The square root in a precision, or none for a negative number. -/
def sqrt? (x : Decimal) (p : Precision) : Option Decimal :=
  if x.isNegative then none else some (x.root.rounded p)

end Reporting.Decimal
