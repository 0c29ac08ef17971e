import Reporting.Decimal.Arithmetic
import Reporting.Decimal.Binary64
/-!
Powers.
-/
namespace Reporting.Decimal

/-- The largest integer exponent that is computed by multiplying. -/
def maxExactPower : Nat := 4096

/-- A power: by multiplying for small integer exponents, and in binary64 numbers otherwise. -/
def pow? (x y : Decimal) (p : Precision) : Option Decimal :=
  match if y.isInteger then y.toInt64? else none with
  | some n =>
    if n.natAbs ≤ maxExactPower then x.powInt? n p
    else ofFloat? (x.toFloat.pow y.toFloat) p
  | none => ofFloat? (x.toFloat.pow y.toFloat) p

end Reporting.Decimal
