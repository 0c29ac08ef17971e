import Reporting.Decimal.Basic
/-!
Writing decimal numbers without exponents.
-/
namespace Reporting.Decimal

/-- The digits of a natural number with a point before the last `places` of them. -/
def withPoint (n places : Nat) : List Char :=
  if places = 0 then Digits.ofNat n
  else
    let width := max (Digits.count n) (places + 1)
    Digits.last (width - places) (n / Nat.pow 10 places) ++ '.' :: Digits.last places n

/-- A mantissa at a scale; only a number other than zero has a sign. -/
def renderAt (mantissa scale : Int) : List Char :=
  let digits :=
    if 0 ≤ scale then withPoint mantissa.natAbs scale.toNat
    else Digits.ofNat mantissa.natAbs ++ List.replicate (-scale).toNat '0'
  if mantissa < 0 then '-' :: digits else digits

/-- The number with as many decimals as it needs. -/
def render (x : Decimal) : String :=
  if x.isZero then "0"
  else
    let (n, m) := stripZeros x.scale.toNat x.mantissa
    String.ofList (renderAt m (x.scale - n))

/-- The number rounded to a fixed number of decimals, of which all are written. -/
def renderFixed (x : Decimal) (places : Nat) (mode : Rounding) : String :=
  let places := min places maxExponent
  String.ofList (renderAt ((x.roundPlaces places mode).mantissaAt places) places)

end Reporting.Decimal
