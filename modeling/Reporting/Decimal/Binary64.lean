import Reporting.Decimal.Basic
/-!
Passing between decimal and binary64 numbers.
-/
namespace Reporting.Decimal

/-- A power of ten by repeated squaring, one rounding for each product. -/
def powTen (result base : Float) (n : Nat) : Float :=
  let result := if n % 2 = 1 then result * base else result
  if n / 2 = 0 then result else powTen result (base * base) (n / 2)
termination_by n

/-- The binary64 number nearest to an integer. -/
def floatOfInt (n : Int) : Float :=
  let x := Float.ofScientific n.natAbs false 0
  if n < 0 then -x else x

/-- Drops `k` times nineteen digits of a mantissa. -/
def dropNineteen : Nat → Decimal → Decimal
  | 0, x => x
  | k + 1, x => dropNineteen k ⟨x.mantissa.tdiv 10000000000000000000, x.scale - 19⟩

/-- A binary64 number near `x`. Fractions lose digits far behind the leading ones and are then read
as the nearest binary64 number; for integers with zeros behind the mantissa, mantissa and power of
ten are converted apart. -/
def toFloat (x : Decimal) : Float :=
  if x.isZero then 0
  else if x.scale = 0 then floatOfInt x.mantissa
  else
    let bits := x.mantissa.natAbs.log2 + 1
    let digits := Precision.round53 (bits * Precision.logTwo) / Precision.logUnit
    let x := dropNineteen ((digits - 25) / 19) x
    if x.scale ≤ 0 then
      if -x.scale < 0x80000000 then floatOfInt x.mantissa * powTen 1 10 (-x.scale).toNat
      else floatOfInt x.mantissa * (1 / 0)
    else
      let y := Float.ofScientific x.mantissa.natAbs true x.scale.toNat
      if x.mantissa < 0 then -y else y

/-- Halves an even number as long as it stays whole, at most `k` times. -/
def halve : (k : Nat) → (n : Nat) → Nat × Nat
  | 0, n => (0, n)
  | k + 1, n => if n % 2 = 0 then halve k (n / 2) else (k + 1, n)

/-- The number that a finite binary64 number is, digit by digit. -/
def ofFinite (f : Float) : Decimal :=
  let bits := f.toBits.toNat
  let sign : Int := if bits / 0x8000000000000000 = 1 then -1 else 1
  let exponent : Nat := bits / 0x10000000000000 % 0x800
  let fraction : Nat := bits % 0x10000000000000
  let m := if exponent = 0 then fraction else fraction + 0x10000000000000
  let e : Int := (if exponent = 0 then 1 else (exponent : Int)) - 1075
  if m = 0 then zero
  else if 0 ≤ e then ⟨sign * (m * Nat.pow 2 e.toNat : Nat), 0⟩
  else
    let (k, m) := halve e.natAbs m
    ⟨sign * (m * Nat.pow 5 k : Nat), k⟩

/-- A finite binary64 number in a precision. -/
def ofFloat? (f : Float) (p : Precision) : Option Decimal :=
  if f.isNaN || f.isInf then none else some ((ofFinite f).rounded p)

/-- Applies a function of binary64 numbers. -/
def mapFloat? (x : Decimal) (f : Float → Float) (p : Precision) : Option Decimal :=
  ofFloat? (f x.toFloat) p

end Reporting.Decimal
