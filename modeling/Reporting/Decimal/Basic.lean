import Reporting.Decimal.Digits
import Reporting.Decimal.Rounding
/-!
Decimal numbers of any size, their order and their rounding.
-/
namespace Reporting

/-- The number `mantissa / 10 ^ scale`. One number has many such forms. -/
structure Decimal where
  mantissa : Int
  scale : Int
  deriving DecidableEq, Repr

namespace Decimal

def ofInt (n : Int) : Decimal := ⟨n, 0⟩

def zero : Decimal := ofInt 0

def one : Decimal := ofInt 1

def ofBool (b : Bool) : Decimal := if b then one else zero

instance : Inhabited Decimal := ⟨zero⟩

/-- The largest exponent of a leading digit. Larger numbers are out of range, and numbers below the
inverse power are taken as zero. -/
def maxExponent : Nat := 100000

def isZero (x : Decimal) : Bool := x.mantissa == 0

def isNegative (x : Decimal) : Bool := x.mantissa < 0

def neg (x : Decimal) : Decimal := ⟨-x.mantissa, x.scale⟩

def abs (x : Decimal) : Decimal := ⟨x.mantissa.natAbs, x.scale⟩

/-- The number of digits of the mantissa. -/
def digitCount (x : Decimal) : Nat := Digits.count x.mantissa.natAbs

/-- The mantissa that the number has at a scale that is not smaller than its own. Zero has the same
one at every scale, and needs no power of ten. -/
def mantissaAt (x : Decimal) (scale : Int) : Int :=
  if x.mantissa = 0 then 0 else x.mantissa * Nat.pow 10 (scale - x.scale).toNat

theorem mantissaAt_eq (x : Decimal) (scale : Int) :
    x.mantissaAt scale = x.mantissa * Nat.pow 10 (scale - x.scale).toNat := by
  unfold mantissaAt
  split <;> simp_all

/-- The order of the numbers, whatever forms they have. The sign alone compares with zero. -/
def compare (x y : Decimal) : Ordering :=
  if x.mantissa = 0 ∨ y.mantissa = 0 then Ord.compare x.mantissa y.mantissa
  else
    let scale := max x.scale y.scale
    Ord.compare (x.mantissaAt scale) (y.mantissaAt scale)

/-- The exponent of the leading digit: 2 for 123 and -3 for 0.00123. Zero has 0. -/
def adjustedExponent (x : Decimal) : Int :=
  if x.isZero then 0 else x.digitCount - x.scale - 1

def inRange (x : Decimal) : Bool := x.adjustedExponent ≤ maxExponent

/-- Numbers too small to be told from zero become zero. -/
def flush (x : Decimal) : Decimal :=
  if x.adjustedExponent < -(maxExponent : Int) then zero else x

/-- Drops `k` digits of the mantissa and rounds. -/
def dropDigits (x : Decimal) (k : Nat) (mode : Rounding) : Decimal :=
  ⟨mode.divide x.mantissa (Nat.pow 10 k), x.scale - k⟩

/-- Rounds to the significant digits of a precision. -/
def rounded (x : Decimal) (p : Precision) : Decimal :=
  flush (if x.digitCount ≤ p.digits then x
    else x.dropDigits (x.digitCount - p.digits) p.rounding)

/-- Rounds to a number of decimal places, which may be negative. Dropping more digits than the
mantissa has rounds like dropping one more than it has. -/
def roundPlaces (x : Decimal) (places : Int) (mode : Rounding) : Decimal :=
  if x.scale ≤ places then x
  else
    let drop := min (x.scale - places).toNat (x.digitCount + 1)
    ⟨mode.divide x.mantissa (Nat.pow 10 drop), places⟩

def floor (x : Decimal) : Decimal := x.roundPlaces 0 .down

def ceil (x : Decimal) : Decimal := x.roundPlaces 0 .up

def trunc (x : Decimal) : Decimal := x.roundPlaces 0 .towardZero

/-- Rounds to an integer, halves away from zero. -/
def round (x : Decimal) : Decimal :=
  if x.scale ≤ 0 then x
  else if 5 ≤ ((x.roundPlaces 1 .towardZero).mantissaAt 1).natAbs % 10 then
    x.roundPlaces 0 .awayFromZero
  else x.trunc

/-- Rounds to an integer as a precision says. -/
def rint (x : Decimal) (p : Precision) : Decimal := x.roundPlaces 0 p.rounding

/-- Whether the number is an integer. -/
def isInteger (x : Decimal) : Bool :=
  if x.scale ≤ 0 ∨ x.mantissa = 0 then true
  else if x.digitCount ≤ x.scale.toNat then false
  else x.mantissa.natAbs % Nat.pow 10 x.scale.toNat == 0

/-- The integers of 64 binary digits with a sign. -/
def fits64 (n : Int) : Bool := -0x8000000000000000 ≤ n && n < 0x8000000000000000

theorem fits64_iff {n : Int} : fits64 n = true ↔ -0x8000000000000000 ≤ n ∧ n < 0x8000000000000000 := by
  rw [fits64, Bool.and_eq_true, decide_eq_true_eq, decide_eq_true_eq]

/-- The integer part, if it has 64 binary digits. -/
def toInt64? (x : Decimal) : Option Int :=
  if x.adjustedExponent > 18 then none
  else
    let n := x.trunc.mantissaAt 0
    if fits64 n then some n else none

/-- The number rounded to an integer, if that has 64 binary digits. -/
def toInt64Rounded? (x : Decimal) (p : Precision) : Option Int := (x.rint p).toInt64?

/-- Takes zeros off the end of a mantissa, at most `k` of them. -/
def stripZeros : (k : Nat) → (mantissa : Int) → Nat × Int
  | 0, m => (0, m)
  | k + 1, m =>
    if m.tmod 10 = 0 then
      let (n, m') := stripZeros k (m.tdiv 10)
      (n + 1, m')
    else (0, m)

/-- The form whose mantissa does not end in zero. -/
def normalized (x : Decimal) : Decimal :=
  if x.isZero then zero
  else
    let (n, m) := stripZeros x.digitCount x.mantissa
    ⟨m, x.scale - n⟩

end Decimal
end Reporting
