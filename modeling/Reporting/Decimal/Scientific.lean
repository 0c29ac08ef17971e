import Reporting.Decimal.Binary64
import Reporting.Decimal.Printer
/-!
Writing binary64 numbers with a given number of digits, exactly rounded, halves to even.
-/
namespace Reporting.Scientific

/-- The sign of a binary64 number, which zero has too. -/
def sign (f : Float) : List Char := if f.toBits.toNat / 0x8000000000000000 = 1 then ['-'] else []

/-- A value that is no number, as text. -/
def nonFinite? (f : Float) : Option (List Char) :=
  if f.isNaN then some "NaN".toList
  else if f.isInf then some (sign f ++ "inf".toList)
  else none

/-- The digits of a positive number rounded to `n` of them, and the exponent of the first one. -/
def leading (n : Nat) (x : Decimal) : List Char × Int :=
  let count := x.digitCount
  if count ≤ n then
    (Digits.last n (x.mantissa.natAbs * Nat.pow 10 (n - count)), x.adjustedExponent)
  else
    let m := (x.dropDigits (count - n) .nearest).mantissa.natAbs
    if m < Nat.pow 10 n then (Digits.ofNat m, x.adjustedExponent)
    else (Digits.ofNat (m / 10), x.adjustedExponent + 1)

/-- An exponent with its sign and at least two digits. -/
def exponentText (e : Int) (upper : Bool) : List Char :=
  (if upper then 'E' else 'e') :: (if e < 0 then '-' else '+') :: Digits.pad 2 (e.natAbs : Int)

/-- One digit, a number of places and an exponent. -/
def render (f : Float) (places : Nat) (upper : Bool) : List Char :=
  match nonFinite? f with
  | some s => s
  | none =>
    let (ds, e) := leading (places + 1) (Decimal.ofFinite f).abs
    let body := match ds with
      | d :: r => if r.isEmpty then [d] else d :: '.' :: r
      | [] => []
    sign f ++ body ++ exponentText e upper

/-- A number of places without an exponent. -/
def renderFixed (f : Float) (places : Nat) : List Char :=
  match nonFinite? f with
  | some s => s
  | none =>
    let x := ((Decimal.ofFinite f).abs.roundPlaces places .nearest).mantissaAt places
    sign f ++ Decimal.withPoint x.natAbs places

/-- Takes the zeros off the end of a fraction, and a point that then ends the number. -/
def stripFraction (s : List Char) : List Char :=
  let (body, exponent) := s.span fun c => c ≠ 'e' && c ≠ 'E'
  let body := if body.contains '.' then
      ((body.reverse.dropWhile (· = '0')).dropWhile (· = '.')).reverse
    else body
  body ++ exponent

/-- A number of digits in the shorter of the two forms; zeros at the end of a fraction are kept only
on demand. -/
def renderGeneral (f : Float) (digits : Nat) (upper keepZeros : Bool) : List Char :=
  let digits := max 1 digits
  if f == 0 then
    if keepZeros then renderFixed 0 (digits - 1) else ['0']
  else
    let e := f.abs.log10.floor
    let text :=
      if e < -4 || Float.ofNat digits ≤ e then render f (digits - 1) upper
      else renderFixed f (digits - 1 - e.toInt64.toInt).toNat
    if keepZeros then text else stripFraction text

end Reporting.Scientific
