import Reporting.Function.Operands
import Reporting.Decimal.Binary64
/-!
Functions of real numbers, computed in binary64.
-/
namespace Reporting.Elementary
open Operands

/-- Applies a function to a number operand; a result that is not finite is an error. -/
def apply (args : List Value) (p : Precision) (f : Float → Float) : Outcome :=
  unary args fun n => n.mapFloat? f p

def sec (x : Float) : Float := 1 / x.cos

def csc (x : Float) : Float := 1 / x.sin

def cot (x : Float) : Float := 1 / x.tan

def exp10 (x : Float) : Float := Float.pow 10 x

end Reporting.Elementary
