import Reporting.Proofs.Calendar.Weekdays
import Reporting.Proofs.Decimal.Integers
import Reporting.Proofs.Function.Strict
import Reporting.Proofs.Value.Held
/-!
The number of a week is the number of days of the year, up to the day that is asked for, on which a week starts.
With an offset the day so many days before is looked at instead, so that a week which starts among the first days
of the year may be left out.
-/
namespace Reporting
open Calendar

variable {d : Date} {k offset : Int}

namespace Date

end Date

namespace Dates

/-! Weeks of days -/

open Operands

variable {v w : Value} {t : Temporal} {x : Decimal}

/-- An integer operand that has 64 binary digits. -/
theorem integer_eq (hw : w.number? = some x) (hx : x.toRat = k) (p : Precision) :
    integer w p = if Decimal.fits64 k then .ok k else invalid := by
  rw [integer, hw, Option.bind_some, Decimal.toInt64Rounded?_eq, hx, Rounding.toInteger_intCast]
  cases Decimal.fits64 k with
  | true => rfl
  | false => rfl

end Dates

/-! The numbers of weeks -/

variable {v w : Value} {t : Temporal} {x : Decimal}

end Reporting
