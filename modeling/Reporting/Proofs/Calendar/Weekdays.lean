import Mathlib.Data.Int.CardIntervalMod
import Mathlib.Data.Set.Card
import Reporting.Proofs.Temporal.Order
/-!
The days of a year that fall on one weekday, and how many of them there are up to a day.
-/
namespace Reporting
open Calendar

namespace Date

variable {d x y : Date} {n k first : Int}

/-! Day numbers within the calendar -/

end Date
end Reporting
