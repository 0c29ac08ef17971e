import Reporting.Value.Basic
/-!
What a value holds that is not null.
-/
namespace Reporting.Value

variable {v : Value} {n : Decimal} {t : Temporal}

theorem number?_eq_some : v.number? = some n ↔ v.payload = .number n ∧ v.isNull = false := by
  unfold number?
  split
  · rename_i k hk
    cases v.isNull with
    | false => simp only [Bool.false_eq_true, if_false, Option.some.injEq, hk, Payload.number.injEq,
        and_true]
    | true => simp only [if_true, reduceCtorEq, Bool.true_eq_false, and_false]
  · rename_i hk
    refine ⟨nofun, fun ⟨hn, _⟩ => (hk n hn).elim⟩

theorem kind_of_number? (h : v.number? = some n) : v.kind = .number := by
  rw [kind, (number?_eq_some.1 h).1]
  rfl

theorem isError_of_number? (h : v.number? = some n) : v.isError = false := by
  rw [isError, kind_of_number? h]
  rfl

theorem number?_number (h : n.inRange = true) : (number n).number? = some n := by
  rw [number, if_pos h]
  rfl

end Reporting.Value
