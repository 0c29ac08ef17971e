import Reporting.Proofs.Function.Leading
import Mathlib.Data.List.Forall2
import Reporting.Proofs.Value.Held
/-!
What the traits of the built-in functions stand for: which functions are given by their operands and
the settings alone, which ones may take any groups of operands, and which ones the first group only.
-/
namespace Reporting
open Operands

variable {e : Entry} {vs ws us : List Value} {c c' : Context}

namespace Entry

theorem constant_of_not_volatile : ∀ e ∈ all, e.traits.volatileCall = false →
    e.builtin ≠ .rownum ∧ e.builtin ≠ .brrownum ∧ e.builtin ≠ .date ∧ e.builtin ≠ .now ∧
      e.builtin ≠ .random := by
  decide

theorem eq_of_regrouped : ∀ a ∈ all, (a.traits.isCommAssoc || a.traits.leftAssociative) = true →
    ∀ b ∈ all, a.builtin = b.builtin → b = a := by
  decide +kernel

end Entry

/-- Functions that are not marked as volatile look at their operands and the settings only. -/
theorem Function.apply_settings (he : e ∈ Entry.all) (hv : e.traits.volatileCall = false)
    (hp : c.precision = c'.precision) (ho : c.dateOrder = c'.dateOrder) (vs : List Value) :
    (builtin e).apply vs c = (builtin e).apply vs c' := by
  obtain ⟨hq, hb, hd, hn, hr⟩ := Entry.constant_of_not_volatile e he hv
  have happly : e.builtin.apply vs c = e.builtin.apply vs c' := by
    obtain ⟨precision, dateOrder, clock, scope, slot⟩ := c
    obtain ⟨precision', dateOrder', clock', scope', slot'⟩ := c'
    obtain rfl : precision = precision' := hp
    obtain rfl : dateOrder = dateOrder' := ho
    generalize e.builtin = b at *
    cases b <;> first | rfl | contradiction
  simp only [apply, happly]

end Reporting
