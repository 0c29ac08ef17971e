import Reporting.Value.Basic
/-!
Three values for one place: of this row, of the row before, and of a pass before.
-/
namespace Reporting

/-- Which of the three values is meant. -/
inductive Slot
  | current | previous | precalculated
  deriving DecidableEq, Repr

/-- Three values, one for each slot. -/
structure Ring (α : Type) where
  current : α
  previous : α
  precalculated : α
  deriving DecidableEq, Repr

namespace Ring

/-- One value in every slot. -/
def fill (a : α) : Ring α := ⟨a, a, a⟩

def get (r : Ring α) : Slot → α
  | .current => r.current
  | .previous => r.previous
  | .precalculated => r.precalculated

/-- Replaces the value of one slot. -/
def set (r : Ring α) (s : Slot) (a : α) : Ring α :=
  match s with
  | .current => { r with current := a }
  | .previous => { r with previous := a }
  | .precalculated => { r with precalculated := a }

/-- Exchanges the current and the previous value. -/
def rotate (r : Ring α) : Ring α := { r with current := r.previous, previous := r.current }

/-- Stores a value; the current value it replaces becomes the previous one. -/
def push (r : Ring α) (s : Slot) (a : α) : Ring α :=
  (if s = .current then r.rotate else r).set s a

/-- Keeps the current value as the precalculated one. -/
def save (r : Ring α) : Ring α := { r with precalculated := r.current }

theorem get_set_self (r : Ring α) (s : Slot) (a : α) : (r.set s a).get s = a := by
  cases s <;> rfl

theorem push_current (r : Ring α) (a : α) :
    r.push .current a = ⟨a, r.current, r.precalculated⟩ := rfl

end Ring

/-- A ring of nulls of a kind. -/
def Ring.null (k : Kind) : Ring Value := .fill (.null k)

end Reporting
