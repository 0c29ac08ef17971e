import Reporting.Error
/-!
Computations that change a state in place. What was changed before an error stays changed.
-/
namespace Reporting

/-- A computation that changes a state in place, and may stop with an error. -/
abbrev Edit (σ : Type) := EStateM Error σ

namespace Edit

variable {σ α : Type}

/-- Stops if the result is an error. -/
def check (result : Except Error α) : Edit σ α := MonadExcept.ofExcept result

def change (f : σ → σ) : Edit σ Unit := modify f

end Edit

/-- A place in a state, which may be missing. -/
structure Focus (σ τ : Type) where
  get : σ → Except Error τ
  put : σ → τ → σ
  put_get : ∀ {s t}, get s = .ok t → put s t = s

/-- Changes what is at a place. What an error leaves there stays there. -/
def Focus.edit {σ τ α : Type} (l : Focus σ τ) (x : Edit τ α) : Edit σ α := fun s =>
  match l.get s with
  | .error e => .error e s
  | .ok t => match x.run t with
    | .ok a t => .ok a (l.put s t)
    | .error e t => .error e (l.put s t)

end Reporting
