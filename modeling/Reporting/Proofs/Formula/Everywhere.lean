import Reporting.Proofs.Formula.Grammar
/-!
Properties of a formula and of all that it is made up of.
-/
namespace Reporting

namespace Formula

mutual

/-- A formula and all that it is made up of satisfy `P`. -/
def Everywhere (P : Formula → Prop) : Formula → Prop
  | .binary op left right => P (.binary op left right) ∧ left.Everywhere P ∧ right.Everywhere P
  | .unary op operand => P (.unary op operand) ∧ operand.Everywhere P
  | .conditional condition yes no =>
    P (.conditional condition yes no) ∧ condition.Everywhere P ∧ yes.Everywhere P ∧ no.Everywhere P
  | .call name args => P (.call name args) ∧ EverywhereAll P args
  | .grouped inner => P (.grouped inner) ∧ inner.Everywhere P
  | f => P f

def EverywhereAll (P : Formula → Prop) : List Formula → Prop
  | [] => True
  | f :: fs => f.Everywhere P ∧ EverywhereAll P fs

end

end Formula

namespace Grammar

/-- What a nonterminal derives is made up of formulas that satisfy `P` everywhere. -/
def Nonterminal.Everywhere (P : Formula → Prop) : (nt : Nonterminal) → nt.Meaning → Prop
  | .operations _, (os : List (BinaryOp × Formula)) => ∀ o ∈ os, o.2.Everywhere P
  | .suffixes, _ => True
  | .arguments, args => Formula.EverywhereAll P args
  | .expression, f | .level _, f | .unary, f | .power, f | .suffixed, f | .primary, f =>
    Formula.Everywhere P f

end Grammar
end Reporting
