import Reporting.Expr.Basic
/-!
Simplifying expressions: calls of one function are joined, calls of constants are computed, and the
number constants of a sum or product are put together.
-/
namespace Reporting.Expr

/-- Whether the operands of an inner call of the same function may take its place. `first` tells
whether it comes first. -/
def joins (f : Function) (first grouped : Bool) : Bool :=
  !f.traits.volatileCall &&
    (f.traits.isCommAssoc || (f.traits.leftAssociative && (first || !grouped)))

mutual

/-- Appends an operand, or its own operands if it calls the same function and may be joined. -/
def join (f : Function) (before : List Expr) : Expr → List Expr
  | call g operands ring grouped =>
    if g.sameAs f && joins f before.isEmpty grouped then joinAll f before operands
    else before ++ [call g operands ring grouped]
  | e => before ++ [e]

/-- Appends operands from the left. -/
def joinAll (f : Function) (before : List Expr) : List Expr → List Expr
  | [] => before
  | e :: es => joinAll f (join f before e) es

end

/-- Whether a call of constants is computed in advance. -/
def folds (f : Function) (operands : List Expr) : Bool :=
  !f.traits.volatileCall && !operands.isEmpty && operands.all isConstant

/-- Whether a constant may be put together with others: texts keep their order, and dates change
what numbers mean. -/
def isPlainNumber (v : Value) : Bool := v.kind == .number && !v.isNull

/-- Replaces the first constant and drops the others. -/
def replaceConstants (v : Value) : (found : Bool) → List Expr → List Expr
  | _, [] => []
  | found, e :: es =>
    if e.isConstant then
      if found then replaceConstants v true es else constant v false :: replaceConstants v true es
    else e :: replaceConstants v found es

/-- Puts number constants together, if there are several among other operands. -/
def gather (c : Context) (f : Function) (operands : List Expr) : List Expr :=
  let constants := operands.filterMap constant?
  if !f.traits.volatileCall && f.traits.isCommAssoc && 2 ≤ constants.length &&
      constants.length != operands.length && constants.all isPlainNumber then
    let v := f.apply constants c
    if v.isError then operands else replaceConstants v false operands
  else operands

/-- Simplifies a call whose operands are simplified. -/
def simplifyCall (c : Context) (f : Function) (operands : List Expr) (ring : Ring (Option Cell))
    (grouped : Bool) : Expr :=
  let operands := joinAll f [] operands
  if folds f operands then constant (f.apply (operands.filterMap constant?) c) grouped
  else call f (gather c f operands) ring grouped

mutual

/-- Simplifies an expression from its leaves. -/
def simplify (c : Context) : Expr → Expr
  | call f operands ring grouped => simplifyCall c f (simplifyAll c operands) ring grouped
  | e => e

def simplifyAll (c : Context) : List Expr → List Expr
  | [] => []
  | e :: es => simplify c e :: simplifyAll c es

end

/-- The context in which constants are computed: there are no names, and the time is not known. -/
def foldContext (p : Precision) (order : DateOrder) : Context :=
  { precision := p, dateOrder := order, clock := {}, scope := .empty }

/-- Simplifies an expression. -/
def optimize (p : Precision) (order : DateOrder) (e : Expr) : Expr :=
  e.simplify (foldContext p order)

end Reporting.Expr
