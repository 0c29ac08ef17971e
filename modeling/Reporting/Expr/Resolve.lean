import Reporting.Expr.Basic
/-!
Binding the names of an expression to the places they stand for.
-/
namespace Reporting

/-- What a name stands for in a scope. -/
def Scope.find? (s : Scope) : Reference → Option Source
  | .named .environment name => some (.environment name)
  | .named .row name => if name = "self" then some .self else s.rowVariable? name
  | .named .report name => s.reportVariable? name
  | .column name => s.column? name

/-- The functions that read a counter by its name. -/
inductive CounterKind
  | ofQuery | ofBreak

namespace Expr

/-- The counter that a function reads. -/
def counter? (f : Function) : Option CounterKind :=
  match f.builtin? with
  | some .rownum => some .ofQuery
  | some .brrownum => some .ofBreak
  | _ => none

/-- The counter with a name that is known before evaluation. -/
def counterSource? (s : Scope) : CounterKind → Option String → Option Source
  | .ofQuery, name => s.rowNumber? name
  | .ofBreak, name => name.bind s.breakRowNumber?

def missingCounter : CounterKind → Value
  | .ofQuery => Counter.noQuery
  | .ofBreak => Counter.noBreak

/-- A call of a counter reads it directly when its name is a constant text or absent; with another
operand it is looked up whenever it is evaluated. -/
def resolveCounter (s : Scope) (kind : CounterKind) (f : Function) (operands : List Expr)
    (ring : Ring (Option Cell)) (grouped : Bool) : Expr :=
  let bind (name : Option String) : Expr :=
    match counterSource? s kind name with
    | some source => call f operands (.fill (some (.borrowed source))) grouped
    | none => constant (missingCounter kind) false
  match operands with
  | [] => bind none
  | [e] => match e.constant?.bind Value.text? with
    | some name => bind (some name)
    | none => call f operands ring grouped
  | _ => call f operands ring grouped

mutual

/-- Binds all names, and tells the names that stand for nothing. -/
def resolve (s : Scope) : Expr → Expr × List Reference
  | constant v g => (constant v g, [])
  | reference r _ g =>
    let target := s.find? r
    (reference r target g, if target.isSome then [] else [r])
  | call f operands ring g =>
    let (operands, missing) := resolveAll s operands
    (match counter? f with
      | some kind => resolveCounter s kind f operands ring g
      | none => call f operands ring g, missing)

def resolveAll (s : Scope) : List Expr → List Expr × List Reference
  | [] => ([], [])
  | e :: es =>
    let (e, missing) := resolve s e
    let (es, others) := resolveAll s es
    (e :: es, missing ++ others)

end

end Expr
end Reporting
