import Reporting.Expr.Basic
/-!
The canonical text of expressions, such as `add(1,mul(.'age',2))`.
-/
namespace Reporting

/-- The name with its scope or query, and without telling plain and dotted columns apart. -/
def Reference.render : Reference → String
  | named scope name => scope.letter ++ "." ++ Text.quoted name
  | column (.qualified query name) => query ++ "." ++ Text.quoted name
  | column (.plain name) | column (.dotted name) => "." ++ Text.quoted name

/-- The call that gives a null of a kind. -/
def Kind.nullCall : Kind → String
  | error => "null()"
  | text => "nulls()"
  | number => "nulln()"
  | datetime => "nulldt()"

/-- A value as it stands in an expression. -/
def Value.literal (v : Value) : String :=
  if v.isNull then v.kind.nullCall
  else match v.payload with
    | .error message => "error(" ++ Text.quoted message ++ ")"
    | .text s => Text.quoted s
    | .number n => n.render
    | .datetime t => Text.braced t.render

mutual

def Expr.render : Expr → String
  | constant v _ => v.literal
  | reference r _ _ => r.render
  | call f operands _ _ => f.name ++ "(" ++ renderAll operands ++ ")"

def Expr.renderAll : List Expr → String
  | [] => ""
  | [e] => e.render
  | e :: es => e.render ++ "," ++ renderAll es

end

end Reporting
