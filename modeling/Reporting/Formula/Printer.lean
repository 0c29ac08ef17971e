import Reporting.Formula.Tree
/-!
Writing formulas. No parentheses are added: those of the formula are part of its tree.
-/
namespace Reporting

/-- A literal as it is written in a formula. -/
def Literal.render : Literal → String
  | number numeral => numeral
  | text content => Text.quoted content
  | datetime content => Text.braced content

/-- A column name as it is written in a formula. -/
def ColumnName.render : ColumnName → String
  | plain name => name
  | dotted name => "." ++ name
  | qualified query name => query ++ "." ++ name

mutual

/-- A formula as text. -/
def Formula.render : Formula → String
  | literal value => value.render
  | column name => name.render
  | named scope name => scope.letter ++ "." ++ name
  | binary op left right => left.render ++ " " ++ op.symbol.text ++ " " ++ right.render
  | unary op operand =>
    if op.isPost then operand.render ++ op.symbol.text else op.symbol.text ++ operand.render
  | conditional condition yes no =>
    condition.render ++ " ? " ++ yes.render ++ " : " ++ no.render
  | call name args => name ++ "(" ++ renderAll args ++ ")"
  | grouped inner => "(" ++ inner.render ++ ")"

/-- Arguments as text, with commas between them. -/
def Formula.renderAll : List Formula → String
  | [] => ""
  | [arg] => arg.render
  | arg :: args => arg.render ++ ", " ++ renderAll args

end

end Reporting
