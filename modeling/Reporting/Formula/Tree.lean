import Reporting.Formula.Token
/-!
Formulas as trees.
-/
namespace Reporting

/-- A literal, by its text. -/
inductive Literal
  | number (numeral : String)
  | text (content : String)
  | datetime (content : String)
  deriving DecidableEq, Repr

/-- How a formula names a column: `age`, `.age` or `people.age`. -/
inductive ColumnName
  | plain (name : String)
  | dotted (name : String)
  | qualified (query name : String)
  deriving DecidableEq, Repr

/-- Where a scoped name is looked up. -/
inductive NameScope
  /-- `m.HOME`, the environment. -/
  | environment
  /-- `r.self`, the row being computed. -/
  | row
  /-- `v.total`, the variables of the report. -/
  | report
  deriving DecidableEq, Repr

/-- The qualifier that selects a scope; a query of that name cannot be reached by it. -/
def NameScope.letter : NameScope → String
  | environment => "m"
  | row => "r"
  | report => "v"

def NameScope.ofLetter? : String → Option NameScope
  | "m" => some .environment
  | "r" => some .row
  | "v" => some .report
  | _ => none

theorem NameScope.ofLetter?_letter (s : NameScope) : ofLetter? s.letter = some s := by
  cases s <;> rfl

/-- The operators between two operands. -/
inductive BinaryOp
  | logicalOr | logicalAnd | bitOr | bitXor | bitAnd
  | equal | notEqual | lessThan | lessEqual | greaterThan | greaterEqual
  | shiftLeft | shiftRight
  | add | subtract | multiply | divide | modulo | power
  deriving DecidableEq, Repr

/-- The symbol of an operator. -/
def BinaryOp.symbol : BinaryOp → Symbol
  | logicalOr => .doublePipe | logicalAnd => .doubleAmpersand
  | bitOr => .pipe | bitXor => .doubleCaret | bitAnd => .ampersand
  | equal => .equals | notEqual => .notEqual
  | lessThan => .lessThan | lessEqual => .lessEqual
  | greaterThan => .greaterThan | greaterEqual => .greaterEqual
  | shiftLeft => .shiftLeft | shiftRight => .shiftRight
  | add => .plus | subtract => .minus
  | multiply => .asterisk | divide => .slash | modulo => .percent | power => .caret

/-- The function that an operator stands for. -/
def BinaryOp.functionName : BinaryOp → String
  | logicalOr => "lor" | logicalAnd => "land" | bitOr => "or" | bitXor => "xor" | bitAnd => "and"
  | equal => "eq" | notEqual => "ne"
  | lessThan => "lt" | lessEqual => "le" | greaterThan => "gt" | greaterEqual => "ge"
  | shiftLeft => "shl" | shiftRight => "shr"
  | add => "add" | subtract => "sub" | multiply => "mul" | divide => "div"
  | modulo => "remainder" | power => "pow"

/-- The operators of one operand; increments and decrements stand before or after it. -/
inductive UnaryOp
  | negate | plus | logicalNot | bitNot
  | preIncrement | preDecrement | postIncrement | postDecrement
  deriving DecidableEq, Repr

/-- The symbol of an operator. -/
def UnaryOp.symbol : UnaryOp → Symbol
  | negate => .minus | plus => .plus | logicalNot => .bang | bitNot => .tilde
  | preIncrement | postIncrement => .increment
  | preDecrement | postDecrement => .decrement

/-- Whether the operator stands after its operand. -/
def UnaryOp.isPost : UnaryOp → Bool
  | postIncrement | postDecrement => true
  | _ => false

/-- The function that an operator stands for; the sign plus stands for none. -/
def UnaryOp.functionName? : UnaryOp → Option String
  | negate => some "uminus"
  | plus => none
  | logicalNot => some "lnot"
  | bitNot => some "not"
  | preIncrement | postIncrement => some "inc"
  | preDecrement | postDecrement => some "dec"

/-- A formula. Parentheses are kept, because they decide how calls may be regrouped. -/
inductive Formula
  | literal (value : Literal)
  | column (name : ColumnName)
  | named (scope : NameScope) (name : String)
  | binary (op : BinaryOp) (left right : Formula)
  | unary (op : UnaryOp) (operand : Formula)
  | conditional (condition yes no : Formula)
  | call (name : String) (args : List Formula)
  | grouped (inner : Formula)
  deriving Repr, Inhabited

end Reporting
