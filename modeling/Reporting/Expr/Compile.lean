import Reporting.Expr.Basic
import Reporting.Error
import Reporting.Decimal.Reader
/-!
From formulas to expressions: operators become calls, literals become values, and functions are
looked up.
-/
namespace Reporting

/-- What is needed to compile formulas. -/
structure Compiler where
  functions : FunctionTable
  precision : Precision
  dateOrder : DateOrder

namespace Compiler

/-- The value of a literal. -/
def literal (c : Compiler) : Literal → Except Error Value
  | .number numeral => match Decimal.parse? numeral.toList c.precision with
    | some n => .ok (.number n)
    | none => .error (.invalidNumber numeral)
  | .text s => .ok (.text s)
  | .datetime s => match Temporal.parse? s c.dateOrder with
    | some t => .ok (.datetime t)
    | none => .error (.invalidDatetime s)

/-- A call of a function that takes so many operands. -/
def call (c : Compiler) (name : String) (operands : List Expr) : Except Error Expr :=
  match c.functions.find? name with
  | none => .error (.unknownFunction name)
  | some f => match f.arity with
    | .exact n =>
      if n = operands.length then .ok (.ofCall f operands)
      else .error (.arity f.name n operands.length)
    | .variadic => .ok (.ofCall f operands)

mutual

/-- The expression of a formula. -/
def compile (c : Compiler) : Formula → Except Error Expr
  | .literal l => do return .constant (← c.literal l) false
  | .column name => .ok (.reference (.column name) none false)
  | .named scope name => .ok (.reference (.named scope name) none false)
  | .binary op left right => do
    let left ← compile c left
    let right ← compile c right
    c.call op.functionName [left, right]
  | .unary op operand => do
    let operand ← compile c operand
    match op.functionName? with
    | some name => c.call name [operand]
    | none => return operand
  | .conditional condition yes no => do
    let condition ← compile c condition
    let yes ← compile c yes
    let no ← compile c no
    c.call "iif" [condition, yes, no]
  | .call name args => do c.call name (← compileAll c args)
  | .grouped inner => do return (← compile c inner).group

/-- The expressions of arguments; each is a unit of its own. -/
def compileAll (c : Compiler) : List Formula → Except Error (List Expr)
  | [] => .ok []
  | f :: fs => do
    let e ← compile c f
    let es ← compileAll c fs
    return e.group :: es

end

end Compiler
end Reporting
