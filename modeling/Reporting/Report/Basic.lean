import Reporting.Report.Break
import Reporting.Report.Variable
/-!
Reports: a main query with breaks, variables, and expressions that are evaluated on every row.
-/
namespace Reporting

/-- An expression of a report. It is evaluated after the variables. -/
structure ReportExpression where
  name : Option String
  computation : Computation

/-- A report. -/
structure Report where
  name : Option String := none
  /-- The main query; without one, the first query of the document is used. -/
  query : Option String := none
  /-- The breaks, each nested in the one before it. -/
  breaks : List Break := []
  vars : List Variable := []
  expressions : List ReportExpression := []

namespace Report

instance : Inhabited Report := ⟨{}⟩

/-- Adds a break inside the others. -/
def newBreak (r : Report) (c : Compiler) (d : BreakDef) : Except Error Report := do
  if r.breaks.any fun b => b.name = d.name then throw (.duplicateBreak d.name)
  return { r with breaks := r.breaks ++ [← Break.compile c d] }

/-- Adds a field to a break. -/
def addBreakField (r : Report) (c : Compiler) (name text : String) : Except Error Report :=
  match r.breaks.findIdx? fun b => b.name = name with
  | none => .error (.unknownBreak name)
  | some i => do
    let x ← c.compileText text
    return { r with breaks := r.breaks.modify i fun b => { b with fields := b.fields ++ [x] } }

def newVariable (r : Report) (c : Compiler) (d : VariableDef) : Except Error Report := do
  return { r with vars := r.vars ++ [← Variable.compile c r.vars d] }

/-- Adds an expression, and tells its position. -/
def addExpression (r : Report) (c : Compiler) (name : Option String) (text : String) :
    Except Error (Report × Nat) := do
  let x ← c.compileText text
  return ({ r with expressions := r.expressions ++ [⟨name, x⟩] }, r.expressions.length)

end Report
end Reporting
