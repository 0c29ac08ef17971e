import Reporting.Expr.Evaluate
import Reporting.Report.Accumulator
/-!
Variables: aggregates, expressions and chains of expressions that have a value on every row.

A variable may refer to variables that were defined before it: a custom variable to all of them, an
aggregate to expression variables, and an expression variable to none.
-/
namespace Reporting

/-- A variable as it is defined. -/
structure VariableDef where
  name : String
  kind : VariableKind
  base : Option String := none
  intermediate : Option String := none
  intermediate2 : Option String := none
  /-- What a custom variable makes of its stages. -/
  result : Option String := none
  /-- The break that makes the variable start over. -/
  resetOnBreak : Option String := none
  /-- Whether the last value of a group is read on all of its rows. -/
  precalculated : Bool := false
  deriving DecidableEq, Repr

/-- A variable whose formulas are compiled. -/
structure Variable where
  name : String
  kind : VariableKind
  /-- The base expression and the intermediate ones. -/
  stages : List (Option Computation)
  result : Option Computation := none
  resetOnBreak : Option String := none
  precalculated : Bool := false
  /-- The position of the break that makes the variable start over, once it is known. -/
  resetBreak : Option Nat := none

namespace Variable

/-- Checks that a definition has the formulas that its kind needs, and no others. -/
def checkFormulas (d : VariableDef) : Except Error Unit :=
  if d.kind.needsBase && d.base.isNone then .error (.invalidVariable d.name .noBase)
  else if d.kind = .custom && d.result.isNone then .error (.invalidVariable d.name .noResult)
  else if d.kind ≠ .custom &&
      (d.intermediate.isSome || d.intermediate2.isSome || d.result.isSome) then
    .error (.invalidVariable d.name .stagesNotAllowed)
  else .ok ()

/-- The names of variables in an expression. -/
def variableNames (x : Computation) : List String :=
  x.root.references.filterMap fun
    | .named .report name => some name
    | _ => none

/-- The expressions of a variable. -/
def computations (v : Variable) : List Computation := (v.stages ++ [v.result]).filterMap id

/-- What is wrong with a reference to a variable, given those that were defined before. -/
def referenceFault? (kind : VariableKind) (earlier : List Variable) (name : String) :
    Option VariableFault :=
  if kind = .expression then some .expressionReference
  else match earlier.find? fun w => w.name = name with
    | none => some (.unknownReference name)
    | some w =>
      if kind.isAggregate && w.kind != .expression then some (.aggregateReference name) else none

/-- Checks all references to variables. -/
def checkReferences (v : Variable) (earlier : List Variable) : Except Error Unit :=
  match (v.computations.flatMap variableNames).findSome? (referenceFault? v.kind earlier) with
  | some fault => .error (.invalidVariable v.name fault)
  | none => .ok ()

/-- Compiles a formula, if there is one. -/
def compileFormula (c : Compiler) : Option String → Except Error (Option Computation)
  | some text => do return some (← c.compileText text)
  | none => .ok none

/-- Compiles a variable that is defined after the given ones. -/
def compile (c : Compiler) (earlier : List Variable) (d : VariableDef) : Except Error Variable := do
  if earlier.any fun v => v.name = d.name then throw (.duplicateVariable d.name)
  checkFormulas d
  let stages ← [d.base, d.intermediate, d.intermediate2].mapM (compileFormula c)
  let result ← compileFormula c d.result
  let v : Variable :=
    { name := d.name, kind := d.kind, stages, result
      resetOnBreak := d.resetOnBreak, precalculated := d.precalculated }
  v.checkReferences earlier
  return v

/-- Changes all expressions. -/
def map (v : Variable) (f : Computation → Computation) : Variable :=
  { v with stages := v.stages.map (Option.map f), result := v.result.map f }

def restart (v : Variable) : Variable := v.map .restart

/-- Binds all names. A variable with a name that stands for nothing is dropped. -/
def resolve? (v : Variable) (s : Scope) (optimize : Computation → Computation) : Option Variable :=
  if v.computations.all fun x => (x.resolve s).2.isEmpty then
    some (v.map fun x => optimize (x.resolve s).1)
  else none

end Variable
end Reporting
