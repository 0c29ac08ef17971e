import Reporting.Report.Basic
/-!
The names that a report adds to those of the queries: variables, the stages of the variable that is
evaluated, and the row counters of breaks.
-/
namespace Reporting

/-- The breaks and variables of a report by their positions. -/
structure ReportNames where
  breaks : List String := []
  /-- Each variable with whether it is precalculated. -/
  vars : List (String × Bool) := []
  deriving DecidableEq, Repr

def ReportNames.breakIndex? (n : ReportNames) (name : String) : Option Nat := n.breaks.idxOf? name

/-- Where the value of a variable is read. -/
def ReportNames.result? (n : ReportNames) (name : String) : Option Source := do
  let i ← n.vars.findIdx? fun v => v.1 = name
  return .result i ((n.vars[i]?.map (·.2)).getD false)

/-- What a variable has computed. -/
structure VariableState where
  result : Ring Value := .null .number
  /-- The values of the base expression and the intermediate ones. -/
  stages : List (Ring Value) := List.replicate 3 (.null .number)
  accumulator : Accumulator := {}
  /-- The last values of the groups, as far as they were computed in advance. -/
  finals : List Value := []
  /-- How often the variable has started over. -/
  group : Nat := 0
  deriving DecidableEq, Repr

/-- Reads the last value of the group in advance. -/
def VariableState.loadFinal (s : VariableState) : VariableState :=
  { s with result := s.result.set .precalculated ((s.finals[s.group]?).getD (.null .number)) }

/-- Keeps the value that a group ends with. -/
def VariableState.saveFinal (s : VariableState) : VariableState :=
  { s with finals := s.finals ++ [s.result.current] }

/-- What a report computes on a row, apart from its expressions. -/
structure ReportValues where
  vars : List VariableState := []
  /-- The number of rows since each break. -/
  breakRows : List (Ring Value) := []
  deriving DecidableEq, Repr

/-- The values before the first row. -/
def ReportValues.ofSizes (vars breaks : Nat) : ReportValues :=
  { vars := .replicate vars {}, breakRows := .replicate breaks (.null .number) }

/-- The names of the stages, which are only known to the variable they belong to. -/
def stageNames : List String := ["baseexpr", "intermedexpr", "intermed2expr"]

/-- The stage of a name in any case. -/
def stage? (name : String) : Option Nat :=
  stageNames.findIdx? fun s => s.toList = Text.lowerAscii name.toList

/-- What there is besides the names of the queries. -/
structure ReportScope where
  names : ReportNames
  values : ReportValues := {}
  /-- The variable whose stages are known. -/
  stagesOf : Option Nat := none
  /-- Whether precalculated variables are just being computed, so that they are read like others. -/
  precalculating : Bool := false

namespace ReportScope

/-- The values of variables, stages and row counters. -/
def lookup? (r : ReportScope) (queries : Scope) (source : Source) (slot : Slot) : Option Value :=
  match source with
  | .result i precalculated => do
    let v ← r.values.vars[i]?
    return v.result.get (if precalculated && !r.precalculating then .precalculated else slot)
  | .stage i k => do
    let ring ← (← r.values.vars[i]?).stages[k]?
    return ring.get slot
  | .breakRowNumber i => do return (← r.values.breakRows[i]?).get slot
  | source => queries.lookup? source slot

/-- The names of the report and of the queries. -/
def onTopOf (r : ReportScope) (queries : Scope) : Scope where
  column? := queries.column?
  reportVariable? := r.names.result?
  rowVariable? name := do return .stage (← r.stagesOf) (← stage? name)
  rowNumber? := queries.rowNumber?
  breakRowNumber? name := (r.names.breakIndex? name).map .breakRowNumber
  lookup? := r.lookup? queries

end ReportScope
end Reporting
