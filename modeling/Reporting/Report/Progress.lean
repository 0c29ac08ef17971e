import Reporting.Report.Scope
import Reporting.Workspace
/-!
A report in the middle of a run, and what is done on every row.

On each row the fields of the breaks are evaluated first. The first break with a field that has
changed triggers together with all breaks inside it, and the variables that reset on one of them
start over. The variables follow, and last the expressions.
-/
namespace Reporting

/-- The breaks and variables by their positions. -/
def Report.names (r : Report) : ReportNames :=
  { breaks := r.breaks.map (·.name)
    vars := r.vars.map fun v => (v.name, v.precalculated) }

/-- The two ways of going through the rows: to find the last values of groups, or for good. -/
inductive Pass
  | ahead | final
  deriving DecidableEq, Repr

/-- A report in the middle of a run. -/
structure Progress where
  workspace : Workspace
  /-- The report with all names bound. -/
  report : Report
  main : QueryId
  /-- The number of the row, which is 0 before the first one. -/
  row : Nat := 0
  values : ReportValues

namespace Progress

/-- The names and values that an expression sees. -/
def scope (p : Progress) (pass : Pass) (stagesOf : Option Nat) : Scope :=
  ({ names := p.report.names, values := p.values, stagesOf, precalculating := pass = .ahead } :
    ReportScope).onTopOf (p.workspace.scope (some p.main))

/-- The context in which an expression is evaluated. -/
def context (p : Progress) (pass : Pass) (stagesOf : Option Nat) : Context :=
  p.workspace.settings.context (p.scope pass stagesOf) .current

/-- Forgets all that was computed. -/
def reset (p : Progress) : Progress :=
  let r := p.report
  { p with
    row := 0
    values := .ofSizes r.vars.length r.breaks.length
    report := { r with
      breaks := r.breaks.map .restart
      vars := r.vars.map .restart
      expressions := r.expressions.map fun e => { e with computation := e.computation.restart } } }

/-! Breaks -/

/-- The next value of a row counter; it starts at one. -/
def nextCount (precision : Precision) (continues : Bool) (v : Value) : Value :=
  match v.number? with
  | some n => if continues then .number (n.add (.ofInt 1) precision) else .ofInt 1
  | none => .ofInt 1

/-- Evaluates the fields of all breaks and moves the row counters on. Tells the first break that
triggers, which none does on the first row. -/
def evaluateBreaks (p : Progress) (pass : Pass) : Progress × Option Nat :=
  let evaluated := p.report.breaks.map fun b => b.evaluate (p.context pass none)
  let fired := if p.row = 1 then none else evaluated.findIdx? (·.2)
  let continues (i : Nat) : Bool := p.row ≠ 1 && fired.all (i < ·)
  let breakRows := p.values.breakRows.mapIdx fun i ring =>
    ring.push .current (nextCount p.workspace.settings.precision (continues i) ring.current)
  ({ p with
      report := { p.report with breaks := evaluated.map (·.1) }
      values := { p.values with breakRows } }, fired)

/-! Variables -/

/-- Changes all variables together with what they have computed. -/
def mapVariables (p : Progress) (f : Variable → VariableState → Variable × VariableState) :
    Progress :=
  let changed := List.zipWith f p.report.vars p.values.vars
  { p with
    report := { p.report with vars := changed.map (·.1) }
    values := { p.values with vars := changed.map (·.2) } }

/-- Lets a variable start over. -/
def startOver (pass : Pass) (v : Variable) (s : VariableState) : Variable × VariableState :=
  let s :=
    if !v.precalculated then s
    else match pass with
      | .ahead => s.saveFinal
      | .final => { s with group := s.group + 1 }.loadFinal
  (v.restart, { s with accumulator := {} })

/-- Lets the variables start over that reset on a break from the given one on. -/
def resetVariables (p : Progress) (pass : Pass) (first : Nat) : Progress :=
  p.mapVariables fun v s => if v.resetBreak.any (first ≤ ·) then startOver pass v s else (v, s)

/-- Changes one variable together with what it has computed. -/
def modifyVariable (p : Progress) (i : Nat) (f : Variable → Variable)
    (g : VariableState → VariableState) : Progress :=
  { p with
    report := { p.report with vars := p.report.vars.modify i f }
    values := { p.values with vars := p.values.vars.modify i g } }

/-- Evaluates a stage of a variable, if it has it. -/
def evaluateStage (pass : Pass) (i : Nat) (p : Progress) (k : Nat) : Progress :=
  match p.report.vars[i]?.bind fun v => v.stages[k]?.join with
  | none => p
  | some x =>
    let (x, value) := x.evaluate (p.context pass (some i))
    p.modifyVariable i (fun v => { v with stages := v.stages.set k (some x) })
      fun s => { s with stages := s.stages.modify k fun ring => ring.push .current value }

/-- The value that a row gives to an aggregate. Without a base expression every row counts. -/
def baseValue (v : Variable) (s : VariableState) : Value :=
  match v.stages[0]?.join, s.stages[0]? with
  | some _, some ring => ring.current
  | _, _ => .ofInt 1

/-- Computes the result of a variable from its stages. -/
def evaluateResult (pass : Pass) (i : Nat) (p : Progress) : Progress :=
  match p.report.vars[i]?, p.values.vars[i]? with
  | some v, some s =>
    match v.kind, v.result with
    | .custom, some x =>
      let (x, value) := x.evaluate (p.context pass (some i))
      p.modifyVariable i (fun v => { v with result := some x })
        fun s => { s with result := s.result.push .current value }
    | .custom, none =>
      p.modifyVariable i id fun s => { s with result := s.result.push .current (.null .number) }
    | kind, _ =>
      let (accumulator, value) :=
        s.accumulator.add kind (baseValue v s) p.workspace.settings.precision
      p.modifyVariable i id
        fun s => { s with accumulator, result := s.result.push .current value }
  | _, _ => p

/-- Evaluates a variable; it sees the new values of those before it. -/
def evaluateVariable (pass : Pass) (p : Progress) (i : Nat) : Progress :=
  evaluateResult pass i ((List.range 3).foldl (evaluateStage pass i) p)

def evaluateVariables (p : Progress) (pass : Pass) : Progress :=
  (List.range p.report.vars.length).foldl (evaluateVariable pass) p

/-! Expressions -/

def evaluateExpressions (p : Progress) : Progress :=
  let c := p.context .final none
  { p with report := { p.report with
      expressions := p.report.expressions.map fun e =>
        { e with computation := (e.computation.evaluate c).1 } } }

/-! What is seen of a run -/

/-- The value of the expression at a position. -/
def expressionAt? (p : Progress) (i : Nat) : Option Value :=
  (p.report.expressions[i]?).map fun e => e.computation.result (p.scope .final none) .current

/-- The value of the first expression of a name. -/
def expression? (p : Progress) (name : String) : Option Value := do
  p.expressionAt? (← p.report.expressions.findIdx? fun e => e.name = some name)

def lookup? (p : Progress) (source : Option Source) : Option Value :=
  source.bind fun s => (p.scope .final none).lookup? s .current

/-- The value of a variable; a precalculated one has the last value of its group. -/
def result? (p : Progress) (name : String) : Option Value :=
  p.lookup? ((p.scope .final none).reportVariable? name)

def column? (p : Progress) (name : ColumnName) : Option Value :=
  p.lookup? ((p.scope .final none).column? name)

/-- The number of rows since a break. -/
def breakRow? (p : Progress) (name : String) : Option Value :=
  p.lookup? ((p.scope .final none).breakRowNumber? name)

end Progress
end Reporting
