import Reporting.Report.Progress
/-!
Running a report: its names are bound, the last values of groups are computed in advance if a
variable asks for them, and then the rows are gone through for good.
-/
namespace Reporting

/-! Binding names -/

namespace Report

/-- The main query of a report. -/
def mainQuery (r : Report) (w : Workspace) : Except Error QueryId :=
  match r.query with
  | some name => match w.queries.idOf? name with
    | some id => .ok id
    | none => .error (.unknownQuery name)
  | none => match w.queries.ids.head? with
    | some id => .ok id
    | none => .error .noMainQuery

/-- The names of a report that is resolved so far. -/
def resolvedScope (r : Report) (queries : Scope) (stagesOf : Option Nat) : Scope :=
  ({ names := r.names, stagesOf } : ReportScope).onTopOf queries

/-- Adds a break with its names bound, unless it loses all of its fields. -/
def addResolvedBreak (queries : Scope) (optimize : Computation → Computation) (r : Report)
    (b : Break) : Report :=
  match b.resolve? (r.resolvedScope queries none) optimize with
  | some b => { r with breaks := r.breaks ++ [b] }
  | none => r

/-- The position of the break that makes a variable start over, if it names one. -/
def resetBreak? (r : Report) (v : Variable) : Option (Option Nat) :=
  match v.resetOnBreak with
  | none => some none
  | some name => (r.names.breakIndex? name).map some

/-- Adds a variable with its names bound, unless one of them stands for nothing. -/
def addResolvedVariable (queries : Scope) (optimize : Computation → Computation) (r : Report)
    (v : Variable) : Report :=
  let scope := r.resolvedScope queries (some r.vars.length)
  match r.resetBreak? v, v.resolve? scope optimize with
  | some resetBreak, some v => { r with vars := r.vars ++ [{ v with resetBreak }] }
  | _, _ => r

/-- Binds all names. Breaks and variables that do not fit are dropped; an expression with a name
that stands for nothing stays, and its value is an error. -/
def resolve (r : Report) (w : Workspace) (main : QueryId) : Report :=
  let queries := w.scope (some main)
  let bound := r.breaks.foldl (addResolvedBreak queries w.optimize)
    { r with breaks := [], vars := [] }
  let bound := r.vars.foldl (addResolvedVariable queries w.optimize) bound
  let s := bound.resolvedScope queries none
  { bound with
    expressions := r.expressions.map fun e =>
      { e with computation := w.optimize (e.computation.resolve s).1 } }

end Report

/-! Going through the rows -/

/-- What happens in a run. -/
inductive Event
  /-- The last values of groups are known. -/
  | precalculated
  | start
  /-- A break has triggered; its variables have not started over yet. -/
  | broke (name : String)
  | row
  | done
  deriving DecidableEq, Repr

/-- An event with what can be seen when it happens. -/
structure Observation where
  event : Event
  seen : Progress

/-- The number of rows, and of triggers of breaks. -/
structure Summary where
  rows : Nat := 0
  triggers : Nat := 0
  deriving DecidableEq, Repr

/-- What a run leaves behind. -/
structure Run where
  progress : Progress
  summary : Summary
  trace : List Observation

namespace Progress

/-- Goes to the start of the main query. -/
def rewind (p : Progress) : Except Error Progress := do
  let (workspace, outcome) := p.workspace.start p.main
  outcome
  return { p with workspace }

/-- Goes to the next row, and tells whether there is one. -/
def advance (p : Progress) : Except Error (Progress × Bool) := do
  let (workspace, produced) ← p.workspace.next p.main
  return ({ p with workspace, row := if produced then p.row + 1 else p.row }, produced)

/-- More than the number of rows that there can be. -/
def rowBound (p : Progress) : Nat :=
  let s := p.workspace.queries
  s.stepBound (s.slots.size + 1) p.main

/-- Computes the breaks and variables of a row. -/
def precalculateRow (p : Progress) : Progress :=
  let (p, fired) := p.evaluateBreaks .ahead
  let p := match fired with
    | some first => p.resetVariables .ahead first
    | none => p
  p.evaluateVariables .ahead

/-- Computes at most `n` rows. -/
def precalculateRows : (n : Nat) → Progress → Except Error Progress
  | 0, p => .ok p
  | n + 1, p => do
    match ← p.advance with
    | (p, true) => precalculateRows n p.precalculateRow
    | (p, false) => return p

/-- Finds the last values of all groups, and goes to the first group. -/
def precalculate (p : Progress) : Except Error Progress := do
  let p ← p.rewind
  let p ← precalculateRows p.rowBound p
  let finals := p.values.vars.map fun s => s.saveFinal.finals
  let p := p.reset
  let start (v : Variable) (finals : List Value) : VariableState :=
    if v.precalculated then { finals : VariableState }.loadFinal else {}
  let vars := List.zipWith start p.report.vars finals
  return { p with values := { p.values with vars } }

/-- The events of a row, with the number of breaks that trigger. -/
def renderRow (p : Progress) : Progress × Nat × List Observation :=
  let (p, fired) := p.evaluateBreaks .final
  let triggered := match fired with
    | some first => p.report.breaks.drop first
    | none => []
  let seen := triggered.map fun b => ⟨.broke b.name, p⟩
  let p := match fired with
    | some first => p.resetVariables .final first
    | none => p
  let p := (p.evaluateVariables .final).evaluateExpressions
  (p, triggered.length, seen ++ [⟨.row, p⟩])

/-- The events of at most `n` rows. -/
def renderRows : (n : Nat) → Progress → Summary → Except Error Run
  | 0, p, summary => .ok { progress := p, summary, trace := [] }
  | n + 1, p, summary => do
    match ← p.advance with
    | (p, true) =>
      let (p, triggers, seen) := p.renderRow
      let run ← renderRows n p ⟨summary.rows + 1, summary.triggers + triggers⟩
      return { run with trace := seen ++ run.trace }
    | (p, false) => return { progress := p, summary, trace := [] }

end Progress

/-- The report before its run, with all names bound. -/
def Report.prepare (r : Report) (w : Workspace) : Except Error Progress := do
  r.breaks.forM Break.check
  let main ← r.mainQuery w
  let p : Progress := { workspace := w, report := r.resolve w main, main, values := {} }
  return p.reset

/-- Runs a report. -/
def Report.run (r : Report) (w : Workspace) : Except Error Run := do
  let p ← r.prepare w
  let ahead := p.report.vars.any (·.precalculated)
  let p ← if ahead then p.precalculate else pure p
  let before : List Observation := if ahead then [⟨.precalculated, p⟩] else []
  let first ← p.rewind
  let run ← first.renderRows first.rowBound {}
  return { run with trace := before ++ ⟨.start, p⟩ :: run.trace ++ [⟨.done, run.progress⟩] }

end Reporting
