import Reporting.Document.Basic
import Reporting.Document.InPlace
/-!
Documents as they are held: a report keeps its observers and the state of its last run, and every
step of building or running changes the document in place.
-/
namespace Reporting

open Edit (check change)

/-! Observers -/

/-- An observer of a run, by all that it was told. -/
abbrev Observer := List Observation

/-- The observers of a report, by what they are told. -/
structure Observers where
  start : List Observer := []
  done : List Observer := []
  row : List Observer := []
  breaks : List Observer := []
  precalculated : List Observer := []

/-- Tells an observation to those whom it concerns. -/
def Observers.tell (o : Observers) (seen : Observation) : Observers :=
  let told (observers : List Observer) : List Observer := observers.map fun log => log ++ [seen]
  match seen.event with
  | .start => { o with start := told o.start }
  | .done => { o with done := told o.done }
  | .row => { o with row := told o.row }
  | .broke _ => { o with breaks := told o.breaks }
  | .precalculated => { o with precalculated := told o.precalculated }

def Observers.tellAll (o : Observers) (trace : List Observation) : Observers :=
  trace.foldl tell o

/-! Reports -/

/-- What the last run of a report has left. -/
structure LastRun where
  main : Option QueryId := none
  names : ReportNames := {}
  row : Nat := 0
  values : ReportValues := {}

structure LiveReport where
  report : Report
  observers : Observers := {}
  last : LastRun := {}

/-- A report and the workspace that it is run on. -/
structure Bench where
  workspace : Workspace
  report : LiveReport
  /-- The observers that were taken out of the report for a run. -/
  taken : Observers := {}

namespace Bench

def workspaceOf : Focus Bench Workspace where
  get b := .ok b.workspace
  put b workspace := { b with workspace }
  put_get h := by cases h; rfl

/-- The run that is under way. -/
def progress (b : Bench) (main : QueryId) : Progress :=
  { workspace := b.workspace
    report := b.report.report
    main
    row := b.report.last.row
    values := b.report.last.values }

def put (b : Bench) (p : Progress) : Bench :=
  let last := { b.report.last with row := p.row, values := p.values }
  { b with workspace := p.workspace, report := { b.report with report := p.report, last } }

def setMain (b : Bench) (main : QueryId) : Bench :=
  { b with report := { b.report with last := { b.report.last with main := some main } } }

def setNames (b : Bench) (names : ReportNames) : Bench :=
  { b with report := { b.report with last := { b.report.last with names } } }

def setReport (b : Bench) (report : Report) : Bench :=
  { b with report := { b.report with report } }

/-- Takes the observers out of the report. -/
def takeObservers (b : Bench) : Bench :=
  { b with report := { b.report with observers := {} }, taken := b.report.observers }

/-- Gives the observers back to the report. -/
def returnObservers (b : Bench) : Bench :=
  { b with report := { b.report with observers := b.taken }, taken := {} }

def tell (b : Bench) (trace : List Observation) : Bench := { b with taken := b.taken.tellAll trace }

/-! Running -/

/-- Forgets the names of the last run, and binds all names anew. -/
def resolve (main : QueryId) : Edit Bench Unit := do
  change (·.setNames {})
  change fun b => b.setReport (b.report.report.resolve b.workspace main)
  change fun b => b.setNames b.report.report.names
  change fun b => b.put (b.progress main).reset

def announce (main : QueryId) (event : Event) : Edit Bench Unit :=
  change fun b => b.tell [⟨event, b.progress main⟩]

/-- Goes to the start of the main query. -/
def rewind (main : QueryId) : Edit Bench Unit := workspaceOf.edit (Workspace.InPlace.start main)

/-- Goes to the next row, and tells whether there is one. -/
def advance (main : QueryId) : Edit Bench Bool := do
  let produced ← workspaceOf.edit (Workspace.InPlace.next main)
  if produced then
    change fun b => b.put { b.progress main with row := b.report.last.row + 1 }
  return produced

/-- More than the number of rows that there can be. -/
def rowBound (main : QueryId) : Edit Bench Nat := do return ((← get).progress main).rowBound

/-- Computes at most `n` rows. -/
def precalculateRows (main : QueryId) : (n : Nat) → Edit Bench Unit
  | 0 => return ()
  | n + 1 => do
    if ← advance main then
      change fun b => b.put (b.progress main).precalculateRow
      precalculateRows main n

/-- Forgets the pass that has found the last values of the groups, and goes to the first group. -/
def loadFinals (p : Progress) : Progress :=
  let finals := p.values.vars.map fun s => s.saveFinal.finals
  let p := p.reset
  let first (v : Variable) (finals : List Value) : VariableState :=
    if v.precalculated then { finals : VariableState }.loadFinal else {}
  { p with values := { p.values with vars := List.zipWith first p.report.vars finals } }

def precalculate (main : QueryId) : Edit Bench Unit := do
  rewind main
  precalculateRows main (← rowBound main)
  change fun b => b.put (loadFinals (b.progress main))

/-- Goes through at most `n` rows for good. -/
def renderRows (main : QueryId) : (n : Nat) → Summary → Edit Bench Summary
  | 0, summary => return summary
  | n + 1, summary => do
    if ← advance main then
      let (p, triggers, seen) := ((← get).progress main).renderRow
      change fun b => (b.put p).tell seen
      renderRows main n ⟨summary.rows + 1, summary.triggers + triggers⟩
    else return summary

def render (main : QueryId) : Edit Bench Summary := do
  rewind main
  renderRows main (← rowBound main) {}

/-- Finds the last values of all groups, if a variable asks for them. -/
def lookAhead (main : QueryId) : Edit Bench Unit := do
  if (← get).report.report.vars.any (·.precalculated) then
    precalculate main
    announce main .precalculated

def passes (main : QueryId) : Edit Bench Summary := do
  lookAhead main
  announce main .start
  let summary ← render main
  announce main .done
  return summary

/-- Runs the report. Its observers come back whatever becomes of the run. -/
def run : Edit Bench Summary := do
  let b ← get
  check (b.report.report.breaks.forM Break.check)
  let main ← check (b.report.report.mainQuery b.workspace)
  change (·.setMain main)
  resolve main
  change takeObservers
  try passes main
  finally change returnObservers

end Bench

/-! Documents -/

/-- A document as it is held. -/
structure Live where
  workspace : Workspace
  layout : Layout LiveReport := {}

namespace Live

def ofConfig (c : Config) (clock : Clock) : Live := { workspace := .ofConfig c clock }

/-- The document without observers and without what the last runs have left. -/
def document (s : Live) : Document := { workspace := s.workspace, layout := s.layout.map (·.report) }

def workspaceOf : Focus Live Workspace where
  get s := .ok s.workspace
  put s workspace := { s with workspace }
  put_get h := by cases h; rfl

def layoutOf : Focus Live (Layout LiveReport) where
  get s := .ok s.layout
  put s layout := { s with layout }
  put_get h := by cases h; rfl

/-- A report with its observers and the state of its last run. -/
def report (s : Live) (id : ReportId) : Except Error LiveReport :=
  match s.layout.report? id with
  | some r => .ok r
  | none => .error (.invalidLayout .report)

theorem report?_of_report {s : Live} {id : ReportId} {r : LiveReport} (h : s.report id = .ok r) :
    s.layout.report? id = some r := by
  unfold report at h
  split at h
  · rename_i hr
    cases h
    exact hr
  · cases h

def reportOf (id : ReportId) : Focus Live Report where
  get s := do return (← s.report id).report
  put s report := { s with layout := s.layout.modify id fun r => { r with report } }
  put_get {s t} h := by
    cases hr : s.report id with
    | error e =>
      rw [hr] at h
      cases h
    | ok r =>
      rw [hr] at h
      cases h
      exact congrArg (Live.mk s.workspace) (Layout.modify_of_report? (report?_of_report hr) rfl)

def benchOf (id : ReportId) : Focus Live Bench where
  get s := do return { workspace := s.workspace, report := ← s.report id }
  put s b := { workspace := b.workspace, layout := s.layout.modify id fun _ => b.report }
  put_get {s t} h := by
    cases hr : s.report id with
    | error e =>
      rw [hr] at h
      cases h
    | ok r =>
      rw [hr] at h
      cases h
      exact congrArg (Live.mk s.workspace) (Layout.modify_of_report? (report?_of_report hr) rfl)

/-- The query of a name. -/
def query (name : String) : Edit Live QueryId := do check ((← get).document.query name)

def addFollower (leader follower : String) : Edit Live Unit := do
  let leader ← query leader
  let follower ← query follower
  workspaceOf.edit (Workspace.InPlace.addFollower leader follower)

def addMatched (leader follower condition : String) : Edit Live Unit := do
  let leader ← query leader
  let follower ← query follower
  workspaceOf.edit (Workspace.InPlace.addMatched leader follower condition)

def setMainQuery (id : ReportId) (name : String) : Edit Live Unit := do
  let _ ← query name
  (reportOf id).edit (change fun r => { r with query := some name })

/-- Builds a report with the functions and settings of the document. -/
def build {α : Type} (id : ReportId) (x : Compiler → Edit Report α) : Edit Live α := do
  (reportOf id).edit (x (← get).workspace.compiler)

def executeReport (id : ReportId) : Edit Live Summary := (benchOf id).edit Bench.run

end Live

/-! Steps -/

/-- What is added to a report. -/
inductive Addition
  | newBreak (b : BreakDef)
  | breakField (name text : String)
  | newVariable (v : VariableDef)
  | expression (name : Option String) (text : String)

namespace Addition

/-- Adds to a report in place, and tells the position of an expression. -/
def perform (c : Compiler) : Addition → Edit Report (Option Nat)
  | newBreak b => do
    Report.InPlace.newBreak c b
    return none
  | breakField name text => do
    Report.InPlace.addBreakField c name text
    return none
  | newVariable v => do
    Report.InPlace.newVariable c v
    return none
  | expression name text => do return some (← Report.InPlace.addExpression c name text)

def apply (c : Compiler) (r : Report) : Addition → Except Error (Report × Option Nat)
  | newBreak b => do return (← r.newBreak c b, none)
  | breakField name text => do return (← r.addBreakField c name text, none)
  | newVariable v => do return (← r.newVariable c v, none)
  | expression name text => do
    let (r, i) ← r.addExpression c name text
    return (r, some i)

end Addition

/-- The steps of building and running a document that may be refused, with what they tell. -/
inductive Operation : Type → Type
  | addDatasource (name driver : String) : Operation Unit
  | setEncoding (name : String) (encoding : Option String) : Operation Unit
  | addQuery (name datasource : String) (source : QuerySource) : Operation QueryId
  | removeQuery (id : QueryId) : Operation Unit
  | follow (leader follower : QueryId) : Operation Unit
  | followMatched (leader follower : QueryId) (condition : String) : Operation Unit
  /-- By the names of the queries. -/
  | addFollower (leader follower : String) : Operation Unit
  | addMatched (leader follower condition : String) : Operation Unit
  | setMainQuery (id : ReportId) (query : String) : Operation Unit
  | newBreak (id : ReportId) (b : BreakDef) : Operation Unit
  | addBreakField (id : ReportId) (name text : String) : Operation Unit
  | newVariable (id : ReportId) (v : VariableDef) : Operation Unit
  | addExpression (id : ReportId) (name : Option String) (text : String) : Operation Nat
  /-- With functions and settings that a caller brings. -/
  | build (id : ReportId) (c : Compiler) (x : Addition) : Operation (Option Nat)
  | newRow (part : Nat) : Operation RowId
  | newColumn (row : RowId) : Operation ColumnId
  | newReport (column : ColumnId) (r : LiveReport) : Operation ReportId
  | appendReport (part : Option Nat) (r : LiveReport) : Operation ReportId
  | executeReport (id : ReportId) : Operation Summary

namespace Operation

/-- What a step does to a document as it is held, change by change. -/
def perform {α : Type} : Operation α → Edit Live α
  | addDatasource name driver => Live.workspaceOf.edit (Workspace.InPlace.addDatasource name driver)
  | setEncoding name encoding => Live.workspaceOf.edit (Workspace.InPlace.setEncoding name encoding)
  | addQuery name datasource source =>
    Live.workspaceOf.edit (Workspace.InPlace.addQuery name datasource source)
  | removeQuery id => Live.workspaceOf.edit (Workspace.InPlace.removeQuery id)
  | follow leader follower => Live.workspaceOf.edit (Workspace.InPlace.addFollower leader follower)
  | followMatched leader follower condition =>
    Live.workspaceOf.edit (Workspace.InPlace.addMatched leader follower condition)
  | addFollower leader follower => Live.addFollower leader follower
  | addMatched leader follower condition => Live.addMatched leader follower condition
  | setMainQuery id query => Live.setMainQuery id query
  | newBreak id b => Live.build id fun c => Report.InPlace.newBreak c b
  | addBreakField id name text => Live.build id fun c => Report.InPlace.addBreakField c name text
  | newVariable id v => Live.build id fun c => Report.InPlace.newVariable c v
  | addExpression id name text => Live.build id fun c => Report.InPlace.addExpression c name text
  | build id c x => (Live.reportOf id).edit (x.perform c)
  | newRow part => Live.layoutOf.edit (Layout.InPlace.newRow part)
  | newColumn row => Live.layoutOf.edit (Layout.InPlace.newColumn row)
  | newReport column r => Live.layoutOf.edit (Layout.InPlace.newReport column r)
  | appendReport part r => Live.layoutOf.edit (Layout.InPlace.append part r)
  | executeReport id => Live.executeReport id

/-- A step that tells nothing. -/
def silent (result : Except Error Document) : Except Error (Document × Unit) := do
  return (← result, ())

/-- What a step makes of a document. -/
def apply {α : Type} (d : Document) : Operation α → Except Error (Document × α)
  | addDatasource name driver => silent do
    return { d with workspace := ← d.workspace.addDatasource name driver }
  | setEncoding name encoding => silent do
    return { d with workspace := ← d.workspace.setEncoding name encoding }
  | addQuery name datasource source => do
    let (workspace, id) ← d.workspace.addQuery name datasource source
    return ({ d with workspace }, id)
  | removeQuery id => silent do return { d with workspace := ← d.workspace.removeQuery id }
  | follow leader follower => silent do
    return { d with workspace := ← d.workspace.addFollower leader follower }
  | followMatched leader follower condition => silent do
    return { d with workspace := ← d.workspace.addMatched leader follower condition }
  | addFollower leader follower => silent (d.addFollower leader follower)
  | addMatched leader follower condition => silent (d.addMatched leader follower condition)
  | setMainQuery id query => silent (d.setMainQuery id query)
  | newBreak id b => silent (d.newBreak id b)
  | addBreakField id name text => silent (d.addBreakField id name text)
  | newVariable id v => silent (d.newVariable id v)
  | addExpression id name text => d.addExpression id name text
  | build id c x => do
    let r ← d.report id
    let (r, i) ← x.apply c r
    return (d.setReport id r, i)
  | newRow part => d.newRow part
  | newColumn row => d.newColumn row
  | newReport column r => d.newReport column r.report
  | appendReport part r => d.appendReport part r.report
  | executeReport id => do
    let (d, run) ← d.executeReport id
    return (d, run.summary)

end Operation
end Reporting
