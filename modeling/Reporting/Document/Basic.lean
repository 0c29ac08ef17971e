import Reporting.Layout
import Reporting.Report.Run
/-!
Documents: reports in a layout, with the workspace that they share.
-/
namespace Reporting

/-- A document. -/
structure Document where
  workspace : Workspace
  layout : Layout Report := {}

namespace Document

def ofConfig (c : Config) (clock : Clock) : Document := { workspace := .ofConfig c clock }

/-- The query of a name. -/
def query (d : Document) (name : String) : Except Error QueryId :=
  match d.workspace.queries.idOf? name with
  | some id => .ok id
  | none => .error (.unknownQuery name)

def report (d : Document) (id : ReportId) : Except Error Report :=
  match d.layout.report? id with
  | some r => .ok r
  | none => .error (.invalidLayout .report)

/-- Lets a query go along with another one row by row. -/
def addFollower (d : Document) (leader follower : String) : Except Error Document := do
  let leader ← d.query leader
  let follower ← d.query follower
  return { d with workspace := ← d.workspace.addFollower leader follower }

/-- Lets the rows of a query be combined with those rows of another one that meet a condition. -/
def addMatched (d : Document) (leader follower condition : String) : Except Error Document := do
  let leader ← d.query leader
  let follower ← d.query follower
  return { d with workspace := ← d.workspace.addMatched leader follower condition }

/-! Layout -/

def newPart (d : Document) : Document × Nat :=
  let (layout, id) := d.layout.newPart
  ({ d with layout }, id)

def newRow (d : Document) (part : Nat) : Except Error (Document × RowId) := do
  let (layout, id) ← d.layout.newRow part
  return ({ d with layout }, id)

def newColumn (d : Document) (row : RowId) : Except Error (Document × ColumnId) := do
  let (layout, id) ← d.layout.newColumn row
  return ({ d with layout }, id)

def newReport (d : Document) (column : ColumnId) (r : Report) :
    Except Error (Document × ReportId) := do
  let (layout, id) ← d.layout.newReport column r
  return ({ d with layout }, id)

/-- Adds a report below the last one of a part, or of the last part. -/
def appendReport (d : Document) (part : Option Nat) (r : Report) :
    Except Error (Document × ReportId) := do
  let (layout, id) ← d.layout.append part r
  return ({ d with layout }, id)

def findReport? (d : Document) (name : String) : Option ReportId :=
  d.layout.find? fun r => r.name = some name

/-! Building reports -/

def setReport (d : Document) (id : ReportId) (r : Report) : Document :=
  { d with layout := d.layout.modify id fun _ => r }

def setMainQuery (d : Document) (id : ReportId) (query : String) : Except Error Document := do
  let _ ← d.query query
  let r ← d.report id
  return d.setReport id { r with query := some query }

def newBreak (d : Document) (id : ReportId) (b : BreakDef) : Except Error Document := do
  let r ← d.report id
  return d.setReport id (← r.newBreak d.workspace.compiler b)

def addBreakField (d : Document) (id : ReportId) (name text : String) : Except Error Document := do
  let r ← d.report id
  return d.setReport id (← r.addBreakField d.workspace.compiler name text)

def newVariable (d : Document) (id : ReportId) (v : VariableDef) : Except Error Document := do
  let r ← d.report id
  return d.setReport id (← r.newVariable d.workspace.compiler v)

/-- Adds an expression to a report, and tells its position. -/
def addExpression (d : Document) (id : ReportId) (name : Option String) (text : String) :
    Except Error (Document × Nat) := do
  let r ← d.report id
  let (r, i) ← r.addExpression d.workspace.compiler name text
  return (d.setReport id r, i)

/-! Running -/

/-- Runs a report. -/
def executeReport (d : Document) (id : ReportId) : Except Error (Document × Run) := do
  let r ← d.report id
  let run ← r.run d.workspace
  return ({ d with workspace := run.progress.workspace }.setReport id run.progress.report, run)

/-- Runs reports one after another up to the first that is refused, and tells why it was. -/
def executeAll (d : Document) : List ReportId → Document × List (ReportId × Run) × Option Error
  | [] => (d, [], none)
  | id :: ids => match d.executeReport id with
    | .error e => (d, [], some e)
    | .ok (d, run) =>
      let (d, runs, e) := d.executeAll ids
      (d, (id, run) :: runs, e)

/-- Runs all reports in the order of the document. -/
def execute (d : Document) : Document × List (ReportId × Run) × Option Error :=
  d.executeAll d.layout.reportIds

end Document
end Reporting
