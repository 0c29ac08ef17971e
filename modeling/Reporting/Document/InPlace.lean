import Reporting.Edit
import Reporting.Layout
import Reporting.Report.Basic
import Reporting.Workspace
/-!
Building a document step by step in place. Each computation makes its checks and its changes one
after another, and those that need several changes pass through states that are half built.
-/
namespace Reporting

open Edit (check change)

/-! Queries -/

namespace QueryStore.InPlace

/-- Changes a query, which must be there. -/
def changeQuery (id : QueryId) (f : Query → Query) : Edit QueryStore Unit := do
  let _ ← check ((← get).require id)
  change (·.modify id f)

/-- The families are no longer known. -/
def touch : Edit QueryStore Unit := change fun s => { s with dirty := true }

/-- Adds a query, whose name must be new. -/
def insert (q : Query) : Edit QueryStore QueryId := do
  let s ← get
  if (s.idOf? q.name).isSome then throw (.duplicateQuery q.name)
  change fun s => { s with slots := s.slots.push (some q) }
  touch
  return ⟨s.slots.size⟩

/-- Enters an edge of the forest, first on the side of the leader. -/
def attach (leader follower : QueryId) (f : Query → Query) : Edit QueryStore Unit := do
  check ((← get).checkFollower leader follower)
  changeQuery leader f
  changeQuery follower fun q => { q with leader := some leader }
  touch

/-- Removes a query. Its slot is emptied before it is known whether there was a query. -/
def remove (id : QueryId) : Edit QueryStore Unit := do
  let taken := (← get).get? id
  change fun s => { s with slots := s.slots.setIfInBounds id.index none }
  if taken.isNone then throw (.unknownQueryId id)
  change fun s => { s with slots := s.slots.map (Option.map (·.detach id)) }
  touch

/-- Goes to the start of a query and all that follows it. -/
def start (id : QueryId) : Edit QueryStore Unit := do
  change (·.finalize)
  let _ ← check ((← get).require id)
  change (·.rewindFamily id)

/-- Produces the next row of a query and all that follows it, and tells whether there is one. -/
def next (settings : Settings) (id : QueryId) : Edit QueryStore Bool := do
  let s ← get
  let _ ← check (s.require id)
  let (s, produced) := stepWithin settings (s.slots.size + 1) s id
  set s
  if produced then change (·.commitFamily id)
  return produced

end QueryStore.InPlace

/-! The workspace -/

namespace Workspace.InPlace

def queriesOf : Focus Workspace QueryStore where
  get w := .ok w.queries
  put w queries := { w with queries }
  put_get h := by cases h; rfl

/-- Adds a data source. A name that exists is accepted with the same driver. -/
def addDatasource (name driver : String) : Edit Workspace Unit := do
  match (← get).datasource? name with
  | some d => if d.driver.name ≠ driver then throw (.datasourceConflict name)
  | none =>
    let driver ← check (Driver.find driver)
    change fun w => { w with datasources := w.datasources ++ [{ name, driver }] }

/-- Sets how the queries of a data source that are opened later store their texts. Without such a
data source there is nothing to do. -/
def setEncoding (name : String) (encoding : Option String) : Edit Workspace Unit := do
  match (← get).datasources.findIdx? fun d => d.name = name with
  | none => return ()
  | some i =>
    let encoding ← check (Encoding.findAny encoding)
    change fun w => { w with datasources := w.datasources.modify i fun d => { d with encoding } }

/-- Opens a query. -/
def addQuery (name datasource : String) (source : QuerySource) : Edit Workspace QueryId := do
  let w ← get
  if (w.queries.idOf? name).isSome then throw (.duplicateQuery name)
  match w.datasource? datasource with
  | none => throw (.unknownDatasource datasource)
  | some d =>
    let t ← check (d.driver.serve name source)
    queriesOf.edit (QueryStore.InPlace.insert (.ofTable name datasource t d.encoding))

def removeQuery (id : QueryId) : Edit Workspace Unit :=
  queriesOf.edit (QueryStore.InPlace.remove id)

def addFollower (leader follower : QueryId) : Edit Workspace Unit :=
  queriesOf.edit (QueryStore.InPlace.attach leader follower fun q =>
    { q with followers := q.followers ++ [follower] })

def addMatched (leader follower : QueryId) (condition : String) : Edit Workspace Unit := do
  let w ← get
  let x ← check (w.compiler.compileText condition)
  check (checkCondition x)
  let condition := w.optimize (x.resolve (w.queries.scope none (some leader))).1
  queriesOf.edit (QueryStore.InPlace.attach leader follower fun q =>
    { q with matched := q.matched ++ [⟨follower, condition⟩] })

def start (id : QueryId) : Edit Workspace Unit := queriesOf.edit (QueryStore.InPlace.start id)

def next (id : QueryId) : Edit Workspace Bool := do
  queriesOf.edit (QueryStore.InPlace.next (← get).settings id)

end Workspace.InPlace

/-! The layout -/

namespace Layout.InPlace

variable {α : Type}

def newPart : Edit (Layout α) Nat := do
  change fun l => ⟨l.parts ++ [⟨[]⟩]⟩
  return (← get).parts.length - 1

def newRow (part : Nat) : Edit (Layout α) RowId := do
  match (← get).part? part with
  | none => throw (.invalidLayout .part)
  | some p =>
    change (·.modifyPart part fun p => ⟨p.rows ++ [⟨[]⟩]⟩)
    return ⟨part, p.rows.length⟩

def newColumn (row : RowId) : Edit (Layout α) ColumnId := do
  match (← get).row? row with
  | none => throw (.invalidLayout .row)
  | some r =>
    change (·.modifyRow row fun r => ⟨r.columns ++ [⟨[]⟩]⟩)
    return ⟨row.part, row.row, r.columns.length⟩

def newReport (column : ColumnId) (a : α) : Edit (Layout α) ReportId := do
  match (← get).column? column with
  | none => throw (.invalidLayout .column)
  | some c =>
    change (·.modifyColumn column fun c => ⟨c.reports ++ [a]⟩)
    return ⟨column.part, column.row, column.column, c.reports.length⟩

/-- The last row of a part, which is added if there is none. -/
def lastRow (part : Nat) : Edit (Layout α) RowId := do
  match (← get).part? part with
  | some p => if p.rows.isEmpty then newRow part else return ⟨part, p.rows.length - 1⟩
  | none => throw (.invalidLayout .part)

/-- The last column of a row, which is added if there is none. -/
def lastColumn (row : RowId) : Edit (Layout α) ColumnId := do
  match (← get).row? row with
  | some r =>
    if r.columns.isEmpty then newColumn row else return ⟨row.part, row.row, r.columns.length - 1⟩
  | none => throw (.invalidLayout .row)

/-- The part of a number; without a number, the last part, which is added if there is none. -/
def partOrLast : Option Nat → Edit (Layout α) Nat
  | some part => return part
  | none => do
    let l ← get
    if l.parts.isEmpty then newPart else return l.parts.length - 1

/-- Adds a report below the last one of a part. The nodes that it needs are added before it. -/
def append (part : Option Nat) (a : α) : Edit (Layout α) ReportId := do
  let part ← partOrLast part
  let row ← lastRow part
  let column ← lastColumn row
  newReport column a

end Layout.InPlace

/-! Reports -/

namespace Report.InPlace

/-- Adds a break inside the others. -/
def newBreak (c : Compiler) (d : BreakDef) : Edit Report Unit := do
  if (← get).breaks.any fun b => b.name = d.name then throw (.duplicateBreak d.name)
  let b ← check (Break.compile c d)
  change fun r => { r with breaks := r.breaks ++ [b] }

/-- Adds a field to a break. -/
def addBreakField (c : Compiler) (name text : String) : Edit Report Unit := do
  match (← get).breaks.findIdx? fun b => b.name = name with
  | none => throw (.unknownBreak name)
  | some i =>
    let x ← check (c.compileText text)
    change fun r =>
      { r with breaks := r.breaks.modify i fun b => { b with fields := b.fields ++ [x] } }

def newVariable (c : Compiler) (d : VariableDef) : Edit Report Unit := do
  let v ← check (Variable.compile c (← get).vars d)
  change fun r => { r with vars := r.vars ++ [v] }

/-- Adds an expression, and tells its position. -/
def addExpression (c : Compiler) (name : Option String) (text : String) : Edit Report Nat := do
  let x ← check (c.compileText text)
  change fun r => { r with expressions := r.expressions ++ [⟨name, x⟩] }
  return (← get).expressions.length - 1

end Report.InPlace
end Reporting
