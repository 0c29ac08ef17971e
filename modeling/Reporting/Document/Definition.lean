import Reporting.Document.Basic
/-!
The definition of a document, which may be read from JSON, and the document that it describes.
-/
namespace Reporting

structure DatasourceDef where
  name : String
  driver : String
  encoding : Option String := none
  deriving DecidableEq, Repr

structure QueryDef where
  name : String
  datasource : String
  source : QuerySource
  deriving Repr

/-- An edge from a query to a follower. With a condition the rows of the follower are matched. -/
structure FollowerDef where
  leader : String
  follower : String
  condition : Option String := none
  deriving DecidableEq, Repr

structure ExpressionDef where
  name : Option String := none
  text : String
  deriving DecidableEq, Repr

structure ReportDef where
  name : Option String := none
  query : Option String := none
  breaks : List BreakDef := []
  vars : List VariableDef := []
  expressions : List ExpressionDef := []
  deriving DecidableEq, Repr

/-- A document as it is defined. -/
structure Definition where
  config : Option Config := none
  datasources : List DatasourceDef := []
  queries : List QueryDef := []
  followers : List FollowerDef := []
  layout : Layout ReportDef := {}

/-! Reading -/

open Json

/-- A list that may be absent. -/
def Json.listOrNone? (read : Json → Option α) : Option Json → Option (List α) :=
  orElse? (list? read) []

def Table.ofJson? (j : Json) : Option Table := do
  match ← j.fields? ["rows", "types"] with
  | [rows, kinds] =>
    let rows ← required? (list? (list? (nullable? text?))) rows
    let kinds ← listOrNone? (fun j => j.name?.bind Kind.ofName?) kinds
    return { rows, kinds }
  | _ => none

/-- A text or a table, told by the only member of an object. -/
def QuerySource.ofJson? : Json → Option QuerySource
  | .object [("text", s)] => s.text?.map .text
  | .object [("array", t)] => (Table.ofJson? t).map .table
  | _ => none

def BreakDef.ofJson? (j : Json) : Option BreakDef := do
  match ← j.fields? ["name", "fields", "newpage", "headernewpage", "suppressblank"] with
  | [name, fields, newPage, headerNewPage, suppressBlank] =>
    let name ← required? text? name
    let fields ← listOrNone? text? fields
    let newPage ← optional? text? newPage
    let headerNewPage ← optional? text? headerNewPage
    let suppressBlank ← optional? text? suppressBlank
    return { name, fields, newPage, headerNewPage, suppressBlank }
  | _ => none

def VariableDef.ofJson? (j : Json) : Option VariableDef := do
  match ← j.fields? ["name", "kind", "base", "intermediate", "intermediate2", "result",
    "reset_on_break", "precalculate"] with
  | [name, kind, base, intermediate, intermediate2, result, resetOnBreak, precalculated] =>
    let name ← required? text? name
    let kind ← required? (fun j => j.name?.bind VariableKind.ofName?) kind
    let base ← optional? text? base
    let intermediate ← optional? text? intermediate
    let intermediate2 ← optional? text? intermediate2
    let result ← optional? text? result
    let resetOnBreak ← optional? text? resetOnBreak
    let precalculated ← orElse? bool? false precalculated
    return { name, kind, base, intermediate, intermediate2, result, resetOnBreak, precalculated }
  | _ => none

def DatasourceDef.ofJson? (j : Json) : Option DatasourceDef := do
  match ← j.fields? ["name", "driver", "encoding"] with
  | [name, driver, encoding] =>
    let name ← required? text? name
    let driver ← required? text? driver
    let encoding ← optional? text? encoding
    return { name, driver, encoding }
  | _ => none

def QueryDef.ofJson? (j : Json) : Option QueryDef := do
  match ← j.fields? ["name", "datasource", "source"] with
  | [name, datasource, source] =>
    let name ← required? text? name
    let datasource ← required? text? datasource
    let source ← required? QuerySource.ofJson? source
    return { name, datasource, source }
  | _ => none

def FollowerDef.ofJson? (j : Json) : Option FollowerDef := do
  match ← j.fields? ["leader", "follower", "match"] with
  | [leader, follower, condition] =>
    let leader ← required? text? leader
    let follower ← required? text? follower
    let condition ← optional? text? condition
    return { leader, follower, condition }
  | _ => none

def ExpressionDef.ofJson? (j : Json) : Option ExpressionDef := do
  match ← j.fields? ["name", "text"] with
  | [name, text] =>
    let name ← optional? text? name
    let text ← required? text? text
    return { name, text }
  | _ => none

def ReportDef.ofJson? (j : Json) : Option ReportDef := do
  match ← j.fields? ["name", "query", "breaks", "variables", "expressions"] with
  | [name, query, breaks, vars, expressions] =>
    let name ← optional? text? name
    let query ← optional? text? query
    let breaks ← listOrNone? BreakDef.ofJson? breaks
    let vars ← listOrNone? VariableDef.ofJson? vars
    let expressions ← listOrNone? ExpressionDef.ofJson? expressions
    return { name, query, breaks, vars, expressions }
  | _ => none

/-- The children of a node of the layout, which are its only field. -/
def Json.children? (name : String) (read : Json → Option α) (j : Json) : Option (List α) := do
  match ← j.fields? [name] with
  | [items] => listOrNone? read items
  | _ => none

/-- The parts of a layout with all their nodes. -/
def Layout.ofJson? (read : Json → Option α) (parts : Option Json) : Option (Layout α) := do
  let column (j : Json) : Option (Layout.Column α) := do return ⟨← j.children? "reports" read⟩
  let row (j : Json) : Option (Layout.Row α) := do return ⟨← j.children? "columns" column⟩
  let part (j : Json) : Option (Layout.Part α) := do return ⟨← j.children? "rows" row⟩
  return ⟨← listOrNone? part parts⟩

def Definition.ofJson? (j : Json) : Option Definition := do
  match ← j.fields? ["config", "datasources", "queries", "followers", "parts"] with
  | [config, datasources, queries, followers, parts] =>
    let config ← optional? Config.ofJson? config
    let datasources ← listOrNone? DatasourceDef.ofJson? datasources
    let queries ← listOrNone? QueryDef.ofJson? queries
    let followers ← listOrNone? FollowerDef.ofJson? followers
    let layout ← Layout.ofJson? ReportDef.ofJson? parts
    return { config, datasources, queries, followers, layout }
  | _ => none

/-! Building -/

namespace Document

def addDatasourceDef (d : Document) (s : DatasourceDef) : Except Error Document := do
  let workspace ← d.workspace.addDatasource s.name s.driver
  return { d with workspace := ← workspace.setEncoding s.name s.encoding }

def addQueryDef (d : Document) (q : QueryDef) : Except Error Document := do
  let (workspace, _) ← d.workspace.addQuery q.name q.datasource q.source
  return { d with workspace }

def addFollowerDef (d : Document) (f : FollowerDef) : Except Error Document :=
  match f.condition with
  | some condition => d.addMatched f.leader f.follower condition
  | none => d.addFollower f.leader f.follower

/-- Adds a report with all that its definition holds. -/
def addReportDef (column : ColumnId) (d : Document) (r : ReportDef) : Except Error Document := do
  let (d, id) ← d.newReport column { name := r.name }
  let d ← match r.query with
    | some query => d.setMainQuery id query
    | none => pure d
  let d ← r.breaks.foldlM (fun d b => d.newBreak id b) d
  let d ← r.vars.foldlM (fun d v => d.newVariable id v) d
  r.expressions.foldlM (fun d e => do return (← d.addExpression id e.name e.text).1) d

def addColumnDef (row : RowId) (d : Document) (c : Layout.Column ReportDef) :
    Except Error Document := do
  let (d, column) ← d.newColumn row
  c.reports.foldlM (addReportDef column) d

def addRowDef (part : Nat) (d : Document) (r : Layout.Row ReportDef) : Except Error Document := do
  let (d, row) ← d.newRow part
  r.columns.foldlM (addColumnDef row) d

def addPartDef (d : Document) (p : Layout.Part ReportDef) : Except Error Document :=
  let (d, part) := d.newPart
  p.rows.foldlM (addRowDef part) d

/-- The document of a definition: its data sources come first, then queries, followers and
reports. -/
def ofDefinition (definition : Definition) (clock : Clock) : Except Error Document := do
  let d := ofConfig (definition.config.getD {}) clock
  let d ← definition.datasources.foldlM addDatasourceDef d
  let d ← definition.queries.foldlM addQueryDef d
  let d ← definition.followers.foldlM addFollowerDef d
  definition.layout.parts.foldlM addPartDef d

end Document
end Reporting
