import Reporting.Datasource
import Reporting.Query.Navigation
/-!
The settings, functions, data sources and queries that the reports of a document share.
-/
namespace Reporting

/-- What the reports of a document share. -/
structure Workspace where
  settings : Settings
  functions : FunctionTable := {}
  environment : Environment := []
  datasources : List Datasource := []
  queries : QueryStore := {}

namespace Workspace

def ofConfig (c : Config) (clock : Clock) : Workspace := { settings := c.settings clock }

/-- Changes the settings. Literals that were compiled before keep their values. -/
def setConfig (w : Workspace) (c : Config) : Workspace :=
  { w with settings := c.settings w.settings.clock }

def compiler (w : Workspace) : Compiler :=
  { functions := w.functions, precision := w.settings.precision, dateOrder := w.settings.dateOrder }

/-- Simplifies an expression with the settings of the workspace. -/
def optimize (w : Workspace) (x : Computation) : Computation :=
  x.optimize w.settings.precision w.settings.dateOrder

/-- The queries and the environment, with a query whose names come first. -/
def scope (w : Workspace) (default : Option QueryId) : Scope :=
  w.queries.scope (some w.environment) default

/-! Data sources -/

def datasource? (w : Workspace) (name : String) : Option Datasource :=
  w.datasources.find? fun d => d.name = name

/-- Adds a data source. A name that exists is accepted with the same driver. -/
def addDatasource (w : Workspace) (name driver : String) : Except Error Workspace :=
  match w.datasource? name with
  | some d => if d.driver.name = driver then .ok w else .error (.datasourceConflict name)
  | none => do
    return { w with datasources := w.datasources ++ [{ name, driver := ← Driver.find driver }] }

/-- Sets how the queries of a data source that are opened later store their texts. -/
def setEncoding (w : Workspace) (name : String) (encoding : Option String) :
    Except Error Workspace := do
  let datasources ← w.datasources.mapM fun d =>
    if d.name = name then d.setEncoding encoding else .ok d
  return { w with datasources }

/-! Queries -/

/-- Opens a query. -/
def addQuery (w : Workspace) (name datasource : String) (source : QuerySource) :
    Except Error (Workspace × QueryId) := do
  if (w.queries.idOf? name).isSome then throw (.duplicateQuery name)
  match w.datasource? datasource with
  | none => throw (.unknownDatasource datasource)
  | some d =>
    let t ← d.driver.serve name source
    let (queries, id) ← w.queries.insert (.ofTable name datasource t d.encoding)
    return ({ w with queries }, id)

/-- Sets how a query stores the texts of the rows that are read later. -/
def setQueryEncoding (w : Workspace) (id : QueryId) (encoding : Option String) :
    Except Error Workspace := do
  let e ← Encoding.findAny encoding
  return { w with queries := w.queries.modify id fun q => { q with encoding := e } }

def removeQuery (w : Workspace) (id : QueryId) : Except Error Workspace := do
  return { w with queries := ← w.queries.remove id }

def addFollower (w : Workspace) (leader follower : QueryId) : Except Error Workspace := do
  return { w with queries := ← w.queries.addFollower leader follower }

/-- A condition refers to columns only. -/
def checkCondition (x : Computation) : Except Error Unit :=
  match x.root.references.find? fun
    | .named .. => true
    | .column _ => false with
  | some r => .error (.invalidMatchReference r.render)
  | none => .ok ()

/-- Lets the rows of a query be combined with the rows of another one for which a condition holds.
Names in the condition that stand for nothing make it an error on every row. -/
def addMatched (w : Workspace) (leader follower : QueryId) (condition : String) :
    Except Error Workspace := do
  let x ← w.compiler.compileText condition
  checkCondition x
  let (x, _) := x.resolve (w.queries.scope none (some leader))
  return { w with queries := ← w.queries.addMatched leader follower (w.optimize x) }

/-! Navigation -/

/-- Goes to the start of a query and all that follows it. -/
def start (w : Workspace) (id : QueryId) : Workspace × Except Error Unit :=
  let (queries, outcome) := w.queries.start id
  ({ w with queries }, outcome)

/-- Produces the next row of a query and all that follows it, and tells whether there is one. -/
def next (w : Workspace) (id : QueryId) : Except Error (Workspace × Bool) := do
  let (queries, produced) ← w.queries.next w.settings id
  return ({ w with queries }, produced)

end Workspace
end Reporting
