import Reporting.Query.Table
import Reporting.Error
/-!
Data sources and the drivers that serve their queries.
-/
namespace Reporting

/-- What serves queries. -/
inductive Driver
  /-- Tables that come with the query. -/
  | array
  deriving DecidableEq, Repr

namespace Driver

/-- The drivers in the order of their names. -/
def all : List Driver := [array]

def name : Driver → String
  | array => "array"

def ofName? (name : String) : Option Driver := all.find? fun d => d.name = name

def find (name : String) : Except Error Driver :=
  match ofName? name with
  | some d => .ok d
  | none => .error (.unknownDriver name)

/-- The table that serves a query. It needs a header. -/
def serve (d : Driver) (query : String) : QuerySource → Except Error Table
  | .table t =>
    if t.rows.isEmpty then .error (.unsupportedQuery d.name query .noHeader) else .ok t
  | .text _ => .error (.unsupportedQuery d.name query .notATable)

theorem ofName?_name (d : Driver) : ofName? d.name = some d := by
  cases d; rfl

end Driver

/-- The encoding of a name. -/
def Encoding.find (name : String) : Except Error Encoding :=
  match ofName? name with
  | some e => .ok e
  | none => .error (.unsupportedEncoding name)

/-- The encoding of a name, if there is one. -/
def Encoding.findAny : Option String → Except Error (Option Encoding)
  | some name => do return some (← find name)
  | none => .ok none

/-- A source of queries. -/
structure Datasource where
  name : String
  driver : Driver
  /-- How queries that are opened later store their texts. -/
  encoding : Option Encoding := none
  deriving DecidableEq, Repr

/-- Sets how queries that are opened later store their texts. -/
def Datasource.setEncoding (d : Datasource) (name : Option String) : Except Error Datasource := do
  return { d with encoding := ← Encoding.findAny name }

end Reporting
