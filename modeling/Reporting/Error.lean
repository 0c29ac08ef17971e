import Reporting.Formula.Parser
import Reporting.Function.Basic
/-!
Why an operation on a document is refused. Failures of evaluation are no errors in this sense: they
are values.
-/
namespace Reporting

/-- The nodes of a layout. -/
inductive LayoutNode
  | part | row | column | report
  deriving DecidableEq, Repr

def LayoutNode.name : LayoutNode → String
  | part => "part"
  | row => "row"
  | column => "column"
  | report => "report"

/-- The attributes of a break. -/
inductive BreakAttribute
  | newPage | headerNewPage | suppressBlank
  deriving DecidableEq, Repr

def BreakAttribute.name : BreakAttribute → String
  | newPage => "newpage"
  | headerNewPage => "headernewpage"
  | suppressBlank => "suppressblank"

/-- What is wrong with the definition of a variable. -/
inductive VariableFault
  | noBase
  | noResult
  | stagesNotAllowed
  | expressionReference
  | unknownReference (name : String)
  | aggregateReference (name : String)
  deriving DecidableEq, Repr

def VariableFault.message : VariableFault → String
  | noBase => "a base expression is required"
  | noResult => "a result expression is required"
  | stagesNotAllowed => "only custom variables have intermediate and result expressions"
  | expressionReference => "expression variables cannot reference variables"
  | unknownReference name => "references unknown variable '" ++ name ++ "'"
  | aggregateReference name =>
    "aggregates may only reference expression variables, not '" ++ name ++ "'"

/-- Why a data source does not serve a query. -/
inductive SourceFault
  | noHeader
  | notATable
  deriving DecidableEq, Repr

def SourceFault.message : SourceFault → String
  | noHeader => "the array has no header row"
  | notATable => "only in-memory arrays are supported"

/-- Why an operation is refused. -/
inductive Error
  | parse (e : ParseError)
  | unknownFunction (name : String)
  | arity (name : String) (expected got : Nat)
  | invalidDatetime (text : String)
  | invalidNumber (text : String)
  | unknownDriver (name : String)
  | datasourceConflict (name : String)
  | unknownDatasource (name : String)
  | unsupportedQuery (driver query : String) (fault : SourceFault)
  | duplicateQuery (name : String)
  | unknownQueryId (id : QueryId)
  | selfFollower
  | alreadyFollowing (query : String)
  | followerCycle (leader follower : String)
  | invalidMatchReference (reference : String)
  | unsupportedEncoding (name : String)
  | invalidLayout (node : LayoutNode)
  | noMainQuery
  | unknownQuery (name : String)
  | duplicateBreak (name : String)
  | unknownBreak (name : String)
  | uselessBreak (name : String)
  | invalidBreakAttribute (name : String) (which : BreakAttribute)
  | duplicateVariable (name : String)
  | invalidVariable (name : String) (fault : VariableFault)
  deriving DecidableEq, Repr

/-- A name in single quotes. -/
def inQuotes (s : String) : String := "'" ++ s ++ "'"

def Error.message : Error → String
  | parse e => "Parse error: " ++ e.message
  | unknownFunction name => "invalid function " ++ inQuotes name
  | arity name expected got =>
    "function " ++ inQuotes name ++ " expects " ++ toString expected ++ " operand(s), got " ++
      toString got
  | invalidDatetime text => "invalid datetime literal " ++ inQuotes text
  | invalidNumber text => "invalid number literal " ++ inQuotes text
  | unknownDriver name => "unknown datasource driver " ++ inQuotes name
  | datasourceConflict name =>
    "datasource " ++ inQuotes name ++ " already exists with a different driver"
  | unknownDatasource name => "unknown datasource " ++ inQuotes name
  | unsupportedQuery driver query fault =>
    "datasource " ++ inQuotes driver ++ " cannot serve query " ++ inQuotes query ++ ": " ++
      fault.message
  | duplicateQuery name => "query " ++ inQuotes name ++ " already exists"
  | unknownQueryId id => "unknown query QueryId(" ++ toString id.index ++ ")"
  | selfFollower => "a query cannot follow itself"
  | alreadyFollowing query => "query " ++ inQuotes query ++ " already has a leader"
  | followerCycle leader follower =>
    "following " ++ inQuotes follower ++ " from " ++ inQuotes leader ++ " would create a cycle"
  | invalidMatchReference reference =>
    "match expression references " ++ reference ++ ", only query columns are allowed"
  | unsupportedEncoding name => "unsupported encoding " ++ inQuotes name
  | invalidLayout node => "no such " ++ node.name ++ " in the layout"
  | noMainQuery => "report has no main query and the document has no queries"
  | unknownQuery name => "unknown query " ++ inQuotes name
  | duplicateBreak name => "break " ++ inQuotes name ++ " already exists"
  | unknownBreak name => "unknown break " ++ inQuotes name
  | uselessBreak name => "useless break " ++ inQuotes name ++ ": it has no fields"
  | invalidBreakAttribute name which =>
    "break " ++ inQuotes name ++ ": " ++ which.name ++ " must be a constant number"
  | duplicateVariable name => "variable " ++ inQuotes name ++ " already exists"
  | invalidVariable name fault => "variable " ++ inQuotes name ++ ": " ++ fault.message

end Reporting
