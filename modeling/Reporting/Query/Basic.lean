import Reporting.Query.Table
import Reporting.Expr.Evaluate
/-!
A query: a cursor over the rows of a table, with the values of the row it stands on and its place
among other queries.
-/
namespace Reporting

/-- A follower whose rows are chosen by an expression. -/
structure Matched where
  query : QueryId
  condition : Computation

/-- A query. Its position 0 is before the first row. -/
structure Query where
  name : String
  datasource : String
  table : Table
  position : Nat := 0
  encoding : Option Encoding := none
  columns : List Column
  rowNumber : Tracked := .null .number
  /-- The rows that were read since the start. -/
  row : Nat := 0
  leader : Option QueryId := none
  /-- The followers that go along row by row. -/
  followers : List QueryId := []
  /-- The followers whose rows are combined with each row of this query. -/
  matched : List Matched := []
  /-- Whether the current row may have further combinations. -/
  combining : Bool := false

namespace Query

def ofTable (name datasource : String) (t : Table) (e : Option Encoding) : Query :=
  { name, datasource, table := t, encoding := e, columns := t.columns.map .ofDef }

/-- Whether the cursor is behind the last row. -/
def isDone (q : Query) : Bool := q.table.rowCount < q.position

/-- The first column of a name. -/
def columnIndex? (q : Query) (name : String) : Option Nat :=
  q.columns.findIdx? fun c => c.name = name

def matchedIds (q : Query) : List QueryId := q.matched.map (·.query)

/-- The followers of both kinds. -/
def children (q : Query) : List QueryId := q.followers ++ q.matchedIds

/-- Goes back to the start and forgets all rows. -/
def rewind (q : Query) : Query :=
  { q with
    position := 0, row := 0, combining := false
    columns := q.columns.map .reset
    rowNumber := .null .number }

/-- The texts of the row that the cursor stands on. -/
def currentRow? (q : Query) : Option (List (Option String)) :=
  if q.position = 0 then none else q.table.rows[q.position]?

/-- Sets the columns from the row that the cursor stands on. -/
def readRow (q : Query) (co : Coercion) : Query :=
  match q.currentRow? with
  | none => { q with columns := q.columns.map .blank }
  | some cells =>
    let bytes (i : Nat) : Option (List Nat) := (cells[i]?.join).map Encoding.encodeUtf8
    { q with columns := q.columns.mapIdx fun i c => c.setBytes (bytes i) q.encoding co }

/-- Reads the next row, and tells whether there is one. -/
def advance (q : Query) (co : Coercion) : Query × Bool :=
  let q := if q.position ≤ q.table.rowCount then { q with position := q.position + 1 } else q
  if q.isDone then (q.readRow co, false)
  else
    let q := { q with row := q.row + 1, rowNumber := q.rowNumber.setCurrent (.ofInt (q.row + 1)) }
    (q.readRow co, true)

/-- The columns hold null in the row that is tried. -/
def blank (q : Query) : Query := { q with columns := q.columns.map .blank }

/-- Produces the row that is tried. -/
def commit (q : Query) : Query :=
  { q with columns := q.columns.map .commit, rowNumber := q.rowNumber.commit }

/-- Takes a query out of the lists of followers and leaders. -/
def detach (q : Query) (id : QueryId) : Query :=
  { q with
    followers := q.followers.filter (· ≠ id)
    matched := q.matched.filter (·.query ≠ id)
    leader := if q.leader = some id then none else q.leader }

end Query
end Reporting
