import Reporting.Slot
import Reporting.Settings
import Reporting.Text.Encoding
/-!
Tables of texts, and columns that hold the values of a row.
-/
namespace Reporting

/-- Rows of texts, the first of which names the columns. Columns without a kind are texts. -/
structure Table where
  rows : List (List (Option String))
  kinds : List Kind := []
  deriving DecidableEq, Repr, Inhabited

namespace Table

/-- The number of rows below the header. -/
def rowCount (t : Table) : Nat := t.rows.length - 1

/-- The names and kinds of the columns. -/
def columns (t : Table) : List (String × Kind) :=
  (t.rows.headD []).mapIdx fun i name => (name.getD "", (t.kinds[i]?).getD .text)

end Table

/-- What a query asks its data source for. -/
inductive QuerySource
  | text (s : String)
  | table (t : Table)
  deriving Repr

/-- A value of the row that is tried, with the value of the row that was produced last. -/
structure Tracked where
  ring : Ring Value
  produced : Value
  deriving Repr, DecidableEq

namespace Tracked

/-- Nothing was read yet. -/
def null (k : Kind) : Tracked := ⟨.null k, .null k⟩

/-- Replaces the value of the row that is tried. -/
def setCurrent (t : Tracked) (v : Value) : Tracked := { t with ring := t.ring.set .current v }

/-- Produces the row: what was produced before becomes the previous value. -/
def commit (t : Tracked) : Tracked :=
  { ring := t.ring.set .previous t.produced, produced := t.ring.current }

end Tracked

/-- A column of a query. -/
structure Column where
  name : String
  kind : Kind
  cell : Tracked
  deriving Repr

namespace Column

def ofDef (d : String × Kind) : Column := ⟨d.1, d.2, .null d.2⟩

/-- Forgets all rows. -/
def reset (c : Column) : Column := { c with cell := .null c.kind }

/-- The column holds null in the row that is tried. -/
def blank (c : Column) : Column := { c with cell := c.cell.setCurrent (.null c.kind) }

def commit (c : Column) : Column := { c with cell := c.cell.commit }

/-- Sets the row that is tried from the bytes of a data source; no bytes are null. -/
def setBytes (c : Column) (bytes : Option (List Nat)) (e : Option Encoding) (co : Coercion) :
    Column :=
  { c with cell := c.cell.setCurrent (.ofText c.kind (bytes.map (Encoding.decodeWith e)) co) }

end Column
end Reporting
