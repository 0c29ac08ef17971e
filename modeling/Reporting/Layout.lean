import Reporting.Error
/-!
The layout of a document: parts stack rows, rows place columns side by side, and columns stack
reports. Nodes are never removed, so the position of a node names it for good.
-/
namespace Reporting

namespace Layout

/-- Reports one below the other. -/
structure Column (α : Type) where
  reports : List α := []

/-- Columns side by side. -/
structure Row (α : Type) where
  columns : List (Column α) := []

/-- Rows one below the other. -/
structure Part (α : Type) where
  rows : List (Row α) := []

end Layout

structure RowId where
  part : Nat
  row : Nat
  deriving DecidableEq, Repr

structure ColumnId where
  part : Nat
  row : Nat
  column : Nat
  deriving DecidableEq, Repr

structure ReportId where
  part : Nat
  row : Nat
  column : Nat
  report : Nat
  deriving DecidableEq, Repr

/-- The position of a report as text. -/
def ReportId.render (id : ReportId) : String :=
  "report " ++ ".".intercalate ([id.part, id.row, id.column, id.report].map toString)

/-- The parts of a document. -/
structure Layout (α : Type) where
  parts : List (Layout.Part α) := []

namespace Layout

variable {α : Type}

def part? (l : Layout α) (part : Nat) : Option (Part α) := l.parts[part]?

def row? (l : Layout α) (id : RowId) : Option (Row α) := do (← l.part? id.part).rows[id.row]?

def column? (l : Layout α) (id : ColumnId) : Option (Column α) := do
  (← l.row? ⟨id.part, id.row⟩).columns[id.column]?

def report? (l : Layout α) (id : ReportId) : Option α := do
  (← l.column? ⟨id.part, id.row, id.column⟩).reports[id.report]?

/-! Changing nodes -/

def modifyPart (l : Layout α) (part : Nat) (f : Part α → Part α) : Layout α :=
  ⟨l.parts.modify part f⟩

def modifyRow (l : Layout α) (id : RowId) (f : Row α → Row α) : Layout α :=
  l.modifyPart id.part fun p => ⟨p.rows.modify id.row f⟩

def modifyColumn (l : Layout α) (id : ColumnId) (f : Column α → Column α) : Layout α :=
  l.modifyRow ⟨id.part, id.row⟩ fun r => ⟨r.columns.modify id.column f⟩

/-- Changes a report. -/
def modify (l : Layout α) (id : ReportId) (f : α → α) : Layout α :=
  l.modifyColumn ⟨id.part, id.row, id.column⟩ fun c => ⟨c.reports.modify id.report f⟩

theorem modify_of_getElem? {items : List α} {i : Nat} {a : α} {f : α → α} (h : items[i]? = some a)
    (hf : f a = a) : items.modify i f = items := by
  apply List.ext_getElem?
  intro j
  rw [List.getElem?_modify]
  by_cases hij : i = j
  · subst hij
    rw [h]
    exact congrArg some ((if_pos rfl).trans hf)
  · simp only [if_neg hij, id_map']

/-- A change that leaves a report as it is leaves the layout as it is. -/
theorem modify_of_report? {l : Layout α} {id : ReportId} {a : α} {f : α → α}
    (h : l.report? id = some a) (hf : f a = a) : l.modify id f = l := by
  obtain ⟨c, hcolumn, ha⟩ := Option.bind_eq_some_iff.1 h
  obtain ⟨r, hrow, hc⟩ := Option.bind_eq_some_iff.1 hcolumn
  obtain ⟨p, hpart, hr⟩ := Option.bind_eq_some_iff.1 hrow
  refine congrArg Layout.mk (modify_of_getElem? hpart ?_)
  refine congrArg Part.mk (modify_of_getElem? hr ?_)
  refine congrArg Row.mk (modify_of_getElem? hc ?_)
  exact congrArg Column.mk (modify_of_getElem? ha hf)

/-! Other reports in the same places -/

def Column.map {β : Type} (f : α → β) (c : Column α) : Column β := ⟨c.reports.map f⟩

def Row.map {β : Type} (f : α → β) (r : Row α) : Row β := ⟨r.columns.map (·.map f)⟩

def Part.map {β : Type} (f : α → β) (p : Part α) : Part β := ⟨p.rows.map (·.map f)⟩

def map {β : Type} (f : α → β) (l : Layout α) : Layout β := ⟨l.parts.map (·.map f)⟩

/-! Adding nodes -/

def newPart (l : Layout α) : Layout α × Nat := (⟨l.parts ++ [⟨[]⟩]⟩, l.parts.length)

def newRow (l : Layout α) (part : Nat) : Except Error (Layout α × RowId) :=
  match l.part? part with
  | none => .error (.invalidLayout .part)
  | some p => .ok (l.modifyPart part fun p => ⟨p.rows ++ [⟨[]⟩]⟩, ⟨part, p.rows.length⟩)

def newColumn (l : Layout α) (row : RowId) : Except Error (Layout α × ColumnId) :=
  match l.row? row with
  | none => .error (.invalidLayout .row)
  | some r =>
    .ok (l.modifyRow row fun r => ⟨r.columns ++ [⟨[]⟩]⟩, ⟨row.part, row.row, r.columns.length⟩)

def newReport (l : Layout α) (column : ColumnId) (a : α) : Except Error (Layout α × ReportId) :=
  match l.column? column with
  | none => .error (.invalidLayout .column)
  | some c =>
    .ok (l.modifyColumn column fun c => ⟨c.reports ++ [a]⟩,
      ⟨column.part, column.row, column.column, c.reports.length⟩)

/-- The last row of a part, which is added if there is none. -/
def lastRow (l : Layout α) (part : Nat) : Except Error (Layout α × RowId) :=
  match l.part? part with
  | some p => if p.rows.isEmpty then l.newRow part else .ok (l, ⟨part, p.rows.length - 1⟩)
  | none => .error (.invalidLayout .part)

/-- The last column of a row, which is added if there is none. -/
def lastColumn (l : Layout α) (row : RowId) : Except Error (Layout α × ColumnId) :=
  match l.row? row with
  | some r =>
    if r.columns.isEmpty then l.newColumn row
    else .ok (l, ⟨row.part, row.row, r.columns.length - 1⟩)
  | none => .error (.invalidLayout .row)

/-- The part of a number; without a number, the last part, which is added if there is none. -/
def partOrLast (l : Layout α) : Option Nat → Layout α × Nat
  | some part => (l, part)
  | none => if l.parts.isEmpty then l.newPart else (l, l.parts.length - 1)

/-- Adds a report below the last one of a part, and the nodes that it needs. -/
def append (l : Layout α) (part : Option Nat) (a : α) : Except Error (Layout α × ReportId) := do
  let (l, part) := l.partOrLast part
  let (l, row) ← l.lastRow part
  let (l, column) ← l.lastColumn row
  l.newReport column a

/-! Listing reports -/

/-- All reports in the order of the document. -/
def reportIds (l : Layout α) : List ReportId :=
  (l.parts.zipIdx.map fun (p, i) =>
    (p.rows.zipIdx.map fun (r, j) =>
      (r.columns.zipIdx.map fun (c, k) =>
        (List.range c.reports.length).map fun n => ReportId.mk i j k n).flatten).flatten).flatten

/-- The first report that fits. -/
def find? (l : Layout α) (p : α → Bool) : Option ReportId :=
  l.reportIds.find? fun id => (l.report? id).any p

end Layout
end Reporting
