import Mathlib.Data.List.Basic
import Reporting.Proofs.Document.Layout
/-!
Where a report is appended: below the last one of a part, with only those nodes new that are not there.
-/
namespace Reporting.Layout

variable {α : Type} {l : Layout α} {part : Nat} {row : RowId} {column : ColumnId} {a : α}

/-- A list with its last item changed; an empty list gets a fresh item first. -/
def onLast {γ : Type} (f : γ → γ) (fresh : γ) (items : List γ) : List γ :=
  items.dropLast ++ [f (items.getLast?.getD fresh)]

def Column.add (a : α) (c : Column α) : Column α := ⟨c.reports ++ [a]⟩

def Row.add (a : α) (r : Row α) : Row α := ⟨onLast (Column.add a) {} r.columns⟩

/-- A part with a report below the last one of the last column of its last row. Only a row and a column that
are not there are new. -/
def Part.add (a : α) (p : Part α) : Part α := ⟨onLast (Row.add a) {} p.rows⟩

/-- The position below the last report of the last column of a row. -/
def Row.nextId (r : Row α) (id : RowId) : ReportId :=
  ⟨id.part, id.row, r.columns.length - 1, (r.columns.getLast?.getD {}).reports.length⟩

/-- The position below the last report of the last column of the last row of a part. -/
def Part.nextId (p : Part α) (part : Nat) : ReportId :=
  (p.rows.getLast?.getD {}).nextId ⟨part, p.rows.length - 1⟩

section OnLast

variable {γ : Type} {f g : γ → γ} {fresh c : γ} {front items : List γ} {i : Nat}

theorem onLast_concat : onLast f fresh (front ++ [c]) = front ++ [f c] := by
  rw [onLast, List.dropLast_concat, List.getLast?_concat, Option.getD_some]

theorem modify_concat : (front ++ [c]).modify front.length f = front ++ [f c] := by
  induction front with
  | nil => rfl
  | cons b front ih => exact congrArg (b :: ·) ih

theorem length_concat_sub_one : (front ++ [c]).length - 1 = front.length := by
  rw [List.length_append, List.length_singleton, Nat.add_sub_cancel]

theorem isEmpty_concat : (front ++ [c]).isEmpty = false := by
  cases front <;> rfl

/-- A change of one item may do anything to what the item is not. -/
theorem modify_congr (hc : items[i]? = some c) (h : f c = g c) : items.modify i f = items.modify i g := by
  apply List.ext_getElem?
  intro j
  by_cases hj : i = j
  · subst hj
    rw [List.getElem?_modify_eq, List.getElem?_modify_eq, hc]
    exact congrArg some h
  · rw [List.getElem?_modify_ne _ _ hj, List.getElem?_modify_ne _ _ hj]

end OnLast

theorem modifyPart_congr {f g : Part α → Part α} {p : Part α} (hp : l.part? part = some p) (h : f p = g p) :
    l.modifyPart part f = l.modifyPart part g := congrArg Layout.mk (modify_congr hp h)

theorem modifyRow_congr {f g : Row α → Row α} {r : Row α} (hr : l.row? row = some r) (h : f r = g r) :
    l.modifyRow row f = l.modifyRow row g := by
  obtain ⟨p, hp, hrow⟩ := Option.bind_eq_some_iff.1 hr
  exact modifyPart_congr hp (congrArg Part.mk (modify_congr hrow h))

theorem modifyPart_modifyPart (l : Layout α) (part : Nat) (f g : Part α → Part α) :
    (l.modifyPart part f).modifyPart part g = l.modifyPart part fun p => g (f p) :=
  congrArg Layout.mk (List.modify_modify_eq f g part l.parts)

theorem modifyRow_modifyRow (l : Layout α) (row : RowId) (f g : Row α → Row α) :
    (l.modifyRow row f).modifyRow row g = l.modifyRow row fun r => g (f r) := by
  unfold modifyRow
  rw [modifyPart_modifyPart]
  simp only [List.modify_modify_eq]
  rfl

theorem newReport_of_column? {c : Column α} (hc : l.column? column = some c) (a : α) :
    l.newReport column a = .ok (l.modifyColumn column (Column.add a),
      ⟨column.part, column.row, column.column, c.reports.length⟩) := by
  unfold newReport
  rw [hc]
  rfl

/-- A report goes into the last column of a row. -/
theorem append_row {r : Row α} (hr : l.row? row = some r) (a : α) :
    (do
      let (l, column) ← l.lastColumn row
      l.newReport column a : Except Error (Layout α × ReportId)) =
      .ok (l.modifyRow row (Row.add a), r.nextId row) := by
  obtain ⟨columns⟩ := r
  obtain rfl | ⟨front, c, rfl⟩ := List.eq_nil_or_concat' columns
  · have hlast : l.lastColumn row =
        .ok (l.modifyRow row fun r => ⟨r.columns ++ [⟨[]⟩]⟩, ⟨row.part, row.row, 0⟩) := by
      unfold lastColumn newColumn
      rw [hr]
      rfl
    have hcolumn : (l.modifyRow row fun r => ⟨r.columns ++ [⟨[]⟩]⟩).column? ⟨row.part, row.row, 0⟩ =
        some ⟨[]⟩ := by
      unfold column?
      rw [row?_modifyRow, hr]
      rfl
    rw [hlast]
    refine (newReport_of_column? hcolumn a).trans (congrArg Except.ok (Prod.ext ?_ rfl))
    exact (modifyRow_modifyRow l row _ _).trans (modifyRow_congr hr rfl)
  · have hlast : l.lastColumn row = .ok (l, ⟨row.part, row.row, front.length⟩) := by
      unfold lastColumn
      rw [hr]
      dsimp only
      rw [isEmpty_concat, length_concat_sub_one]
      rfl
    have hcolumn : l.column? ⟨row.part, row.row, front.length⟩ = some c := by
      unfold column?
      rw [hr]
      exact List.getElem?_concat_length
    rw [hlast]
    refine (newReport_of_column? hcolumn a).trans (congrArg Except.ok (Prod.ext ?_ ?_))
    · refine modifyRow_congr hr (congrArg Row.mk ?_)
      rw [modify_concat, onLast_concat]
    · rw [Row.nextId, length_concat_sub_one, List.getLast?_concat]
      rfl

/-- A report goes into the last row of a part. -/
theorem append_part {p : Part α} (hp : l.part? part = some p) (a : α) :
    (do
      let (l, row) ← l.lastRow part
      let (l, column) ← l.lastColumn row
      l.newReport column a : Except Error (Layout α × ReportId)) =
      .ok (l.modifyPart part (Part.add a), p.nextId part) := by
  obtain ⟨rows⟩ := p
  obtain rfl | ⟨front, r, rfl⟩ := List.eq_nil_or_concat' rows
  · have hlast : l.lastRow part =
        .ok (l.modifyPart part fun p => ⟨p.rows ++ [⟨[]⟩]⟩, ⟨part, 0⟩) := by
      unfold lastRow newRow
      rw [hp]
      rfl
    have hrow : (l.modifyPart part fun p => ⟨p.rows ++ [⟨[]⟩]⟩).row? ⟨part, 0⟩ = some ⟨[]⟩ := by
      unfold row?
      rw [part?_modifyPart, hp]
      rfl
    rw [hlast]
    refine (append_row hrow a).trans (congrArg Except.ok (Prod.ext ?_ rfl))
    exact (modifyPart_modifyPart l part _ _).trans (modifyPart_congr hp rfl)
  · have hlast : l.lastRow part = .ok (l, ⟨part, front.length⟩) := by
      unfold lastRow
      rw [hp]
      dsimp only
      rw [isEmpty_concat, length_concat_sub_one]
      rfl
    have hrow : l.row? ⟨part, front.length⟩ = some r := by
      unfold row?
      rw [hp]
      exact List.getElem?_concat_length
    rw [hlast]
    refine (append_row hrow a).trans (congrArg Except.ok (Prod.ext ?_ ?_))
    · refine modifyPart_congr hp (congrArg Part.mk ?_)
      rw [modify_concat, onLast_concat]
    · rw [Part.nextId, length_concat_sub_one, List.getLast?_concat]
      rfl

/-- In a part that is asked for, which must be there. -/
theorem append_some (l : Layout α) (part : Nat) (a : α) : l.append (some part) a =
    match l.part? part with
    | some p => .ok (l.modifyPart part (Part.add a), p.nextId part)
    | none => .error (.invalidLayout .part) := by
  cases hp : l.part? part with
  | some p => exact append_part hp a
  | none =>
    have hlast : l.lastRow part = .error (.invalidLayout .part) := by
      unfold lastRow
      rw [hp]
    change (l.lastRow part).bind _ = _
    rw [hlast]
    rfl

/-- In the last part, which is new where there is none. -/
theorem append_none (l : Layout α) (a : α) : l.append none a =
    .ok (⟨onLast (Part.add a) {} l.parts⟩, (l.parts.getLast?.getD {}).nextId (l.parts.length - 1)) := by
  obtain ⟨parts⟩ := l
  obtain rfl | ⟨front, p, rfl⟩ := List.eq_nil_or_concat' parts
  · rfl
  · have hlast : (Layout.mk (front ++ [p])).partOrLast none = (Layout.mk (front ++ [p]), front.length) := by
      unfold partOrLast
      dsimp only
      rw [isEmpty_concat, length_concat_sub_one]
      rfl
    have hp : (Layout.mk (front ++ [p])).part? front.length = some p := List.getElem?_concat_length
    unfold append
    rw [hlast]
    refine (append_part hp a).trans (congrArg Except.ok (Prod.ext ?_ ?_))
    · exact congrArg Layout.mk (modify_concat.trans onLast_concat.symm)
    · dsimp only
      rw [length_concat_sub_one, List.getLast?_concat]
      rfl

end Reporting.Layout
