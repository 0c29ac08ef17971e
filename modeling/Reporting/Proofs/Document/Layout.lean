import Reporting.Proofs.Document.InPlace
import Reporting.Proofs.Expr.Compiled
/-!
Layouts under their steps: what they become with other reports, what all of their reports are, and
that the nodes that a new report needs are there once they were added.
-/
namespace Reporting.Layout

variable {α β : Type} {l l' : Layout α} {f : α → β} {a : α} {part : Nat} {row : RowId}
  {column : ColumnId} {id : ReportId}

/-! Other reports -/

theorem map_modify_list {γ δ : Type} {items : List γ} {h : γ → δ} {g : γ → γ} {g' : δ → δ} (i : Nat)
    (hg : ∀ c, h (g c) = g' (h c)) : (items.modify i g).map h = (items.map h).modify i g' := by
  apply List.ext_getElem?
  intro j
  rw [List.getElem?_map, List.getElem?_modify, List.getElem?_modify, List.getElem?_map]
  cases items[j]? with
  | none => rfl
  | some c =>
    refine congrArg some ?_
    split
    · exact hg c
    · rfl

theorem part?_map (f : α → β) (l : Layout α) (part : Nat) :
    (l.map f).part? part = (l.part? part).map (·.map f) := List.getElem?_map

theorem row?_map (f : α → β) (l : Layout α) (id : RowId) :
    (l.map f).row? id = (l.row? id).map (·.map f) := by
  unfold row?
  rw [part?_map]
  cases l.part? id.part with
  | none => rfl
  | some p => exact List.getElem?_map

theorem column?_map (f : α → β) (l : Layout α) (id : ColumnId) :
    (l.map f).column? id = (l.column? id).map (·.map f) := by
  unfold column?
  rw [row?_map]
  cases l.row? ⟨id.part, id.row⟩ with
  | none => rfl
  | some r => exact List.getElem?_map

theorem report?_map (f : α → β) (l : Layout α) (id : ReportId) :
    (l.map f).report? id = (l.report? id).map f := by
  unfold report?
  rw [column?_map]
  cases l.column? ⟨id.part, id.row, id.column⟩ with
  | none => rfl
  | some c => exact List.getElem?_map

theorem map_modifyPart {g : Part α → Part α} {g' : Part β → Part β} (l : Layout α) (part : Nat)
    (h : ∀ p, (g p).map f = g' (p.map f)) :
    (l.modifyPart part g).map f = (l.map f).modifyPart part g' :=
  congrArg Layout.mk (map_modify_list part h)

theorem map_modifyRow {g : Row α → Row α} {g' : Row β → Row β} (l : Layout α) (row : RowId)
    (h : ∀ r, (g r).map f = g' (r.map f)) :
    (l.modifyRow row g).map f = (l.map f).modifyRow row g' :=
  map_modifyPart l row.part fun _ => congrArg Part.mk (map_modify_list row.row h)

theorem map_modifyColumn {g : Column α → Column α} {g' : Column β → Column β} (l : Layout α)
    (column : ColumnId) (h : ∀ c, (g c).map f = g' (c.map f)) :
    (l.modifyColumn column g).map f = (l.map f).modifyColumn column g' :=
  map_modifyRow l _ fun _ => congrArg Row.mk (map_modify_list column.column h)

theorem map_modify {g : α → α} {g' : β → β} (l : Layout α) (id : ReportId)
    (h : ∀ a, f (g a) = g' (f a)) : (l.modify id g).map f = (l.map f).modify id g' :=
  map_modifyColumn l _ fun _ => congrArg Column.mk (map_modify_list id.report h)

/-- What a step on a layout comes to for the layout with other reports. -/
def mapStep {ι : Type} (f : α → β) (step : Except Error (Layout α × ι)) :
    Except Error (Layout β × ι) := step.map fun (l, id) => (l.map f, id)

theorem newPart_map (f : α → β) (l : Layout α) : l.newPart.1.map f = (l.map f).newPart.1 :=
  congrArg Layout.mk List.map_append

theorem newRow_map (f : α → β) (l : Layout α) (part : Nat) :
    (l.map f).newRow part = mapStep f (l.newRow part) := by
  unfold newRow
  rw [part?_map]
  cases l.part? part with
  | none => rfl
  | some p =>
    refine congrArg Except.ok (Prod.ext ?_ (congrArg (RowId.mk part) (List.length_map _)))
    exact (map_modifyPart l part fun _ => congrArg Part.mk List.map_append).symm

theorem newColumn_map (f : α → β) (l : Layout α) (row : RowId) :
    (l.map f).newColumn row = mapStep f (l.newColumn row) := by
  unfold newColumn
  rw [row?_map]
  cases l.row? row with
  | none => rfl
  | some r =>
    refine congrArg Except.ok
      (Prod.ext ?_ (congrArg (ColumnId.mk row.part row.row) (List.length_map _)))
    exact (map_modifyRow l row fun _ => congrArg Row.mk List.map_append).symm

theorem newReport_map (f : α → β) (l : Layout α) (column : ColumnId) (a : α) :
    (l.map f).newReport column (f a) = mapStep f (l.newReport column a) := by
  unfold newReport
  rw [column?_map]
  cases l.column? column with
  | none => rfl
  | some c =>
    refine congrArg Except.ok (Prod.ext ?_
      (congrArg (ReportId.mk column.part column.row column.column) (List.length_map _)))
    exact (map_modifyColumn l column fun _ => congrArg Column.mk List.map_append).symm

theorem partOrLast_map (f : α → β) (l : Layout α) (part : Option Nat) :
    (l.map f).partOrLast part = ((l.partOrLast part).1.map f, (l.partOrLast part).2) := by
  cases part with
  | some part => rfl
  | none =>
    obtain ⟨parts⟩ := l
    cases parts with
    | nil => rfl
    | cons p ps => exact Prod.ext rfl (List.length_map _)

theorem lastRow_map (f : α → β) (l : Layout α) (part : Nat) :
    (l.map f).lastRow part = mapStep f (l.lastRow part) := by
  unfold lastRow
  rw [part?_map, newRow_map]
  cases l.part? part with
  | none => rfl
  | some p =>
    obtain ⟨rows⟩ := p
    cases rows with
    | nil => rfl
    | cons r rs =>
      exact congrArg (fun n => Except.ok (l.map f, RowId.mk part n)) (List.length_map _)

theorem lastColumn_map (f : α → β) (l : Layout α) (row : RowId) :
    (l.map f).lastColumn row = mapStep f (l.lastColumn row) := by
  unfold lastColumn
  rw [row?_map, newColumn_map]
  cases l.row? row with
  | none => rfl
  | some r =>
    obtain ⟨columns⟩ := r
    cases columns with
    | nil => rfl
    | cons c cs =>
      exact congrArg (fun n => Except.ok (l.map f, ColumnId.mk row.part row.row n))
        (List.length_map _)

theorem mapStep_bind {ι κ : Type} (f : α → β) (step : Except Error (Layout α × ι))
    {next : Layout α × ι → Except Error (Layout α × κ)}
    {next' : Layout β × ι → Except Error (Layout β × κ)}
    (h : ∀ l id, next' (l.map f, id) = mapStep f (next (l, id))) :
    (mapStep f step).bind next' = mapStep f (step.bind next) := by
  cases step with
  | error e => rfl
  | ok r => exact h r.1 r.2

theorem append_map (f : α → β) (l : Layout α) (part : Option Nat) (a : α) :
    (l.map f).append part (f a) = mapStep f (l.append part a) := by
  unfold append
  rw [partOrLast_map]
  generalize l.partOrLast part = chosen
  obtain ⟨l, part⟩ := chosen
  dsimp only
  rw [lastRow_map]
  refine mapStep_bind f _ fun l row => ?_
  dsimp only
  rw [lastColumn_map]
  refine mapStep_bind f _ fun l column => ?_
  exact newReport_map f l column a

/-! Nodes that are there -/

theorem part?_modifyPart (l : Layout α) (part : Nat) (g : Part α → Part α) :
    (l.modifyPart part g).part? part = (l.part? part).map g := List.getElem?_modify_eq g part l.parts

theorem row?_modifyRow (l : Layout α) (row : RowId) (g : Row α → Row α) :
    (l.modifyRow row g).row? row = (l.row? row).map g := by
  unfold row? modifyRow
  rw [part?_modifyPart]
  cases l.part? row.part with
  | none => rfl
  | some p => exact List.getElem?_modify_eq g row.row p.rows

/-- The part that is chosen without a number is there. -/
theorem part?_partOrLast (l : Layout α) :
    ∃ p, (l.partOrLast none).1.part? (l.partOrLast none).2 = some p := by
  obtain ⟨parts⟩ := l
  cases parts with
  | nil => exact ⟨_, rfl⟩
  | cons p ps => exact ⟨_, List.getElem?_eq_getElem (Nat.lt_succ_self ps.length)⟩

theorem exists_lastRow {p : Part α} (h : l.part? part = some p) :
    ∃ l' row r, l.lastRow part = .ok (l', row) ∧ l'.row? row = some r := by
  unfold lastRow newRow
  rw [h]
  obtain ⟨rows⟩ := p
  cases rows with
  | nil =>
    refine ⟨_, _, ⟨[]⟩, rfl, ?_⟩
    change ((l.modifyPart part fun p => ⟨p.rows ++ [⟨[]⟩]⟩).part? part).bind _ = _
    rw [part?_modifyPart, h]
    rfl
  | cons r rs =>
    have hlast : rs.length < (r :: rs).length := Nat.lt_succ_self _
    exact ⟨_, _, _, rfl, Option.bind_eq_some_iff.2 ⟨_, h, List.getElem?_eq_getElem hlast⟩⟩

theorem exists_lastColumn {r : Row α} (h : l.row? row = some r) :
    ∃ l' column c, l.lastColumn row = .ok (l', column) ∧ l'.column? column = some c := by
  unfold lastColumn newColumn
  rw [h]
  obtain ⟨columns⟩ := r
  cases columns with
  | nil =>
    refine ⟨_, _, ⟨[]⟩, rfl, ?_⟩
    change ((l.modifyRow row fun r => ⟨r.columns ++ [⟨[]⟩]⟩).row? row).bind _ = _
    rw [row?_modifyRow, h]
    rfl
  | cons c cs =>
    have hlast : cs.length < (c :: cs).length := Nat.lt_succ_self _
    exact ⟨_, _, _, rfl, Option.bind_eq_some_iff.2 ⟨_, h, List.getElem?_eq_getElem hlast⟩⟩

theorem exists_newReport {c : Column α} (h : l.column? column = some c) (a : α) :
    ∃ l' id, l.newReport column a = .ok (l', id) := by
  unfold newReport
  rw [h]
  exact ⟨_, _, rfl⟩

/-! Steps in place -/

namespace InPlace

open Edit

theorem run_newPart (l : Layout α) : newPart.run l = .ok l.newPart.2 l.newPart.1 := by
  change EStateM.Result.ok ((l.parts ++ [Part.mk []]).length - 1) _ = _
  rw [List.length_append, List.length_singleton, Nat.add_sub_cancel]
  rfl

theorem run_newRow (l : Layout α) (part : Nat) :
    (newRow part).run l = outcome l (l.newRow part) := by
  unfold newRow Layout.newRow
  rw [EStateM.run_bind, EStateM.run_get]
  dsimp only
  cases l.part? part with
  | none => rfl
  | some p => rfl

theorem run_newColumn (l : Layout α) (row : RowId) :
    (newColumn row).run l = outcome l (l.newColumn row) := by
  unfold newColumn Layout.newColumn
  rw [EStateM.run_bind, EStateM.run_get]
  dsimp only
  cases l.row? row with
  | none => rfl
  | some r => rfl

theorem run_newReport (l : Layout α) (column : ColumnId) (a : α) :
    (newReport column a).run l = outcome l (l.newReport column a) := by
  unfold newReport Layout.newReport
  rw [EStateM.run_bind, EStateM.run_get]
  dsimp only
  cases l.column? column with
  | none => rfl
  | some c => rfl

theorem run_lastRow (l : Layout α) (part : Nat) :
    (lastRow part).run l = outcome l (l.lastRow part) := by
  unfold lastRow Layout.lastRow
  rw [EStateM.run_bind, EStateM.run_get]
  dsimp only
  cases l.part? part with
  | none => rfl
  | some p =>
    dsimp only
    split
    · exact run_newRow l part
    · rfl

theorem run_lastColumn (l : Layout α) (row : RowId) :
    (lastColumn row).run l = outcome l (l.lastColumn row) := by
  unfold lastColumn Layout.lastColumn
  rw [EStateM.run_bind, EStateM.run_get]
  dsimp only
  cases l.row? row with
  | none => rfl
  | some r =>
    dsimp only
    split
    · exact run_newColumn l row
    · rfl

theorem run_partOrLast (l : Layout α) (part : Option Nat) :
    (partOrLast part).run l = .ok (l.partOrLast part).2 (l.partOrLast part).1 := by
  cases part with
  | some part => rfl
  | none =>
    unfold partOrLast Layout.partOrLast
    rw [EStateM.run_bind, EStateM.run_get]
    dsimp only
    split
    · exact run_newPart l
    · rfl

/-- A report that is added below a part that is there cannot be refused any more. -/
theorem run_append_of_part? {p : Part α} (h : l.part? part = some p) (a : α) :
    ∃ l' id, (do
        let row ← lastRow part
        let column ← lastColumn row
        newReport column a : Edit (Layout α) ReportId).run l = .ok id l' ∧
      (do
        let (l, row) ← l.lastRow part
        let (l, column) ← l.lastColumn row
        l.newReport column a : Except Error (Layout α × ReportId)) = .ok (l', id) := by
  obtain ⟨l₁, row, r, hrow, hr⟩ := exists_lastRow h
  obtain ⟨l₂, column, c, hcolumn, hc⟩ := exists_lastColumn hr
  obtain ⟨l₃, id, hreport⟩ := exists_newReport hc a
  have hrun₁ := run_lastRow l part
  have hrun₂ := run_lastColumn l₁ row
  have hrun₃ := run_newReport l₂ column a
  rw [hrow] at hrun₁
  rw [hcolumn] at hrun₂
  rw [hreport] at hrun₃
  refine ⟨l₃, id, ?_, ?_⟩
  · exact (run_bind_ok hrun₁).trans ((run_bind_ok hrun₂).trans hrun₃)
  · rw [hrow]
    change (l₁.lastColumn row).bind _ = _
    rw [hcolumn]
    exact hreport

/-- A part is only added where none is asked for, and then the report has a place. -/
theorem run_append (l : Layout α) (part : Option Nat) (a : α) :
    (append part a).run l = outcome l (l.append part a) := by
  unfold append Layout.append
  rw [run_bind_ok (run_partOrLast l part)]
  cases hp : (l.partOrLast part).1.part? (l.partOrLast part).2 with
  | some p =>
    obtain ⟨l', id, hrun, happend⟩ := run_append_of_part? hp a
    rw [hrun]
    exact (congrArg (outcome l) happend).symm
  | none =>
    cases part with
    | none =>
      obtain ⟨p, hsome⟩ := part?_partOrLast l
      rw [hsome] at hp
      cases hp
    | some part =>
      have hlast : l.lastRow part = .error (.invalidLayout .part) := by
        unfold Layout.lastRow
        rw [show l.part? part = none from hp]
      have hrun := run_lastRow l part
      rw [hlast] at hrun
      refine (run_bind_error hrun).trans ?_
      change _ = outcome l ((l.lastRow part).bind _)
      rw [hlast]
      rfl

end InPlace

/-! What all reports are -/

def Column.All (P : α → Prop) (c : Column α) : Prop := ∀ a ∈ c.reports, P a

def Row.All (P : α → Prop) (r : Row α) : Prop := ∀ c ∈ r.columns, c.All P

def Part.All (P : α → Prop) (p : Part α) : Prop := ∀ r ∈ p.rows, r.All P

def All (P : α → Prop) (l : Layout α) : Prop := ∀ p ∈ l.parts, p.All P

variable {P : α → Prop}

theorem forall_mem_modify {γ : Type} {Q : γ → Prop} {items : List γ} {g : γ → γ} (i : Nat)
    (h : ∀ c ∈ items, Q c) (hg : ∀ c, Q c → Q (g c)) : ∀ c ∈ items.modify i g, Q c := by
  intro c hc
  obtain ⟨j, hj⟩ := List.mem_iff_getElem?.1 hc
  rw [List.getElem?_modify] at hj
  obtain ⟨c', hc', rfl⟩ := Option.map_eq_some_iff.1 hj
  have hQ := h c' (List.mem_of_getElem? hc')
  split
  · exact hg c' hQ
  · exact hQ

theorem forall_mem_concat {γ : Type} {Q : γ → Prop} {items : List γ} {c : γ}
    (h : ∀ b ∈ items, Q b) (hc : Q c) : ∀ b ∈ items ++ [c], Q b :=
  List.forall_mem_append.2 ⟨h, List.forall_mem_singleton.2 hc⟩

namespace All

theorem report (h : l.All P) (ha : l.report? id = some a) : P a := by
  obtain ⟨c, hcolumn, ha⟩ := Option.bind_eq_some_iff.1 ha
  obtain ⟨r, hrow, hc⟩ := Option.bind_eq_some_iff.1 hcolumn
  obtain ⟨p, hp, hr⟩ := Option.bind_eq_some_iff.1 hrow
  exact h p (List.mem_of_getElem? hp) r (List.mem_of_getElem? hr) c (List.mem_of_getElem? hc) a
    (List.mem_of_getElem? ha)

theorem modifyPart (h : l.All P) (part : Nat) {g : Part α → Part α}
    (hg : ∀ p, p.All P → (g p).All P) : (l.modifyPart part g).All P := forall_mem_modify part h hg

theorem modifyRow (h : l.All P) (row : RowId) {g : Row α → Row α}
    (hg : ∀ r, r.All P → (g r).All P) : (l.modifyRow row g).All P :=
  h.modifyPart row.part fun _ hp => forall_mem_modify row.row hp hg

theorem modifyColumn (h : l.All P) (column : ColumnId) {g : Column α → Column α}
    (hg : ∀ c, c.All P → (g c).All P) : (l.modifyColumn column g).All P :=
  h.modifyRow _ fun _ hr => forall_mem_modify column.column hr hg

theorem modify (h : l.All P) (id : ReportId) {g : α → α} (hg : ∀ a, P a → P (g a)) :
    (l.modify id g).All P := h.modifyColumn _ fun _ hc => forall_mem_modify id.report hc hg

theorem newPart (h : l.All P) : l.newPart.1.All P :=
  forall_mem_concat h (List.forall_mem_nil _)

theorem newRow (h : l.All P) (hl : l.newRow part = .ok (l', row)) : l'.All P := by
  unfold Layout.newRow at hl
  split at hl
  · cases hl
  · cases hl
    exact h.modifyPart part fun _ hp => forall_mem_concat hp (List.forall_mem_nil _)

theorem newColumn (h : l.All P) (hl : l.newColumn row = .ok (l', column)) : l'.All P := by
  unfold Layout.newColumn at hl
  split at hl
  · cases hl
  · cases hl
    exact h.modifyRow row fun _ hr => forall_mem_concat hr (List.forall_mem_nil _)

theorem newReport (h : l.All P) (ha : P a) (hl : l.newReport column a = .ok (l', id)) :
    l'.All P := by
  unfold Layout.newReport at hl
  split at hl
  · cases hl
  · cases hl
    exact h.modifyColumn column fun _ hc => forall_mem_concat hc ha

theorem partOrLast (h : l.All P) (part : Option Nat) : (l.partOrLast part).1.All P := by
  unfold Layout.partOrLast
  split
  · exact h
  · split
    · exact h.newPart
    · exact h

theorem lastRow (h : l.All P) (hl : l.lastRow part = .ok (l', row)) : l'.All P := by
  unfold Layout.lastRow at hl
  split at hl
  · split at hl
    · exact h.newRow hl
    · cases hl
      exact h
  · cases hl

theorem lastColumn (h : l.All P) (hl : l.lastColumn row = .ok (l', column)) : l'.All P := by
  unfold Layout.lastColumn at hl
  split at hl
  · split at hl
    · exact h.newColumn hl
    · cases hl
      exact h
  · cases hl

theorem append (h : l.All P) {part : Option Nat} (ha : P a) (hl : l.append part a = .ok (l', id)) :
    l'.All P := by
  have hpart := h.partOrLast part
  unfold Layout.append at hl
  generalize l.partOrLast part = chosen at hpart hl
  obtain ⟨l₁, part⟩ := chosen
  obtain ⟨⟨l₂, row⟩, hrow, hl⟩ := Compiler.bind_eq_ok hl
  obtain ⟨⟨l₃, column⟩, hcolumn, hl⟩ := Compiler.bind_eq_ok hl
  exact ((hpart.lastRow hrow).lastColumn hcolumn).newReport ha hl

end All
end Reporting.Layout
