import Reporting.Proofs.Document.Appended
import Reporting.Proofs.Document.Positions
/-!
Calls that build a layout, one after another. A layout only grows, so a position that was handed out for a
report names that report for good, and no two reports share one.
-/
namespace Reporting.Layout

variable {α : Type} {l l' : Layout α}

/-- A call that changes a layout. The positions it names may be any. -/
inductive Call (α : Type)
  | newPart
  | newRow (part : Nat)
  | newColumn (row : RowId)
  | newReport (column : ColumnId) (a : α)
  | append (part : Option Nat) (a : α)

/-- A call in place, and the report that it has added with the position handed out for it. -/
def Call.edit : Call α → Edit (Layout α) (Option (ReportId × α))
  | newPart => do
    let _ ← InPlace.newPart
    return none
  | newRow part => do
    let _ ← InPlace.newRow part
    return none
  | newColumn row => do
    let _ ← InPlace.newColumn row
    return none
  | newReport column a => do return some (← InPlace.newReport column a, a)
  | append part a => do return some (← InPlace.append part a, a)

/-- What a call leaves and hands out. After an error the layout stays as the call has left it, and nothing is
handed out. -/
def after : EStateM.Result Error (Layout α) (Option (ReportId × α)) → Layout α × List (ReportId × α)
  | .ok handed l => (l, handed.toList)
  | .error _ l => (l, [])

/-- Calls one after another: the layout in the end, and all reports with the positions handed out for them. -/
def run (l : Layout α) : List (Call α) → Layout α × List (ReportId × α)
  | [] => (l, [])
  | c :: cs =>
    let left := after (c.edit.run l)
    let rest := run left.1 cs
    (rest.1, left.2 ++ rest.2)

/-- What one call does to a layout: it adds no report, or one where there was none. -/
inductive Step (l : Layout α) : Layout α × List (ReportId × α) → Prop
  | none {l' : Layout α} (h : l'.report? = l.report?) : Step l (l', [])
  | added {l' : Layout α} {id : ReportId} {a : α} (h : Adds l.report? l'.report? id a) :
    Step l (l', [(id, a)])

theorem step_of_run {ι : Type} {x : Edit (Layout α) ι} {result : Except Error (Layout α × ι)}
    {g : ι → Option (ReportId × α)} (hx : x.run l = Edit.outcome l result)
    (h : ∀ l' i, result = .ok (l', i) → Step l (l', (g i).toList)) :
    Step l (after ((do return g (← x) : Edit (Layout α) _).run l)) := by
  rw [Edit.run_map hx]
  cases result with
  | error e => exact .none rfl
  | ok r => exact h r.1 r.2 rfl

theorem step_edit (l : Layout α) (c : Call α) : Step l (after (c.edit.run l)) := by
  cases c with
  | newPart =>
    exact .none (report?_newPart l)
  | newRow part =>
    exact step_of_run (InPlace.run_newRow l part) fun l' i h => .none (report?_newRow h)
  | newColumn row =>
    exact step_of_run (InPlace.run_newColumn l row) fun l' i h => .none (report?_newColumn h)
  | newReport column a =>
    exact step_of_run (InPlace.run_newReport l column a) fun l' i h => .added (adds_newReport h)
  | append part a =>
    exact step_of_run (InPlace.run_append l part a) fun l' i h => .added (adds_append h)

/-- The reports that were handed out are the reports of the layout, by positions that differ. -/
structure Records (handed : List (ReportId × α)) (l : Layout α) : Prop where
  nodup : (handed.map Prod.fst).Nodup
  named : ∀ id a, (id, a) ∈ handed ↔ l.report? id = some a

theorem records_nil : Records [] ({} : Layout α) where
  nodup := List.nodup_nil
  named := fun _ _ => iff_of_false List.not_mem_nil nofun

theorem Records.added {handed : List (ReportId × α)} {id : ReportId} {a : α} (h : Records handed l)
    (hadds : Adds l.report? l'.report? id a) : Records (handed ++ [(id, a)]) l' where
  nodup := by
    have hfresh : id ∉ handed.map Prod.fst := by
      intro hmem
      obtain ⟨⟨_, b⟩, hb, rfl⟩ := List.mem_map.1 hmem
      cases hadds.vacant.symm.trans ((h.named _ b).1 hb)
    rw [List.map_append]
    refine List.nodup_append.2 ⟨h.nodup, List.nodup_singleton _, ?_⟩
    rintro x hx y hy rfl
    rw [List.mem_singleton.1 hy] at hx
    exact hfresh hx
  named := by
    intro id' b
    rw [List.mem_append, List.mem_singleton, Prod.mk.injEq, h.named, hadds.eq_some_iff]

theorem Records.step {handed more : List (ReportId × α)} (h : Records handed l) (hstep : Step l (l', more)) :
    Records (handed ++ more) l' := by
  cases hstep with
  | none hsame =>
    rw [List.append_nil]
    exact ⟨h.nodup, fun id a => hsame ▸ h.named id a⟩
  | added hadds => exact h.added hadds

theorem Records.run {handed : List (ReportId × α)} (h : Records handed l) (cs : List (Call α)) :
    Records (handed ++ (run l cs).2) (run l cs).1 := by
  induction cs generalizing handed l with
  | nil => rwa [Layout.run, List.append_nil]
  | cons c cs ih =>
    rw [Layout.run]
    dsimp only
    rw [← List.append_assoc]
    exact ih (h.step (step_edit l c))

/-- What is listed is what was handed out, in another order. -/
theorem Records.reportIds_perm {handed : List (ReportId × α)} (h : Records handed l) :
    l.reportIds.Perm (handed.map Prod.fst) := by
  have hnodup : l.reportIds.Nodup := (pairwise_reportIds l).imp fun hbefore => hbefore.ne
  refine (List.perm_ext_iff_of_nodup hnodup h.nodup).2 fun id => ?_
  rw [mem_reportIds, Option.isSome_iff_exists, List.mem_map]
  constructor
  · rintro ⟨a, ha⟩
    exact ⟨(id, a), (h.named id a).2 ha, rfl⟩
  · rintro ⟨⟨_, a⟩, ha, rfl⟩
    exact ⟨a, (h.named _ a).1 ha⟩

theorem records_run (cs : List (Call α)) : Records (run {} cs).2 (run {} cs).1 := records_nil.run cs

theorem run_append (l : Layout α) (cs ds : List (Call α)) :
    run l (cs ++ ds) = ((run (run l cs).1 ds).1, (run l cs).2 ++ (run (run l cs).1 ds).2) := by
  induction cs generalizing l with
  | nil => rfl
  | cons c cs ih =>
    rw [List.cons_append, run, run]
    dsimp only
    rw [ih, List.append_assoc]

/-- Whatever is called on a new layout: no two reports get the same position, a position goes on to name its
report whatever is called later, and the positions are listed in the order of the document, each once. A report
is appended below the last one of the last column of the last row of the part, with only the nodes new that
it needs. -/
theorem positions_stay (cs : List (Call α)) :
    ((run {} cs).2.map Prod.fst).Nodup ∧
    (∀ id a, (id, a) ∈ (run {} cs).2 → ∀ ds, (run {} (cs ++ ds)).1.report? id = some a) ∧
    ((run {} cs).1.reportIds.Perm ((run {} cs).2.map Prod.fst) ∧
      (run {} cs).1.reportIds.Pairwise ReportId.Before) ∧
    ∀ (l : Layout α) (a : α),
      (InPlace.append none a).run l = .ok
        ((l.parts.getLast?.getD {}).nextId (l.parts.length - 1)) ⟨onLast (Part.add a) {} l.parts⟩ ∧
      ∀ part, (InPlace.append (some part) a).run l =
        match l.part? part with
        | some p => .ok (p.nextId part) (l.modifyPart part (Part.add a))
        | none => .error (.invalidLayout .part) l := by
  have hrecords := records_run cs
  refine ⟨hrecords.nodup, fun id a hmem ds => ?_, ⟨hrecords.reportIds_perm, pairwise_reportIds _⟩,
    fun l a => ⟨?_, fun part => ?_⟩⟩
  · rw [← (records_run (cs ++ ds)).named, run_append]
    exact List.mem_append_left _ hmem
  · rw [InPlace.run_append, append_none]
    rfl
  · rw [InPlace.run_append, append_some]
    cases l.part? part with
    | none => rfl
    | some p => rfl

end Reporting.Layout
