import Reporting.Document.Live
import Reporting.Proofs.Document.InPlace
import Reporting.Proofs.Report.Lasting
/-!
Running a report in place. Once its breaks are checked and its main query is found, nothing can fail:
the run goes through the states that `Report.run` goes through, and tells the observers what that
tells.
-/
namespace Reporting

open Edit

namespace Observers

theorem tellAll_append (o : Observers) (trace trace' : List Observation) :
    o.tellAll (trace ++ trace') = (o.tellAll trace).tellAll trace' := List.foldl_append

end Observers

/-- A report behind a run. -/
def LiveReport.behind (r : LiveReport) (run : Run) : LiveReport where
  report := run.progress.report
  observers := r.observers.tellAll run.trace
  last :=
    { main := some run.progress.main
      names := run.progress.report.names
      row := run.progress.row
      values := run.progress.values }

namespace Bench

variable {b : Bench} {p p' started : Progress} {more : Bool} {n : Nat} {summary : Summary} {run : Run}

theorem tell_append (b : Bench) (trace trace' : List Observation) :
    b.tell (trace ++ trace') = (b.tell trace).tell trace' := by
  unfold tell
  rw [Observers.tellAll_append]

theorem run_rewind (b : Bench) (h : p.rewind = .ok p') :
    (rewind p.main).run (b.put p) = .ok () (b.put p') := by
  obtain ⟨hstart, rfl⟩ := Progress.rewind_eq_ok h
  exact workspaceOf.run_edit (s := b.put p) rfl
    (show _ = outcomeOf p.workspace (.ok _) from Workspace.InPlace.run_start hstart)

theorem run_advance (b : Bench) (h : p.advance = .ok (p', more)) :
    (advance p.main).run (b.put p) = .ok more (b.put p') := by
  obtain ⟨queries, hnext, rfl⟩ := Progress.advance_eq_ok h
  have hstep := workspaceOf.run_edit (s := b.put p) rfl
    (Workspace.InPlace.run_next p.workspace p.main)
  unfold Workspace.next at hstep
  rw [hnext] at hstep
  refine (run_bind_ok hstep).trans ?_
  cases more <;> rfl

theorem main_advance (h : p.advance = .ok (p', more)) : p'.main = p.main := by
  obtain ⟨queries, -, rfl⟩ := Progress.advance_eq_ok h
  rfl

theorem main_rewind (h : p.rewind = .ok p') : p'.main = p.main := by
  obtain ⟨-, rfl⟩ := Progress.rewind_eq_ok h
  rfl

theorem main_precalculateRow (p : Progress) : p.precalculateRow.main = p.main := by
  rw [Progress.precalculateRow_eq]
  exact (Progress.finished_stays p .ahead).2

theorem main_renderRow (p : Progress) : p.renderRow.1.main = p.main := by
  rw [Progress.renderRow_fst]
  exact (Progress.finished_stays p .final).2

/-- The rows are gone through in place as they are gone through in the states of the run. -/
theorem run_precalculateRows (b : Bench) (h : Progress.precalculateRows n p = .ok p') :
    (precalculateRows p.main n).run (b.put p) = .ok () (b.put p') ∧ p'.main = p.main := by
  induction n generalizing p with
  | zero =>
    cases h
    exact ⟨rfl, rfl⟩
  | succ n ih =>
    unfold Progress.precalculateRows at h
    cases hadvance : p.advance with
    | error e =>
      rw [hadvance] at h
      cases h
    | ok r =>
      obtain ⟨q, more⟩ := r
      rw [hadvance] at h
      have hmain := main_advance hadvance
      unfold precalculateRows
      rw [run_bind_ok (run_advance b hadvance)]
      cases more with
      | false =>
        cases h
        exact ⟨rfl, hmain⟩
      | true =>
        have hrow : q.precalculateRow.main = p.main := (main_precalculateRow q).trans hmain
        obtain ⟨hrun, hlast⟩ := ih h
        rw [hrow] at hrun hlast
        refine ⟨?_, hlast⟩
        rw [← hmain] at hrun ⊢
        exact hrun

theorem run_renderRows (b : Bench) (h : Progress.renderRows n p summary = .ok run) :
    (renderRows p.main n summary).run (b.put p) =
      .ok run.summary ((b.tell run.trace).put run.progress) := by
  induction n generalizing b p summary run with
  | zero =>
    cases h
    rfl
  | succ n ih =>
    unfold Progress.renderRows at h
    cases hadvance : p.advance with
    | error e =>
      rw [hadvance] at h
      cases h
    | ok r =>
      obtain ⟨q, more⟩ := r
      rw [hadvance] at h
      have hmain := main_advance hadvance
      unfold renderRows
      rw [run_bind_ok (run_advance b hadvance)]
      cases more with
      | false =>
        cases h
        rfl
      | true =>
        have hrows : (Progress.renderRows n q.renderRow.1
            ⟨summary.rows + 1, summary.triggers + q.renderRow.2.1⟩).bind (fun rest =>
              .ok { rest with trace := q.renderRow.2.2 ++ rest.trace }) = .ok run := h
        obtain ⟨rest, hrest, hlast⟩ := except_bind_eq_ok.1 hrows
        cases hlast
        have hrow : q.renderRow.1.main = p.main := (main_renderRow q).trans hmain
        have hrun := ih (b.tell q.renderRow.2.2) hrest
        rw [hrow] at hrun
        rw [tell_append]
        rw [← hmain] at hrun ⊢
        exact hrun

theorem run_rowBound (b : Bench) (p : Progress) :
    (rowBound p.main).run (b.put p) = .ok p.rowBound (b.put p) := rfl

theorem run_precalculate (b : Bench) (h : p.precalculate = .ok p') :
    (precalculate p.main).run (b.put p) = .ok () (b.put p') ∧ p'.main = p.main := by
  rw [Progress.precalculate_eq] at h
  obtain ⟨first, hfirst, h⟩ := except_bind_eq_ok.1 h
  obtain ⟨last, hlast, h⟩ := except_bind_eq_ok.1 h
  cases h
  have hmain := main_rewind hfirst
  obtain ⟨hrun, hrows⟩ := run_precalculateRows b hlast
  have hbound := run_rowBound b first
  rw [hmain] at hrun hbound hrows
  unfold precalculate
  rw [run_bind_ok (run_rewind b hfirst), run_bind_ok hbound, run_bind_ok hrun, ← hrows]
  exact ⟨rfl, rfl⟩

theorem run_render (b : Bench) {first : Progress} (hfirst : p.rewind = .ok first)
    (h : first.renderRows first.rowBound {} = .ok run) :
    (render p.main).run (b.put p) = .ok run.summary ((b.tell run.trace).put run.progress) := by
  have hmain := main_rewind hfirst
  have hrun := run_renderRows b h
  have hbound := run_rowBound b first
  rw [hmain] at hrun hbound
  unfold render
  rw [run_bind_ok (run_rewind b hfirst), run_bind_ok hbound, hrun]

theorem run_announce (b : Bench) (p : Progress) (event : Event) :
    (announce p.main event).run (b.put p) = .ok () ((b.tell [⟨event, p⟩]).put p) := rfl

/-- What is told when the last values of groups are known. -/
def toldAhead (ahead : Bool) (started : Progress) : List Observation :=
  if ahead then [⟨.precalculated, started⟩] else []

theorem run_lookAhead (b : Bench) (hready : p.ready = .ok started) :
    (lookAhead p.main).run (b.put p) =
      .ok () ((b.tell (toldAhead p.asksAhead started)).put started) ∧ started.main = p.main := by
  unfold Progress.ready at hready
  unfold lookAhead
  rw [EStateM.run_bind, EStateM.run_get]
  change (if p.asksAhead then _ else _ : Edit Bench Unit).run (b.put p) = _ ∧ _
  cases hahead : p.asksAhead with
  | false =>
    rw [hahead] at hready
    cases hready
    exact ⟨rfl, rfl⟩
  | true =>
    rw [hahead] at hready
    obtain ⟨hrun, hmain⟩ := run_precalculate b hready
    have htold := run_announce b started .precalculated
    rw [hmain] at htold
    exact ⟨(run_bind_ok hrun).trans htold, hmain⟩

/-- A run that is prepared goes through to its end. -/
theorem run_passes (b : Bench) (hready : p.ready = .ok started)
    (hrender : started.render p.asksAhead = .ok run) (hlast : run.progress.main = p.main) :
    (passes p.main).run (b.put p) = .ok run.summary ((b.tell run.trace).put run.progress) := by
  obtain ⟨hahead, hmain⟩ := run_lookAhead b hready
  unfold Progress.render at hrender
  obtain ⟨first, hfirst, hrender⟩ := except_bind_eq_ok.1 hrender
  obtain ⟨rows, hrows, hrender⟩ := except_bind_eq_ok.1 hrender
  cases hrender
  have hstart := run_announce (b.tell (toldAhead p.asksAhead started)) started .start
  have hmid := run_render ((b.tell (toldAhead p.asksAhead started)).tell [⟨.start, started⟩])
    hfirst hrows
  have hdone := run_announce (((b.tell (toldAhead p.asksAhead started)).tell
    [⟨.start, started⟩]).tell rows.trace) rows.progress .done
  rw [hmain] at hstart hmid
  rw [show rows.progress.main = p.main from hlast] at hdone
  unfold passes Progress.opening
  rw [run_bind_ok hahead, run_bind_ok hstart, run_bind_ok hmid, run_bind_ok hdone, tell_append,
    tell_append, tell_append]
  rfl

theorem run_finally {α : Type} {x : Edit Bench α} {a : α} {b' : Bench} (f : Bench → Bench)
    (h : x.run b = .ok a b') : (tryFinally x (change f)).run b = .ok a (f b') := by
  have hx : x b = .ok a b' := h
  simp only [tryFinally, tryFinally', Functor.map, EStateM.map, EStateM.run, hx]
  rfl

/-- A report whose names are bound for a run, and whose observers were taken out. -/
def entered (b : Bench) (p : Progress) : Bench :=
  ((b.setMain p.main).setNames p.report.names).takeObservers

theorem run_prepared (b : Bench) (h : b.report.report.prepare b.workspace = .ok p) :
    EStateM.run Bench.run b =
      (tryFinally (passes p.main) (change returnObservers)).run ((b.entered p).put p) := by
  obtain ⟨main, hmain, hcheck, rfl⟩ := Report.prepare_eq_ok h
  have hnames := Progress.names_reset
    { workspace := b.workspace, report := b.report.report.resolve b.workspace main, main, values := {} }
  unfold run
  rw [EStateM.run_bind, EStateM.run_get]
  dsimp only
  rw [hcheck, hmain, run_bind_ok (run_check_ok b _), run_bind_ok (run_check_ok b _)]
  unfold entered
  rw [hnames]
  rfl

theorem run_refused (b : Bench) {e : Error}
    (h : b.report.report.prepare b.workspace = .error e) : EStateM.run Bench.run b = .error e b := by
  unfold Report.prepare at h
  unfold run
  rw [EStateM.run_bind, EStateM.run_get]
  dsimp only
  cases hcheck : b.report.report.breaks.forM Break.check with
  | error e' =>
    rw [hcheck] at h
    cases h
    rfl
  | ok u =>
    rw [hcheck] at h
    rw [run_bind_ok (run_check_ok b _)]
    cases hmain : b.report.report.mainQuery b.workspace with
    | error e' =>
      rw [hmain] at h
      cases h
      rfl
    | ok main =>
      rw [hmain] at h
      cases h

/-- A run in place is refused where the run is refused, and then nothing has changed. -/
theorem run_run (hr : b.report.report.Sound) (hf : QueryStore.Forest b.workspace.queries) :
    EStateM.run Bench.run b = outcome b ((b.report.report.run b.workspace).map fun run =>
      ({ workspace := run.progress.workspace, report := b.report.behind run }, run.summary)) := by
  cases hp : b.report.report.prepare b.workspace with
  | error e =>
    rw [run_refused b hp, Report.run_eq, hp]
    rfl
  | ok p =>
    obtain ⟨run, hrun⟩ := Report.exists_run hr hf hp
    obtain ⟨p', started, first, ps, behind, hruns⟩ := Report.runs_of_run hrun
    obtain rfl : p' = p := Except.ok.inj (hruns.prepare.symm.trans hp)
    have hlast := hruns.last_within hr hf
    have hrender : started.render p'.asksAhead = .ok run := by
      rw [Report.run_eq, hp] at hrun
      obtain ⟨q, hq, hrender⟩ := except_bind_eq_ok.1 hrun
      obtain ⟨q', hq', hrender⟩ := except_bind_eq_ok.1 hrender
      cases hq
      rwa [Except.ok.inj (hq'.symm.trans hruns.ready)] at hrender
    have hpasses := run_passes (b.entered p') hruns.ready hrender hlast.main
    rw [hrun, run_prepared b hp, run_finally returnObservers hpasses]
    unfold entered LiveReport.behind
    rw [← hlast.main, ← hlast.names]
    rfl

end Bench
end Reporting
