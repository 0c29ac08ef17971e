import Reporting.Proofs.Document.Layout
import Reporting.Proofs.Document.Run
/-!
A step on a document as it is held agrees with the function on documents: it is refused for the same
reason, and then nothing has changed, or it gives the same answer and leaves the same document.
-/
namespace Reporting

open Edit

namespace Live

variable {α β : Type} {s : Live} {id : ReportId}

/-- A step that is refused leaves everything as it was. -/
def Agrees (s : Live) (x : Edit Live α) (result : Except Error (Document × α)) : Prop :=
  (∃ e, x.run s = .error e s ∧ result = .error e) ∨
    ∃ a s', x.run s = .ok a s' ∧ result = .ok (s'.document, a)

theorem agrees_of_outcome {x : Edit Live α} {r : Except Error (Live × α)}
    {result : Except Error (Document × α)} (hx : x.run s = outcome s r)
    (hresult : result = r.map fun (s', a) => (s'.document, a)) : Agrees s x result := by
  cases r with
  | error e => exact .inl ⟨e, hx, hresult⟩
  | ok r => exact .inr ⟨r.2, r.1, hx, hresult⟩

/-- What is read first decides whether a step is refused. -/
theorem Agrees.check {read : Except Error β} {next : β → Edit Live α}
    {result : β → Except Error (Document × α)}
    (h : ∀ b, read = .ok b → Agrees s (next b) (result b)) :
    Agrees s (Edit.check read >>= next) (read.bind result) := by
  cases read with
  | error e => exact .inl ⟨e, rfl, rfl⟩
  | ok b => exact h b rfl

/-! Steps on the workspace -/

theorem agrees_workspace {x : Edit Workspace α} {r : Except Error (Workspace × α)}
    (hx : x.run s.workspace = outcome s.workspace r) :
    Agrees s (workspaceOf.edit x)
      (r.bind fun (workspace, a) => .ok ({ s.document with workspace }, a)) := by
  refine agrees_of_outcome (workspaceOf.run_edit (s := s) rfl hx) ?_
  cases r with
  | error e => rfl
  | ok r => rfl

theorem agrees_workspaceOf {x : Edit Workspace Unit} {r : Except Error Workspace}
    (hx : x.run s.workspace = outcomeOf s.workspace r) :
    Agrees s (workspaceOf.edit x) (Operation.silent do
      return { s.document with workspace := ← r }) := by
  refine agrees_of_outcome (workspaceOf.run_edit (s := s) rfl hx) ?_
  cases r with
  | error e => rfl
  | ok r => rfl

theorem agrees_query {name : String} {next : QueryId → Edit Live α}
    {result : QueryId → Except Error (Document × α)}
    (h : ∀ id, s.document.query name = .ok id → Agrees s (next id) (result id)) :
    Agrees s (query name >>= next) ((s.document.query name).bind result) := Agrees.check h

/-- A step on two queries that are given by their names. -/
theorem agrees_between {x : QueryId → QueryId → Edit Workspace Unit}
    {f : QueryId → QueryId → Except Error Workspace}
    (hx : ∀ leader follower, (x leader follower).run s.workspace =
      outcomeOf s.workspace (f leader follower)) (leader follower : String) :
    Agrees s (do
        let leader ← query leader
        let follower ← query follower
        workspaceOf.edit (x leader follower))
      (Operation.silent do
        let leader ← s.document.query leader
        let follower ← s.document.query follower
        return { s.document with workspace := ← f leader follower }) := by
  have hsteps : (Operation.silent do
        let leader ← s.document.query leader
        let follower ← s.document.query follower
        return { s.document with workspace := ← f leader follower }) =
      (s.document.query leader).bind fun leader => (s.document.query follower).bind fun follower =>
        Operation.silent do return { s.document with workspace := ← f leader follower } := by
    cases s.document.query leader with
    | error e => rfl
    | ok leader =>
      cases s.document.query follower with
      | error e => rfl
      | ok follower => rfl
  rw [hsteps]
  exact agrees_query fun leader _ => agrees_query fun follower _ =>
    agrees_workspaceOf (hx leader follower)

/-! Steps on a report -/

theorem report_document (s : Live) (id : ReportId) :
    s.document.report id = (s.report id).map (·.report) := by
  unfold Document.report report document
  rw [Layout.report?_map]
  cases s.layout.report? id with
  | none => rfl
  | some r => rfl

theorem get_reportOf (s : Live) (id : ReportId) :
    (reportOf id).get s = (s.report id).map (·.report) := by
  change (s.report id).bind _ = _
  cases s.report id <;> rfl

theorem get_benchOf (s : Live) (id : ReportId) :
    (benchOf id).get s = (s.report id).map fun r => { workspace := s.workspace, report := r } := by
  change (s.report id).bind _ = _
  cases s.report id <;> rfl

theorem agrees_reportOf {x : Edit Report α} {f : Report → Except Error (Report × α)}
    (hx : ∀ r, x.run r = outcome r (f r)) :
    Agrees s ((reportOf id).edit x) ((s.document.report id).bind fun r =>
      (f r).bind fun (r, a) => .ok (s.document.setReport id r, a)) := by
  have hput (r : Report) : ((reportOf id).put s r).document = s.document.setReport id r := by
    refine congrArg (Document.mk s.workspace) ?_
    exact Layout.map_modify s.layout id fun _ => rfl
  have hget := get_reportOf s id
  rw [report_document]
  cases hr : s.report id with
  | error e =>
    rw [hr] at hget
    exact .inl ⟨e, Focus.run_edit_error hget, rfl⟩
  | ok r =>
    rw [hr] at hget
    refine agrees_of_outcome (Focus.run_edit hget (hx r.report)) ?_
    change (f r.report).bind _ = _
    cases f r.report with
    | error e => rfl
    | ok changed => exact congrArg (fun d => Except.ok (d, changed.2)) (hput changed.1).symm

theorem agrees_setMainQuery (s : Live) (id : ReportId) (name : String) :
    Agrees s (setMainQuery id name) (Operation.silent (s.document.setMainQuery id name)) := by
  have hsteps : Operation.silent (s.document.setMainQuery id name) =
      (s.document.query name).bind fun _ => (s.document.report id).bind fun r =>
        (Except.ok ({ r with query := some name }, ())).bind fun (r, a) =>
          .ok (s.document.setReport id r, a) := by
    unfold Document.setMainQuery
    cases s.document.query name with
    | error e => rfl
    | ok _ =>
      cases s.document.report id with
      | error e => rfl
      | ok r => rfl
  rw [hsteps]
  exact agrees_query fun _ _ => agrees_reportOf fun _ => rfl

theorem agrees_build {x : Compiler → Edit Report α}
    {f : Compiler → Report → Except Error (Report × α)}
    (hx : ∀ c r, (x c).run r = outcome r (f c r)) :
    Agrees s (build id x) ((s.document.report id).bind fun r =>
      (f s.workspace.compiler r).bind fun (r, a) => .ok (s.document.setReport id r, a)) :=
  agrees_reportOf (hx s.workspace.compiler)

/-- A step that tells nothing. -/
theorem agrees_buildOf {x : Compiler → Edit Report Unit}
    {f : Compiler → Report → Except Error Report}
    (hx : ∀ c r, (x c).run r = outcomeOf r (f c r)) :
    Agrees s (build id x) (Operation.silent do
      let r ← s.document.report id
      return s.document.setReport id (← f s.workspace.compiler r)) := by
  have hsteps : (Operation.silent do
        let r ← s.document.report id
        return s.document.setReport id (← f s.workspace.compiler r)) =
      (s.document.report id).bind fun r =>
        ((f s.workspace.compiler r).map fun r => (r, ())).bind fun (r, a) =>
          .ok (s.document.setReport id r, a) := by
    cases s.document.report id with
    | error e => rfl
    | ok r =>
      change Operation.silent ((f s.workspace.compiler r).bind _) =
        ((f s.workspace.compiler r).map _).bind _
      cases f s.workspace.compiler r with
      | error e => rfl
      | ok r' => rfl
  rw [hsteps]
  exact agrees_build hx

theorem run_addition (x : Addition) (c : Compiler) (r : Report) :
    (x.perform c).run r = outcome r (x.apply c r) := by
  cases x with
  | newBreak b =>
    refine (run_map (Report.InPlace.run_newBreak r c b) fun _ => none).trans ?_
    change _ = outcome r ((r.newBreak c b).bind _)
    cases r.newBreak c b <;> rfl
  | breakField name text =>
    refine (run_map (Report.InPlace.run_addBreakField r c name text) fun _ => none).trans ?_
    change _ = outcome r ((r.addBreakField c name text).bind _)
    cases r.addBreakField c name text <;> rfl
  | newVariable v =>
    refine (run_map (Report.InPlace.run_newVariable r c v) fun _ => none).trans ?_
    change _ = outcome r ((r.newVariable c v).bind _)
    cases r.newVariable c v <;> rfl
  | expression name text =>
    refine (run_map (Report.InPlace.run_addExpression r c name text) some).trans ?_
    change _ = outcome r ((r.addExpression c name text).bind _)
    cases r.addExpression c name text <;> rfl

/-! Steps on the layout -/

theorem agrees_layout {x : Edit (Layout LiveReport) α}
    {r : Except Error (Layout LiveReport × α)} (hx : x.run s.layout = outcome s.layout r) :
    Agrees s (layoutOf.edit x) ((Layout.mapStep (·.report) r).bind fun (layout, a) =>
      .ok ({ s.document with layout }, a)) := by
  refine agrees_of_outcome (layoutOf.run_edit (s := s) rfl hx) ?_
  cases r with
  | error e => rfl
  | ok r => rfl

/-! Running -/

/-- Once a report can be run at all, its run in place ends where the run ends. -/
theorem agrees_executeReport (hsound : ∀ r, s.layout.report? id = some r → r.report.Sound)
    (hf : QueryStore.Forest s.workspace.queries) :
    Agrees s (executeReport id) (do
      let (d, run) ← s.document.executeReport id
      return (d, run.summary)) := by
  have hget := get_benchOf s id
  unfold Document.executeReport
  rw [report_document]
  cases hr : s.report id with
  | error e =>
    rw [hr] at hget
    exact .inl ⟨e, Focus.run_edit_error hget, rfl⟩
  | ok r =>
    rw [hr] at hget
    have hrun := Bench.run_run (b := { workspace := s.workspace, report := r })
      (hsound r (report?_of_report hr)) hf
    refine agrees_of_outcome (Focus.run_edit hget hrun) ?_
    change ((r.report.run s.workspace).bind _).bind _ = ((r.report.run s.workspace).map _ |>.map _).map _
    cases r.report.run s.workspace with
    | error e => rfl
    | ok run =>
      have hput : (s.layout.modify id fun _ => r.behind run).map LiveReport.report =
          (s.layout.map LiveReport.report).modify id fun _ => run.progress.report :=
        Layout.map_modify s.layout id fun _ => rfl
      exact congrArg (fun layout => Except.ok
        ({ workspace := run.progress.workspace, layout : Document }, run.summary)) hput.symm

/-! All steps -/

theorem agrees_perform (hdistinct : s.workspace.Distinct)
    (hf : QueryStore.Forest s.workspace.queries)
    (hsound : ∀ id r, s.layout.report? id = some r → r.report.Sound) (op : Operation α) :
    Agrees s op.perform (op.apply s.document) := by
  cases op with
  | addDatasource name driver =>
    exact agrees_workspaceOf (Workspace.InPlace.run_addDatasource _ name driver)
  | setEncoding name encoding => exact agrees_workspaceOf (Workspace.InPlace.run_setEncoding hdistinct)
  | addQuery name datasource source =>
    exact agrees_workspace (Workspace.InPlace.run_addQuery _ name datasource source)
  | removeQuery id => exact agrees_workspaceOf (Workspace.InPlace.run_removeQuery _ id)
  | follow leader follower =>
    exact agrees_workspaceOf (Workspace.InPlace.run_addFollower _ leader follower)
  | followMatched leader follower condition =>
    exact agrees_workspaceOf (Workspace.InPlace.run_addMatched _ leader follower condition)
  | addFollower leader follower =>
    exact agrees_between (Workspace.InPlace.run_addFollower s.workspace) leader follower
  | addMatched leader follower condition =>
    exact agrees_between (fun leader follower =>
      Workspace.InPlace.run_addMatched s.workspace leader follower condition) leader follower
  | setMainQuery id query => exact agrees_setMainQuery s id query
  | newBreak id b => exact agrees_buildOf fun c r => Report.InPlace.run_newBreak r c b
  | addBreakField id name text =>
    exact agrees_buildOf fun c r => Report.InPlace.run_addBreakField r c name text
  | newVariable id v => exact agrees_buildOf fun c r => Report.InPlace.run_newVariable r c v
  | addExpression id name text =>
    exact agrees_build fun c r => Report.InPlace.run_addExpression r c name text
  | build id c x => exact agrees_reportOf (run_addition x c)
  | newRow part =>
    have hagrees := agrees_layout (Layout.InPlace.run_newRow s.layout part)
    rw [← Layout.newRow_map] at hagrees
    exact hagrees
  | newColumn row =>
    have hagrees := agrees_layout (Layout.InPlace.run_newColumn s.layout row)
    rw [← Layout.newColumn_map] at hagrees
    exact hagrees
  | newReport column r =>
    have hagrees := agrees_layout (Layout.InPlace.run_newReport s.layout column r)
    rw [← Layout.newReport_map] at hagrees
    exact hagrees
  | appendReport part r =>
    have hagrees := agrees_layout (Layout.InPlace.run_append s.layout part r)
    rw [← Layout.append_map] at hagrees
    exact hagrees
  | executeReport id => exact agrees_executeReport (hsound id) hf

end Live
end Reporting
