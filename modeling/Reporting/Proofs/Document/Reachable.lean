import Reporting.Proofs.Document.Agreement
import Reporting.Proofs.Workspace.Reachable
/-!
The documents that can be built and used. Whatever was done to one of them, a step that is refused
leaves it as it was.
-/
namespace Reporting

/-! Data sources -/

namespace Workspace

variable {w w' : Workspace}

theorem Distinct.of_names (h : w.Distinct)
    (hnames : w'.datasources.map (·.name) = w.datasources.map (·.name)) : w'.Distinct := by
  unfold Distinct
  rw [hnames]
  exact h

theorem Distinct.addDatasource {name driver : String} (h : w.Distinct)
    (hw : w.addDatasource name driver = .ok w') : w'.Distinct := by
  unfold Workspace.addDatasource at hw
  split at hw
  · split at hw
    · cases hw
      exact h
    · cases hw
  · rename_i hnone
    obtain ⟨d, -, hw⟩ := Compiler.bind_eq_ok hw
    cases hw
    unfold Distinct
    rw [List.map_append]
    refine Report.nodup_concat h fun n hn he => ?_
    obtain ⟨d', hd', rfl⟩ := List.mem_map.1 hn
    exact List.find?_eq_none.1 hnone d' hd' (decide_eq_true he)

theorem Distinct.setEncoding {name : String} {encoding : Option String} (h : w.Distinct)
    (hw : w.setEncoding name encoding = .ok w') : w'.Distinct := by
  unfold Workspace.setEncoding at hw
  rw [InPlace.mapM_setEncoding h] at hw
  obtain ⟨ds, hds, hw⟩ := Compiler.bind_eq_ok hw
  cases hw
  split at hds
  · cases hds
    exact h
  · cases hencoding : Encoding.findAny encoding with
    | error e =>
      rw [hencoding] at hds
      cases hds
    | ok encoding =>
      rw [hencoding] at hds
      cases hds
      exact h.of_names (Progress.map_modify_of_eq _ _ fun _ => rfl)

theorem datasources_addQuery {name datasource : String} {source : QuerySource} {id : QueryId}
    (h : w.addQuery name datasource source = .ok (w', id)) : w'.datasources = w.datasources := by
  unfold addQuery at h
  cases hnew : (w.queries.idOf? name).isSome with
  | true =>
    rw [hnew] at h
    cases h
  | false =>
    rw [hnew] at h
    cases hd : w.datasource? datasource with
    | none =>
      rw [hd] at h
      cases h
    | some d =>
      rw [hd] at h
      obtain ⟨t, -, h⟩ := Compiler.bind_eq_ok h
      obtain ⟨r, -, h⟩ := Compiler.bind_eq_ok h
      cases h
      rfl

theorem datasources_start (w : Workspace) (id : QueryId) :
    (w.start id).1.datasources = w.datasources := by
  unfold start
  generalize w.queries.start id = started
  rfl

/-- Whatever was done, the names of the data sources are distinct. -/
theorem Reachable.distinct (h : w.Reachable) : w.Distinct := by
  induction h with
  | ofConfig => exact List.nodup_nil
  | setConfig c _ ih =>
    apply ih.of_names
    unfold Workspace.setConfig
    rfl
  | setFunctions _ _ ih => exact ih.of_names rfl
  | setEnvironment _ _ ih => exact ih.of_names rfl
  | addDatasource _ hw ih => exact ih.addDatasource hw
  | setEncoding _ hw ih => exact ih.setEncoding hw
  | addQuery _ hw ih => exact ih.of_names (congrArg _ (datasources_addQuery hw))
  | setQueryEncoding _ hw ih =>
    obtain ⟨e, -, hw⟩ := Compiler.bind_eq_ok hw
    cases hw
    exact ih.of_names rfl
  | removeQuery _ hw ih =>
    obtain ⟨queries, -, hw⟩ := Compiler.bind_eq_ok hw
    cases hw
    exact ih.of_names rfl
  | addFollower _ hw ih =>
    obtain ⟨queries, -, hw⟩ := Compiler.bind_eq_ok hw
    cases hw
    exact ih.of_names rfl
  | addMatched _ hw ih =>
    obtain ⟨x, -, hw⟩ := Compiler.bind_eq_ok hw
    obtain ⟨⟨⟩, -, hw⟩ := Compiler.bind_eq_ok hw
    obtain ⟨queries, -, hw⟩ := Compiler.bind_eq_ok hw
    cases hw
    exact ih.of_names rfl
  | start id _ ih => exact ih.of_names (congrArg _ (datasources_start _ id))
  | next _ hw ih =>
    obtain ⟨r, -, hw⟩ := Compiler.bind_eq_ok hw
    cases hw
    exact ih.of_names rfl

end Workspace

/-! Documents -/

/-- A report that a step adds can be built. -/
def Operation.WellBuilt {α : Type} : Operation α → Prop
  | newReport _ r => r.report.Reachable
  | appendReport _ r => r.report.Reachable
  | _ => True

namespace Document

variable {α : Type} {d d' : Document} {a : α} {id : ReportId} {r : Report}

/-- The workspace and all reports can be built. -/
structure WellBuilt (d : Document) : Prop where
  workspace : d.workspace.Reachable
  reports : d.layout.All Report.Reachable

theorem silent_eq_ok {result : Except Error Document} {u : Unit}
    (h : Operation.silent result = .ok (d', u)) : result = .ok d' := by
  cases result with
  | error e => cases h
  | ok d =>
    cases h
    rfl

namespace WellBuilt

theorem report (h : d.WellBuilt) (hr : d.report id = .ok r) : r.Reachable := by
  unfold Document.report at hr
  split at hr
  · rename_i hr'
    cases hr
    exact h.reports.report hr'
  · cases hr

theorem setReport (h : d.WellBuilt) (id : ReportId) (hr : r.Reachable) :
    (d.setReport id r).WellBuilt := ⟨h.workspace, h.reports.modify id fun _ _ => hr⟩

theorem setWorkspace (h : d.WellBuilt) {workspace : Workspace} (hw : workspace.Reachable) :
    WellBuilt { d with workspace } := ⟨hw, h.reports⟩

theorem setLayout (h : d.WellBuilt) {layout : Layout Report} (hl : layout.All Report.Reachable) :
    WellBuilt { d with layout } := ⟨h.workspace, hl⟩

/-- A step on the workspace. -/
theorem ofWorkspace {x : Except Error Workspace} {u : Unit} (h : d.WellBuilt)
    (hx : ∀ w, x = .ok w → w.Reachable)
    (hd : (Operation.silent do return { d with workspace := ← x }) = .ok (d', u)) :
    d'.WellBuilt := by
  cases x with
  | error e => cases hd
  | ok w =>
    cases hd
    exact h.setWorkspace (hx w rfl)

/-- A step on a report. -/
theorem ofReport {f : Report → Except Error (Report × α)} (h : d.WellBuilt)
    (hf : ∀ r r' a, r.Reachable → f r = .ok (r', a) → r'.Reachable)
    (hd : ((d.report id).bind fun r => (f r).bind fun (r, a) => .ok (d.setReport id r, a)) =
      .ok (d', a)) : d'.WellBuilt := by
  obtain ⟨r, hr, hd⟩ := Compiler.bind_eq_ok hd
  obtain ⟨⟨r', a⟩, hr', hd⟩ := Compiler.bind_eq_ok hd
  cases hd
  exact h.setReport id (hf r r' a (h.report hr) hr')

/-- A step on a report that tells nothing. -/
theorem ofSilent {f : Report → Except Error Report} {u : Unit} (h : d.WellBuilt)
    (hf : ∀ r r', r.Reachable → f r = .ok r' → r'.Reachable)
    (hd : (Operation.silent do
      let r ← d.report id
      return d.setReport id (← f r)) = .ok (d', u)) : d'.WellBuilt := by
  obtain ⟨r, hr, hd⟩ := Compiler.bind_eq_ok (silent_eq_ok hd)
  obtain ⟨r', hr', hd⟩ := Compiler.bind_eq_ok hd
  cases hd
  exact h.setReport id (hf r r' (h.report hr) hr')

/-- A step on the layout. -/
theorem ofLayout {x : Except Error (Layout Report × α)} (h : d.WellBuilt)
    (hx : ∀ layout a, x = .ok (layout, a) → layout.All Report.Reachable)
    (hd : (x.bind fun (layout, a) => .ok ({ d with layout }, a)) = .ok (d', a)) :
    d'.WellBuilt := by
  obtain ⟨⟨layout, a⟩, hl, hd⟩ := Compiler.bind_eq_ok hd
  cases hd
  exact h.setLayout (hx layout a hl)

theorem setMainQuery (h : d.WellBuilt) {query : String} (hd : d.setMainQuery id query = .ok d') :
    d'.WellBuilt := by
  obtain ⟨q, -, hd⟩ := Compiler.bind_eq_ok hd
  obtain ⟨r, hr, hd⟩ := Compiler.bind_eq_ok hd
  cases hd
  exact h.setReport id (.setQuery (some query) (h.report hr))

theorem executeReport (h : d.WellBuilt) {run : Run} (hd : d.executeReport id = .ok (d', run)) :
    d'.WellBuilt := by
  obtain ⟨r, hr, hd⟩ := Compiler.bind_eq_ok hd
  obtain ⟨run', hrun, hd⟩ := Compiler.bind_eq_ok hd
  cases hd
  have hreport := h.report hr
  exact (h.setWorkspace (hreport.workspace h.workspace hrun)).setReport id (.run hreport hrun)

/-- A step on two queries that are given by their names. -/
theorem between {f : QueryId → QueryId → Except Error Workspace} {leader follower : String}
    {u : Unit} (h : d.WellBuilt) (hf : ∀ leader follower w, f leader follower = .ok w → w.Reachable)
    (hd : (Operation.silent do
      let leader ← d.query leader
      let follower ← d.query follower
      return { d with workspace := ← f leader follower }) = .ok (d', u)) : d'.WellBuilt := by
  obtain ⟨leader, -, hd⟩ := Compiler.bind_eq_ok (silent_eq_ok hd)
  obtain ⟨follower, -, hd⟩ := Compiler.bind_eq_ok hd
  obtain ⟨w, hw, hd⟩ := Compiler.bind_eq_ok hd
  cases hd
  exact h.setWorkspace (hf leader follower w hw)

end WellBuilt

/-- What is added to a report that can be built leaves one that can be built. -/
theorem reachable_addition {r' : Report} {c : Compiler} {x : Addition} {i : Option Nat}
    (h : r.Reachable) (hr : x.apply c r = .ok (r', i)) : r'.Reachable := by
  cases x with
  | newBreak =>
    obtain ⟨r', hr', hr⟩ := Compiler.bind_eq_ok hr
    cases hr
    exact .newBreak h hr'
  | breakField =>
    obtain ⟨r', hr', hr⟩ := Compiler.bind_eq_ok hr
    cases hr
    exact .addBreakField h hr'
  | newVariable =>
    obtain ⟨r', hr', hr⟩ := Compiler.bind_eq_ok hr
    cases hr
    exact .newVariable h hr'
  | expression =>
    obtain ⟨r', hr', hr⟩ := Compiler.bind_eq_ok hr
    cases hr
    exact .addExpression h hr'

/-- Each step leaves what can be built. -/
theorem WellBuilt.apply (h : d.WellBuilt) (op : Operation α) (hop : op.WellBuilt)
    (hd : op.apply d = .ok (d', a)) : d'.WellBuilt := by
  have hw := h.workspace
  cases op with
  | addDatasource => exact h.ofWorkspace (fun _ => .addDatasource hw) hd
  | setEncoding => exact h.ofWorkspace (fun _ => .setEncoding hw) hd
  | addQuery =>
    obtain ⟨⟨w, id⟩, hadd, hd⟩ := Compiler.bind_eq_ok hd
    cases hd
    exact h.setWorkspace (.addQuery hw hadd)
  | removeQuery => exact h.ofWorkspace (fun _ => .removeQuery hw) hd
  | follow => exact h.ofWorkspace (fun _ => .addFollower hw) hd
  | followMatched => exact h.ofWorkspace (fun _ => .addMatched hw) hd
  | addFollower => exact h.between (fun _ _ _ => .addFollower hw) hd
  | addMatched => exact h.between (fun _ _ _ => .addMatched hw) hd
  | setMainQuery => exact h.setMainQuery (silent_eq_ok hd)
  | newBreak => exact h.ofSilent (fun _ _ => .newBreak) hd
  | addBreakField => exact h.ofSilent (fun _ _ => .addBreakField) hd
  | newVariable => exact h.ofSilent (fun _ _ => .newVariable) hd
  | addExpression => exact h.ofReport (fun _ _ _ => .addExpression) hd
  | build => exact h.ofReport (fun _ _ _ => reachable_addition) hd
  | newRow => exact h.ofLayout (fun _ _ => h.reports.newRow) hd
  | newColumn => exact h.ofLayout (fun _ _ => h.reports.newColumn) hd
  | newReport => exact h.ofLayout (fun _ _ => h.reports.newReport hop) hd
  | appendReport => exact h.ofLayout (fun _ _ => h.reports.append hop) hd
  | executeReport =>
    obtain ⟨⟨d', run⟩, hrun, hd⟩ := Compiler.bind_eq_ok hd
    cases hd
    exact h.executeReport hrun

end Document

namespace Live

variable {α : Type} {s s' : Live} {id : ReportId} {r : LiveReport}

/-- The documents that can be built and used. A caller may also put any workspace and any report
that can be built in the place of those that a document has. -/
inductive Reachable : Live → Prop
  | ofConfig (c : Config) (clock : Clock) : Reachable (.ofConfig c clock)
  | newPart {s : Live} : Reachable s → Reachable { s with layout := s.layout.newPart.1 }
  | setWorkspace {s : Live} {workspace : Workspace} : Reachable s → workspace.Reachable →
      Reachable { s with workspace }
  | setReport {s : Live} {r : LiveReport} (id : ReportId) : Reachable s → r.report.Reachable →
      Reachable { s with layout := s.layout.modify id fun _ => r }
  | performed {s s' : Live} {α : Type} (op : Operation α) {a : α} : Reachable s → op.WellBuilt →
      op.perform.run s = .ok a s' → Reachable s'
  | refused {s s' : Live} {α : Type} (op : Operation α) {e : Error} : Reachable s →
      op.perform.run s = .error e s' → Reachable s'

theorem agrees_of_wellBuilt (h : s.document.WellBuilt) (op : Operation α) :
    Agrees s op.perform (op.apply s.document) := by
  refine agrees_perform h.workspace.distinct h.workspace.wellBuilt.reachable.forest ?_ op
  intro id r hr
  have hr' : s.document.layout.report? id = some r.report := by
    unfold document
    rw [Layout.report?_map, hr]
    rfl
  exact (h.reports.report hr').sound

theorem Reachable.wellBuilt (h : s.Reachable) : s.document.WellBuilt := by
  induction h with
  | ofConfig c clock => exact ⟨.ofConfig c clock, List.forall_mem_nil _⟩
  | @newPart s _ ih =>
    refine ⟨ih.workspace, ?_⟩
    change (s.layout.newPart.1.map LiveReport.report).All _
    rw [Layout.newPart_map]
    exact ih.reports.newPart
  | setWorkspace _ hw ih => exact ih.setWorkspace hw
  | @setReport s r id _ hr ih =>
    have hlayout : (s.layout.modify id fun _ => r).map LiveReport.report =
        (s.layout.map LiveReport.report).modify id fun _ => r.report :=
      Layout.map_modify s.layout id fun _ => rfl
    refine ⟨ih.workspace, ?_⟩
    change ((s.layout.modify id fun _ => r).map LiveReport.report).All _
    rw [hlayout]
    exact ih.reports.modify id fun _ _ => hr
  | performed op _ hop hrun ih =>
    rcases agrees_of_wellBuilt ih op with ⟨e, he, -⟩ | ⟨a', s'', hok, happly⟩
    · rw [hrun] at he
      cases he
    · rw [hrun] at hok
      cases hok
      exact ih.apply op hop happly
  | refused op _ hrun ih =>
    rcases agrees_of_wellBuilt ih op with ⟨e', he, -⟩ | ⟨a', s'', hok, -⟩
    · rw [hrun] at he
      cases he
      exact ih
    · rw [hrun] at hok
      cases hok

/-- A step is refused for the reason that the document gives, and then everything is as it was: the
workspace, the layout, and of every report also its observers and what its last run has left. Else
the step gives the answer that the document gives, and leaves the document that it leaves. -/
theorem perform_all_or_nothing (h : s.Reachable) (op : Operation α) :
    (∃ e, op.perform.run s = .error e s ∧ op.apply s.document = .error e) ∨
      ∃ a s', op.perform.run s = .ok a s' ∧ op.apply s.document = .ok (s'.document, a) :=
  agrees_of_wellBuilt h.wellBuilt op

/-- A report without a query to run over. -/
def bare : Live := { workspace := .ofConfig {} {}, layout := ⟨[⟨[⟨[⟨[{ report := {} }]⟩]⟩]⟩]⟩ }

theorem reachable_bare : bare.Reachable :=
  .performed (.appendReport none { report := {} }) (.ofConfig {} {}) (.empty none) rfl

theorem perform_all_or_nothing_of_bare :
    bare.Reachable ∧
      (Operation.executeReport ⟨0, 0, 0, 0⟩).perform.run bare = .error .noMainQuery bare := by
  refine ⟨reachable_bare, ?_⟩
  have hrefused : (Operation.executeReport ⟨0, 0, 0, 0⟩).apply bare.document =
      .error .noMainQuery := rfl
  rcases perform_all_or_nothing reachable_bare (.executeReport ⟨0, 0, 0, 0⟩) with
    ⟨e, hrun, happly⟩ | ⟨a, s', -, happly⟩
  · rw [hrefused] at happly
    cases happly
    exact hrun
  · rw [hrefused] at happly
    cases happly

end Live
end Reporting
