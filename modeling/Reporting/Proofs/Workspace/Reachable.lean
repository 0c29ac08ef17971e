import Reporting.Proofs.Report.Course
/-!
The workspaces that can be built and used. Whatever was done to them, the conditions of their queries
are computed from columns and row counters.
-/
namespace Reporting

/-! Conditions -/

namespace Computation

variable {x y : Computation} {w : Workspace} {P : Source → Prop} {text : String}

theorem Sound.reads (h : x.Sound) (hpure : x.root.Every (Expr.Calls Function.Pure))
    (hreads : x.root.Every (Expr.ReadsOnly P)) : x.Reads P True := by
  refine ⟨h.computed, hpure, h.counters.imp fun e he => he.whole, hreads, h.counters.imp ?_⟩
  intro e _
  cases e with
  | constant => trivial
  | reference => trivial
  | call => exact fun _ _ => trivial

/-- An expression that is computed from columns and row counters. -/
structure OverRows (x : Computation) : Prop where
  sound : x.Sound
  reads : x.root.Every (Expr.ReadsOnly Source.OfQuery)

theorem OverRows.of_forget (h : x.OverRows) (he : x.forget = y.forget) : y.OverRows := by
  obtain ⟨hcomputed, hroot⟩ := root_of_forget he.symm h.sound.computed
  exact ⟨⟨hcomputed, Expr.readsCounter_of_forget hroot.symm h.sound.counters⟩,
    Expr.readsOnly_of_forget hroot.symm h.reads⟩

end Computation

namespace QueryStore

variable {s s' : QueryStore} {id leader follower : QueryId} {environment : Option Environment}
  {default : Option QueryId} {source : Source}

theorem counter?_eq_some {kind : CounterKind} {name : Option String}
    (h : Expr.counterSource? (s.scope environment default) kind name = some source) :
    ∃ id, source = .rowNumber id := by
  cases kind with
  | ofQuery => exact rowNumber?_eq_some h
  | ofBreak =>
    obtain ⟨n, -, h⟩ := Option.bind_eq_some_iff.1 h
    cases h

theorem counts_scope (s : QueryStore) (environment : Option Environment)
    (default : Option QueryId) : (s.scope environment default).Counts where
  rowNumber name source h := by
    obtain ⟨id, rfl⟩ := rowNumber?_eq_some h
    trivial
  breakRowNumber name source h := by cases h

end QueryStore

namespace Workspace

variable {w w' : Workspace} {x : Computation} {text : String} {leader follower : QueryId}

theorem column_of_checkCondition (h : checkCondition x = .ok ()) {r : Reference}
    (hr : r ∈ x.root.references) : ∃ name, r = .column name := by
  unfold checkCondition at h
  split at h
  · cases h
  · rename_i hnone
    have hcolumn := List.find?_eq_none.1 hnone r hr
    cases r with
    | named => exact (hcolumn rfl).elim
    | column name => exact ⟨name, rfl⟩

/-- A condition that is accepted is computed from columns and row counters. -/
theorem overRows_condition (hx : w.compiler.compileText text = .ok x)
    (hcheck : checkCondition x = .ok ()) :
    (w.optimize (x.resolve (w.queries.scope none (some leader))).1).OverRows := by
  obtain ⟨-, hfresh⟩ := Computation.fresh_compileText hx
  have hcounts := w.queries.counts_scope none (some leader)
  refine ⟨((Computation.sound_compileText hx).resolve hcounts).optimize _ _, ?_⟩
  apply Expr.every_simplify (fun _ _ => trivial) (fun _ _ _ _ _ h => h)
  apply Expr.readsOnly_bind
  · intro kind name source hsource
    obtain ⟨id, rfl⟩ := QueryStore.counter?_eq_some hsource
    trivial
  · intro r hr source hsource
    obtain ⟨name, rfl⟩ := column_of_checkCondition hcheck hr
    obtain ⟨id, k, rfl⟩ := QueryStore.column?_eq_some hsource
    trivial
  · refine hfresh.imp fun e he => ?_
    cases e with
    | constant => trivial
    | reference => trivial
    | call => exact fun source hsource => (Expr.boundTo?_of_fresh he hsource).elim

end Workspace

/-! Stores -/

namespace QueryStore

variable {s s' : QueryStore} {id leader follower : QueryId}

/-- A store whose conditions are computed from columns and row counters. -/
def OverRows (s : QueryStore) : Prop :=
  ∀ id q, s.get? id = some q → ∀ m ∈ q.matched, m.condition.OverRows

theorem get?_empty (id : QueryId) : ({} : QueryStore).get? id = none := rfl

namespace OverRows

theorem empty : OverRows {} := by
  intro id q hq
  rw [get?_empty] at hq
  cases hq

theorem conditions (h : s.OverRows)
    (hpure : ∀ id q, s.get? id = some q → ∀ m ∈ q.matched,
      m.condition.root.Every (Expr.Calls Function.Pure)) : s.Conditions := by
  intro id q hq m hm
  have hover := h id q hq m hm
  exact hover.sound.reads (hpure id q hq m hm) hover.reads

/-- Conditions that were there before are no others. -/
theorem of_subset (h : s.OverRows) (hsub : ∀ id q', s'.get? id = some q' → ∀ m ∈ q'.matched,
    ∃ q, s.get? id = some q ∧ m ∈ q.matched) : s'.OverRows := by
  intro id q' hq' m hm
  obtain ⟨q, hq, hm⟩ := hsub id q' hq' m hm
  exact h id q hq m hm

theorem of_still (h : s.OverRows) (hs : s'.still = s.still) : s'.OverRows := by
  intro id q' hq' m' hm'
  obtain ⟨q, hq, m, hm, he⟩ := exists_matched_of_still hs hq' hm'
  exact (h id q hq m hm).of_forget he

theorem insert (h : s.OverRows) {name datasource : String} {t : Table} {e : Option Encoding}
    (hs : s.insert (.ofTable name datasource t e) = .ok (s', id)) : s'.OverRows := by
  refine h.of_subset fun m q' hq' x hx => ?_
  rw [get?_insert hs] at hq'
  split at hq'
  · cases hq'
    cases hx
  · exact ⟨q', hq', hx⟩

theorem encode (h : s.OverRows) (id : QueryId) (e : Option Encoding) :
    OverRows (s.modify id fun q => { q with encoding := e }) := by
  refine h.of_subset fun m q' hq' x hx => ?_
  rw [get?_modify] at hq'
  split at hq'
  · obtain ⟨q, hq, rfl⟩ := Option.map_eq_some_iff.1 hq'
    exact ⟨q, hq, hx⟩
  · exact ⟨q', hq', hx⟩

theorem attach (h : s.OverRows) (hcheck : s.checkFollower leader follower = .ok ())
    {f : Query → Query} (hf : ∀ q, (∀ m ∈ q.matched, m.condition.OverRows) →
      ∀ m ∈ (f q).matched, m.condition.OverRows) : (s.attach leader follower f).OverRows := by
  obtain ⟨hne, -⟩ := checkFollower_ok hcheck
  intro id q' hq'
  rw [get?_attach hne] at hq'
  split at hq'
  · obtain ⟨q, hq, rfl⟩ := Option.map_eq_some_iff.1 hq'
    exact h id q hq
  · split at hq'
    · obtain ⟨q, hq, rfl⟩ := Option.map_eq_some_iff.1 hq'
      exact hf q (h id q hq)
    · exact h id q' hq'

theorem addFollower (h : s.OverRows) (hs : s.addFollower leader follower = .ok s') :
    s'.OverRows := by
  obtain ⟨⟨⟩, hcheck, hs⟩ := Compiler.bind_eq_ok hs
  cases hs
  exact h.attach hcheck fun _ hq => hq

theorem addMatched (h : s.OverRows) {condition : Computation} (hover : condition.OverRows)
    (hs : s.addMatched leader follower condition = .ok s') : s'.OverRows := by
  obtain ⟨⟨⟩, hcheck, hs⟩ := Compiler.bind_eq_ok hs
  cases hs
  refine h.attach hcheck fun q hq m hm => ?_
  rcases List.mem_append.1 hm with hm | hm
  · exact hq m hm
  · rw [List.mem_singleton.1 hm]
    exact hover

theorem remove (h : s.OverRows) (hs : s.remove id = .ok s') : s'.OverRows := by
  refine h.of_subset fun m q' hq' x hx => ?_
  rw [get?_remove hs] at hq'
  split at hq'
  · cases hq'
  · obtain ⟨q, hq, rfl⟩ := Option.map_eq_some_iff.1 hq'
    exact ⟨q, hq, (List.mem_filter.1 hx).1⟩

theorem finalize (h : s.OverRows) : s.finalize.OverRows := by
  intro id q hq
  rw [get?_finalize] at hq
  exact h id q hq

theorem start (h : s.OverRows) (hf : Forest s) (id : QueryId) : (s.start id).1.OverRows := by
  unfold QueryStore.start
  dsimp only
  split
  · exact h.finalize.of_still (keeps_rewindFamily hf.finalize id).still
  · exact h.finalize

end OverRows
end QueryStore

/-! Workspaces -/

namespace Workspace

/-- The workspaces that can be built and used. -/
inductive Reachable : Workspace → Prop
  | ofConfig (c : Config) (clock : Clock) : Reachable (.ofConfig c clock)
  | setConfig {w : Workspace} (c : Config) : Reachable w → Reachable (w.setConfig c)
  | setFunctions {w : Workspace} (functions : FunctionTable) : Reachable w →
      Reachable { w with functions }
  | setEnvironment {w : Workspace} (environment : Environment) : Reachable w →
      Reachable { w with environment }
  | addDatasource {w w' : Workspace} {name driver : String} : Reachable w →
      w.addDatasource name driver = .ok w' → Reachable w'
  | setEncoding {w w' : Workspace} {name : String} {encoding : Option String} : Reachable w →
      w.setEncoding name encoding = .ok w' → Reachable w'
  | addQuery {w w' : Workspace} {name datasource : String} {source : QuerySource} {id : QueryId} :
      Reachable w → w.addQuery name datasource source = .ok (w', id) → Reachable w'
  | setQueryEncoding {w w' : Workspace} {id : QueryId} {encoding : Option String} : Reachable w →
      w.setQueryEncoding id encoding = .ok w' → Reachable w'
  | removeQuery {w w' : Workspace} {id : QueryId} : Reachable w →
      w.removeQuery id = .ok w' → Reachable w'
  | addFollower {w w' : Workspace} {leader follower : QueryId} : Reachable w →
      w.addFollower leader follower = .ok w' → Reachable w'
  | addMatched {w w' : Workspace} {leader follower : QueryId} {condition : String} :
      Reachable w → w.addMatched leader follower condition = .ok w' → Reachable w'
  | start {w : Workspace} (id : QueryId) : Reachable w → Reachable (w.start id).1
  | next {w w' : Workspace} {id : QueryId} {more : Bool} : Reachable w →
      w.next id = .ok (w', more) → Reachable w'

variable {w w' : Workspace} {id : QueryId}

theorem queries_setConfig (w : Workspace) (c : Config) : (w.setConfig c).queries = w.queries := by
  unfold setConfig
  rfl

theorem queries_addDatasource {name driver : String} (h : w.addDatasource name driver = .ok w') :
    w'.queries = w.queries := by
  unfold addDatasource at h
  split at h
  · split at h
    · cases h
      rfl
    · cases h
  · obtain ⟨d, -, h⟩ := Compiler.bind_eq_ok h
    cases h
    rfl

theorem queries_setEncoding {name : String} {encoding : Option String}
    (h : w.setEncoding name encoding = .ok w') : w'.queries = w.queries := by
  obtain ⟨ds, -, h⟩ := Compiler.bind_eq_ok h
  cases h
  rfl

theorem queries_addQuery {name datasource : String} {source : QuerySource}
    (h : w.addQuery name datasource source = .ok (w', id)) :
    ∃ t e, w.queries.insert (.ofTable name datasource t e) = .ok (w'.queries, id) := by
  unfold addQuery at h
  cases hnew : (w.queries.idOf? name).isSome with
  | true =>
    rw [hnew] at h
    cases h
  | false =>
    rw [hnew] at h
    cases hd : w.datasource? datasource with
    | none =>
      rw [hd] at h
      cases h
    | some d =>
      rw [hd] at h
      obtain ⟨t, -, h⟩ := Compiler.bind_eq_ok h
      obtain ⟨⟨queries, id⟩, hinsert, h⟩ := Compiler.bind_eq_ok h
      cases h
      exact ⟨t, d.encoding, hinsert⟩

theorem queries_start (w : Workspace) (id : QueryId) :
    (w.start id).1.queries = (w.queries.start id).1 := by
  unfold start
  generalize w.queries.start id = started
  rfl

theorem queries_next {more : Bool} (h : w.next id = .ok (w', more)) :
    w.queries.next w.settings id = .ok (w'.queries, more) := by
  unfold next at h
  obtain ⟨⟨queries, produced⟩, hnext, h⟩ := Compiler.bind_eq_ok h
  cases h
  exact hnext

/-- What a workspace does to its queries is done by their store. -/
structure WellBuilt (w : Workspace) : Prop where
  reachable : w.queries.Reachable
  overRows : w.queries.OverRows

theorem WellBuilt.of_queries (h : w.WellBuilt) (hqueries : w'.queries = w.queries) :
    w'.WellBuilt := by
  refine ⟨?_, ?_⟩
  · rw [hqueries]
    exact h.reachable
  · rw [hqueries]
    exact h.overRows

theorem Reachable.wellBuilt (h : w.Reachable) : w.WellBuilt := by
  induction h with
  | ofConfig => exact ⟨.empty, .empty⟩
  | setConfig c _ ih => exact ih.of_queries (queries_setConfig _ c)
  | setFunctions _ _ ih => exact ih.of_queries rfl
  | setEnvironment _ _ ih => exact ih.of_queries rfl
  | addDatasource _ hw ih => exact ih.of_queries (queries_addDatasource hw)
  | setEncoding _ hw ih => exact ih.of_queries (queries_setEncoding hw)
  | addQuery _ hw ih =>
    obtain ⟨t, e, hinsert⟩ := queries_addQuery hw
    exact ⟨.insert _ _ t e ih.reachable hinsert, ih.overRows.insert hinsert⟩
  | setQueryEncoding _ hw ih =>
    obtain ⟨e, -, hw⟩ := Compiler.bind_eq_ok hw
    cases hw
    exact ⟨.encode _ e ih.reachable, ih.overRows.encode _ e⟩
  | removeQuery _ hw ih =>
    obtain ⟨queries, hremove, hw⟩ := Compiler.bind_eq_ok hw
    cases hw
    exact ⟨.remove ih.reachable hremove, ih.overRows.remove hremove⟩
  | addFollower _ hw ih =>
    obtain ⟨queries, hadd, hw⟩ := Compiler.bind_eq_ok hw
    cases hw
    exact ⟨.addFollower _ _ ih.reachable hadd, ih.overRows.addFollower hadd⟩
  | addMatched _ hw ih =>
    obtain ⟨x, hx, hw⟩ := Compiler.bind_eq_ok hw
    obtain ⟨⟨⟩, hcheck, hw⟩ := Compiler.bind_eq_ok hw
    obtain ⟨queries, hadd, hw⟩ := Compiler.bind_eq_ok hw
    cases hw
    exact ⟨.addMatched _ _ _ ih.reachable hadd,
      ih.overRows.addMatched (overRows_condition hx hcheck) hadd⟩
  | @start w id _ ih =>
    have hqueries := queries_start w id
    exact ⟨hqueries ▸ .start id ih.reachable, hqueries ▸ ih.overRows.start ih.reachable.forest id⟩
  | next _ hw ih =>
    have hnext := queries_next hw
    exact ⟨.next ih.reachable hnext,
      ih.overRows.of_still (QueryStore.keeps_next ih.reachable.forest hnext).still⟩

end Workspace

/-! Runs -/

namespace Progress

variable {p p' : Progress}

theorem reachable_advance {more : Bool} (h : p.workspace.Reachable)
    (hp : p.advance = .ok (p', more)) : p'.workspace.Reachable := by
  unfold advance at hp
  obtain ⟨⟨w, more⟩, hnext, hp⟩ := Compiler.bind_eq_ok hp
  cases hp
  exact .next h hnext

theorem reachable_rewind (h : p.workspace.Reachable) (hp : p.rewind = .ok p') :
    p'.workspace.Reachable := by
  have hstart := Workspace.Reachable.start p.main h
  unfold rewind at hp
  generalize p.workspace.start p.main = started at hstart hp
  obtain ⟨w, outcome⟩ := started
  obtain ⟨⟨⟩, -, hp⟩ := Compiler.bind_eq_ok hp
  cases hp
  exact hstart

end Progress

/-- A run leaves a workspace behind that can be used again. -/
theorem Report.Reachable.workspace {r : Report} {w : Workspace} {run : Run} (hr : r.Reachable)
    (hw : w.Reachable) (h : r.run w = .ok run) : run.progress.workspace.Reachable := by
  obtain ⟨prepared, started, first, ps, behind, hruns⟩ := runs_of_run h
  have hkept : Progress.Kept fun p => p.Sound ∧ p.workspace.Reachable := {
    advance := fun ⟨hs, hw⟩ hp => ⟨hs.advance hp, Progress.reachable_advance hw hp⟩
    rewind := fun ⟨hs, hw⟩ hp => ⟨hs.rewind hp, Progress.reachable_rewind hw hp⟩
    finished := fun pass ⟨hs, hw⟩ =>
      ⟨hs.finished pass, (Progress.finished_beside hs.balanced pass).workspace ▸ hw⟩
    evaluateExpressions := fun ⟨hs, hw⟩ => ⟨hs.evaluateExpressions, hw⟩
    again := fun ⟨hs, hw⟩ => ⟨hs.again, hw⟩ }
  refine (hkept.run hruns ⟨hr.sound.prepare hruns.prepare, ?_⟩).2.2.2.2.2
  rw [(live_of_prepare hruns.prepare).1]
  exact hw

end Reporting
