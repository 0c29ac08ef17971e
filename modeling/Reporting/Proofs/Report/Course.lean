import Reporting.Proofs.Query.Alike
import Reporting.Proofs.Query.Restarts
import Reporting.Proofs.Query.Walk
import Reporting.Proofs.Report.Reachable
/-!
The course of a run: its settings, its names and the forest of its queries stay what they were, it
comes to an end, and its rows are those of its main query.
-/
namespace Reporting

theorem QueryStore.still_finalize {s s' : QueryStore} (h : s'.still = s.still) :
    s'.finalize.still = s.finalize.still := by
  have hslots := congrArg (fun s => s.slots) h
  have hdirty : s'.dirty = s.dirty := congrArg (fun s => s.dirty) h
  have hfamilies : (fun id => (id, s'.collectFamily id)) = fun id => (id, s.collectFamily id) :=
    funext fun id => Prod.ext rfl (collectFamily_of_still h id)
  unfold finalize
  rw [hdirty, ids_of_still h, hfamilies]
  split
  · simp only [still] at hslots ⊢
    rw [hslots]
  · exact h

theorem QueryStore.underMatched_finalize {s : QueryStore} {id m : QueryId} :
    s.finalize.UnderMatched id m ↔ s.UnderMatched id m := by
  have hchildren (a : QueryId) : s.finalize.children a = s.children a := by
    rw [children, children, get?_finalize]
  simp only [UnderMatched, reaches_of_children_eq hchildren, matchedIds, get?_finalize]

theorem QueryStore.Forest.not_underMatched {s : QueryStore} {id : QueryId} (h : Forest s)
    (hm : ∀ m ∈ s.family id, s.matchedIds m = []) (m : QueryId) : ¬ s.UnderMatched id m := by
  rintro ⟨a, g, ha, hg, -⟩
  rw [hm a (h.mem_family.2 ha)] at hg
  cases hg

namespace Progress

variable {base p p' q : Progress} {ps : List Progress} {n : Nat} {more : Bool} {rows : List Row}

/-- What is the same in all states of a run. -/
structure SameRun (base p : Progress) : Prop where
  settings : p.workspace.settings = base.workspace.settings
  environment : p.workspace.environment = base.workspace.environment
  main : p.main = base.main
  names : p.report.names = base.report.names
  balanced : p.Balanced

/-- A state in which a run goes through its rows. -/
structure Within (base p : Progress) : Prop extends SameRun base p where
  still : p.workspace.queries.still = base.workspace.queries.finalize.still

theorem SameRun.refl (hb : p.Balanced) : SameRun p p := ⟨rfl, rfl, rfl, rfl, hb⟩

namespace Within

variable (h : Within base p)
include h

theorem forest (hf : QueryStore.Forest base.workspace.queries) :
    QueryStore.Forest p.workspace.queries := hf.finalize.of_still h.still

theorem live (hlive : (base.workspace.queries.get? base.main).isSome) :
    (p.workspace.queries.get? p.main).isSome := by
  rw [QueryStore.isSome_of_still h.still, QueryStore.get?_finalize, h.main]
  exact hlive

theorem advance (hf : QueryStore.Forest base.workspace.queries) (hp : p.advance = .ok (p', more)) :
    Within base p' := by
  obtain ⟨queries, hnext, rfl⟩ := advance_eq_ok hp
  refine ⟨⟨h.settings, h.environment, h.main, h.names, h.balanced⟩, ?_⟩
  exact (QueryStore.keeps_next (h.forest hf) hnext).still.trans h.still

theorem exists_advance (hlive : (base.workspace.queries.get? base.main).isSome) :
    ∃ p' more, p.advance = .ok (p', more) := by
  obtain ⟨q, hq⟩ := Option.isSome_iff_exists.1 (h.live hlive)
  exact ⟨_, _, advance_of_next (QueryStore.next_eq p.workspace.settings hq)⟩

theorem finished (pass : Pass) : Within base (p.finished pass) := by
  have hb := finished_beside h.balanced pass
  refine ⟨⟨?_, ?_, hb.main.trans h.main, ?_, hb.balanced h.balanced⟩, ?_⟩
  · rw [hb.workspace]
    exact h.settings
  · rw [hb.workspace]
    exact h.environment
  · rw [hb.names, names_evaluateBreaks, h.names]
  · rw [hb.workspace]
    exact h.still

theorem precalculateRow : Within base p.precalculateRow := by
  rw [precalculateRow_eq]
  exact h.finished .ahead

theorem renderRow : Within base p.renderRow.1 := by
  rw [renderRow_fst]
  have hf := h.finished .final
  exact ⟨⟨hf.settings, hf.environment, hf.main, hf.names, hf.balanced⟩, hf.still⟩

/-- A row moves nothing but what is computed on it. -/
theorem workspace_renderRow :
    p.renderRow.1.workspace = p.workspace ∧ p.renderRow.1.row = p.row := by
  rw [renderRow_fst]
  have hb := finished_beside h.balanced .final
  exact ⟨hb.workspace, hb.row⟩

end Within

/-! Starting -/

theorem rewind_within (h : SameRun base p) (hf : QueryStore.Forest p.workspace.queries)
    (hs : p.workspace.queries.finalize.still = base.workspace.queries.finalize.still)
    (hlive : (p.workspace.queries.get? p.main).isSome) :
    ∃ p', p.rewind = .ok p' ∧ Within base p' ∧ p'.row = p.row ∧
      p'.workspace.queries = p.workspace.queries.finalize.rewindFamily p.main := by
  obtain ⟨q, hq⟩ := Option.isSome_iff_exists.1 hlive
  have hstart := QueryStore.start_eq hq
  have hrewind : p.rewind = .ok { p with workspace :=
      { p.workspace with queries := p.workspace.queries.finalize.rewindFamily p.main } } := by
    unfold rewind Workspace.start
    rw [hstart]
    rfl
  refine ⟨_, hrewind, ⟨⟨h.settings, h.environment, h.main, h.names, h.balanced⟩, ?_⟩, rfl, rfl⟩
  exact (QueryStore.keeps_rewindFamily hf.finalize p.main).still.trans hs

theorem exists_precalculateRows (h : Within base p)
    (hf : QueryStore.Forest base.workspace.queries)
    (hlive : (base.workspace.queries.get? base.main).isSome) (n : Nat) :
    ∃ q, precalculateRows n p = .ok q ∧ Within base q := by
  induction n generalizing p with
  | zero => exact ⟨p, rfl, h⟩
  | succ n ih =>
    obtain ⟨p', more, hadvance⟩ := h.exists_advance hlive
    have hp' := h.advance hf hadvance
    unfold precalculateRows
    rw [hadvance]
    cases more with
    | false => exact ⟨p', rfl, hp'⟩
    | true => exact ih hp'.precalculateRow

theorem exists_renderRows (h : Within base p) (hf : QueryStore.Forest base.workspace.queries)
    (hlive : (base.workspace.queries.get? base.main).isSome) (n : Nat) (summary : Summary) :
    ∃ run, renderRows n p summary = .ok run := by
  induction n generalizing p summary with
  | zero => exact ⟨_, rfl⟩
  | succ n ih =>
    obtain ⟨p', more, hadvance⟩ := h.exists_advance hlive
    have hp' := h.advance hf hadvance
    unfold renderRows
    rw [hadvance]
    cases more with
    | false => exact ⟨_, rfl⟩
    | true =>
      obtain ⟨run, hrun⟩ := ih hp'.renderRow
        ⟨summary.rows + 1, summary.triggers + p'.renderRow.2.1⟩
      change ∃ run, (do
        let run ← renderRows n p'.renderRow.1
          ⟨summary.rows + 1, summary.triggers + p'.renderRow.2.1⟩
        return { run with trace := p'.renderRow.2.2 ++ run.trace } : Except Error Run) = .ok run
      rw [hrun]
      exact ⟨_, rfl⟩

theorem names_reset (p : Progress) : p.reset.report.names = p.report.names := by
  simp only [Report.names, reset, List.map_map]
  rfl

/-- Going through the rows in advance leaves a run where it was. -/
theorem exists_ready (hs : p.Sound) (hf : QueryStore.Forest p.workspace.queries)
    (hlive : (p.workspace.queries.get? p.main).isSome) (hrow : p.row = 0) :
    ∃ q, p.ready = .ok q ∧ SameRun p q ∧ QueryStore.Forest q.workspace.queries ∧
      q.workspace.queries.finalize.still = p.workspace.queries.finalize.still ∧ q.row = 0 := by
  unfold ready
  split
  · obtain ⟨first, hfirst, hwithin, -⟩ := rewind_within (.refl hs.balanced) hf rfl hlive
    obtain ⟨last, hlast, hend⟩ := exists_precalculateRows hwithin hf hlive first.rowBound
    have hready : p.precalculate = .ok last.again := by
      rw [precalculate_eq, hfirst]
      change (precalculateRows first.rowBound first).bind _ = _
      rw [hlast]
      rfl
    refine ⟨last.again, hready, ⟨hend.settings, hend.environment, hend.main, ?_,
      (kept_sound.precalculate hs hready).balanced⟩, hend.forest hf, ?_, rfl⟩
    · exact (names_reset last).trans hend.names
    · change last.workspace.queries.finalize.still = _
      rw [QueryStore.still_finalize hend.still,
        QueryStore.finalize_of_clean (QueryStore.dirty_finalize _)]
  · exact ⟨p, rfl, .refl hs.balanced, hf, rfl, hrow⟩

/-! The rows of a pass -/

/-- What is done on a row where the queries stay. -/
def Staying (base : Progress) (step : Progress → Progress) : Prop :=
  ∀ p, Within base p → Within base (step p) ∧ (step p).workspace = p.workspace ∧
    (step p).row = p.row

theorem staying_renderRow (base : Progress) : Staying base fun p => p.renderRow.1 :=
  fun _ h => ⟨h.renderRow, h.workspace_renderRow⟩

namespace Turns

variable {step : Progress → Progress} (h : Turns step p ps q)
include h

/-- The rows of a pass are counted. -/
theorem within (hstep : Staying base step) (hp : Within base p)
    (hf : QueryStore.Forest base.workspace.queries) :
    Within base q ∧ ∀ n p', ps[n]? = some p' → Within base p' ∧ p'.row = p.row + (n + 1) := by
  induction h with
  | none => exact ⟨hp, fun n p' hn => by cases hn⟩
  | @next p p₁ q ps hadvance _ ih =>
    have hp₁ := hp.advance hf hadvance
    have hrow₁ : p₁.row = p.row + 1 := by
      obtain ⟨queries, -, rfl⟩ := advance_eq_ok hadvance
      rfl
    obtain ⟨hwithin, -, hrow⟩ := hstep p₁ hp₁
    obtain ⟨hq, hps⟩ := ih hwithin
    refine ⟨hq, fun n p' hn => ?_⟩
    cases n with
    | zero =>
      obtain rfl := Option.some.inj hn
      exact ⟨hp₁, hrow₁⟩
    | succ n =>
      obtain ⟨hp', hrow'⟩ := hps n p' hn
      exact ⟨hp', by omega⟩

/-- Each row of a pass shows the first of the rows that are still to come. -/
theorem shows (hstep : Staying base step) (hp : Within base p)
    (hf : QueryStore.Forest base.workspace.queries)
    (hlive : (base.workspace.queries.finalize.get? base.main).isSome)
    (hj : base.workspace.queries.finalize.Joinable base.main)
    (hstands : base.workspace.queries.finalize.Stands base.workspace.settings
      (base.workspace.queries.finalize.slots.size + 1) p.workspace.queries.stance base.main rows) :
    ps.map (fun p => p.workspace.queries.shownRow base.main) = rows.take ps.length ∧
      base.workspace.queries.finalize.Stands base.workspace.settings
        (base.workspace.queries.finalize.slots.size + 1) q.workspace.queries.stance base.main
        (rows.drop ps.length) := by
  induction h generalizing rows with
  | none => exact ⟨rfl, hstands⟩
  | @next p p₁ q ps hadvance _ ih =>
    obtain ⟨queries, hnext, hp₁⟩ := advance_eq_ok hadvance
    obtain ⟨s', hs', hstill, hstands', hshown⟩ :=
      QueryStore.next_spec hf.finalize hlive hj hp.still hstands
    rw [hp.settings, hp.main, hs', Except.ok.injEq, Prod.mk.injEq] at hnext
    obtain ⟨rfl, hmore⟩ := hnext
    have hqueries : p₁.workspace.queries = s' := by rw [hp₁]
    obtain ⟨hwithin, hworkspace, -⟩ := hstep p₁ (hp.advance hf hadvance)
    cases rows with
    | nil => cases hmore
    | cons r rows =>
      rw [List.tail_cons, ← hqueries, ← hworkspace] at hstands'
      obtain ⟨hmap, hrest⟩ := ih hwithin hstands'
      refine ⟨?_, hrest⟩
      rw [List.map_cons, List.length_cons, List.take_succ_cons, hmap, hqueries, hshown r rfl]

end Turns

end Progress

namespace Report

variable {r : Report} {w : Workspace} {p prepared started first behind : Progress} {run : Run}
  {ps : List Progress}

theorem live_of_mainQuery {id : QueryId} (h : r.mainQuery w = .ok id) :
    (w.queries.get? id).isSome := by
  rw [← QueryStore.mem_ids]
  unfold mainQuery at h
  split at h
  · split at h
    · rename_i hid
      cases h
      exact List.mem_of_find?_eq_some hid
    · cases h
  · split at h
    · rename_i hid
      cases h
      exact List.mem_of_mem_head? hid
    · cases h

theorem live_of_prepare (h : r.prepare w = .ok p) :
    p.workspace = w ∧ p.row = 0 ∧ (w.queries.get? p.main).isSome := by
  obtain ⟨main, hmain, -, rfl⟩ := prepare_eq_ok h
  exact ⟨rfl, rfl, live_of_mainQuery hmain⟩

/-- A report that can be prepared can be run. -/
theorem exists_run (hr : r.Sound) (hf : QueryStore.Forest w.queries) (h : r.prepare w = .ok p) :
    ∃ run, r.run w = .ok run := by
  obtain ⟨rfl, hrow, hlive⟩ := live_of_prepare h
  obtain ⟨q, hready, hsame, hforest, hstill, -⟩ := Progress.exists_ready (hr.prepare h) hf hlive hrow
  have hlive' : (q.workspace.queries.get? q.main).isSome := by
    rw [hsame.main, ← QueryStore.get?_finalize, QueryStore.isSome_of_still hstill,
      QueryStore.get?_finalize]
    exact hlive
  obtain ⟨first, hfirst, hwithin, -⟩ := Progress.rewind_within hsame hforest hstill hlive'
  obtain ⟨run, hrun⟩ := Progress.exists_renderRows hwithin hf hlive first.rowBound {}
  rw [run_eq, h]
  change ∃ run, p.ready.bind (Progress.render p.asksAhead) = .ok run
  rw [hready]
  change ∃ run, Progress.render p.asksAhead q = .ok run
  unfold Progress.render
  rw [hfirst]
  change ∃ run, (Progress.renderRows first.rowBound first {}).bind _ = .ok run
  rw [hrun]
  exact ⟨_, rfl⟩

theorem Runs.within (h : r.Runs w run prepared started first ps behind) (hr : r.Sound)
    (hf : QueryStore.Forest w.queries) :
    Progress.SameRun prepared started ∧ Progress.Within prepared first ∧
      Progress.Within prepared behind ∧
      (∀ n p, ps[n]? = some p → Progress.Within prepared p ∧ p.row = n + 1) ∧
      ∃ s : QueryStore, s.still = w.queries.finalize.still ∧
        first.workspace.queries = s.rewindFamily prepared.main := by
  obtain ⟨hw, hrow, hlive⟩ := live_of_prepare h.prepare
  rw [← hw] at hf hlive ⊢
  obtain ⟨q, hready, hsame, hforest, hstill, hrow'⟩ :=
    Progress.exists_ready (hr.prepare h.prepare) hf hlive hrow
  obtain rfl := Except.ok.inj (hready.symm.trans h.ready)
  have hlive' : (q.workspace.queries.get? q.main).isSome := by
    rw [hsame.main, ← QueryStore.get?_finalize, QueryStore.isSome_of_still hstill,
      QueryStore.get?_finalize]
    exact hlive
  obtain ⟨p, hrewind, hwithin, hrow₀, hqueries⟩ :=
    Progress.rewind_within hsame hforest hstill hlive'
  obtain rfl := Except.ok.inj (hrewind.symm.trans h.rewind)
  obtain ⟨hbehind, hps⟩ := h.turns.within (Progress.staying_renderRow prepared) hwithin hf
  refine ⟨hsame, hwithin, hbehind, fun n p hn => ?_, _, hstill, hsame.main ▸ hqueries⟩
  obtain ⟨hp, hn⟩ := hps n p hn
  exact ⟨hp, by omega⟩

theorem Runs.rows_within (h : r.Runs w run prepared started first ps behind) (hr : r.Sound)
    (hf : QueryStore.Forest w.queries) : ∀ p ∈ ps, Progress.Within prepared p := by
  obtain ⟨-, -, -, hps, -⟩ := h.within hr hf
  intro p hp
  obtain ⟨n, hn⟩ := List.mem_iff_getElem?.1 hp
  exact (hps n p hn).1

/-- A run tells the rows of its main query, each of them once and in their order. -/
theorem Runs.shows (h : r.Runs w run prepared started first ps behind) (hr : r.Sound)
    (hf : QueryStore.Forest w.queries) (hj : w.queries.Joinable prepared.main) :
    run.rows.map (fun row => row.seen.workspace.queries.shownRow prepared.main) =
      w.queries.rows w.settings prepared.main := by
  obtain ⟨-, hfirst, hbehind, hps, s, hs, hqueries⟩ := h.within hr hf
  obtain ⟨hw, -, hlive⟩ := live_of_prepare h.prepare
  rw [← hw] at hf hj hlive hs ⊢
  have hlive' : (prepared.workspace.queries.finalize.get? prepared.main).isSome := by
    rw [QueryStore.get?_finalize]
    exact hlive
  have hj' := hj.finalize hf
  have hwalks := QueryStore.walks hf.finalize (hf.finalize.shallow _) hlive' hj'
    prepared.workspace.settings
  have hstands := hwalks.fresh s hs
  rw [← hqueries] at hstands
  obtain ⟨hmap, hrest⟩ := h.turns.shows (Progress.staying_renderRow prepared) hfirst hf hlive' hj'
    hstands
  have hrows : prepared.workspace.queries.finalize.rowsWithin prepared.workspace.settings
      (prepared.workspace.queries.finalize.slots.size + 1) prepared.main =
      prepared.workspace.queries.rows prepared.workspace.settings prepared.main := by
    rw [QueryStore.rows, QueryStore.size_finalize,
      QueryStore.rowsWithin_congr (QueryStore.get?_finalize _) hf.family_finalize]
  have hlast : (prepared.workspace.queries.rows prepared.workspace.settings prepared.main).length ≤
      ps.length := by
    rw [← hrows]
    rcases h.ends with ⟨hadvance, -⟩ | ⟨hlen, -⟩
    · obtain ⟨queries, hnext, -⟩ := Progress.advance_eq_ok hadvance
      obtain ⟨s', hs', -⟩ :=
        QueryStore.next_spec hf.finalize hlive' hj' hbehind.still hrest
      rw [hbehind.settings, hbehind.main, hs', Except.ok.injEq, Prod.mk.injEq] at hnext
      rw [Bool.not_eq_false', List.isEmpty_iff] at hnext
      exact List.drop_eq_nil_iff.1 hnext.2
    · rw [hlen, Progress.rowBound]
      have hbound := QueryStore.stepBound_of_still hfirst.still
        (first.workspace.queries.slots.size + 1) first.main
      rw [hbound, QueryStore.size_of_still hfirst.still, hfirst.main]
      exact QueryStore.length_rowsWithin _ _ _ _
  have htold : run.rows.map (fun row => row.seen.workspace.queries.shownRow prepared.main) =
      ps.map fun p => p.workspace.queries.shownRow prepared.main := by
    rw [h.rows, List.map_map]
    apply List.map_congr_left
    intro p hp
    obtain ⟨n, hn⟩ := List.mem_iff_getElem?.1 hp
    change p.renderRow.1.workspace.queries.shownRow _ = _
    rw [(hps n p hn).1.workspace_renderRow.1]
  rw [htold, hmap, hrows, List.take_of_length_le hlast]

end Report
end Reporting
