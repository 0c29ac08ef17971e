import Reporting.Proofs.Report.Bindings
import Reporting.Proofs.Report.Finals
/-!
Precalculated variables: what is read on a row is what the variable would have on the last row of its
group if it were not precalculated.
-/
namespace Reporting

namespace Progress

variable {p p' q started first last : Progress} {ps : List Progress} {i : Nat}

theorem rowBound_alike (h : p.Alike i p') : p.rowBound = p'.rowBound := by
  rw [rowBound, rowBound, ← QueryStore.stepBound_of_still h.queries.still,
    ← QueryStore.size_of_still h.queries.still, h.main]

/-- A pass in advance, and the state in which it leaves the run. -/
structure Foresees (p first : Progress) (ps : List Progress) (behind last started : Progress) :
    Prop where
  rewind : p.rewind = .ok first
  turns : Turns (step .ahead) first ps behind
  ends : Ends first.rowBound ps behind last
  again : started = last.again

/-- There is a pass in advance if a variable asks for it. -/
theorem exists_foreseen (h : p.ready = .ok started) (ha : p.asksAhead = true) :
    ∃ first ps behind last, Foresees p first ps behind last started := by
  unfold ready at h
  rw [if_pos ha, precalculate_eq, except_bind_eq_ok] at h
  obtain ⟨first, hfirst, h⟩ := h
  obtain ⟨last, hlast, h⟩ := except_bind_eq_ok.1 h
  obtain ⟨ps, behind, hturns, hends⟩ := turns_of_precalculateRows hlast
  exact ⟨first, ps, behind, last, hfirst, hturns, hends, (Except.ok.inj h).symm⟩

/-- Two runs that break in the same way and compute the same at a position. -/
structure Likewise (i : Nat) (p p' : Progress) : Prop where
  main : p'.main = p.main
  breaks : p'.report.breaks = p.report.breaks
  var : ∃ v v', p.report.vars[i]? = some v ∧ p'.report.vars[i]? = some v' ∧
    v.kind.isAggregate = true ∧ v'.kind = v.kind ∧ v'.resetBreak = v.resetBreak ∧
    v'.texts = v.texts

/-- The breaks that trigger on a row of the pass in advance. -/
def brokenAhead (p : Progress) : List String :=
  ((p.fired .ahead).map fun f => p.report.names.breaks.drop f).getD []

theorem broken_alike {ahead : List Progress}
    (h : List.Forall₂ (fun q q' => Alike i q q' ∧ (q.row ≠ 1 → q.Evaluated)) ahead ps) :
    ps.map (fun q => q.told.broken) = ahead.map brokenAhead := by
  symm
  rw [← List.forall₂_eq_eq_eq, List.forall₂_map_left_iff, List.forall₂_map_right_iff]
  refine h.imp fun q q' ⟨hq, he⟩ => ?_
  rw [brokenAhead, broken_told, hq.fired he .ahead .final, hq.breakNames]

/-- A run changes nothing of a variable but what its expressions remember. -/
theorem kept_same (v : Variable) (i : Nat) :
    Kept fun p => p.Sound ∧ ∃ v', p.report.vars[i]? = some v' ∧ Variable.Same v v' where
  advance h hp := by
    refine ⟨h.1.advance hp, ?_⟩
    obtain ⟨queries, -, rfl⟩ := advance_eq_ok hp
    exact h.2
  rewind h hp := by
    refine ⟨h.1.rewind hp, ?_⟩
    obtain ⟨-, rfl⟩ := rewind_eq_ok hp
    exact h.2
  finished pass h := by
    obtain ⟨hs, v', hv', hsame⟩ := h
    obtain ⟨v'', hv'', hsame'⟩ := (finished_beside hs.balanced pass).same i v' hv'
    exact ⟨hs.finished pass, v'', hv'', hsame.trans hsame'⟩
  evaluateExpressions h := ⟨h.1.evaluateExpressions, h.2⟩
  again {p} h := by
    obtain ⟨hs, v', hv', hsame⟩ := h
    refine ⟨hs.again, v'.restart, ?_, hsame.trans ⟨rfl, rfl, rfl, rfl, rfl⟩⟩
    change (p.report.vars.map Variable.restart)[i]? = _
    rw [List.getElem?_map, hv']
    rfl

end Progress

namespace Report

variable {r r' : Report} {w : Workspace} {run run' : Run}
  {p p' started started' first first' behind behind' first₀ : Progress} {ps ps' : List Progress}
  {i : Nat} {v v' : Variable}

theorem Runs.rooted (h : r.Runs w run p started first ps behind) (hr : r.Sound)
    (hv : p.report.vars[i]? = some v) (hk : v.kind ≠ .custom) :
    Progress.Rooted i p first ∧ ∀ q ∈ ps, Progress.Rooted i p q := by
  have hcustom : ∀ u, p.report.vars[i]? = some u → u.kind ≠ .custom := by
    intro u hu
    obtain rfl := Option.some.inj (hv.symm.trans hu)
    exact hk
  obtain ⟨-, hfirst, hps, -, -⟩ :=
    (Progress.kept_rooted hcustom).run h (.refl (hr.prepare h.prepare).balanced hv)
  exact ⟨hfirst, hps⟩

theorem custom_ne_of_aggregate (hk : v.kind.isAggregate = true) : v.kind ≠ .custom := by
  intro hcustom
  rw [hcustom] at hk
  cases hk

/-- The final pass of a run begins like the pass in advance of another one that is likewise. -/
theorem Runs.alike_first (h : r'.Runs w run' p' started' first' ps' behind') (hr' : r'.Sound)
    (hf : QueryStore.Forest w.queries) (hc : w.queries.Conditions) (hr : r.Sound)
    (hp : r.prepare w = .ok p) (hclean : p.Clean i) (hrewind : p.rewind = .ok first₀)
    (hl : p.Likewise i p') : first₀.Alike i first' := by
  obtain ⟨hw, -, hlive⟩ := live_of_prepare hp
  obtain ⟨hw', -, hlive'⟩ := live_of_prepare h.prepare
  obtain ⟨-, hwithin, -⟩ := h.within hr' hf
  have hb' := (hr'.prepare h.prepare).balanced
  obtain ⟨v, v', hv, hv', hk, hkind, hreset, htexts⟩ := hl.var
  have hrooted := (h.rooted hr' hv' (hkind ▸ custom_ne_of_aggregate hk)).1
  obtain ⟨u', hu', hsame, hu_texts⟩ := hrooted.exists_same hv'
  obtain ⟨-, hfirst₀⟩ := Progress.rewind_eq_ok hrewind
  have hqueries := Progress.queries_first (hw'.symm ▸ hf) (hw'.symm ▸ hc) (hw'.symm ▸ hlive') hb'
    h.ready h.rewind
  have hfresh := (fresh_prepare (i := i) hp).rewind hrewind
  have hfresh' := h.fresh_first (i := i)
  subst hfirst₀
  refine hfresh.alike hfresh' ⟨hclean.fields, hclean.stages⟩ ?_ ?_ ?_ ?_ ?_ ?_
    (hr.prepare hp).balanced hwithin.balanced
  · rw [hwithin.settings, hw', ← hw]
  · rw [hwithin.environment, hw', ← hw]
  · rw [hw', hl.main, ← hw] at hqueries
    exact hqueries
  · exact (hwithin.main.trans hl.main).symm
  · rw [hrooted.breaks, hl.breaks]
  · exact ⟨v, u', hv, hu', by rw [hsame.kind, hkind], hk, by rw [hsame.resetBreak, hreset],
      by rw [hu_texts, htexts]⟩

/-- The final pass of a run goes through the groups and the values of the pass in advance of another
one that is likewise, and breaks in the same way. -/
theorem Runs.follows (h : r'.Runs w run' p' started' first' ps' behind') (hr' : r'.Sound)
    (hf : QueryStore.Forest w.queries) (hc : w.queries.Conditions) (hr : r.Sound)
    (hp : r.prepare w = .ok p) (hclean : p.Clean i) (hl : p.Likewise i p') {ahead : List Progress}
    {behind₀ last : Progress} (ha : p.Foresees first₀ ahead behind₀ last started) :
    ahead.map (Progress.mark .ahead i) = ps'.map (Progress.mark .final i) ∧
      run'.rows.map (·.broken) = ahead.map Progress.brokenAhead := by
  have halike := h.alike_first hr' hf hc hr hp hclean ha.rewind hl
  have hrow : first₀.row ≠ 0 → first₀.Evaluated :=
    fun hrow => (hrow ((fresh_prepare (i := i) hp).rewind ha.rewind).row).elim
  have hfinal : Progress.Turns (Progress.step .final) first' ps' behind' := h.turns
  have hlock := ha.turns.alike hfinal halike hrow ha.ends (Progress.rowBound_alike halike ▸ h.ends)
  refine ⟨Progress.marks_alike hlock, ?_⟩
  rw [h.rows, List.map_map]
  exact Progress.broken_alike hlock

theorem state_prepare (hp : r.prepare w = .ok p) {s : VariableState}
    (hs : p.values.vars[i]? = some s) : s = {} := by
  obtain ⟨main, -, -, rfl⟩ := prepare_eq_ok hp
  exact List.eq_of_mem_replicate (List.mem_iff_getElem?.2 ⟨i, hs⟩)

/-- When the final pass begins, a precalculated variable has the last values of all groups that the
pass in advance went through. -/
theorem Runs.exists_loaded (h : r.Runs w run p started first ps behind) (hr : r.Sound)
    (hv : p.report.vars[i]? = some v) (hahead : v.precalculated = true)
    {ahead : List Progress} {last behind₀ : Progress}
    (ha : p.Foresees first₀ ahead behind₀ last started) :
    ∃ v' s, first.report.vars[i]? = some v' ∧ first.values.vars[i]? = some s ∧
      Variable.Same v v' ∧ Progress.Loaded s (ahead.map (Progress.mark .ahead i)) := by
  have hb := (hr.prepare h.prepare).balanced
  obtain ⟨s₀, hs₀⟩ := hb.exists_state hv
  obtain rfl := state_prepare h.prepare hs₀
  obtain ⟨-, hfirst₀⟩ := Progress.rewind_eq_ok ha.rewind
  have hv₀ : first₀.report.vars[i]? = some v := by
    rw [hfirst₀]
    exact hv
  have hstate₀ : first₀.values.vars[i]? = some {} := by
    rw [hfirst₀]
    exact hs₀
  obtain ⟨s, hs, hfinals⟩ := ha.turns.finals hv₀ hstate₀ hahead
  have hlast : last.values.vars[i]? = some s := by
    cases ha.ends with
    | done hadvance _ =>
      obtain ⟨queries, -, hlast⟩ := Progress.advance_eq_ok hadvance
      rw [hlast]
      exact hs
    | full _ hlast =>
      rw [hlast]
      exact hs
  obtain ⟨-, v', hv', hsame⟩ := ((Progress.kept_same v i).run h ⟨hr.prepare h.prepare, v, hv, .refl v⟩).2.1
  obtain ⟨-, hfirst⟩ := Progress.rewind_eq_ok h.rewind
  have hreport : last.again.report.vars[i]? = some v' := by
    rw [hfirst, ha.again] at hv'
    exact hv'
  have hvalues : first.values.vars[i]? =
      some (Progress.fresh v' (s.finals ++ [s.result.current])) := by
    rw [hfirst, ha.again]
    change last.freshStates[i]? = _
    rw [Progress.freshStates, List.getElem?_zipWith, List.getElem?_map, hlast,
      show last.reset.report.vars[i]? = some v' from hreport]
    rfl
  refine ⟨v', _, hv', hvalues, hsame, ?_⟩
  rw [Progress.fresh, hsame.precalculated, hahead, hfinals]
  exact ⟨rfl, rfl⟩

/-- A precalculated variable is read as the last value of the group of a row. -/
theorem Runs.reads_last (h : r.Runs w run p started first ps behind) (hr : r.Sound)
    (hv : first.report.vars[i]? = some v) {s : VariableState}
    (hs : first.values.vars[i]? = some s) (hahead : v.precalculated = true)
    (hl : Progress.Loaded s (ps.map (Progress.mark .final i))) {n : Nat} {q : Progress}
    (hq : ps[n]? = some q) :
    q.told.seen.result? v.name = some (lastOfGroup (q.mark .final i).2
      ((ps.map (Progress.mark .final i)).drop (n + 1))) := by
  obtain ⟨-, -, hsound, -, -⟩ := Progress.kept_sound.run h (hr.prepare h.prepare)
  obtain ⟨v', s', hv', hs', hsame, hread⟩ := h.turns.loaded hv hs hahead hl hq
  have hnames := (Progress.kept_sound.renderRow (hsound q (List.mem_iff_getElem?.2 ⟨n, hq⟩))).report
  have hrunning : (q.mark .final i).2 = s'.result.current := by
    rw [Progress.mark, Progress.running?, hs']
    rfl
  rw [← hsame.name]
  refine (Progress.result?_eq hnames.varNames hv').trans ?_
  rw [show q.renderRow.1.values.vars[i]? = some s' from hs', hrunning, ← hread, Option.map_some,
    hsame.precalculated, hahead, if_pos rfl]

theorem Runs.reads_running (h : r.Runs w run p started first ps behind) (hr : r.Sound)
    (hv : p.report.vars[i]? = some v) (hk : v.kind ≠ .custom) (hahead : v.precalculated = false)
    {n : Nat} {q : Progress} (hq : ps[n]? = some q) :
    q.told.seen.result? v.name = some (q.mark .final i).2 := by
  have hmem := List.mem_iff_getElem?.2 ⟨n, hq⟩
  obtain ⟨-, -, hsound, -, -⟩ := Progress.kept_sound.run h (hr.prepare h.prepare)
  have hrooted := (h.rooted hr hv hk).2 q hmem
  obtain ⟨v₁, hv₁, hsame₁, -⟩ := hrooted.exists_same hv
  obtain ⟨s₁, hs₁⟩ := hrooted.balanced.exists_state hv₁
  obtain ⟨v', s', value, hv', hs', hgets, hmark⟩ := Progress.step_gets .final hv₁ hs₁
  have hsame := hsame₁.trans hgets.toSame
  have hnames := (Progress.kept_sound.renderRow (hsound q hmem)).report
  rw [← hsame.name]
  refine (Progress.result?_eq hnames.varNames hv').trans ?_
  rw [show q.renderRow.1.values.vars[i]? = some s' from hs', hmark, Option.map_some,
    hsame.precalculated, hahead, if_neg Bool.false_ne_true]

/-- A precalculated variable is read as what it comes to on the row with which the group of a row
ends. -/
theorem Runs.reads_end (h : r.Runs w run p started first ps behind) (hr : r.Sound)
    (hf : QueryStore.Forest w.queries) (hv : p.report.vars[i]? = some v) (hk : v.kind ≠ .custom)
    (hahead : v.precalculated = true) {ahead : List Progress} {last behind₀ : Progress}
    (ha : p.Foresees first₀ ahead behind₀ last started)
    (hmarks : ahead.map (Progress.mark .ahead i) = ps.map (Progress.mark .final i)) {n e : Nat}
    {q q' : Progress} (hq : ps[n]? = some q) (hq' : ps[e]? = some q')
    (hgroup : GroupEnd (v.resetNames p.report.names) (ps.map Progress.told) n e) :
    q.told.seen.result? v.name = some (q'.mark .final i).2 := by
  obtain ⟨v₁, s₁, hv₁, hs₁, hsame₁, hloaded⟩ := h.exists_loaded hr hv hahead ha
  rw [hmarks] at hloaded
  have hlast := h.reads_last hr hv₁ hs₁ (hsame₁.precalculated.trans hahead) hloaded hq
  obtain ⟨-, -, hbound, -, -⟩ := Progress.kept_bound.run h (bound_prepare hr h.prepare)
  have hvars : ∀ q ∈ ps, ∃ u, q.report.vars[i]? = some u ∧ Variable.Same v u := by
    intro q hq
    obtain ⟨u, hu, hsame, -⟩ := ((h.rooted hr hv hk).2 q hq).exists_same hv
    exact ⟨u, hu, hsame⟩
  have hnames : ∀ q ∈ ps, v.resetNames q.report.names = v.resetNames p.report.names := by
    intro q hq
    rw [(h.rows_within hr hf q hq).names]
  rw [hsame₁.name, Progress.lastOfGroup_marks hbound hq hq' hvars hnames hgroup] at hlast
  exact hlast

/-- A report with a precalculated aggregate that reads no variables can be run, and so can the report
without precalculation. They break on the same rows, and on each row of the first run the variable is
read as what it is on the last row of the group in the second run. -/
theorem run_precalculated (hr : r.Reachable) (hw : w.Reachable) (hp : r.prepare w = .ok p)
    (hv : p.report.vars[i]? = some v) (hk : v.kind.isAggregate = true)
    (hahead : v.precalculated = true)
    (hmatch : ∀ id q, w.queries.get? id = some q → ∀ m ∈ q.matched,
      m.condition.root.Every (Expr.Calls Function.Pure))
    (hfields : ∀ b ∈ p.report.breaks, ∀ x ∈ b.fields, x.root.Every (Expr.Calls Function.Pure))
    (hbase : ∀ x ∈ v.computations, x.root.Every (Expr.Calls Function.Pure) ∧
      ∀ source ∈ x.sources, ¬ source.IsResult) :
    ∃ run run', r.run w = .ok run ∧ (r.notAhead v.name).run w = .ok run' ∧
      run'.rows.map (·.broken) = run.rows.map (·.broken) ∧
      ∀ n row, run.rows[n]? = some row → ∃ e row' x,
        GroupEnd (v.resetNames p.report.names) run.rows n e ∧ run'.rows[e]? = some row' ∧
        row.seen.result? v.name = some x ∧ row'.seen.result? v.name = some x := by
  have hs := hr.sound
  have hs' := hs.notAhead v.name
  have hf := hw.wellBuilt.reachable.forest
  have hc := hw.wellBuilt.overRows.conditions hmatch
  have hcustom := custom_ne_of_aggregate hk
  obtain ⟨p', hp', hmain, hbreaks, hv'⟩ := prepare_notAhead hs hp hv
  obtain ⟨run, hrun⟩ := exists_run hs hf hp
  obtain ⟨run', hrun'⟩ := exists_run hs' hf hp'
  obtain ⟨_, started, first, ps, behind, h⟩ := runs_of_run hrun
  obtain rfl := Except.ok.inj (hp.symm.trans h.prepare)
  obtain ⟨_, started', first', ps', behind', h'⟩ := runs_of_run hrun'
  obtain rfl := Except.ok.inj (hp'.symm.trans h'.prepare)
  have hasks : p.asksAhead = true :=
    List.any_eq_true.2 ⟨v, List.mem_iff_getElem?.2 ⟨i, hv⟩, hahead⟩
  obtain ⟨first₀, ahead, behind₀, last, ha⟩ := Progress.exists_foreseen h.ready hasks
  -- both final passes follow the pass in advance
  have hclean := clean_prepare hs hp hv hfields hbase
  have hlike : p.Likewise i p := ⟨rfl, rfl, v, v, hv, hv, hk, rfl, rfl, rfl⟩
  have hlike' : p.Likewise i p' :=
    ⟨hmain, hbreaks, v, v.notAhead, hv, hv', hk, rfl, rfl, rfl⟩
  obtain ⟨hmarks, hbroken⟩ := h.follows hs hf hc hs hp hclean hlike ha
  obtain ⟨hmarks', hbroken'⟩ := h'.follows hs' hf hc hs hp hclean hlike' ha
  refine ⟨run, run', hrun, hrun', hbroken'.trans hbroken.symm, fun n row hrow => ?_⟩
  obtain ⟨e, hgroup⟩ := GroupEnd.exists_end (v.resetNames p.report.names)
    (List.getElem?_eq_some_iff.1 hrow).1
  rw [h.rows] at hrow hgroup ⊢
  rw [List.getElem?_map] at hrow
  obtain ⟨q, hq, rfl⟩ := Option.map_eq_some_iff.1 hrow
  -- the row with which the group ends, in both runs
  have hsame : ps[e]?.map (Progress.mark .final i) = ps'[e]?.map (Progress.mark .final i) := by
    rw [← List.getElem?_map, ← hmarks, hmarks', List.getElem?_map]
  have hlt : e < ps.length := by
    rw [← List.length_map Progress.told]
    exact hgroup.lt
  rw [List.getElem?_eq_getElem hlt, Option.map_some, eq_comm] at hsame
  obtain ⟨q', hq', hmark⟩ := Option.map_eq_some_iff.1 hsame
  have hread := h.reads_end hs hf hv hcustom hahead ha hmarks hq (List.getElem?_eq_getElem hlt)
    hgroup
  have hread' := h'.reads_running hs' hv' hcustom rfl hq'
  rw [← hmark] at hread
  refine ⟨e, q'.told, (q'.mark .final i).2, hgroup, ?_, hread, hread'⟩
  rw [h'.rows, List.getElem?_map, hq']
  rfl

/-- The query with a key column, with the data source that serves it. -/
def served : Workspace := { keyed with datasources := [{ name := "a", driver := .array }] }

theorem served_reachable : served.Reachable := by
  have hsettings : ({ precisionBits := 64 } : Config).settings {} = keySettings := by
    have hprecision : ({ precisionBits := 64 } : Config).precision = keySettings.precision := by
      decide +kernel
    have horder : ({ precisionBits := 64 } : Config).dateOrder = .dayFirst := by decide +kernel
    have hcomma : ({ precisionBits := 64 } : Config).decimalComma = false := by decide +kernel
    rw [Config.settings, hprecision, horder, hcomma]
    rfl
  have hopened := Workspace.Reachable.ofConfig { precisionBits := 64 } {}
  rw [Workspace.ofConfig, hsettings] at hopened
  have hdatasource : Workspace.addDatasource { settings := keySettings } "a" "array" =
      .ok { served with queries := {} } := rfl
  have hquery : Workspace.addQuery { served with queries := {} } "q" "a" (.table keys) =
      .ok (served, ⟨0⟩) := rfl
  exact .addQuery (.addDatasource hopened hdatasource) hquery

/-- A report that counts the keys of each group in advance. -/
def foreseen : Report :=
  let stages := [some keyField, none, none]
  let count : Variable :=
    { name := "c", kind := .count, stages, resetOnBreak := some "b", precalculated := true }
  { byKey with vars := [count] }

def keyCount : VariableDef :=
  { name := "c", kind := .count, base := some "k", resetOnBreak := some "b", precalculated := true }

theorem foreseen_reachable : foreseen.Reachable := by
  have hbase : Variable.compileFormula keyed.compiler keyCount.base = .ok (some keyField) := by
    change Variable.compileFormula _ (some "k") = _
    rw [Variable.compileFormula, compileText_key]
    rfl
  have hvariable : byKey.newVariable keyed.compiler keyCount = .ok foreseen := by
    unfold newVariable Variable.compile
    simp only [List.mapM_cons, hbase]
    rfl
  exact .newVariable byKey_reachable hvariable

/-- The key, bound to its column. -/
def keyColumn : Computation :=
  { keyField with root := .reference (.column (.plain "k")) (some (.column ⟨0⟩ 0)) false }

/-- The first row reads what the second one, with which its group ends, has counted. -/
theorem run_precalculated_of_keys :
    foreseen.Reachable ∧ served.Reachable ∧ ∃ p v, foreseen.prepare served = .ok p ∧
      p.report.vars[0]? = some v ∧ v.kind.isAggregate = true ∧ v.precalculated = true ∧
      (∀ id q, served.queries.get? id = some q → ∀ m ∈ q.matched,
        m.condition.root.Every (Expr.Calls Function.Pure)) ∧
      (∀ b ∈ p.report.breaks, ∀ x ∈ b.fields, x.root.Every (Expr.Calls Function.Pure)) ∧
      (∀ x ∈ v.computations, x.root.Every (Expr.Calls Function.Pure) ∧
        ∀ source ∈ x.sources, ¬ source.IsResult) ∧
      ∃ run run', foreseen.run served = .ok run ∧ (foreseen.notAhead v.name).run served = .ok run' ∧
        run'.rows.map (·.broken) = run.rows.map (·.broken) ∧
        ∃ row e row', run.rows[0]? = some row ∧
          GroupEnd (v.resetNames p.report.names) run.rows 0 e ∧ run'.rows[e]? = some row' ∧
          row.seen.result? v.name = some (.ofInt 2) ∧
          row'.seen.result? v.name = some (.ofInt 2) := by
  have hprepare : ((foreseen.prepare served).toOption.map fun (p : Progress) =>
      (p.report.breaks.map (·.fields), p.report.vars[0]?.map fun v =>
        (v.name, v.kind, v.precalculated, v.computations))) =
      some ([[keyColumn]], some ("c", .count, true, [keyColumn])) := rfl
  obtain ⟨p, hp, hbound⟩ := exists_ok_of_map hprepare
  obtain ⟨hbreaks, hvars⟩ := Prod.mk.inj hbound
  obtain ⟨v, hv, hvariable⟩ := Option.map_eq_some_iff.1 hvars
  simp only [Prod.mk.injEq] at hvariable
  obtain ⟨hname, hkind, hahead, hcomputations⟩ := hvariable
  have hk : v.kind.isAggregate = true := by rw [hkind]; rfl
  have hmatch : ∀ id q, served.queries.get? id = some q → ∀ m ∈ q.matched,
      m.condition.root.Every (Expr.Calls Function.Pure) := by
    intro ⟨i⟩ q hq m hm
    cases i with
    | zero =>
      obtain rfl := Option.some.inj hq
      cases hm
    | succ => cases hq
  have hfields : ∀ b ∈ p.report.breaks, ∀ x ∈ b.fields,
      x.root.Every (Expr.Calls Function.Pure) := by
    intro b hb x hx
    have hmem := List.mem_map_of_mem (f := Break.fields) hb
    rw [hbreaks] at hmem
    rw [List.mem_singleton.1 hmem] at hx
    rw [List.mem_singleton.1 hx]
    trivial
  have hbase : ∀ x ∈ v.computations, x.root.Every (Expr.Calls Function.Pure) ∧
      ∀ source ∈ x.sources, ¬ source.IsResult := by
    rw [hcomputations]
    intro x hx
    rw [List.mem_singleton.1 hx]
    refine ⟨trivial, fun source hsource => ?_⟩
    rw [List.mem_singleton.1 hsource]
    exact id
  obtain ⟨run, run', hrun, hrun', hbroken, hread⟩ :=
    run_precalculated foreseen_reachable served_reachable hp hv hk hahead hmatch hfields hbase
  have htold : ((foreseen.run served).toOption.map fun run =>
      run.rows[0]?.bind fun row => row.seen.result? "c") = some (some (.ofInt 2)) := by
    decide +kernel
  rw [hrun] at htold
  obtain ⟨row, hrow, htwo⟩ := Option.bind_eq_some_iff.1 (Option.some.inj htold)
  obtain ⟨e, row', x, hgroup, hrow', hx, hx'⟩ := hread 0 row hrow
  rw [← hname] at htwo
  obtain rfl := Option.some.inj (htwo.symm.trans hx)
  exact ⟨foreseen_reachable, served_reachable, p, v, hp, hv, hk, hahead, hmatch, hfields, hbase, run,
    run', hrun, hrun', hbroken, row, e, row', hrow, hgroup, hrow', hx, hx'⟩

end Report
end Reporting
