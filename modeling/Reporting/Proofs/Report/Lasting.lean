import Reporting.Proofs.Report.Afresh
/-!
What outlasts a run: of the report everything but the values that its expressions hold, and of the
queries where those stand that do not go along with the main query.
-/
namespace Reporting

section

variable {α β γ δ : Type}

theorem map_modify_of_getElem? {l : List α} {i : Nat} {f : α → α} {g : α → β}
    (h : ∀ a, l[i]? = some a → g (f a) = g a) : (l.modify i f).map g = l.map g := by
  apply List.ext_getElem?
  intro j
  rw [List.getElem?_map, List.getElem?_map]
  by_cases hij : i = j
  · subst hij
    rw [Progress.getElem?_modify_self]
    cases ha : l[i]? with
    | none => rfl
    | some a => exact congrArg some (h a ha)
  · rw [List.getElem?_modify_ne _ _ hij]

theorem map_zipWith_left {l : List α} {l' : List β} {f : α → β → γ} {g : γ → δ} {h : α → δ}
    (hlength : l'.length = l.length) (hf : ∀ a b, g (f a b) = h a) :
    (List.zipWith f l l').map g = l.map h := by
  induction l generalizing l' with
  | nil => rfl
  | cons a l ih =>
    cases l' with
    | nil => cases hlength
    | cons b l' =>
      rw [List.zipWith_cons_cons, List.map_cons, List.map_cons, hf, ih (Nat.succ.inj hlength)]

theorem map_set_of_getElem? {l : List α} {i : Nat} {a b : α} {g : α → β} (h : l[i]? = some a)
    (hg : g b = g a) : (l.set i b).map g = l.map g := by
  rw [List.map_set, hg, ← List.map_set]
  congr 1
  apply List.ext_getElem?
  intro j
  rw [List.getElem?_set]
  split
  · rename_i hij
    subst hij
    rw [if_pos (List.getElem?_eq_some_iff.1 h).1, h]
  · rfl

end

/-- A variable without what its expressions remember. -/
def Variable.forget (v : Variable) : Variable := v.map .forget

/-- An expression of a report without what it remembers. -/
def ReportExpression.forget (e : ReportExpression) : ReportExpression :=
  { e with computation := e.computation.forget }

/-- A report without what its expressions remember. -/
def Report.forget (r : Report) : Report :=
  { r with
    breaks := r.breaks.map .forget
    vars := r.vars.map .forget
    expressions := r.expressions.map .forget }

theorem Variable.forget_restart (v : Variable) : v.restart.forget = v.forget := by
  simp only [forget, restart, map, List.map_map, Option.map_map, Function.comp_def]
  rfl

namespace Progress

variable {base p p' : Progress} {i : Nat}

/-- The report that is run, up to what its expressions remember. -/
structure Lasts (base p : Progress) : Prop where
  balanced : p.Balanced
  report : p.report.forget = base.report.forget

theorem forget_modifyVariable {f : Variable → Variable} (g : VariableState → VariableState)
    (h : ∀ v, p.report.vars[i]? = some v → (f v).forget = v.forget) :
    (p.modifyVariable i f g).report.forget = p.report.forget := by
  unfold modifyVariable Report.forget
  dsimp only
  rw [map_modify_of_getElem? h]

theorem forget_evaluateStage (pass : Pass) (i : Nat) (p : Progress) (k : Nat) :
    (evaluateStage pass i p k).report.forget = p.report.forget := by
  cases hx : p.report.vars[i]?.bind fun v => v.stages[k]?.join with
  | none => rw [evaluateStage_of_none hx]
  | some x =>
    rw [evaluateStage_of_some hx]
    apply forget_modifyVariable
    intro v hv
    rw [hv, Option.bind_some] at hx
    have hstages : (v.stages.set k (some (x.evaluate (p.context pass (some i))).1)).map
        (Option.map Computation.forget) = v.stages.map (Option.map Computation.forget) :=
      map_set_of_getElem? (Option.join_eq_some_iff.1 hx)
        (congrArg some (Computation.forget_evaluate x _))
    unfold Variable.forget Variable.map setStage
    dsimp only
    rw [hstages]

theorem forget_evaluateResult (pass : Pass) (i : Nat) (p : Progress) :
    (evaluateResult pass i p).report.forget = p.report.forget := by
  unfold evaluateResult
  split
  · rename_i v s hv _
    split
    · rename_i x _ hresult
      apply forget_modifyVariable
      intro v' hv'
      obtain rfl := Option.some.inj (hv.symm.trans hv')
      change ({ v with result := some (x.evaluate (p.context pass (some i))).1 } : Variable).forget = _
      simp only [Variable.forget, Variable.map, hresult, Option.map_some,
        Computation.forget_evaluate]
    · exact forget_modifyVariable _ fun _ _ => rfl
    · exact forget_modifyVariable _ fun _ _ => rfl
  · rfl

theorem forget_evaluateStages (pass : Pass) (i : Nat) (ks : List Nat) (p : Progress) :
    (ks.foldl (evaluateStage pass i) p).report.forget = p.report.forget := by
  induction ks generalizing p with
  | nil => rfl
  | cons k ks ih => exact (ih _).trans (forget_evaluateStage pass i p k)

theorem forget_foldl_evaluateVariable (pass : Pass) (is : List Nat) (p : Progress) :
    (is.foldl (evaluateVariable pass) p).report.forget = p.report.forget := by
  induction is generalizing p with
  | nil => rfl
  | cons i is ih =>
    exact (ih _).trans ((forget_evaluateResult pass i _).trans (forget_evaluateStages pass i _ p))

theorem forget_evaluateVariables (p : Progress) (pass : Pass) :
    (p.evaluateVariables pass).report.forget = p.report.forget :=
  forget_foldl_evaluateVariable pass _ p

theorem forget_evaluateBreaks (p : Progress) (pass : Pass) :
    (p.evaluateBreaks pass).1.report.forget = p.report.forget := by
  have hbreaks : (p.evaluateBreaks pass).1.report.breaks.map Break.forget =
      p.report.breaks.map Break.forget := by
    rw [breaks_evaluateBreaks, List.map_map]
    exact List.map_congr_left fun b _ => b.forget_evaluate _
  unfold Report.forget
  rw [hbreaks]
  rfl

theorem forget_resetVariables (hb : p.Balanced) (pass : Pass) (first : Nat) :
    (p.resetVariables pass first).report.forget = p.report.forget := by
  have hvars : (p.resetVariables pass first).report.vars.map Variable.forget =
      p.report.vars.map Variable.forget := by
    unfold resetVariables mapVariables
    rw [List.map_map]
    apply map_zipWith_left hb
    intro v s
    rw [Function.comp_apply]
    split
    · exact v.forget_restart
    · rfl
  unfold Report.forget
  rw [hvars]
  rfl

theorem forget_opened (hb : p.Balanced) (pass : Pass) :
    (p.opened pass).report.forget = p.report.forget := by
  have hbreaks := forget_evaluateBreaks p pass
  have hb' : (p.evaluateBreaks pass).1.Balanced := hb
  unfold opened
  split
  · rw [forget_resetVariables hb', hbreaks]
  · exact hbreaks

theorem forget_evaluateExpressions (p : Progress) :
    p.evaluateExpressions.report.forget = p.report.forget := by
  unfold evaluateExpressions Report.forget
  dsimp only
  rw [List.map_map]
  congr 1
  apply List.map_congr_left
  intro e _
  exact congrArg (ReportExpression.mk e.name) (Computation.forget_evaluate _ _)

theorem forget_reset (p : Progress) : p.reset.report.forget = p.report.forget := by
  simp only [reset, Report.forget, List.map_map, Function.comp_def, Break.forget_restart,
    Variable.forget_restart]
  rfl

theorem balanced_again (h : p.Balanced) : p.again.Balanced := by
  have hlength : p.reset.report.vars.length = p.report.vars.length := by
    simp only [reset, List.length_map]
  change p.freshStates.length = p.reset.report.vars.length
  rw [freshStates, List.length_zipWith, List.length_map, hlength, h, Nat.min_self]

/-- A run leaves the expressions of its report as they were, but for what they remember. -/
theorem kept_lasts (base : Progress) : Kept (Lasts base) where
  advance h hp := by
    obtain ⟨queries, -, rfl⟩ := advance_eq_ok hp
    exact ⟨h.balanced, h.report⟩
  rewind h hp := by
    obtain ⟨-, rfl⟩ := rewind_eq_ok hp
    exact ⟨h.balanced, h.report⟩
  finished pass h := by
    constructor
    · exact (finished_beside h.balanced pass).balanced h.balanced
    · rw [finished, forget_evaluateVariables, forget_opened h.balanced, h.report]
  evaluateExpressions h := ⟨h.balanced, (forget_evaluateExpressions _).trans h.report⟩
  again h := ⟨balanced_again h.balanced, (forget_reset _).trans h.report⟩

end Progress

/-! Queries -/

namespace QueryStore

variable {s s' : QueryStore} {R : QueryId → Prop} {id m : QueryId}

theorem Keeps.symm (h : Keeps R s s') : Keeps R s' s :=
  ⟨h.still.symm, fun m hm => (h.get? m hm).symm⟩

theorem Keeps.finalize (h : Keeps R s s') : Keeps R s.finalize s'.finalize := by
  refine ⟨still_finalize h.still, ?_⟩
  intro m hm
  rw [get?_finalize, get?_finalize, h.get? m hm]

theorem reaches_finalize : s.finalize.Reaches id m ↔ s.Reaches id m := by
  apply reaches_of_children_eq
  intro a
  simp only [children, get?_finalize]

theorem finalize_of_still (h : s'.still = s.finalize.still) : s'.finalize = s' := by
  have hdirty : s'.dirty = s.finalize.dirty := congrArg (fun s => s.dirty) h
  rw [finalize_of_clean (hdirty.trans (dirty_finalize s))]

/-- Starting a query moves its family only. -/
theorem keeps_start (hf : Forest s) (id : QueryId) :
    Keeps (s.finalize.Reaches id) s.finalize (s.start id).1.finalize := by
  unfold QueryStore.start
  dsimp only
  split
  · have hkeeps := keeps_rewindFamily hf.finalize id
    rw [finalize_of_still hkeeps.still]
    exact hkeeps
  · rw [finalize_of_clean (dirty_finalize s)]
    exact .refl _ _

end QueryStore

namespace Progress

variable {base p p' q : Progress} {more : Bool}

theorem finished_stays (p : Progress) (pass : Pass) :
    (p.finished pass).workspace = p.workspace ∧ (p.finished pass).main = p.main := by
  have hb := evaluateVariables_beside (p.opened pass) pass
  have hopened : (p.opened pass).workspace = p.workspace ∧ (p.opened pass).main = p.main := by
    unfold opened
    split <;> exact ⟨rfl, rfl⟩
  exact ⟨hb.workspace.trans hopened.1, hb.main.trans hopened.2⟩

/-- A state in which all queries outside the family of the main query stand where they stood. -/
structure Stays (base p : Progress) : Prop where
  main : p.main = base.main
  forest : QueryStore.Forest p.workspace.queries
  keeps : QueryStore.Keeps (base.workspace.queries.finalize.Reaches base.main)
    base.workspace.queries.finalize p.workspace.queries.finalize

theorem Stays.of_eq (h : Stays base p) (hw : p'.workspace = p.workspace) (hm : p'.main = p.main) :
    Stays base p' := by
  refine ⟨hm.trans h.main, ?_, ?_⟩
  · rw [hw]
    exact h.forest
  · rw [hw]
    exact h.keeps

/-- What moves the family of the main query only leaves the others where they stood. -/
theorem Stays.moved (h : Stays base p)
    (hk : QueryStore.Keeps (p.workspace.queries.finalize.Reaches p.main)
      p.workspace.queries.finalize q.workspace.queries.finalize)
    (hmain : q.main = p.main) (hf : QueryStore.Forest q.workspace.queries) : Stays base q := by
  refine ⟨hmain.trans h.main, hf, h.keeps.trans (hk.mono ?_)⟩
  intro m hm
  rw [h.main, QueryStore.reaches_of_still h.keeps.still] at hm
  exact hm

theorem kept_stays (base : Progress) : Kept (Stays base) where
  advance h hp := by
    obtain ⟨queries, hnext, rfl⟩ := advance_eq_ok hp
    have hkeeps := QueryStore.keeps_next h.forest hnext
    have hfinal := hkeeps.finalize.mono fun _ hm => QueryStore.reaches_finalize.2 hm
    exact h.moved hfinal rfl (h.forest.of_still hkeeps.still)
  rewind h hp := by
    obtain ⟨-, rfl⟩ := rewind_eq_ok hp
    exact h.moved (QueryStore.keeps_start h.forest _) rfl (h.forest.start _)
  finished pass h := h.of_eq (finished_stays _ pass).1 (finished_stays _ pass).2
  evaluateExpressions h := h.of_eq rfl rfl
  again h := h.of_eq rfl rfl

end Progress

namespace Report

variable {r : Report} {w : Workspace} {run : Run} {p started first behind : Progress}
  {ps : List Progress}

theorem forget_prepare (hp : r.prepare w = .ok p) :
    p.report.forget = (r.resolve w p.main).forget := by
  obtain ⟨main, -, -, rfl⟩ := prepare_eq_ok hp
  exact Progress.forget_reset _

theorem Runs.stays (h : r.Runs w run p started first ps behind) (hf : QueryStore.Forest w.queries) :
    Progress.Stays p run.progress := by
  obtain ⟨hw, -, -⟩ := live_of_prepare h.prepare
  exact ((Progress.kept_stays p).run h ⟨rfl, hw.symm ▸ hf, .refl _ _⟩).2.2.2.2

theorem Runs.last_within (h : r.Runs w run p started first ps behind) (hr : r.Sound)
    (hf : QueryStore.Forest w.queries) : Progress.Within p run.progress := by
  obtain ⟨hw, -, -⟩ := live_of_prepare h.prepare
  obtain ⟨-, -, hbehind, -⟩ := h.within hr hf
  rcases h.ends with ⟨hadvance, -⟩ | ⟨-, hlast⟩
  · exact hbehind.advance (hw.symm ▸ hf) hadvance
  · rw [hlast]
    exact hbehind

theorem Runs.forget (h : r.Runs w run p started first ps behind) (hr : r.Sound) :
    run.progress.report.forget = p.report.forget :=
  ((Progress.kept_lasts p).run h ⟨(hr.prepare h.prepare).balanced, rfl⟩).2.2.2.2.report

end Report
end Reporting
