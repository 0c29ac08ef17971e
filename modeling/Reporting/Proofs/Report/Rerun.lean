import Reporting.Proofs.Report.Twin
/-!
Running a report again: a run begins from scratch as long as its expressions are bound as they were
for the run before, and none of them reads what it was evaluated to then.
-/
namespace Reporting

/-! What is seen of runs -/

/-- Two states in which the same is seen. -/
structure Progress.Same (p p' : Progress) : Prop where
  row : p'.row = p.row
  lookup? : ∀ source, p'.lookup? source = p.lookup? source
  expressionAt? : ∀ i, p'.expressionAt? i = p.expressionAt? i
  expression? : ∀ name, p'.expression? name = p.expression? name
  result? : ∀ name, p'.result? name = p.result? name
  breakRow? : ∀ name, p'.breakRow? name = p.breakRow? name
  column? : ∀ name, p'.column? name = p.column? name

/-- Two rows of which the same is told. -/
structure ToldRow.Same (row row' : ToldRow) : Prop where
  broken : row'.broken = row.broken
  seen : row.seen.Same row'.seen

/-- What happens in a run, with the numbers of the rows. -/
def Run.events (run : Run) : List (Event × Nat) := run.trace.map fun o => (o.event, o.seen.row)

/-- Two runs of which the same is told. -/
structure Run.Same (run run' : Run) : Prop where
  events : run'.events = run.events
  summary : run'.summary = run.summary
  rows : List.Forall₂ ToldRow.Same run.rows run'.rows

theorem Run.Same.refl (run : Run) : run.Same run := by
  constructor
  · rfl
  · rfl
  · exact List.forall₂_same.2 fun row _ => ⟨rfl, rfl, fun _ => rfl, fun _ => rfl, fun _ => rfl,
      fun _ => rfl, fun _ => rfl, fun _ => rfl⟩

/-- Runs the report again, on what a run has left behind and whatever is drawn by chance. -/
def Run.again (run : Run) (draw : Decimal) : Except Error Run :=
  run.progress.report.run (run.progress.workspace.redraw draw)

/-- The runs that follow each other. -/
inductive Run.Follows (first : Run) : Run → Prop
  | first : Follows first first
  | again {run next : Run} {draw : Decimal} : Follows first run → run.again draw = .ok next →
      Follows first next

namespace Progress

variable {p p' : Progress} {ps ps' : List Progress} {draw : Decimal}

namespace Twin

variable (h : Twin draw p p')
include h

theorem same (he : ∀ e ∈ p.report.expressions, e.computation.evaluated = true) : p.Same p' := by
  have hlookup (source : Option Source) : p'.lookup? source = p.lookup? source := by
    unfold Progress.lookup?
    rw [h.scope]
  have hexpression (i : Nat) : p'.expressionAt? i = p.expressionAt? i := by
    have hrel := rel_getElem? h.expressions i
    unfold Progress.expressionAt?
    rw [h.scope]
    cases hi : p.report.expressions[i]? with
    | none =>
      rw [hi] at hrel
      cases hi' : p'.report.expressions[i]? with
      | none => rfl
      | some e' =>
        rw [hi'] at hrel
        cases hrel
    | some e =>
      rw [hi] at hrel
      cases hi' : p'.report.expressions[i]? with
      | none =>
        rw [hi'] at hrel
        cases hrel
      | some e' =>
        rw [hi'] at hrel
        obtain ⟨hee⟩ := hrel
        have hresult := hee.computation.result (he e (List.mem_iff_getElem?.2 ⟨i, hi⟩))
          (p.scope .final none)
        rw [Option.map_some, Option.map_some, hresult]
  constructor
  · exact h.row
  · exact hlookup
  · exact hexpression
  · intro name
    have hindex (es : List ReportExpression) : es.findIdx? (fun e => e.name = some name) =
        (es.map (·.name)).findIdx? (· = some name) := by
      rw [List.findIdx?_map]
      rfl
    unfold Progress.expression?
    rw [hindex, hindex, map_eq_of_forall₂ h.expressions fun _ _ he => he.name]
    exact congrArg _ (funext hexpression)
  · intro name
    unfold Progress.result?
    rw [hlookup, h.scope]
  · intro name
    unfold Progress.breakRow?
    rw [hlookup, h.scope]
  · intro name
    unfold Progress.column?
    rw [hlookup, h.scope]

omit h in
theorem evaluated_evaluateExpressions (p : Progress) :
    ∀ e ∈ p.evaluateExpressions.report.expressions, e.computation.evaluated = true := by
  intro e he
  obtain ⟨e₀, -, rfl⟩ := List.mem_map.1 he
  exact Computation.evaluated_evaluate _ _

theorem told (he : p.row ≠ 1 → p.Evaluated) : p.told.Same p'.told := by
  constructor
  · rw [broken_told, broken_told, h.fired he, h.names]
  · have hstep := (h.step he .final).1
    apply hstep.same
    change ∀ e ∈ p.renderRow.1.report.expressions, _
    rw [renderRow_fst]
    exact evaluated_evaluateExpressions _

end Twin

/-- What happens on a row. -/
theorem events_renderRow (p : Progress) :
    p.renderRow.2.2.map (fun o => (o.event, o.seen.row)) =
      p.told.broken.map (fun name => (.broke name, p.row)) ++ [(.row, p.told.seen.row)] := by
  rw [renderRow_snd, List.map_append, List.map_map]
  change _ = (p.triggered.map (·.name)).map _ ++ _
  rw [List.map_map]
  rfl

theorem count_renderRow (p : Progress) : p.renderRow.2.1 = p.told.broken.length := by
  rw [renderRow_snd]
  exact (List.length_map _).symm

end Progress

namespace Report

variable {r r' : Report} {w w' : Workspace} {run run' : Run}
  {p p' started started' first first' behind behind' : Progress} {ps ps' : List Progress}
  {draw : Decimal}

/-- Runs whose passes are in lockstep tell the same. -/
theorem Runs.same (h : r.Runs w run p started first ps behind)
    (h' : r'.Runs w' run' p' started' first' ps' behind') (hp : p.Abreast draw p')
    (hstarted : started.Abreast draw started')
    (hrows : List.Forall₂ (fun q q' => q.Twin draw q' ∧ (q.row ≠ 1 → q.Evaluated)) ps ps')
    (hlast : run.progress.Twin draw run'.progress) : run.Same run' := by
  constructor
  · have hopening : (Progress.opening p'.asksAhead started').map (fun o => (o.event, o.seen.row)) =
        (Progress.opening p.asksAhead started).map fun o => (o.event, o.seen.row) := by
      unfold Progress.opening
      rw [hp.asksAhead]
      split <;> simp only [List.map_append, List.map_cons, List.map_nil, hstarted.row]
    have hmiddle : ps'.flatMap (fun q => q.renderRow.2.2.map fun o => (o.event, o.seen.row)) =
        ps.flatMap fun q => q.renderRow.2.2.map fun o => (o.event, o.seen.row) := by
      rw [List.flatMap_def, List.flatMap_def]
      refine congrArg List.flatten (map_eq_of_forall₂ hrows fun q q' hq => ?_).symm
      obtain ⟨hq, he⟩ := hq
      have htold := hq.told he
      rw [Progress.events_renderRow, Progress.events_renderRow, htold.broken, htold.seen.row, hq.row]
    unfold Run.events
    rw [h.trace, h'.trace]
    simp only [List.map_append, List.map_flatMap, List.map_cons, List.map_nil, hopening, hmiddle,
      hlast.row]
  · have hcounts : ps'.map (fun q => q.renderRow.2.1) = ps.map fun q => q.renderRow.2.1 := by
      refine (map_eq_of_forall₂ hrows fun q q' hq => ?_).symm
      obtain ⟨hq, he⟩ := hq
      rw [Progress.count_renderRow, Progress.count_renderRow, (hq.told he).broken]
    rw [h.summary, h'.summary, hcounts, hrows.length_eq]
  · rw [h.rows, h'.rows]
    exact List.rel_map (fun _ _ hq => hq.1.told hq.2) hrows

end Report

/-! How a run begins again -/

section

variable {b b' : Break} {v v' : Variable} {e e' : ReportExpression}

theorem Break.twin_of_forget (h : b.forget = b'.forget)
    (hfields : ∀ x ∈ b.fields, ∀ y ∈ b'.fields, x.forget = y.forget → x.Twin y) : b.Twin b' := by
  constructor
  · change b.forget.name = b'.forget.name
    rw [h]
  · have hmap : b.fields.map Computation.forget = b'.fields.map Computation.forget := by
      change b.forget.fields = b'.forget.fields
      rw [h]
    exact forall₂_of_map_eq hmap hfields

theorem Variable.twin_of_forget (h : v.forget = v'.forget)
    (hcomputations : ∀ x ∈ v.computations, ∀ y ∈ v'.computations, x.forget = y.forget → x.Twin y) :
    v.Twin v' := by
  constructor
  · change v.forget.name = v'.forget.name
    rw [h]
  · change v.forget.kind = v'.forget.kind
    rw [h]
  · change v.forget.precalculated = v'.forget.precalculated
    rw [h]
  · change v.forget.resetBreak = v'.forget.resetBreak
    rw [h]
  · have hmap : v.stages.map (Option.map Computation.forget) =
        v'.stages.map (Option.map Computation.forget) := by
      change v.forget.stages = v'.forget.stages
      rw [h]
    apply forall₂_of_map_eq hmap
    intro o ho o' ho' hoo
    apply rel_of_map_eq hoo
    intro x hx y hy
    exact hcomputations x (mem_computations.2 (.inl (hx ▸ ho))) y
      (mem_computations.2 (.inl (hy ▸ ho')))
  · have hmap : v.result.map Computation.forget = v'.result.map Computation.forget := by
      change v.forget.result = v'.forget.result
      rw [h]
    apply rel_of_map_eq hmap
    intro x hx y hy
    exact hcomputations x (mem_computations.2 (.inr hx)) y (mem_computations.2 (.inr hy))

theorem ReportExpression.twin_of_forget (h : e.forget = e'.forget)
    (hcomputation : e.computation.forget = e'.computation.forget → e.computation.Twin e'.computation) :
    e.Twin e' := by
  constructor
  · change e.forget.name = e'.forget.name
    rw [h]
  · apply hcomputation
    change e.forget.computation = e'.forget.computation
    rw [h]

end

namespace Report

variable {r r' : Report} {w w' : Workspace} {run run' : Run}
  {p p' started started' first first' behind behind' : Progress} {ps ps' : List Progress}
  {draw : Decimal}

theorem fresh_computations (p : Progress) : ∀ x ∈ p.reset.report.computations,
    x.evaluated = false := by
  intro x hx
  rcases mem_computations.1 hx with ⟨b, hb, hx⟩ | ⟨v, hv, hx⟩ | ⟨e, he, rfl⟩
  · exact Progress.fresh_fields p b hb x hx
  · obtain ⟨v₀, -, rfl⟩ := List.mem_map.1 hv
    rw [Variable.restart, Variable.computations_map] at hx
    obtain ⟨y, -, rfl⟩ := List.mem_map.1 hx
    rfl
  · obtain ⟨e₀, -, rfl⟩ := List.mem_map.1 he
    rfl

theorem values_reset (p : Progress) : p.reset.values =
    .ofSizes p.reset.report.vars.length p.reset.report.breaks.length := by
  simp only [Progress.reset, List.length_map]

theorem fresh_of_prepare (hp : r.prepare w = .ok p) :
    p.row = 0 ∧ p.values = .ofSizes p.report.vars.length p.report.breaks.length ∧
      ∀ x ∈ p.report.computations, x.evaluated = false := by
  obtain ⟨main, -, -, rfl⟩ := prepare_eq_ok hp
  exact ⟨rfl, values_reset _, fresh_computations _⟩

/-- Reports that are prepared with the same expressions are in lockstep. -/
theorem abreast_prepare (hr : r.Sound) (hp : r.prepare w = .ok p) (hp' : r'.prepare w' = .ok p')
    (hsettings : w'.settings = w.settings.redraw draw) (henvironment : w'.environment = w.environment)
    (hmain : p'.main = p.main) (hforget : p'.report.forget = p.report.forget)
    (hrepeats : ∀ x ∈ p.report.computations, x.root.Every Expr.Repeats) : p.Abreast draw p' := by
  obtain ⟨hw, -, -⟩ := live_of_prepare hp
  obtain ⟨hw', -, -⟩ := live_of_prepare hp'
  obtain ⟨hrow, hvalues, hfresh⟩ := fresh_of_prepare hp
  obtain ⟨hrow', hvalues', hfresh'⟩ := fresh_of_prepare hp'
  have hsound := (hr.prepare hp).report
  have htwin {x y : Computation} (hx : x ∈ p.report.computations)
      (hy : y ∈ p'.report.computations) (hxy : x.forget = y.forget) : x.Twin y := by
    have hxs := hsound.computed hx
    constructor
    · exact hxs.computed
    · exact hxs.counters.imp fun _ he => he.whole
    · exact hrepeats x hx
    · exact hxy
    · rw [hfresh x hx, hfresh' y hy]
    · intro he
      rw [hfresh x hx] at he
      cases he
  have hbreaks : List.Forall₂ Break.Twin p.report.breaks p'.report.breaks := by
    have hmap : p.report.breaks.map Break.forget = p'.report.breaks.map Break.forget :=
      congrArg (fun r : Report => r.breaks) hforget.symm
    apply forall₂_of_map_eq hmap
    intro b hb b' hb' he
    apply Break.twin_of_forget he
    intro x hx y hy
    exact htwin (mem_computations.2 (.inl ⟨b, hb, hx⟩)) (mem_computations.2 (.inl ⟨b', hb', hy⟩))
  have hvars : List.Forall₂ Variable.Twin p.report.vars p'.report.vars := by
    have hmap : p.report.vars.map Variable.forget = p'.report.vars.map Variable.forget :=
      congrArg (fun r : Report => r.vars) hforget.symm
    apply forall₂_of_map_eq hmap
    intro v hv v' hv' he
    apply Variable.twin_of_forget he
    intro x hx y hy
    exact htwin (mem_computations.2 (.inr (.inl ⟨v, hv, hx⟩)))
      (mem_computations.2 (.inr (.inl ⟨v', hv', hy⟩)))
  have hexpressions : List.Forall₂ ReportExpression.Twin p.report.expressions
      p'.report.expressions := by
    have hmap : p.report.expressions.map ReportExpression.forget =
        p'.report.expressions.map ReportExpression.forget :=
      congrArg (fun r : Report => r.expressions) hforget.symm
    apply forall₂_of_map_eq hmap
    intro e he e' he' hee
    apply ReportExpression.twin_of_forget hee
    exact htwin (mem_computations.2 (.inr (.inr ⟨e, he, rfl⟩)))
      (mem_computations.2 (.inr (.inr ⟨e', he', rfl⟩)))
  constructor
  · rw [hw, hw', hsettings]
  · rw [hw, hw', henvironment]
  · exact hmain
  · rw [hrow, hrow']
  · rw [hvalues, hvalues', hbreaks.length_eq, hvars.length_eq]
  · exact hbreaks
  · exact hvars
  · exact hexpressions

/-- A run of what another run has left behind tells the same as this one. -/
theorem Runs.again (h : r.Runs w run p started first ps behind)
    (h' : r'.Runs w' run' p' started' first' ps' behind') (hr : r.Sound)
    (hf : QueryStore.Forest w.queries) (hc : w.queries.Conditions) (hd : w.queries.Drawless)
    (hleft : LeftBy w p r' w') (hmain : p'.main = p.main)
    (hforget : p'.report.forget = p.report.forget)
    (hrepeats : ∀ x ∈ p.report.computations, x.root.Every Expr.Repeats) : run.Same run' := by
  obtain ⟨hw, hrow, hlive⟩ := live_of_prepare h.prepare
  obtain ⟨hw', -, -⟩ := live_of_prepare h'.prepare
  obtain ⟨draw, hsettings⟩ := hleft.settings
  have hprepared := abreast_prepare hr h.prepare h'.prepare hsettings hleft.environment hmain hforget
    hrepeats
  -- before each pass of both runs the queries stand where they stood before the first one
  have hstart := hleft.start_alike hf hc hlive
  have hf' : QueryStore.Forest w'.queries := hf.finalize.of_still hleft.keeps.still
  have hc' : w'.queries.Conditions := by
    refine QueryStore.Conditions.of_still ?_ hleft.keeps.still
    intro id q hq
    rw [QueryStore.get?_finalize] at hq
    exact hc id q hq
  have hlive' : (w'.queries.get? p'.main).isSome := by
    rw [QueryStore.isSome_of_still hleft.keeps.still, QueryStore.get?_finalize, hmain]
    exact hlive
  rw [← hw] at hf hc hd hlive
  rw [← hw'] at hf' hc' hlive'
  rw [← hw, ← hw'] at hstart
  have hqueries : (p.workspace.queries.start p.main).1.Alike
      (p'.workspace.queries.start p'.main).1 := by
    rw [hmain]
    exact hstart
  have hstarted := hprepared.ready hrow hqueries hf hd h.ready h'.ready
  have hfirst := Progress.queries_first hf hc hlive (hr.prepare h.prepare).balanced h.ready h.rewind
  have hfirst' := Progress.queries_first hf' hc' hlive'
    (hleft.sound.prepare h'.prepare).balanced h'.ready h'.rewind
  have hpass : first.Twin draw first' := by
    apply hstarted.rewind h.rewind h'.rewind
    · exact hfirst.symm.trans (hqueries.trans hfirst')
    · exact (hd.start hf p.main).of_still hfirst.symm.still
  have hzero : first.row = 0 := (h.fresh_first (i := 0)).row
  have hends' := h'.ends
  rw [hpass.rowBound] at hends'
  have hturns : Progress.Turns (Progress.step .final) first ps behind := h.turns
  have hturns' : Progress.Turns (Progress.step .final) first' ps' behind' := h'.turns
  obtain ⟨hrows, hlast⟩ := hturns.twin hturns' hpass (fun hrow => absurd hzero hrow) h.ends hends'
  exact h.same h' hprepared hstarted hrows hlast

/-- A report whose expressions draw nothing by chance, read nothing that was computed in the evaluation
before and find their row counters by names that are known beforehand can be run, and what the run
leaves behind can be run again, any number of times. Each of these runs tells the same as the first
one. -/
theorem run_again (hr : r.Reachable) (hw : w.Reachable) (hp : r.prepare w = .ok p)
    (hmatch : ∀ id q, w.queries.get? id = some q → ∀ m ∈ q.matched,
      m.condition.root.Every (Expr.Calls Function.Pure) ∧
        m.condition.root.Every (Expr.Calls Function.Drawless))
    (hrepeats : ∀ x ∈ p.report.computations, x.root.Every Expr.Repeats)
    (hnames : ∀ x ∈ p.report.computations, x.root.Every Expr.BoundByName) :
    ∃ first, r.run w = .ok first ∧ ∀ run, first.Follows run →
      first.Same run ∧ ∀ draw, ∃ next, run.again draw = .ok next := by
  have hs := hr.sound
  have hf := hw.wellBuilt.reachable.forest
  have hover := hw.wellBuilt.overRows
  have hc : w.queries.Conditions := hover.conditions fun id q hq m hm => (hmatch id q hq m hm).1
  have hd : w.queries.Drawless := fun id q hq m hm =>
    ⟨(hover id q hq m hm).sound.computed, (hmatch id q hq m hm).2⟩
  obtain ⟨first, hfirst⟩ := exists_run hs hf hp
  obtain ⟨_, started, began, ps, behind, h⟩ := runs_of_run hfirst
  obtain rfl := Except.ok.inj (hp.symm.trans h.prepare)
  -- what a run leaves behind is bound as it was for the first run
  have hnext {run : Run} (draw : Decimal)
      (hleft : LeftBy w p run.progress.report (run.progress.workspace.redraw draw)) :
      ∃ next, run.again draw = .ok next ∧ first.Same next ∧ ∀ draw,
        LeftBy w p next.progress.report (next.progress.workspace.redraw draw) := by
    obtain ⟨p', hp', hmain, hforget⟩ := prepare_again hr hf hp hnames hleft
    have hf' : QueryStore.Forest (run.progress.workspace.redraw draw).queries :=
      hf.finalize.of_still hleft.keeps.still
    obtain ⟨next, hnext⟩ := exists_run hleft.sound hf' hp'
    obtain ⟨_, started', began', ps', behind', h'⟩ := runs_of_run hnext
    obtain rfl := Except.ok.inj (hp'.symm.trans h'.prepare)
    refine ⟨next, hnext, h.again h' hs hf hc hd hleft hmain hforget hrepeats, ?_⟩
    intro draw'
    exact hleft.trans hmain hforget (h'.leftBy hleft.sound hf' draw')
  have hfollows {run : Run} (hrun : first.Follows run) : first.Same run ∧ ∀ draw,
      LeftBy w p run.progress.report (run.progress.workspace.redraw draw) := by
    induction hrun with
    | first => exact ⟨.refl first, h.leftBy hs hf⟩
    | @again run next draw _ hagain ih =>
      obtain ⟨next', hnext', hsame, hleft⟩ := hnext draw (ih.2 draw)
      obtain rfl := Except.ok.inj (hagain.symm.trans hnext')
      exact ⟨hsame, hleft⟩
  refine ⟨first, hfirst, fun run hrun => ?_⟩
  obtain ⟨hsame, hleft⟩ := hfollows hrun
  refine ⟨hsame, fun draw => ?_⟩
  obtain ⟨next, hagain, -⟩ := hnext draw (hleft draw)
  exact ⟨next, hagain⟩

/-- The keys are counted again as they were counted before. -/
theorem run_again_of_keys :
    foreseen.Reachable ∧ served.Reachable ∧ ∃ p, foreseen.prepare served = .ok p ∧
      (∀ id q, served.queries.get? id = some q → ∀ m ∈ q.matched,
        m.condition.root.Every (Expr.Calls Function.Pure) ∧
          m.condition.root.Every (Expr.Calls Function.Drawless)) ∧
      (∀ x ∈ p.report.computations, x.root.Every Expr.Repeats) ∧
      (∀ x ∈ p.report.computations, x.root.Every Expr.BoundByName) ∧
      ∃ first next, foreseen.run served = .ok first ∧ first.again ⟨1, 1⟩ = .ok next ∧
        first.Same next ∧ next.summary = ⟨3, 1⟩ := by
  have hprepare : ((foreseen.prepare served).toOption.map fun (p : Progress) =>
      p.report.computations) = some [keyColumn, keyColumn] := rfl
  obtain ⟨p, hp, hcomputations⟩ := exists_ok_of_map hprepare
  have hmatch : ∀ id q, served.queries.get? id = some q → ∀ m ∈ q.matched,
      m.condition.root.Every (Expr.Calls Function.Pure) ∧
        m.condition.root.Every (Expr.Calls Function.Drawless) := by
    intro ⟨i⟩ q hq m hm
    cases i with
    | zero =>
      obtain rfl := Option.some.inj hq
      cases hm
    | succ => cases hq
  have hkey (P : Expr → Prop) (hP : keyColumn.root.Every P) :
      ∀ x ∈ p.report.computations, x.root.Every P := by
    rw [hcomputations]
    simpa only [List.forall_mem_cons, List.not_mem_nil, false_implies, implies_true, and_true,
      and_self] using hP
  have hrepeats := hkey Expr.Repeats trivial
  have hnames := hkey Expr.BoundByName trivial
  obtain ⟨first, hfirst, hagain⟩ :=
    run_again foreseen_reachable served_reachable hp hmatch hrepeats hnames
  obtain ⟨next, hnext⟩ := (hagain first .first).2 ⟨1, 1⟩
  have hsame := (hagain next (.again .first hnext)).1
  have hsummary : ((foreseen.run served).toOption.map fun run => run.summary) = some ⟨3, 1⟩ := by
    decide +kernel
  rw [hfirst] at hsummary
  exact ⟨foreseen_reachable, served_reachable, p, hp, hmatch, hrepeats, hnames, first, next, hfirst,
    hnext, hsame, hsame.summary.trans (Option.some.inj hsummary)⟩

/-- The sum in the row before, which is computed. -/
def formerSum : Computation where
  root := .ofCall (.builtin ⟨"prevval", .prevval, .exact 1, .volatile⟩)
    [.call (.builtin ⟨"add", .add, .variadic, .commAssoc⟩)
      [.reference (.column (.plain "k")) none false, .constant (.ofInt 0) false] (.fill none) true]
  source := "prevval(k + 0)"

/-- A report with an expression that reads what was computed in the evaluation before. -/
def remembering : Report := { expressions := [⟨none, formerSum⟩] }

set_option maxRecDepth 20000 in
theorem compileText_formerSum : served.compiler.compileText "prevval(k + 0)" = .ok formerSum := by
  have hparse : Formula.parse "prevval(k + 0)" = .ok (.call "prevval"
      [.binary .add (.column (.plain "k")) (.literal (.number "0"))]) := by cbv
  have hzero : Decimal.parse? "0".toList served.compiler.precision = some (.ofInt 0) := by
    decide +kernel
  rw [Compiler.compileText, hparse]
  simp only [Compiler.compile, Compiler.compileAll, Compiler.literal, hzero]
  rfl

theorem remembering_reachable : remembering.Reachable := by
  have hexpression : Report.addExpression {} served.compiler none "prevval(k + 0)" =
      .ok (remembering, 0) := by
    unfold Report.addExpression
    rw [compileText_formerSum]
    rfl
  exact .addExpression (.empty none) hexpression

/-- What is computed for `prevval` is not forgotten between runs: on the first row there is no value
of the row before in the first run, and that of the last row in the second run. -/
theorem again_of_formerSum :
    remembering.Reachable ∧ served.Reachable ∧ ∃ first next, remembering.run served = .ok first ∧
      first.again served.settings.clock.draw = .ok next ∧
      (first.rows.map fun row => row.seen.expressionAt? 0) =
        [some (.error "Subexpression has no previous result"), some (.ofInt 1), some (.ofInt 1)] ∧
      (next.rows.map fun row => row.seen.expressionAt? 0) =
        [some (.ofInt 2), some (.ofInt 1), some (.ofInt 1)] ∧ ¬ first.Same next := by
  have htold : ((remembering.run served).toOption.map fun first =>
      (first.again served.settings.clock.draw).toOption.map fun next =>
        (first.rows.map fun row => row.seen.expressionAt? 0,
          next.rows.map fun row => row.seen.expressionAt? 0)) =
      some (some
        ([some (.error "Subexpression has no previous result"), some (.ofInt 1), some (.ofInt 1)],
          [some (.ofInt 2), some (.ofInt 1), some (.ofInt 1)])) := by
    decide +kernel
  obtain ⟨first, hfirst, htold⟩ := exists_ok_of_map htold
  obtain ⟨next, hnext, htold⟩ := exists_ok_of_map htold
  obtain ⟨hbefore, hafter⟩ := Prod.mk.inj htold
  refine ⟨remembering_reachable, served_reachable, first, next, hfirst, hnext, hbefore, hafter, ?_⟩
  intro hsame
  have hseen := map_eq_of_forall₂ hsame.rows fun _ _ hrow => (hrow.seen.expressionAt? 0).symm
  rw [hbefore, hafter] at hseen
  have hkinds := congrArg (List.map (Option.map Value.isError)) hseen
  revert hkinds
  decide +kernel

end Report
end Reporting
