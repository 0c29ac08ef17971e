import Reporting.Proofs.Query.Redrawn
import Reporting.Proofs.Report.Matching
/-!
Preparing a report once more: what a run leaves behind is bound as it was bound for this run.
-/
namespace Reporting

/-- A workspace in which chance answers otherwise. -/
def Workspace.redraw (w : Workspace) (draw : Decimal) : Workspace :=
  { w with settings := w.settings.redraw draw }

/-! The names of queries -/

namespace Query

variable {q q' : Query}

theorem columnIndex?_of_still (h : q'.still = q.still) (name : String) :
    q'.columnIndex? name = q.columnIndex? name := by
  have hstill (q : Query) : q.still.columnIndex? name = q.columnIndex? name := by
    unfold columnIndex?
    change List.findIdx? _ (q.columns.map Column.reset) = _
    rw [List.findIdx?_map]
    rfl
  rw [← hstill, h, hstill]

end Query

namespace QueryStore

variable {s t : QueryStore}

theorem ids_finalize (s : QueryStore) : s.finalize.ids = s.ids := by
  unfold ids
  simp only [size_finalize, get?_finalize]

/-- Stores in which everything has the same name. -/
structure SameNames (s t : QueryStore) : Prop where
  ids : t.ids = s.ids
  family : t.family = s.family
  still : ∀ id, (t.get? id).map Query.still = (s.get? id).map Query.still

theorem sameNames_of_still (h : t.still = s.still) : SameNames s t where
  ids := ids_of_still h
  family := funext (family_of_still h)
  still id := by rw [← get?_still, h, get?_still]

/-- Queries that were moved have the names that they had before. -/
theorem sameNames_moved (hf : Forest s) (h : t.still = s.finalize.still) : SameNames s t where
  ids := by rw [ids_of_still h, ids_finalize]
  family := by
    funext id
    rw [family_of_still h, hf.family_finalize]
  still id := by rw [← get?_still, h, get?_still, get?_finalize]

namespace SameNames

variable (h : SameNames s t)
include h

theorem query (id : QueryId) : t.get? id = none ∧ s.get? id = none ∨
    ∃ q' q, t.get? id = some q' ∧ s.get? id = some q ∧ q'.still = q.still := by
  have hget := h.still id
  cases hq' : t.get? id with
  | none =>
    rw [hq'] at hget
    exact .inl ⟨rfl, Option.map_eq_none_iff.1 hget.symm⟩
  | some q' =>
    rw [hq'] at hget
    obtain ⟨q, hq, hstill⟩ := Option.map_eq_some_iff.1 hget.symm
    exact .inr ⟨q', q, rfl, hq, hstill.symm⟩

theorem idOf? (name : String) : t.idOf? name = s.idOf? name := by
  unfold QueryStore.idOf?
  rw [h.ids]
  congr 1
  funext id
  rcases h.query id with ⟨hq', hq⟩ | ⟨q', q, hq', hq, hstill⟩
  · rw [hq', hq]
  · rw [hq', hq, Option.any_some, Option.any_some, Query.name_of_still hstill]

theorem columnIn? (id : QueryId) (name : String) : t.columnIn? id name = s.columnIn? id name := by
  unfold QueryStore.columnIn?
  rcases h.query id with ⟨hq', hq⟩ | ⟨q', q, hq', hq, hstill⟩
  · rw [hq', hq]
  · rw [hq', hq, Option.bind_eq_bind, Option.bind_some, Option.bind_eq_bind, Option.bind_some,
      Query.columnIndex?_of_still hstill]

theorem scope (environment environment' : Option Environment) (default : Option QueryId) :
    (t.scope environment' default).names = (s.scope environment default).names := by
  have hany (name : String) : t.anyColumn? default name = s.anyColumn? default name := by
    simp only [anyColumn?, h.ids, h.family, h.columnIn?]
  have hcolumn :
      (t.scope environment' default).column? = (s.scope environment default).column? := by
    funext name
    cases name with
    | plain name => exact hany name
    | dotted name => exact hany name
    | qualified query name =>
      change (t.idOf? query).bind _ = (s.idOf? query).bind _
      simp only [h.idOf?, h.columnIn?]
  have hrow :
      (t.scope environment' default).rowNumber? = (s.scope environment default).rowNumber? := by
    funext name
    cases name with
    | none =>
      change (default <|> t.ids.head?).map _ = (default <|> s.ids.head?).map _
      rw [h.ids]
    | some name => exact congrArg (Option.map Source.rowNumber) (h.idOf? name)
  rw [Scope.names, Scope.names, hcolumn, hrow]
  rfl

end SameNames
end QueryStore

/-! The expressions of reports that can be built and run -/

namespace Report

variable {r r' : Report} {w w' : Workspace} {c : Compiler} {run : Run} {p : Progress}

/-- Each expression of the second report is one of the first report, or was compiled. -/
def Extends (c : Compiler) (r r' : Report) : Prop :=
  ∀ x ∈ r'.computations, x ∈ r.computations ∨ ∃ text, c.compileText text = .ok x

theorem extends_newBreak {d : BreakDef} (h : r.newBreak c d = .ok r') : Extends c r r' := by
  obtain ⟨-, b, hb, rfl⟩ := newBreak_eq_ok h
  intro x hx
  rcases mem_computations.1 hx with ⟨b', hb', hx⟩ | hx
  · rcases List.mem_append.1 hb' with hb' | hb'
    · exact .inl (mem_computations.2 (.inl ⟨b', hb', hx⟩))
    · rw [List.mem_singleton.1 hb'] at hx
      exact .inr ((Break.exists_text hb).2 x hx)
  · exact .inl (mem_computations.2 (.inr hx))

theorem extends_addBreakField {name text : String} (h : r.addBreakField c name text = .ok r') :
    Extends c r r' := by
  obtain ⟨i, x, -, hx, rfl⟩ := addBreakField_eq_ok h
  intro y hy
  rcases mem_computations.1 hy with ⟨b, hb, hy⟩ | hy
  · rcases Progress.mem_of_mem_modify hb with hb | ⟨b', hb', rfl⟩
    · exact .inl (mem_computations.2 (.inl ⟨b, hb, hy⟩))
    · rcases List.mem_append.1 hy with hy | hy
      · exact .inl (mem_computations.2 (.inl ⟨b', hb', hy⟩))
      · rw [List.mem_singleton.1 hy]
        exact .inr ⟨text, hx⟩
  · exact .inl (mem_computations.2 (.inr hy))

theorem extends_newVariable {d : VariableDef} (h : r.newVariable c d = .ok r') : Extends c r r' := by
  obtain ⟨v, hv, rfl⟩ := newVariable_eq_ok h
  intro x hx
  rcases mem_computations.1 hx with hx | ⟨v', hv', hx⟩ | hx
  · exact .inl (mem_computations.2 (.inl hx))
  · rcases List.mem_append.1 hv' with hv' | hv'
    · exact .inl (mem_computations.2 (.inr (.inl ⟨v', hv', hx⟩)))
    · rw [List.mem_singleton.1 hv'] at hx
      exact .inr (Variable.exists_text hv x hx)
  · exact .inl (mem_computations.2 (.inr (.inr hx)))

theorem extends_addExpression {name : Option String} {text : String} {i : Nat}
    (h : r.addExpression c name text = .ok (r', i)) : Extends c r r' := by
  obtain ⟨x, hx, rfl⟩ := addExpression_eq_ok h
  intro y hy
  rcases mem_computations.1 hy with hy | hy | ⟨e, he, hy⟩
  · exact .inl (mem_computations.2 (.inl hy))
  · exact .inl (mem_computations.2 (.inr (.inl hy)))
  · rcases List.mem_append.1 he with he | he
    · exact .inl (mem_computations.2 (.inr (.inr ⟨e, he, hy⟩)))
    · rw [List.mem_singleton.1 he] at hy
      exact .inr ⟨text, hy ▸ hx⟩

/-- What is true of compiled expressions, and stays true when they are bound and whatever they
remember, is true of the expressions of all reports. -/
theorem Reachable.every {P : Expr → Prop} (hfresh : ∀ e, e.Fresh → P e)
    (hbound : ∀ e s c, e.Every P → ((Expr.bind s e).simplify c).Every P)
    (hforget : ∀ e e' : Expr, e.forget = e'.forget → e.Every P → e'.Every P) (h : r.Reachable) :
    ∀ x ∈ r.computations, x.root.Every P := by
  have hextends {r r' : Report} {c : Compiler} (h : ∀ x ∈ r.computations, x.root.Every P)
      (hr : Extends c r r') : ∀ x ∈ r'.computations, x.root.Every P := by
    intro x hx
    rcases hr x hx with hx | ⟨text, htext⟩
    · exact h x hx
    · exact (Computation.fresh_compileText htext).2.imp hfresh
  induction h with
  | empty name => exact List.forall_mem_nil _
  | setQuery query _ ih => exact ih
  | newBreak _ hr ih => exact hextends ih (extends_newBreak hr)
  | addBreakField _ hr ih => exact hextends ih (extends_addBreakField hr)
  | newVariable _ hr ih => exact hextends ih (extends_newVariable hr)
  | addExpression _ hr ih => exact hextends ih (extends_addExpression hr)
  | @run r w run hr hrun ih =>
    obtain ⟨p, started, first, ps, behind, hruns⟩ := runs_of_run hrun
    have hsound := hr.sound
    intro x hx
    obtain ⟨y, hy, hxy⟩ := exists_of_forget
      ((hruns.forget hsound).trans (forget_prepare hruns.prepare)) hx
    have hroot := (Computation.root_of_forget hxy.symm
      ((hsound.resolve w p.main).computed hy).computed).2
    obtain ⟨z, hz, s, rfl⟩ := exists_of_mem_resolve hy
    exact hforget _ _ hroot.symm (hbound _ s _ (ih z hz))

/-- Whatever was built and run, only counters whose names are known are bound. -/
theorem Reachable.named (h : r.Reachable) : ∀ x ∈ r.computations, x.root.Every Expr.Named :=
  h.every (fun _ => Expr.named_of_fresh) (fun _ _ _ he => Expr.named_simplify (Expr.named_bind he))
    fun _ _ => Expr.named_of_forget

/-! Preparing a report once more -/

/-- What a run of a report leaves behind: the report up to what its expressions remember, and the
workspace up to where the family of the main query stands and what is drawn next. -/
structure LeftBy (w : Workspace) (p : Progress) (r' : Report) (w' : Workspace) : Prop where
  sound : r'.Sound
  report : r'.forget = p.report.forget
  settings : ∃ draw, w'.settings = w.settings.redraw draw
  environment : w'.environment = w.environment
  keeps : QueryStore.Keeps (w.queries.finalize.Reaches p.main) w.queries.finalize w'.queries

theorem Runs.leftBy {started first behind : Progress} {ps : List Progress}
    (h : r.Runs w run p started first ps behind) (hr : r.Sound) (hf : QueryStore.Forest w.queries)
    (draw : Decimal) : LeftBy w p run.progress.report (run.progress.workspace.redraw draw) := by
  obtain ⟨hw, -, -⟩ := live_of_prepare h.prepare
  have hwithin := h.last_within hr hf
  constructor
  · exact (Progress.kept_sound.run h (hr.prepare h.prepare)).2.2.2.2.report
  · exact h.forget hr
  · refine ⟨draw, ?_⟩
    rw [Workspace.redraw, hwithin.settings, hw]
  · rw [← hw]
    exact hwithin.environment
  · have hkeeps := (h.stays hf).keeps
    rw [QueryStore.finalize_of_still hwithin.still, hw] at hkeeps
    exact hkeeps

/-- What a run leaves behind of what another one has left behind. -/
theorem LeftBy.trans {p' : Progress} {r'' : Report} {w'' : Workspace} (h : LeftBy w p r' w')
    (hmain : p'.main = p.main) (hforget : p'.report.forget = p.report.forget)
    (h' : LeftBy w' p' r'' w'') : LeftBy w p r'' w'' := by
  obtain ⟨draw, hsettings⟩ := h.settings
  obtain ⟨draw', hsettings'⟩ := h'.settings
  have hkeeps := h'.keeps
  rw [QueryStore.finalize_of_still h.keeps.still, hmain] at hkeeps
  constructor
  · exact h'.sound
  · exact h'.report.trans hforget
  · refine ⟨draw', ?_⟩
    rw [hsettings', hsettings]
    rfl
  · exact h'.environment.trans h.environment
  · exact h.keeps.trans (hkeeps.reaching h.keeps.still)

/-- Before the first row the queries are where they were before the first row of the run. -/
theorem LeftBy.start_alike (h : LeftBy w p r' w') (hf : QueryStore.Forest w.queries)
    (hc : w.queries.Conditions) (hlive : (w.queries.get? p.main).isSome) :
    (w.queries.start p.main).1.Alike (w'.queries.start p.main).1 := by
  apply QueryStore.Alike.start_again hf hc hlive
  obtain ⟨q, hq⟩ := Option.isSome_iff_exists.1 hlive
  rw [QueryStore.start_eq hq]
  have hstart := QueryStore.keeps_rewindFamily hf.finalize p.main
  apply (hstart.symm.trans h.keeps).mono
  intro m hm
  rw [QueryStore.reaches_of_still hstart.still]
  exact hm

theorem check_of_nonempty {bs : List Break} (h : ∀ b ∈ bs, b.fields ≠ []) :
    bs.forM Break.check = .ok () := by
  induction bs with
  | nil => rfl
  | cons b bs ih =>
    obtain ⟨hb, hbs⟩ := List.forall_mem_cons.1 h
    have hcheck : b.check = .ok () := by
      rw [Break.check, if_neg (mt List.isEmpty_iff.1 hb)]
    change (b.check >>= fun _ => bs.forM Break.check) = _
    rw [hcheck]
    exact ih hbs

/-- What a run leaves behind is prepared as it was prepared for this run. -/
theorem prepare_again (hr : r.Reachable) (hf : QueryStore.Forest w.queries)
    (hp : r.prepare w = .ok p)
    (hnames : ∀ x ∈ p.report.computations, x.root.Every Expr.BoundByName)
    (h : LeftBy w p r' w') :
    ∃ p', r'.prepare w' = .ok p' ∧ p'.main = p.main ∧ p'.report.forget = p.report.forget := by
  obtain ⟨main, hmain, hcheck, rfl⟩ := prepare_eq_ok hp
  have hreport := h.report.trans (forget_prepare hp)
  obtain ⟨draw, hsettings⟩ := h.settings
  have hsame := QueryStore.sameNames_moved hf h.keeps.still
  have hfolding : w'.folding = w.folding := by
    rw [Workspace.folding, hsettings, Workspace.folding]
    rfl
  -- the bound report stays as it is
  obtain ⟨hsettled, hquery⟩ := settled_resolve hr.named w main
  have hsound := hr.sound.resolve w main
  have hdirect : ∀ x ∈ (r.resolve w main).computations, x.Direct := by
    intro x hx
    obtain ⟨y, hy, hxy⟩ := exists_of_forget (forget_prepare hp).symm hx
    have hx' := hsound.computed hx
    have hroot := (Computation.root_of_forget hxy hx'.computed).2
    exact ⟨Expr.boundByName_of_forget hroot (hnames y hy), hx'.counters.imp fun _ he => he.whole⟩
  have hsettled' : (r.resolve w main).Settled (w'.scope (some main)) w'.folding := by
    rw [hfolding]
    exact hsettled.of_names (hsame.scope _ _ _).symm
  have hagain := resolve_of_settled hsettled' hdirect
  have hforget : (r'.resolve w' main).forget = (r.resolve w main).forget := by
    have hcomputed (r : Report) (hr : r.Sound) : ∀ x ∈ r.computations, x.startsWithInitial = false :=
      fun x hx => (hr.computed hx).computed
    rw [← resolve_forget (hcomputed r' h.sound), hreport]
    change (r.resolve w main).forget.resolve w' main = _
    rw [resolve_forget (hcomputed _ hsound), hagain]
  -- and nothing else is refused
  have hmain' : r'.mainQuery w' = .ok main := by
    have hquery' : r'.query = r.query := by
      change r'.forget.query = _
      rw [hreport]
      exact hquery
    rw [← hmain, mainQuery, mainQuery, hquery', hsame.ids]
    simp only [hsame.idOf?]
  have hcheck' : r'.breaks.forM Break.check = .ok () := by
    apply check_of_nonempty
    intro b hb hnil
    have hmem : b.forget ∈ (r.resolve w main).breaks.map Break.forget := by
      have hbreaks : r'.breaks.map Break.forget = (r.resolve w main).breaks.map Break.forget :=
        congrArg (fun r : Report => r.breaks) hreport
      rw [← hbreaks]
      exact List.mem_map_of_mem hb
    obtain ⟨b₀, hb₀, he⟩ := List.mem_map.1 hmem
    obtain ⟨before, hfits⟩ := hsettled.breaks.exists_before hb₀
    have hfields : b₀.fields.map Computation.forget = b.fields.map Computation.forget :=
      congrArg (fun b : Break => b.fields) he
    rw [hnil, List.map_nil, List.map_eq_nil_iff] at hfields
    exact hfits.nonempty hfields
  refine ⟨({ workspace := w', report := r'.resolve w' main, main, values := {} } : Progress).reset,
    ?_, rfl, ?_⟩
  · unfold prepare
    rw [hcheck', hmain']
    rfl
  · rw [Progress.forget_reset, Progress.forget_reset]
    exact hforget

end Report
end Reporting
