import Reporting.Proofs.Report.Passes
/-!
Custom variables. On each row the result of a custom variable is made of its result on the row
before, as long as the group lasts, and of what its stages and the variables before it are worth on
the row; the first row of a group begins with a null.
-/
namespace Reporting

/-! What the result of a custom variable is first made of -/

/-- Nothing that is built or run gives an initial value to an expression of a variable. -/
def Report.Plain (r : Report) : Prop := ∀ v ∈ r.vars, ∀ x ∈ v.computations, x.initial = none

theorem Computation.initial_compileText {c : Compiler} {text : String} {x : Computation}
    (h : c.compileText text = .ok x) : x.initial = none := by
  unfold Compiler.compileText at h
  split at h
  · cases h
  · obtain ⟨e, -, h⟩ := Compiler.bind_eq_ok h
    cases h
    rfl

/-- The stages of a variable read nothing of their row but stages before them. -/
def Variable.Chained (v : Variable) : Prop :=
  ∀ k y, v.stages[k]? = some (some y) → ∀ name, .named .row name ∈ y.root.references →
    ∃ m < k, stage? name = some m

theorem stage?_lt {name : String} {k : Nat} (h : stage? name = some k) : k < 3 :=
  (List.findIdx?_eq_some_iff_getElem.1 h).1

namespace Report

variable {r r' : Report} {w : Workspace} {main : QueryId}

theorem Plain.resolve (h : r.Plain) (hr : r.Sound) (w : Workspace) (main : QueryId) :
    (r.resolve w main).Plain := by
  intro V hV x hx
  obtain ⟨i, hi⟩ := List.mem_iff_getElem?.1 hV
  obtain ⟨before, v, after, r₀, resetBreak, hvs, -, -, rfl, -⟩ := exists_bound_of_resolve hr hi
  change x ∈ (v.map _).computations at hx
  rw [Variable.computations_map] at hx
  obtain ⟨y, hy, rfl⟩ := List.mem_map.1 hx
  exact h v (hvs ▸ List.mem_append_right _ List.mem_cons_self) y hy

theorem Plain.of_forget (h : r'.Plain) (hr : r.forget = r'.forget) : r.Plain := by
  intro v hv x hx
  have hmem : v.forget ∈ r'.vars.map Variable.forget := by
    have hvars : r.vars.map Variable.forget = r'.vars.map Variable.forget := congrArg vars hr
    exact hvars ▸ List.mem_map_of_mem hv
  obtain ⟨v', hv', hforget⟩ := List.mem_map.1 hmem
  have hcomputations : v'.computations.map Computation.forget = v.computations.map Computation.forget := by
    rw [← v'.computations_map, ← v.computations_map]
    exact congrArg Variable.computations hforget
  obtain ⟨y, hy, hxy⟩ := List.mem_map.1 (hcomputations ▸ List.mem_map_of_mem hx)
  have hinitial : y.forget.initial = x.forget.initial := congrArg Computation.initial hxy
  exact hinitial.symm.trans (h v' hv' y hy)

theorem Reachable.plain (h : r.Reachable) : r.Plain := by
  induction h with
  | empty name => exact fun _ hv => nomatch hv
  | setQuery query _ ih => exact ih
  | newBreak _ hr ih => exact fun v hv => ih v (vars_newBreak hr ▸ hv)
  | addBreakField _ hr ih => exact fun v hv => ih v (vars_addBreakField hr ▸ hv)
  | newVariable _ hr ih =>
    obtain ⟨v, hv, hr⟩ := Compiler.bind_eq_ok hr
    cases hr
    intro u hu x hx
    rcases List.mem_append.1 hu with hu | hu
    · exact ih u hu x hx
    · rw [List.mem_singleton.1 hu] at hx
      obtain ⟨text, htext⟩ := Variable.exists_text hv x hx
      exact Computation.initial_compileText htext
  | addExpression _ hr ih => exact fun v hv => ih v (vars_addExpression hr ▸ hv)
  | @run r w run hr hrun ih =>
    obtain ⟨p, started, first, ps, behind, hruns⟩ := runs_of_run hrun
    exact (ih.resolve hr.sound w p.main).of_forget
      ((hruns.forget hr.sound).trans (forget_prepare hruns.prepare))

end Report

/-! A row -/

namespace Progress

variable {q : Progress} {pass : Pass} {i k : Nat} {v : Variable} {x x₀ : Computation}

theorem lt_opened (hb : q.Balanced) (pass : Pass) (hv : q.report.vars[i]? = some v) :
    i < (q.opened pass).report.vars.length := by
  obtain ⟨s, hs⟩ := hb.exists_state hv
  exact (List.getElem?_eq_some_iff.1 (opened_getElem? pass hv hs).1).1

/-- The result of a custom variable on a row is what its expression is worth when the row ends. -/
theorem running?_of_custom (hb : q.Balanced) (hv : q.report.vars[i]? = some v) (hk : v.kind = .custom)
    (hx₀ : (q.opened pass).formula? i = some x₀) (hx : x.Sound) (hforget : x₀.forget = x.forget)
    (hpure : x.root.Every (Expr.Calls Function.Pure)) (hreads : ∀ source ∈ x.sources, source.Settles i 3) :
    (step pass q).running? i = some (x.root.meaning ((step pass q).context pass (some i))
      (some (x₀.before ((q.evaluating pass i 3).context pass (some i))))) := by
  rw [(step_formula hb hv hk hx₀).2, Computation.value_eq_meaning hx hforget hpure,
    meaning_finished (lt_opened hb pass hv) (Nat.le_refl 3) hpure hreads fun _ => rfl, context_step]

/-- The value of a stage on a row is what its expression is worth when the row ends. -/
theorem stageValue?_of_stage (hb : q.Balanced) (hstaged : q.Staged) (hv : q.report.vars[i]? = some v)
    (hk : k < 3) (hx₀ : (q.evaluating pass i k).stageAt? i k = some x₀) (hx : x.Sound)
    (hforget : x₀.forget = x.forget) (hpure : x.root.Every (Expr.Calls Function.Pure))
    (hreads : ∀ source ∈ x.sources, source.Settles i k) (hself : .self ∉ x.sources) :
    (step pass q).stageValue? i k =
      some (x.root.meaning ((step pass q).context pass (some i)) none) := by
  have hi := lt_opened hb pass hv
  have hbeside := evaluating_beside q pass i k
  have hlength : i < (q.evaluating pass i k).values.vars.length := by
    rw [hbeside.balanced ((opened_beside hb pass).balanced hb), hbeside.length]
    exact hi
  rw [step_stage hi hk hx₀ ((hstaged.evaluating pass i k).stageValue? hlength hk),
    Computation.value_eq_meaning hx hforget hpure,
    meaning_finished hi (Nat.le_of_lt hk) hpure hreads fun h => absurd h hself, context_step]

end Progress

theorem Report.staged_prepare {r : Report} {w : Workspace} {p : Progress} (hp : r.prepare w = .ok p) :
    p.Staged := by
  obtain ⟨main, -, -, rfl⟩ := prepare_eq_ok hp
  exact Progress.staged_reset _

/-! Groups -/

/-- The last values of the groups that breaks make of rows, for the variable at a position. -/
def lastValues (breaks : List String) (rows : List ToldRow) (j : Nat) : List Value :=
  lastOfGroups (.null .number) (rows.map fun row =>
    (decide (row.BreaksAny breaks), (row.seen.running? j).getD (.null .number)))

/-- The number of the group of row `n`, where the first one is 0. -/
def groupNumber (breaks : List String) (rows : List ToldRow) (n : Nat) : Nat :=
  (rows.take (n + 1)).countP fun row => row.BreaksAny breaks

namespace Report

variable {r : Report} {w : Workspace} {run : Run} {pass : Pass} {i j k n s : Nat} {row : ToldRow}
  {p q started first behind : Progress} {ps : List Progress} {v u : Variable} {x : Computation}

/-- A variable starts over on the rows on which one of its breaks triggers. -/
theorem Passes.startsOver_iff (h : r.Passes w run pass p first ps behind) (hp : r.prepare w = .ok p)
    (hr : r.Sound) (hf : QueryStore.Forest w.queries) (hq : q ∈ ps) (hv : q.report.vars[i]? = some v) :
    q.startsOver pass v = true ↔ (q.toldOn pass).BreaksAny (v.resetNames p.report.names) := by
  obtain ⟨⟨hleads, hwithin⟩, -⟩ := h.states hp hf hq
  have hbound := Progress.kept_bound.leads (bound_prepare hr hp) hleads
  rw [← hwithin.names]
  exact Progress.startsOver_iff_of_broken rfl hbound (List.mem_of_getElem? hv)

/-- The groups of a pass are made by its breaks. -/
theorem Passes.marks (h : r.Passes w run pass p first ps behind) (hp : r.prepare w = .ok p) (hr : r.Sound)
    (hf : QueryStore.Forest w.queries) (hu : p.report.vars[j]? = some u) :
    ps.map (Progress.mark pass j) = (r.passRows w run pass).map fun row =>
      (decide (row.BreaksAny (u.resetNames p.report.names)), (row.seen.running? j).getD (.null .number)) := by
  rw [h.rows, List.map_map]
  refine List.map_congr_left fun q hq => ?_
  obtain ⟨⟨hleads, -⟩, -⟩ := h.states hp hf hq
  obtain ⟨-, u', hu', hsame⟩ :=
    (Progress.kept_same u j).leads ⟨hr.prepare hp, u, hu, .refl u⟩ hleads
  have hstarts := h.startsOver_iff hp hr hf hq hu'
  rw [Variable.resetNames, hsame.resetOnBreak] at hstarts
  rw [Progress.mark, hu', Option.any_some]
  exact Prod.ext (Bool.eq_iff_iff.2 (hstarts.trans decide_eq_true_iff.symm)) rfl

/-- In the final pass a precalculated variable is read as the last value that the pass in advance
found for the group with the number of the row's group. -/
theorem Runs.reads_ahead (h : r.Runs w run p started first ps behind) (hr : r.Sound)
    (hf : QueryStore.Forest w.queries) (hrow : run.rows[n]? = some row)
    (hu : p.report.vars[j]? = some u) (hahead : u.precalculated = true) :
    row.seen.values.vars[j]?.map (·.result.precalculated) =
      some (((lastValues (u.resetNames p.report.names) (r.rowsAhead w) j)[groupNumber
        (u.resetNames p.report.names) run.rows n]?).getD (.null .number)) := by
  have hpass := h.passes hr hf
  obtain ⟨q, hq, rfl⟩ : ∃ q, ps[n]? = some q ∧ q.told = row := by
    rw [h.rows, List.getElem?_map] at hrow
    exact Option.map_eq_some_iff.1 hrow
  have hasks : p.asksAhead = true := List.any_eq_true.2 ⟨u, List.mem_of_getElem? hu, hahead⟩
  obtain ⟨first₀, ahead, behind₀, last, hforesees, hpass₀⟩ := h.exists_ahead hr hf hasks
  -- the values of the pass in advance, and the one of them that is read
  obtain ⟨u', s, hu', hs, hsame, hloaded⟩ := h.exists_loaded hr hu hahead hforesees
  obtain ⟨s', hs', hread⟩ :=
    h.turns.points hu' hs (hsame.precalculated.trans hahead) hloaded.loaded hq
  have hfinals : s.finals.drop s.group = lastValues (u.resetNames p.report.names) (r.rowsAhead w) j := by
    rw [hloaded.finals, (h.fresh_first.state s hs).2.2, hpass₀.marks h.prepare hr hf hu]
    rfl
  have hnumber : ((ps.take (n + 1)).map (Progress.mark .final j)).countP (·.1) =
      groupNumber (u.resetNames p.report.names) run.rows n := by
    rw [List.map_take, hpass.marks h.prepare hr hf hu, ← List.map_take, List.countP_map]
    rfl
  rw [show q.told.seen.values.vars[j]? = some s' from hs', Option.map_some, hread, ← hnumber, ← hfinals,
    List.getElem?_drop]

/-- An expression that a row evaluates is the one that was bound, up to what it remembers. -/
theorem exists_opened (hb : p.Balanced) (hleads : p.Leads q) (pass : Pass) (hx : p.formula? i = some x) :
    ∃ x₀, (q.opened pass).formula? i = some x₀ ∧ x₀.forget = x.forget := by
  obtain ⟨hbalanced, hlasts⟩ := (Progress.kept_lasts p).leads ⟨hb, rfl⟩ hleads
  exact Progress.exists_formula_of_forget ((Progress.forget_opened hbalanced pass).trans hlasts) hx

/-- On the first row of a group an expression is evaluated as if it had never been. -/
theorem Passes.formula_first (h : r.Passes w run pass p first ps behind) (hp : r.prepare w = .ok p)
    (hr : r.Sound) (hf : QueryStore.Forest w.queries) (hq : ps[n]? = some q)
    (hv : q.report.vars[i]? = some v) (hx : (q.opened pass).formula? i = some x)
    (hstart : n = 0 ∨ (q.toldOn pass).BreaksAny (v.resetNames p.report.names)) : x.evaluated = false := by
  have hmem := List.mem_of_getElem? hq
  obtain ⟨⟨-, hwithin⟩, -⟩ := h.states hp hf hmem
  obtain ⟨s, hs⟩ := hwithin.balanced.exists_state hv
  rw [Progress.formula?_opened hv hs] at hx
  split at hx
  · obtain ⟨y, -, rfl⟩ := Option.map_eq_some_iff.1 hx
    rfl
  · rename_i hgoes
    rcases hstart with rfl | hbreaks
    · obtain ⟨queries, -, hadvanced⟩ := Progress.advance_eq_ok (h.turns.first hq)
      have hformula : q.formula? i = some x := by
        rw [Progress.formula?, hv]
        exact hx
      exact (h.unevaluated.of_report (by rw [hadvanced])) i x hformula
    · exact absurd ((h.startsOver_iff hp hr hf hmem hv).2 hbreaks) hgoes

theorem Passes.before_first (h : r.Passes w run pass p first ps behind) (hp : r.prepare w = .ok p)
    (hr : r.Sound) (hplain : r.Plain) (hf : QueryStore.Forest w.queries) (hq : ps[n]? = some q)
    (hv : q.report.vars[i]? = some v) (hx : (q.opened pass).formula? i = some x)
    (hstart : n = 0 ∨ (q.toldOn pass).BreaksAny (v.resetNames p.report.names)) (c : Context) :
    x.before c = .null .number := by
  obtain ⟨⟨hleads, -⟩, -⟩ := h.states hp hf (List.mem_of_getElem? hq)
  obtain ⟨hbalanced, hlasts⟩ := (Progress.kept_lasts p).leads ⟨(hr.prepare hp).balanced, rfl⟩ hleads
  have hopened : (q.opened pass).report.Plain :=
    ((hplain.resolve hr w p.main).of_forget (forget_prepare hp)).of_forget
      ((Progress.forget_opened hbalanced pass).trans hlasts)
  obtain ⟨u, hu, hresult⟩ := Option.bind_eq_some_iff.1 hx
  have hinitial := hopened u (List.mem_of_getElem? hu) x (Variable.mem_computations.2 (.inr hresult))
  rw [Computation.before, h.formula_first hp hr hf hq hv hx hstart, if_neg Bool.false_ne_true,
    Computation.initialValue, hinitial]
  rfl

/-- On any other row it is as the row before has evaluated it. -/
theorem Passes.formula_next (h : r.Passes w run pass p first ps behind) (hp : r.prepare w = .ok p)
    (hr : r.Sound) (hf : QueryStore.Forest w.queries) (hq : ps[n + 1]? = some q)
    (hv : q.report.vars[i]? = some v) (hk : v.kind = .custom) (hx : (q.opened pass).formula? i = some x)
    (hgoes : ¬ (q.toldOn pass).BreaksAny (v.resetNames p.report.names)) :
    ∃ q₁ x₁ c, ps[n]? = some q₁ ∧ x = (Computation.evaluate x₁ c).1 ∧ c.slot = .current ∧
      (Progress.step pass q₁).running? i = some (Computation.evaluate x₁ c).2 := by
  have hmem := List.mem_of_getElem? hq
  obtain ⟨⟨-, hwithin⟩, -⟩ := h.states hp hf hmem
  obtain ⟨s, hs⟩ := hwithin.balanced.exists_state hv
  rw [Progress.formula?_opened hv hs,
    if_neg fun hstarts => hgoes ((h.startsOver_iff hp hr hf hmem hv).1 hstarts)] at hx
  obtain ⟨q₁, hq₁⟩ : ∃ q₁, ps[n]? = some q₁ :=
    ⟨_, List.getElem?_eq_getElem (Nat.lt_of_succ_lt (List.getElem?_eq_some_iff.1 hq).1)⟩
  obtain ⟨⟨-, hwithin₁⟩, -⟩ := h.states hp hf (List.mem_of_getElem? hq₁)
  obtain ⟨queries, -, hadvanced⟩ := Progress.advance_eq_ok (h.turns.succ hq₁ hq)
  have hleft : (Progress.step pass q₁).report.vars[i]? = some v := by
    rw [hadvanced] at hv
    exact hv
  have hformula : (Progress.step pass q₁).formula? i = some x := by
    rw [Progress.formula?, hleft]
    exact hx
  have hfinished := (Progress.step_getElem? pass q₁ i).1.symm.trans hleft
  obtain ⟨v₁, hv₁, hsame⟩ := Progress.exists_same_finished hwithin₁.balanced hfinished
  have hforget : (q₁.opened pass).report.forget = (Progress.step pass q₁).report.forget :=
    (Progress.forget_opened hwithin₁.balanced pass).trans ((Progress.kept_lasts q₁).leads
      ⟨hwithin₁.balanced, rfl⟩ (Progress.Leads.step .refl pass)).report.symm
  obtain ⟨x₁, hx₁, -⟩ := Progress.exists_formula_of_forget hforget hformula
  obtain ⟨hevaluated, hrunning⟩ :=
    Progress.step_formula hwithin₁.balanced hv₁ (hsame.kind.symm.trans hk) hx₁
  exact ⟨q₁, x₁, _, hq₁, Option.some.inj (hformula.symm.trans hevaluated), rfl, hrunning⟩

/-- On the rows of a pass the result of a custom variable is made of its result on the row before in
the group. -/
theorem Passes.iterates (h : r.Passes w run pass p first ps behind) (hp : r.prepare w = .ok p)
    (hr : r.Sound) (hplain : r.Plain) (hf : QueryStore.Forest w.queries) (hq : ps[n]? = some q)
    (hv : p.report.vars[i]? = some v) (hk : v.kind = .custom) (hx : v.result = some x)
    (hpure : x.root.Every (Expr.Calls Function.Pure)) (hreads : ∀ source ∈ x.sources, source.Settles i 3)
    (hgroup : GroupStart (v.resetNames p.report.names) (r.passRows w run pass) s n) :
    ∃ before, (s = n → before = .null .number) ∧
      (s < n → ∃ row, (r.passRows w run pass)[n - 1]? = some row ∧ row.seen.running? i = some before) ∧
      (Progress.step pass q).running? i =
        some (x.root.meaning ((Progress.step pass q).context pass (some i)) (some before)) := by
  have hmem := List.mem_of_getElem? hv
  have hprepared := hr.prepare hp
  have hxs : x.Sound := hprepared.report.vars v hmem x (Variable.mem_computations.2 (.inr hx))
  obtain ⟨⟨hleads, hwithin⟩, -⟩ := h.states hp hf (List.mem_of_getElem? hq)
  have hrows {m : Nat} {q : Progress} (hq : ps[m]? = some q) :
      (r.passRows w run pass)[m]? = some (q.toldOn pass) := by
    rw [h.rows, List.getElem?_map, hq]
    rfl
  -- the expression that the row evaluates
  have hformula : p.formula? i = some x := by
    rw [Progress.formula?, hv]
    exact hx
  obtain ⟨-, v₀, hv₀, hsame⟩ := (Progress.kept_same v i).leads ⟨hprepared, v, hv, .refl v⟩ hleads
  have hk₀ := hsame.kind.trans hk
  obtain ⟨x₀, hx₀, hforget⟩ := exists_opened hprepared.balanced hleads pass hformula
  have hvalue := Progress.running?_of_custom hwithin.balanced hv₀ hk₀ hx₀ hxs hforget hpure hreads
  rw [Variable.resetNames, ← hsame.resetOnBreak, ← Variable.resetNames] at hgroup
  rcases Nat.lt_or_eq_of_le hgroup.le with hlt | rfl
  · obtain ⟨m, rfl⟩ := Nat.exists_eq_succ_of_ne_zero (Nat.ne_of_gt (Nat.zero_lt_of_lt hlt))
    have hgoes := hgroup.goesOn _ _ hlt (Nat.le_refl _) (hrows hq)
    obtain ⟨q₁, x₁, c, hq₁, rfl, hslot, hrunning⟩ := h.formula_next hp hr hf hq hv₀ hk₀ hx₀ hgoes
    refine ⟨_, fun he => absurd he (Nat.ne_of_lt hlt), fun _ => ⟨_, hrows hq₁, hrunning⟩, ?_⟩
    have hroot := (Computation.root_of_forget hforget hxs.computed).2
    have hx₁ : x₁.Sound := hxs.of_forget ((Computation.forget_evaluate x₁ c).symm.trans hforget)
    have hslots : c.slot = ((q.evaluating pass i 3).context pass (some i)).slot := hslot
    rw [hvalue, ← Expr.meaning_eq_of_forget hroot, Computation.meaning_before hx₁ hslots,
      Expr.meaning_eq_of_forget hroot]
  · have hstart : s = 0 ∨ (q.toldOn pass).BreaksAny (v₀.resetNames p.report.names) := by
      rcases hgroup.starts with hzero | ⟨row, hrow, hbreaks⟩
      · exact .inl hzero
      · obtain rfl := Option.some.inj (hrow.symm.trans (hrows hq))
        exact .inr hbreaks
    refine ⟨.null .number, fun _ => rfl, fun hlt => absurd hlt (Nat.lt_irrefl _), ?_⟩
    rw [hvalue, h.before_first hp hr hplain hf hq hv₀ hx₀ hstart]

/-! Runs -/

/-- What a variable is read as on row `n` of a pass: its value on this row, but while rendering, if it is
precalculated, the last value of the row's group. -/
def readAs (r : Report) (w : Workspace) (run : Run) (pass : Pass) (n : Nat) (row : ToldRow) (j : Nat)
    (u : Variable) : Option Value :=
  if u.precalculated = true ∧ pass = .final then
    let breaks := u.resetNames row.seen.report.names
    some (((lastValues breaks (r.rowsAhead w) j)[groupNumber breaks run.rows n]?).getD (.null .number))
  else row.seen.running? j

theorem Runs.worth?_variable (h : r.Runs w run p started first ps behind) (hr : r.Sound)
    (hf : QueryStore.Forest w.queries) (hrow : (r.passRows w run pass)[n]? = some row)
    (hnames : row.seen.report.names = p.report.names) (hu : p.report.vars[j]? = some u) {name : String}
    (hfind : (row.seen.scope pass (some i)).find? (.named .report name) = some (.result j u.precalculated))
    (self : Option Value) : (row.seen.context pass (some i)).worth? self (.named .report name) =
      r.readAs w run pass n row j u := by
  rw [Progress.worth?_variable self hfind, readAs, hnames]
  by_cases hahead : u.precalculated = true ∧ pass = .final
  · simp only [if_pos hahead]
    obtain ⟨hahead, rfl⟩ := hahead
    exact h.reads_ahead hr hf hrow hu hahead
  · simp only [if_neg hahead]
    rfl

/-- The name of a stage is worth what its expression is worth on the row. -/
theorem Passes.worth?_stage (h : r.Passes w run pass p first ps behind) (hp : r.prepare w = .ok p)
    (hr : r.Reachable) (hf : QueryStore.Forest w.queries) (hq : q ∈ ps) (hv : p.report.vars[i]? = some v)
    {y : Computation} (hy : v.stages[k]? = some (some y)) (hpure : y.root.Every (Expr.Calls Function.Pure))
    (hchained : v.Chained) {name : String} (hname : stage? name = some k) (self : Option Value) :
    ((Progress.step pass q).context pass (some i)).worth? self (.named .row name) =
      some (y.root.meaning ((Progress.step pass q).context pass (some i)) none) := by
  have hprepared := hr.sound.prepare hp
  have hmem : y ∈ v.computations := Variable.mem_computations.2 (.inl (List.mem_of_getElem? hy))
  obtain ⟨⟨hleads, hwithin⟩, -, hwithin'⟩ := h.states hp hf hq
  obtain ⟨hsettled, -⟩ := settled_row hr hf hp hwithin' hv hmem pass
  have hback := (boundBack_resolve hr.sound hr.named w p.main).of_forget (hr.sound.resolve w p.main)
    (forget_prepare hp)
  have hself : .named .row "self" ∉ y.root.references := fun href => by
    obtain ⟨m, -, hm⟩ := hchained k y hy "self" href
    exact Progress.ne_self_of_stage? hm rfl
  have hreads := Progress.settles_of_bound (k := k) hback hv hmem hsettled fun name m href hm => by
    obtain ⟨m', hlt, hm'⟩ := hchained k y hy name href
    obtain rfl := Option.some.inj (hm.symm.trans hm')
    exact hlt
  have hstage : p.stageAt? i k = some y := by
    rw [Progress.stageAt?, hv, Option.bind_some, hy]
    rfl
  obtain ⟨-, v₀, hv₀, -⟩ := (Progress.kept_same v i).leads ⟨hprepared, v, hv, .refl v⟩ hleads
  obtain ⟨hbalanced, hlasts⟩ := (Progress.kept_lasts p).leads ⟨hprepared.balanced, rfl⟩ hleads
  obtain ⟨y₀, hy₀, hforget⟩ :=
    Progress.exists_stageAt_of_forget ((Progress.forget_evaluating hbalanced pass i k).trans hlasts) hstage
  have hstaged := Progress.kept_staged.leads (staged_prepare hp) hleads
  rw [Progress.worth?_stage _ _ _ _ hname]
  exact Progress.stageValue?_of_stage hbalanced hstaged hv₀ (stage?_lt hname) hy₀
    (hprepared.report.vars v (List.mem_of_getElem? hv) y hmem) hforget hpure hreads
    (Progress.self_not_mem_sources hsettled hself)

/-- A report with a custom variable can be run, and on each row of each pass the variable has the
value that its expression is worth there: `r.self` is the value on the row before in the group, and
a null on the first row of a group; the names of the stages are worth what these are worth on this
row; and the names of variables stand for variables before, and are worth what these are read as on
this row. -/
theorem run_customs (hr : r.Reachable) (hw : w.queries.Reachable) (hp : r.prepare w = .ok p)
    (hv : p.report.vars[i]? = some v) (hk : v.kind = .custom) (hx : v.result = some x)
    (hpure : ∀ y ∈ v.computations, y.root.Every (Expr.Calls Function.Pure)) (hchained : v.Chained) :
    ∃ run, r.run w = .ok run ∧ ∀ pass n row, (r.passRows w run pass)[n]? = some row →
      let c := row.seen.context pass (some i)
      (∀ y ∈ v.computations, y.root.Every (Expr.WorthIn c) ∧
        ∀ name, .named .report name ∈ y.root.references → ∃ j u, j < i ∧ p.report.vars[j]? = some u ∧
          u.name = name ∧ ∀ self, c.worth? self (.named .report name) = r.readAs w run pass n row j u) ∧
      (∀ k y name, v.stages[k]? = some (some y) → stage? name = some k →
        ∀ self, c.worth? self (.named .row name) = some (y.root.meaning c none)) ∧
      ∀ s, GroupStart (v.resetNames p.report.names) (r.passRows w run pass) s n →
        ∃ before, (s = n → before = .null .number) ∧
          (s < n → ∃ last, (r.passRows w run pass)[n - 1]? = some last ∧
            last.seen.running? i = some before) ∧
          c.worth? (some before) (.named .row "self") = some before ∧
          row.seen.running? i = some (x.root.meaning c (some before)) ∧
          (v.precalculated = false → row.seen.result? v.name = row.seen.running? i) := by
  have hf := hw.forest
  have hs := hr.sound
  obtain ⟨run, hrun⟩ := exists_run hs hf hp
  obtain ⟨_, started, first, ps, behind, hruns⟩ := runs_of_run hrun
  obtain rfl := Except.ok.inj (hp.symm.trans hruns.prepare)
  refine ⟨run, hrun, fun pass n row hrow => ?_⟩
  intro c
  obtain ⟨first', ps', behind', hpass⟩ := hruns.exists_pass hs hf hrow
  obtain ⟨q, hq, rfl⟩ : ∃ q, ps'[n]? = some q ∧ q.toldOn pass = row := by
    rw [hpass.rows, List.getElem?_map] at hrow
    exact Option.map_eq_some_iff.1 hrow
  have hmem := List.mem_of_getElem? hq
  obtain ⟨-, hleads, hwithin⟩ := hpass.states hp hf hmem
  have hback := (boundBack_resolve hs hr.named w p.main).of_forget (hs.resolve w p.main) (forget_prepare hp)
  have hsettled {y : Computation} (hy : y ∈ v.computations) := settled_row hr hf hp hwithin hv hy pass
  refine ⟨fun y hy => ⟨Expr.worthIn_of_settled (hsettled hy).1, fun name href => ?_⟩,
    fun k y name hy hname self => ?_, fun s hgroup => ?_⟩
  · obtain ⟨j, u, hlt, hu, hname, hfind⟩ :=
      Progress.exists_referred hback hwithin.names hv hy (hsettled hy).1 (hsettled hy).2 href
    exact ⟨j, u, hlt, hu, hname, hruns.worth?_variable hs hf hrow hwithin.names hu hfind⟩
  · have hy' : y ∈ v.computations := Variable.mem_computations.2 (.inl (List.mem_of_getElem? hy))
    exact hpass.worth?_stage hp hr hf hmem hv hy (hpure y hy') hchained hname self
  · have hx' : x ∈ v.computations := Variable.mem_computations.2 (.inr hx)
    have hreads := Progress.settles_of_bound (k := 3) hback hv hx' (hsettled hx').1
      fun name m _ hm => stage?_lt hm
    obtain ⟨before, hfirst, hnext, hvalue⟩ :=
      hpass.iterates hp hs hr.plain hf hq hv hk hx (hpure x hx') hreads hgroup
    refine ⟨before, hfirst, hnext, rfl, hvalue, fun hahead => ?_⟩
    obtain ⟨hsound, v', hv', hsame⟩ :=
      (Progress.kept_same v i).leads ⟨hs.prepare hp, v, hv, .refl v⟩ hleads
    have hresult := Progress.result?_eq hsound.report.varNames hv'
    rw [hsame.name, hsame.precalculated, hahead] at hresult
    exact hresult

/-- The key and the count of its group, once it is bound or before. -/
def keyAndCount (stage count : Option Source) : Computation where
  root := .ofCall (.builtin ⟨"add", .add, .variadic, .commAssoc⟩)
    [.reference (.named .row "baseexpr") stage false, .reference (.named .report "c") count false]
  source := "r.baseexpr + v.c"

/-- One more if there was no value before. -/
def oneMore (self stage : Option Source) : Computation where
  root := .ofCall (.builtin ⟨"add", .add, .variadic, .commAssoc⟩)
    [.ofCall (.builtin ⟨"isnull", .isnull, .exact 1, .plain⟩) [.reference (.named .row "self") self true],
      .reference (.named .row "intermedexpr") stage false]
  source := "isnull(r.self) + r.intermedexpr"

def gathering : VariableDef :=
  { name := "g", kind := .custom, base := some "k", intermediate := some "r.baseexpr + v.c"
    result := some "isnull(r.self) + r.intermedexpr", resetOnBreak := some "b" }

/-- A report with a variable that reads the count that is known in advance. -/
def gathered : Report :=
  let stages := [some keyField, some (keyAndCount none none), none]
  let gather : Variable :=
    { name := "g", kind := .custom, stages, result := some (oneMore none none), resetOnBreak := some "b" }
  { foreseen with vars := foreseen.vars ++ [gather] }

set_option maxRecDepth 40000 in
theorem gathered_reachable : gathered.Reachable := by
  have hstage : keyed.compiler.compileText "r.baseexpr + v.c" = .ok (keyAndCount none none) := by
    have hparse : Formula.parse "r.baseexpr + v.c" =
        .ok (.binary .add (.named .row "baseexpr") (.named .report "c")) := by cbv
    rw [Compiler.compileText, hparse]
    rfl
  have hresult : keyed.compiler.compileText "isnull(r.self) + r.intermedexpr" = .ok (oneMore none none) := by
    have hparse : Formula.parse "isnull(r.self) + r.intermedexpr" =
        .ok (.binary .add (.call "isnull" [.named .row "self"]) (.named .row "intermedexpr")) := by cbv
    rw [Compiler.compileText, hparse]
    rfl
  have hvariable : foreseen.newVariable keyed.compiler gathering = .ok gathered := by
    unfold gathering newVariable Variable.compile
    simp only [List.mapM_cons, Variable.compileFormula, compileText_key, hstage, hresult]
    rfl
  exact .newVariable foreseen_reachable hvariable

/-- The stages and the result that are bound when the report is run. -/
theorem prepare_gathered :
    ∃ p v, gathered.prepare keyed = .ok p ∧ p.report.vars[1]? = some v ∧ v.kind = .custom ∧
      v.stages = [some keyColumn, some (keyAndCount (some (.stage 1 0)) (some (.result 0 true))), none] ∧
      v.result = some (oneMore (some .self) (some (.stage 1 1))) := by
  have hprepare : ((gathered.prepare keyed).toOption.map fun (p : Progress) =>
      p.report.vars[1]?.map fun v => (v.kind, v.stages, v.result)) =
      some (some (.custom, [some keyColumn,
        some (keyAndCount (some (.stage 1 0)) (some (.result 0 true))), none],
        some (oneMore (some .self) (some (.stage 1 1))))) := rfl
  obtain ⟨p, hp, hvariable⟩ := exists_ok_of_map hprepare
  obtain ⟨v, hv, hvariable⟩ := Option.map_eq_some_iff.1 hvariable
  obtain ⟨hk, hbound⟩ := Prod.mk.inj hvariable
  obtain ⟨hstages, hx⟩ := Prod.mk.inj hbound
  exact ⟨p, v, hp, hv, hk, hstages, hx⟩

theorem pure_of_gathering {s c s' t : Option Source}
    (hstages : v.stages = [some keyColumn, some (keyAndCount s c), none]) (hx : v.result = some (oneMore s' t)) :
    ∀ y ∈ v.computations, y.root.Every (Expr.Calls Function.Pure) := by
  have hcomputations : v.computations = [keyColumn, keyAndCount s c, oneMore s' t] := by
    rw [Variable.computations, hstages, hx]
    rfl
  have hadd : Function.Pure (.builtin ⟨"add", .add, .variadic, .commAssoc⟩) := ⟨by decide, by decide⟩
  have hisnull : Function.Pure (.builtin ⟨"isnull", .isnull, .exact 1, .plain⟩) := ⟨by decide, by decide⟩
  rw [hcomputations, List.forall_mem_cons, List.forall_mem_cons, List.forall_mem_singleton]
  exact ⟨trivial, ⟨hadd, trivial, trivial, trivial⟩, hadd, ⟨hisnull, trivial, trivial⟩, trivial, trivial⟩

theorem chained_of_gathering {s c : Option Source}
    (hstages : v.stages = [some keyColumn, some (keyAndCount s c), none]) : v.Chained := by
  intro k y hy name hname
  rw [hstages] at hy
  match k with
  | 0 =>
    cases hy
    cases List.mem_singleton.1 hname
  | 1 =>
    cases hy
    rcases List.mem_cons.1 hname with hname | hname
    · cases hname
      exact ⟨0, Nat.one_pos, by decide +kernel⟩
    · cases List.mem_singleton.1 hname
  | 2 => cases hy
  | k + 3 => cases hy

/-- On the second row the value before is the 4 of the first one, which is no null: what is left is
the key and the count of the group, 1 and 2. -/
theorem run_customs_of_keys :
    gathered.Reachable ∧ keyed.queries.Reachable ∧ ∃ p v x, gathered.prepare keyed = .ok p ∧
      p.report.vars[1]? = some v ∧ v.kind = .custom ∧ v.result = some x ∧
      (∀ y ∈ v.computations, y.root.Every (Expr.Calls Function.Pure)) ∧ v.Chained ∧
      ∃ run row, gathered.run keyed = .ok run ∧ run.rows[1]? = some row ∧
        GroupStart (v.resetNames p.report.names) run.rows 0 1 ∧
        row.seen.running? 1 = some (x.root.meaning (row.seen.context .final (some 1)) (some (.ofInt 4))) ∧
        row.seen.running? 1 = some (.ofInt 3) := by
  obtain ⟨p, v, hp, hv, hk, hstages, hx⟩ := prepare_gathered
  have hpure := pure_of_gathering hstages hx
  have hchained := chained_of_gathering hstages
  obtain ⟨run, hrun, hrows⟩ := run_customs gathered_reachable keyed_reachable hp hv hk hx hpure hchained
  have htold : ((gathered.run keyed).toOption.map fun run =>
      run.rows.map fun (row : ToldRow) => (row.broken, row.seen.running? 1)) =
      some [([], some (.ofInt 4)), ([], some (.ofInt 3)), (["b"], some (.ofInt 4))] := by
    decide +kernel
  rw [hrun] at htold
  have hlist := Option.some.inj htold
  have hread (n : Nat) := congrArg (·[n]?) hlist
  simp only [List.getElem?_map] at hread
  obtain ⟨last, hlast, hlastRow⟩ := Option.map_eq_some_iff.1 (hread 0)
  obtain ⟨row, hrow, htoldRow⟩ := Option.map_eq_some_iff.1 (hread 1)
  obtain ⟨hbroken, hvalue⟩ := Prod.mk.inj htoldRow
  have hgroup : GroupStart (v.resetNames p.report.names) run.rows 0 1 := by
    refine ⟨Nat.zero_le 1, .inl rfl, fun t row' hpos hle hrow' => ?_⟩
    obtain rfl : t = 1 := Nat.le_antisymm hle hpos
    obtain rfl := Option.some.inj (hrow.symm.trans hrow')
    rintro ⟨name, -, hname⟩
    rw [hbroken] at hname
    cases hname
  obtain ⟨-, -, hiterates⟩ := hrows .final 1 row hrow
  obtain ⟨before, -, hnext, -, hmeaning, -⟩ := hiterates 0 hgroup
  obtain ⟨last', hlast', hbefore⟩ := hnext Nat.one_pos
  obtain rfl := Option.some.inj (hlast.symm.trans hlast')
  obtain rfl := Option.some.inj (hbefore.symm.trans (Prod.mk.inj hlastRow).2)
  exact ⟨gathered_reachable, keyed_reachable, p, v, _, hp, hv, hk, hx, hpure, hchained, run, row, hrun,
    hrow, hgroup, hmeaning, hvalue⟩

end Report
end Reporting
