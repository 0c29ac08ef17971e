import Reporting.Proofs.Report.Again
import Reporting.Proofs.Report.Precalculated
/-!
Two runs row by row: as long as nothing is drawn by chance and nothing is read from the evaluation
before, whatever is computed in one of them is computed in the other.
-/
namespace Reporting

/-! Related lists -/

section

variable {α β γ δ ε : Type} {R : α → β → Prop} {S : γ → δ → Prop} {l : List α} {l' : List β}

theorem forall₂_zipWith {f : α → ε → γ} {g : β → ε → δ} (h : List.Forall₂ R l l')
    (hR : ∀ a b c, R a b → S (f a c) (g b c)) (m : List ε) :
    List.Forall₂ S (List.zipWith f l m) (List.zipWith g l' m) := by
  induction h generalizing m with
  | nil => exact .nil
  | cons hab _ ih =>
    cases m with
    | nil => exact .nil
    | cons c m => exact .cons (hR _ _ c hab) (ih m)

end

/-! The same names and values -/

theorem Scope.eq_of_names {s s' : Scope} (h : s.names = s'.names) (hv : s.lookup? = s'.lookup?) :
    s = s' := by
  change { s.names with lookup? := s.lookup? } = { s'.names with lookup? := s'.lookup? }
  rw [h, hv]

theorem QueryStore.Alike.scope {s s' : QueryStore} (h : s.Alike s')
    (environment : Option Environment) (default : Option QueryId) :
    s'.scope environment default = s.scope environment default := by
  apply Scope.eq_of_names
  · exact (sameNames_of_still h.still.symm).scope environment environment default
  · funext source slot
    exact (h.lookup? environment slot).symm

/-! One break, one variable, one expression -/

section

variable {c : Context} {b b' : Break} {v v' : Variable} {draw : Decimal}

/-- Two states of one break that compute the same. -/
structure Break.Twin (b b' : Break) : Prop where
  name : b.name = b'.name
  fields : List.Forall₂ Computation.Twin b.fields b'.fields

/-- Two states of one variable that compute the same. -/
structure Variable.Twin (v v' : Variable) : Prop where
  name : v.name = v'.name
  kind : v.kind = v'.kind
  precalculated : v.precalculated = v'.precalculated
  resetBreak : v.resetBreak = v'.resetBreak
  stages : List.Forall₂ (Option.Rel Computation.Twin) v.stages v'.stages
  result : Option.Rel Computation.Twin v.result v'.result

/-- Two states of one expression of a report that compute the same. -/
structure ReportExpression.Twin (e e' : ReportExpression) : Prop where
  name : e.name = e'.name
  computation : e.computation.Twin e'.computation

theorem Break.Twin.restart (h : b.Twin b') : b.restart.Twin b'.restart :=
  ⟨h.name, List.rel_map (fun _ _ hxy => hxy.restart) h.fields⟩

theorem Break.Twin.evaluate (h : b.Twin b') (hc : c.slot = .current) (draw : Decimal) :
    (b.evaluate c).1.Twin (b'.evaluate (c.redraw draw)).1 :=
  ⟨h.name, List.rel_map (fun _ _ hxy => hxy.evaluate hc draw) h.fields⟩

/-- A break changes in both runs or in none. -/
theorem Break.Twin.changed (h : b.Twin b') (hc : c.slot = .current) (draw : Decimal)
    (he : ∀ x ∈ b.fields, x.evaluated = true) :
    (b.evaluate c).2 = (b'.evaluate (c.redraw draw)).2 := by
  have hany {xs ys : List Computation} (h : List.Forall₂ Computation.Twin xs ys)
      (he : ∀ x ∈ xs, x.evaluated = true) :
      (xs.any fun x => !((x.evaluate c).1.result c.scope .current).sameAs
          ((x.evaluate c).1.result c.scope .previous)) =
        ys.any fun y => !((y.evaluate (c.redraw draw)).1.result c.scope .current).sameAs
          ((y.evaluate (c.redraw draw)).1.result c.scope .previous) := by
    induction h with
    | nil => rw [List.any_nil, List.any_nil]
    | cons hxy _ ih =>
      obtain ⟨hx, hxs⟩ := List.forall_mem_cons.1 he
      have hcurrent := (hxy.evaluate hc draw).result (Computation.evaluated_evaluate _ c) c.scope
      rw [List.any_cons, List.any_cons, ih hxs, hcurrent, hxy.previous hc hx draw c.scope]
  simp only [Break.evaluate, List.any_map]
  exact hany h.fields he

theorem findIdx?_twin {bs bs' : List Break} (h : List.Forall₂ Break.Twin bs bs')
    (hc : c.slot = .current) (draw : Decimal) (he : ∀ b ∈ bs, ∀ x ∈ b.fields, x.evaluated = true) :
    bs.findIdx? (fun b => (b.evaluate c).2) =
      bs'.findIdx? fun b => (b.evaluate (c.redraw draw)).2 := by
  induction h with
  | nil => rw [List.findIdx?_nil, List.findIdx?_nil]
  | cons hb _ ih =>
    obtain ⟨hx, hxs⟩ := List.forall_mem_cons.1 he
    rw [List.findIdx?_cons, List.findIdx?_cons, ih hxs, hb.changed hc draw hx]

theorem Variable.Twin.restart (h : v.Twin v') : v.restart.Twin v'.restart := by
  refine ⟨h.name, h.kind, h.precalculated, h.resetBreak, ?_, ?_⟩
  · exact List.rel_map (fun _ _ ho => rel_map_option ho fun _ _ hxy => hxy.restart) h.stages
  · exact rel_map_option h.result fun _ _ hxy => hxy.restart

theorem Variable.Twin.stage (h : v.Twin v') (k : Nat) :
    Option.Rel Computation.Twin v.stages[k]?.join v'.stages[k]?.join := by
  have hrel := rel_getElem? h.stages k
  revert hrel
  generalize v.stages[k]? = o
  generalize v'.stages[k]? = o'
  rintro (hxy | _)
  · exact hxy
  · exact .none

end

namespace Progress

variable {p p' q q' last last' : Progress} {ps ps' : List Progress} {pass : Pass} {more : Bool}
  {draw : Decimal} {n : Nat}

/-- Two states of which one has computed whatever the other one has, although another number may be
drawn in it. -/
structure Abreast (draw : Decimal) (p p' : Progress) : Prop where
  settings : p'.workspace.settings = p.workspace.settings.redraw draw
  environment : p'.workspace.environment = p.workspace.environment
  main : p'.main = p.main
  row : p'.row = p.row
  values : p'.values = p.values
  breaks : List.Forall₂ Break.Twin p.report.breaks p'.report.breaks
  vars : List.Forall₂ Variable.Twin p.report.vars p'.report.vars
  expressions : List.Forall₂ ReportExpression.Twin p.report.expressions p'.report.expressions

/-- Two states that go on in the same way: their queries stand on the same rows, too. -/
structure Twin (draw : Decimal) (p p' : Progress) : Prop extends Abreast draw p p' where
  queries : p.workspace.queries.Alike p'.workspace.queries
  drawless : p.workspace.queries.Drawless

theorem Abreast.names (h : Abreast draw p p') : p'.report.names = p.report.names := by
  rw [Report.names, Report.names, ← map_eq_of_forall₂ h.breaks fun _ _ hb => hb.name,
    ← map_eq_of_forall₂ h.vars fun _ _ hv => congrArg₂ Prod.mk hv.name hv.precalculated]

namespace Twin

variable (h : Twin draw p p')
include h

/-! What is read -/

theorem scope (pass : Pass) (stagesOf : Option Nat) :
    p'.scope pass stagesOf = p.scope pass stagesOf := by
  unfold Progress.scope Workspace.scope
  rw [h.names, h.values, h.main, h.environment, h.queries.scope]

theorem context (pass : Pass) (stagesOf : Option Nat) :
    p'.context pass stagesOf = (p.context pass stagesOf).redraw draw := by
  unfold Progress.context
  rw [h.scope, h.settings]
  rfl

/-! Breaks -/

theorem fired (he : p.row ≠ 1 → p.Evaluated) (pass : Pass) : p'.fired pass = p.fired pass := by
  rw [fired_eq, fired_eq, h.row, h.context]
  split
  · rfl
  · rename_i hrow
    exact (findIdx?_twin h.breaks rfl draw (he hrow)).symm

theorem evaluateBreaks (he : p.row ≠ 1 → p.Evaluated) (pass : Pass) :
    Twin draw (p.evaluateBreaks pass).1 (p'.evaluateBreaks pass).1 where
  __ := h
  values := by
    have hvalues (p : Progress) (pass : Pass) : (p.evaluateBreaks pass).1.values =
        { p.values with
          breakRows := p.values.breakRows.mapIdx fun k ring => ring.push .current
            (nextCount p.workspace.settings.precision
              (p.row ≠ 1 && (p.fired pass).all (k < ·)) ring.current) } := rfl
    rw [hvalues, hvalues, h.fired he, h.row, h.values, h.settings]
    rfl
  breaks := by
    rw [breaks_evaluateBreaks, breaks_evaluateBreaks, h.context]
    exact List.rel_map (fun _ _ hb => hb.evaluate rfl draw) h.breaks

/-! Variables -/

omit h in
theorem startOver_twin {v v' : Variable} (hv : v.Twin v') (pass : Pass) (s : VariableState) :
    (startOver pass v s).1.Twin (startOver pass v' s).1 ∧
      (startOver pass v s).2 = (startOver pass v' s).2 := by
  refine ⟨hv.restart, ?_⟩
  unfold startOver
  rw [hv.precalculated]

/-- Where all variables are changed in both states, their values in the same way. -/
theorem mapVariables {f : Variable → VariableState → Variable × VariableState}
    (hf : ∀ v v' s, v.Twin v' → (f v s).1.Twin (f v' s).1 ∧ (f v s).2 = (f v' s).2) :
    Twin draw (p.mapVariables f) (p'.mapVariables f) := by
  have hchanged := forall₂_zipWith
    (S := fun (a b : Variable × VariableState) => a.1.Twin b.1 ∧ a.2 = b.2) h.vars hf p.values.vars
  have hstates := map_eq_of_forall₂ hchanged fun _ _ hab => hab.2
  have hvalues (p : Progress) : (p.mapVariables f).values =
      { p.values with vars := (List.zipWith f p.report.vars p.values.vars).map Prod.snd } := rfl
  have hvars (p : Progress) : (p.mapVariables f).report.vars =
      (List.zipWith f p.report.vars p.values.vars).map Prod.fst := rfl
  refine { h with values := ?_, vars := ?_ }
  · rw [hvalues, hvalues, h.values, hstates]
  · rw [hvars, hvars, h.values]
    exact List.rel_map (fun _ _ hab => hab.1) hchanged

theorem resetVariables (pass : Pass) (first : Nat) :
    Twin draw (p.resetVariables pass first) (p'.resetVariables pass first) := by
  apply h.mapVariables
  intro v v' s hv
  rw [← hv.resetBreak]
  split
  · exact startOver_twin hv pass s
  · exact ⟨hv, rfl⟩

theorem opened (he : p.row ≠ 1 → p.Evaluated) (pass : Pass) :
    Twin draw (p.opened pass) (p'.opened pass) := by
  have hfired : (p'.evaluateBreaks pass).2 = (p.evaluateBreaks pass).2 := h.fired he pass
  unfold Progress.opened
  rw [hfired]
  split
  · exact (h.evaluateBreaks he pass).resetVariables pass _
  · exact h.evaluateBreaks he pass

/-- Where one variable is changed in both states, its value in the same way. -/
theorem modifyVariable (i : Nat) {f f' : Variable → Variable} (g : VariableState → VariableState)
    (hf : ∀ v v', p.report.vars[i]? = some v → p'.report.vars[i]? = some v' → v.Twin v' →
      (f v).Twin (f' v')) :
    Twin draw (p.modifyVariable i f g) (p'.modifyVariable i f' g) where
  __ := h
  values := by
    unfold Progress.modifyVariable
    rw [h.values]
  vars := forall₂_modify h.vars i hf

theorem evaluateStage (pass : Pass) (i k : Nat) :
    Twin draw (evaluateStage pass i p k) (evaluateStage pass i p' k) := by
  have hrel : Option.Rel Computation.Twin (p.report.vars[i]?.bind fun v => v.stages[k]?.join)
      (p'.report.vars[i]?.bind fun v => v.stages[k]?.join) := by
    have hvar := rel_getElem? h.vars i
    revert hvar
    generalize p.report.vars[i]? = o
    generalize p'.report.vars[i]? = o'
    rintro (hv | _)
    · exact hv.stage k
    · exact .none
  cases hx : p.report.vars[i]?.bind fun v => v.stages[k]?.join with
  | none =>
    rw [hx] at hrel
    cases hx' : p'.report.vars[i]?.bind fun v => v.stages[k]?.join with
    | none =>
      rw [evaluateStage_of_none hx, evaluateStage_of_none hx']
      exact h
    | some y =>
      rw [hx'] at hrel
      cases hrel
  | some x =>
    rw [hx] at hrel
    cases hx' : p'.report.vars[i]?.bind fun v => v.stages[k]?.join with
    | none =>
      rw [hx'] at hrel
      cases hrel
    | some y =>
      rw [hx'] at hrel
      obtain ⟨hxy⟩ := hrel
      rw [evaluateStage_of_some hx, evaluateStage_of_some hx', h.context,
        ← hxy.value_evaluate rfl draw]
      apply h.modifyVariable
      intro v v' _ _ hv
      exact { hv with stages := forall₂_set hv.stages (.some (hxy.evaluate rfl draw)) k }

omit h in
theorem baseValue_twin {v v' : Variable} (hv : v.Twin v') (s : VariableState) :
    baseValue v' s = baseValue v s := by
  have hrel := hv.stage 0
  unfold baseValue
  revert hrel
  generalize v.stages[0]?.join = o
  generalize v'.stages[0]?.join = o'
  rintro (_ | _)
  · cases s.stages[0]? <;> rfl
  · rfl

theorem evaluateResult (pass : Pass) (i : Nat) :
    Twin draw (evaluateResult pass i p) (evaluateResult pass i p') := by
  have hvar := rel_getElem? h.vars i
  unfold Progress.evaluateResult
  rw [h.values]
  cases hv : p.report.vars[i]? with
  | none =>
    rw [hv] at hvar
    cases hv' : p'.report.vars[i]? with
    | none => exact h
    | some v' =>
      rw [hv'] at hvar
      cases hvar
  | some v =>
    rw [hv] at hvar
    cases hv' : p'.report.vars[i]? with
    | none =>
      rw [hv'] at hvar
      cases hvar
    | some v' =>
      rw [hv'] at hvar
      obtain ⟨hvv⟩ := hvar
      have hsame (g : VariableState → VariableState) :
          Twin draw (p.modifyVariable i id g) (p'.modifyVariable i id g) :=
        h.modifyVariable i g fun _ _ _ _ hv => hv
      cases hs : p.values.vars[i]? with
      | none => exact h
      | some s =>
        have hresult := hvv.result
        dsimp only
        rw [← hvv.kind, baseValue_twin hvv, h.settings]
        cases hk : v.kind with
        | custom =>
          revert hresult
          generalize v.result = o
          generalize v'.result = o'
          rintro (hxy | _)
          · dsimp only
            rw [h.context, ← hxy.value_evaluate rfl draw]
            apply h.modifyVariable
            intro v v' _ _ hv
            exact { hv with result := .some (hxy.evaluate rfl draw) }
          · exact hsame _
        | _ => exact hsame _

theorem evaluateVariables (pass : Pass) :
    Twin draw (p.evaluateVariables pass) (p'.evaluateVariables pass) := by
  have hstages (i : Nat) (ks : List Nat) {p p' : Progress} (h : Twin draw p p') :
      Twin draw (ks.foldl (Progress.evaluateStage pass i) p)
        (ks.foldl (Progress.evaluateStage pass i) p') := by
    induction ks generalizing p p' with
    | nil => exact h
    | cons k ks ih => exact ih (h.evaluateStage pass i k)
  have hall (is : List Nat) {p p' : Progress} (h : Twin draw p p') :
      Twin draw (is.foldl (evaluateVariable pass) p) (is.foldl (evaluateVariable pass) p') := by
    induction is generalizing p p' with
    | nil => exact h
    | cons i is ih => exact ih ((hstages i (List.range 3) h).evaluateResult pass i)
  unfold Progress.evaluateVariables
  rw [← h.vars.length_eq]
  exact hall _ h

theorem finished (he : p.row ≠ 1 → p.Evaluated) (pass : Pass) :
    Twin draw (p.finished pass) (p'.finished pass) := (h.opened he pass).evaluateVariables pass

theorem evaluateExpressions : Twin draw p.evaluateExpressions p'.evaluateExpressions where
  __ := h
  expressions := by
    unfold Progress.evaluateExpressions
    rw [h.context]
    exact List.rel_map (fun _ _ he => ⟨he.name, he.computation.evaluate rfl draw⟩) h.expressions

/-! Rows -/

/-- What is done on a row keeps two runs in lockstep. -/
theorem step (he : p.row ≠ 1 → p.Evaluated) (pass : Pass) :
    Twin draw (step pass p) (step pass p') ∧ (step pass p).Evaluated := by
  have hf := h.finished he pass
  have hev := p.evaluated_finished pass
  cases pass with
  | ahead =>
    simp only [Progress.step, precalculateRow_eq]
    exact ⟨hf, hev⟩
  | final =>
    simp only [Progress.step, renderRow_fst]
    exact ⟨hf.evaluateExpressions, hev⟩

theorem advance (hp : p.advance = .ok (q, more)) :
    ∃ q', p'.advance = .ok (q', more) ∧ Twin draw q q' := by
  obtain ⟨queries, hnext, rfl⟩ := advance_eq_ok hp
  obtain ⟨queries', hnext', hqueries⟩ := h.queries.next hnext
  have hstill := h.queries.symm.still
  have hredrawn := QueryStore.next_redraw h.queries.symm.forest (h.drawless.of_still hstill)
    p.workspace.settings draw p.main
  rw [← hredrawn, ← h.settings, ← h.main] at hnext'
  refine ⟨_, advance_of_next hnext', { h with row := ?_ }, hqueries, ?_⟩
  · dsimp only
    rw [h.row]
  · exact h.drawless.of_still (QueryStore.keeps_next h.queries.forest hnext).still

theorem rowBound : p'.rowBound = p.rowBound := by
  have hstill := h.queries.symm.still
  rw [Progress.rowBound, Progress.rowBound, QueryStore.stepBound_of_still hstill,
    QueryStore.size_of_still hstill, h.main]

end Twin

/-- Two runs that begin in lockstep have rows in lockstep, and come to their ends together. -/
theorem Turns.twin (h : Turns (step pass) p ps q) (h' : Turns (step pass) p' ps' q')
    (ht : Twin draw p p') (he : p.row ≠ 0 → p.Evaluated) (hend : Ends n ps q last)
    (hend' : Ends n ps' q' last') :
    List.Forall₂ (fun p p' => Twin draw p p' ∧ (p.row ≠ 1 → p.Evaluated)) ps ps' ∧
      Twin draw last last' := by
  induction h generalizing p' ps' n with
  | none p =>
    cases hend with
    | done hadvance hlt =>
      obtain ⟨q'', hadvance', hlast⟩ := ht.advance hadvance
      cases h' with
      | none =>
        cases hend' with
        | done hdone _ =>
          rw [hadvance'] at hdone
          cases hdone
          exact ⟨.nil, hlast⟩
        | full hlen _ =>
          rw [← hlen] at hlt
          cases hlt
      | next hadvance'' _ =>
        rw [hadvance'] at hadvance''
        cases hadvance''
    | full hlen hlast =>
      cases hlen
      subst hlast
      cases hend' with
      | done _ hlt => cases hlt
      | full hlen' hlast' =>
        obtain rfl := List.eq_nil_of_length_eq_zero hlen'
        subst hlast'
        cases h' with
        | none => exact ⟨.nil, ht⟩
  | @next p p₁ q ps hadvance hrest ih =>
    obtain ⟨p₁', hadvance', ht₁⟩ := ht.advance hadvance
    cases h' with
    | none =>
      cases hend' with
      | done hdone _ =>
        rw [hadvance'] at hdone
        cases hdone
      | full hlen _ =>
        cases hlen
        cases hend with
        | done _ hlt => cases hlt
        | full hlen _ => cases hlen
    | next hadvance'' hrest' =>
      rw [hadvance'] at hadvance''
      cases hadvance''
      obtain ⟨queries, -, hp₁⟩ := advance_eq_ok hadvance
      have he₁ : p₁.row ≠ 1 → p₁.Evaluated := by
        rw [hp₁]
        exact fun hrow => he fun hzero => hrow (congrArg (· + 1) hzero)
      obtain ⟨hstep, hev⟩ := ht₁.step he₁ pass
      obtain ⟨m, rfl, hend₁⟩ := hend.tail
      obtain ⟨m', hm, hend₁'⟩ := hend'.tail
      cases hm
      obtain ⟨hrows, hlast⟩ := ih hrest' hstep (fun _ => hev) hend₁ hend₁'
      exact ⟨.cons ⟨ht₁, he₁⟩ hrows, hlast⟩

/-! Passes -/

theorem queries_rewind (hp : p.rewind = .ok q) :
    q.workspace.queries = (p.workspace.queries.start p.main).1 := by
  obtain ⟨-, rfl⟩ := rewind_eq_ok hp
  rfl

theorem row_rewind (hp : p.rewind = .ok q) : q.row = p.row := by
  obtain ⟨-, rfl⟩ := rewind_eq_ok hp
  rfl

namespace Abreast

variable (h : Abreast draw p p')
include h

theorem rewind (hp : p.rewind = .ok q) (hp' : p'.rewind = .ok q')
    (hqueries : q.workspace.queries.Alike q'.workspace.queries)
    (hd : q.workspace.queries.Drawless) : Twin draw q q' := by
  obtain ⟨-, rfl⟩ := rewind_eq_ok hp
  obtain ⟨-, rfl⟩ := rewind_eq_ok hp'
  exact ⟨{ h with }, hqueries, hd⟩

theorem again : Abreast draw p.again p'.again := by
  have hbreaks : List.Forall₂ Break.Twin p.reset.report.breaks p'.reset.report.breaks :=
    List.rel_map (fun _ _ hb => hb.restart) h.breaks
  have hvars : List.Forall₂ Variable.Twin p.reset.report.vars p'.reset.report.vars :=
    List.rel_map (fun _ _ hv => hv.restart) h.vars
  refine { h with row := rfl, values := ?_, breaks := hbreaks, vars := hvars, expressions := ?_ }
  · have hstates := forall₂_zipWith (f := fresh) (g := fresh) (S := fun s s' => s = s') hvars
      (fun v v' finals hv => by rw [fresh, fresh, hv.precalculated])
      (p.values.vars.map fun s => s.saveFinal.finals)
    rw [List.forall₂_eq_eq_eq] at hstates
    have hvalues (p : Progress) : p.again.values =
        { vars := p.freshStates, breakRows := .replicate p.report.breaks.length (.null .number) } :=
      rfl
    rw [hvalues, hvalues, freshStates, freshStates, h.values, ← hstates, h.breaks.length_eq]
  · exact List.rel_map (fun _ _ he => ⟨he.name, he.computation.restart⟩) h.expressions

theorem asksAhead : p'.asksAhead = p.asksAhead := by
  have hany (vs : List Variable) : vs.any (·.precalculated) = (vs.map (·.precalculated)).any id := by
    rw [List.any_map]
    rfl
  unfold Progress.asksAhead
  rw [hany, hany, map_eq_of_forall₂ h.vars fun _ _ hv => hv.precalculated]

/-- If two runs begin alike, so do their final passes. -/
theorem ready (hrow : p.row = 0) (hqueries : (p.workspace.queries.start p.main).1.Alike
      (p'.workspace.queries.start p'.main).1)
    (hf : QueryStore.Forest p.workspace.queries) (hd : p.workspace.queries.Drawless)
    (hp : p.ready = .ok q) (hp' : p'.ready = .ok q') : Abreast draw q q' := by
  by_cases ha : p.asksAhead = true
  · obtain ⟨first, ps, behind, last, hahead⟩ := exists_foreseen hp ha
    obtain ⟨first', ps', behind', last', hahead'⟩ := exists_foreseen hp' (h.asksAhead.trans ha)
    have hfirst : Twin draw first first' := by
      apply h.rewind hahead.rewind hahead'.rewind
      · rw [queries_rewind hahead.rewind, queries_rewind hahead'.rewind]
        exact hqueries
      · rw [queries_rewind hahead.rewind]
        exact hd.start hf _
    have hends' := hahead'.ends
    rw [hfirst.rowBound] at hends'
    have hzero : first.row = 0 := (row_rewind hahead.rewind).trans hrow
    obtain ⟨-, hlast⟩ := hahead.turns.twin hahead'.turns hfirst (fun hrow => absurd hzero hrow)
      hahead.ends hends'
    rw [hahead.again, hahead'.again]
    exact hlast.toAbreast.again
  · unfold Progress.ready at hp hp'
    rw [h.asksAhead] at hp'
    rw [if_neg ha] at hp hp'
    cases hp
    cases hp'
    exact h

end Abreast
end Progress
end Reporting
