import Reporting.Proofs.Expr.Alike
import Reporting.Proofs.Query.Alike
import Reporting.Proofs.Report.Turns
import Mathlib.Data.List.Forall2
/-!
Two passes in lockstep: whatever was computed before, and whether a pass is the one in advance or the
final one, the same breaks trigger on the same rows, and an aggregate that reads no other variables has
the same values.
-/
namespace Reporting

/-! Related lists -/

section

variable {α β γ δ : Type} {R : α → β → Prop} {l : List α} {l' : List β} {a : α} {b : β}

theorem rel_map_option {S : γ → δ → Prop} {f : α → γ} {g : β → δ} {o : Option α} {o' : Option β}
    (h : Option.Rel R o o') (hR : ∀ a b, R a b → S (f a) (g b)) :
    Option.Rel S (o.map f) (o'.map g) := by
  cases h with
  | some hab => exact .some (hR _ _ hab)
  | none => exact .none

theorem map_eq_of_forall₂ {f : α → γ} {g : β → γ} (h : List.Forall₂ R l l')
    (hR : ∀ a b, R a b → f a = g b) : l.map f = l'.map g := by
  induction h with
  | nil => rfl
  | cons hab _ ih => rw [List.map_cons, List.map_cons, hR _ _ hab, ih]

theorem forall₂_modify {f : α → α} {g : β → β} (h : List.Forall₂ R l l') (i : Nat)
    (hR : ∀ a b, l[i]? = some a → l'[i]? = some b → R a b → R (f a) (g b)) :
    List.Forall₂ R (l.modify i f) (l'.modify i g) := by
  induction h generalizing i with
  | nil =>
    rw [List.modify_nil, List.modify_nil]
    exact .nil
  | cons hab hrest ih =>
    cases i with
    | zero => exact .cons (hR _ _ rfl rfl hab) hrest
    | succ i => exact .cons hab (ih i hR)

theorem rel_getElem? (h : List.Forall₂ R l l') (k : Nat) : Option.Rel R l[k]? l'[k]? := by
  induction h generalizing k with
  | nil => exact .none
  | cons hab _ ih =>
    cases k with
    | zero => exact .some hab
    | succ k =>
      rw [List.getElem?_cons_succ, List.getElem?_cons_succ]
      exact ih k

theorem forall_mem_left {P : α → Prop} (h : List.Forall₂ R l l') (hR : ∀ a b, R a b → P a) :
    ∀ a ∈ l, P a := by
  induction h with
  | nil => exact List.forall_mem_nil _
  | cons hab _ ih => exact List.forall_mem_cons.2 ⟨hR _ _ hab, ih⟩

theorem forall₂_set (h : List.Forall₂ R l l') (hab : R a b) (k : Nat) :
    List.Forall₂ R (l.set k a) (l'.set k b) := by
  induction h generalizing k with
  | nil => exact .nil
  | cons hcd hrest ih =>
    cases k with
    | zero => exact .cons hab hrest
    | succ k => exact .cons hcd (ih k)

end

/-- What breaks and the variable at a position may read: no result of a variable, and no stages but
those of this one. -/
def Source.Apart (i : Nat) : Source → Prop
  | .result .. => False
  | .stage j _ => j = i
  | _ => True

/-- Two states of one break whose fields were evaluated to the same. -/
structure Break.Alike (i : Nat) (b b' : Break) : Prop where
  name : b.name = b'.name
  fields : List.Forall₂ (Computation.Alike (Source.Apart i)) b.fields b'.fields

/-- Two states of one aggregate whose expressions were evaluated to the same. -/
structure Variable.Alike (i : Nat) (v v' : Variable) : Prop where
  kind : v.kind = v'.kind
  aggregate : v.kind.isAggregate = true
  resetBreak : v.resetBreak = v'.resetBreak
  stages : List.Forall₂ (Option.Rel (Computation.Alike (Source.Apart i))) v.stages v'.stages

/-- What two passes have computed of an aggregate, apart from the last values of its groups. -/
structure VariableState.Alike (s s' : VariableState) : Prop where
  accumulator : s.accumulator = s'.accumulator
  stages : s.stages = s'.stages
  current : s.result.current = s'.result.current

namespace Progress

variable {i k n : Nat} {p p' q q' last last' : Progress} {ps ps' : List Progress}
  {pass pass' : Pass} {more : Bool}

/-- Two states that go on in the same way, as far as breaks and the variable at a position are
concerned. -/
structure Alike (i : Nat) (p p' : Progress) : Prop where
  settings : p.workspace.settings = p'.workspace.settings
  environment : p.workspace.environment = p'.workspace.environment
  queries : p.workspace.queries.Alike p'.workspace.queries
  main : p.main = p'.main
  row : p.row = p'.row
  breaks : List.Forall₂ (Break.Alike i) p.report.breaks p'.report.breaks
  breakRows : p.values.breakRows = p'.values.breakRows
  var : ∃ v v', p.report.vars[i]? = some v ∧ p'.report.vars[i]? = some v' ∧ v.Alike i v'
  state : ∃ s s', p.values.vars[i]? = some s ∧ p'.values.vars[i]? = some s' ∧ s.Alike s'
  balanced : p.Balanced
  balanced' : p'.Balanced

/-- All fields of all breaks have been evaluated in this pass. -/
def Evaluated (p : Progress) : Prop := ∀ b ∈ p.report.breaks, ∀ x ∈ b.fields, x.evaluated = true

namespace Alike

/-- Where nothing but variables has changed, only the variable at the position matters. -/
theorem of_beside (h : p.Alike i p') (hq : Beside p q) (hq' : Beside p' q')
    (hvar : ∃ v v', q.report.vars[i]? = some v ∧ q'.report.vars[i]? = some v' ∧ v.Alike i v')
    (hstate : ∃ s s', q.values.vars[i]? = some s ∧ q'.values.vars[i]? = some s' ∧ s.Alike s') :
    q.Alike i q' where
  settings := by rw [hq.workspace, hq'.workspace, h.settings]
  environment := by rw [hq.workspace, hq'.workspace, h.environment]
  queries := by
    rw [hq.workspace, hq'.workspace]
    exact h.queries
  main := by rw [hq.main, hq'.main, h.main]
  row := by rw [hq.row, hq'.row, h.row]
  breaks := by
    rw [hq.breaks, hq'.breaks]
    exact h.breaks
  breakRows := by rw [hq.breakRows, hq'.breakRows, h.breakRows]
  var := hvar
  state := hstate
  balanced := hq.balanced h.balanced
  balanced' := hq'.balanced h.balanced'

/-! What both passes read -/

theorem breakNames (h : p.Alike i p') : p.report.names.breaks = p'.report.names.breaks := by
  change p.report.breaks.map (·.name) = p'.report.breaks.map (·.name)
  rw [← List.forall₂_eq_eq_eq, List.forall₂_map_left_iff, List.forall₂_map_right_iff]
  exact h.breaks.imp fun b b' hb => hb.name

theorem scope (h : p.Alike i p') (pass pass' : Pass) (stagesOf stagesOf' : Option Nat) :
    (p.scope pass stagesOf).Agree (Source.Apart i) (p'.scope pass' stagesOf') where
  lookup source hs slot := by
    have hq (source : Source) :
        p.workspace.queries.lookup? (some p.workspace.environment) source slot =
          p'.workspace.queries.lookup? (some p'.workspace.environment) source slot := by
      rw [h.environment]
      exact QueryStore.Alike.lookup? h.queries _ slot
    cases source with
    | column => exact hq (.column _ _)
    | rowNumber => exact hq (.rowNumber _)
    | environment => exact hq (.environment _)
    | self => exact hq .self
    | breakRowNumber k =>
      change (p.values.breakRows[k]?).bind _ = (p'.values.breakRows[k]?).bind _
      rw [h.breakRows]
    | result => exact hs.elim
    | stage j k =>
      obtain rfl : j = i := hs
      obtain ⟨s, s', hs, hs', ha⟩ := h.state
      change (p.values.vars[j]?).bind (fun s => (s.stages[k]?).bind fun r => some (r.get slot)) =
        (p'.values.vars[j]?).bind fun s => (s.stages[k]?).bind fun r => some (r.get slot)
      rw [hs, hs', Option.bind_some, Option.bind_some, ha.stages]
  rowNumber := by
    change (p.workspace.scope (some p.main)).rowNumber? =
      (p'.workspace.scope (some p'.main)).rowNumber?
    rw [Workspace.scope, Workspace.scope, h.environment, h.main]
    exact QueryStore.Alike.rowNumber? h.queries _ _
  breakRowNumber := by
    funext name
    change (p.report.names.breaks.idxOf? name).map _ = (p'.report.names.breaks.idxOf? name).map _
    rw [h.breakNames]
  ofRowNumber name source hs := by
    have hrow : (p.workspace.scope (some p.main)).rowNumber? name = some source := hs
    obtain ⟨id, rfl⟩ := QueryStore.rowNumber?_eq_some hrow
    trivial
  ofBreakRowNumber name source hs := by
    obtain ⟨k, -, rfl⟩ := Option.map_eq_some_iff.1 hs
    trivial

end Alike
end Progress

/-! Breaks -/

section

variable {i : Nat} {b b' : Break} {t t' : Scope}

theorem Break.Alike.evaluate (h : b.Alike i b') (ha : t.Agree (Source.Apart i) t')
    (settings : Settings) :
    (b.evaluate (settings.context t .current)).1.Alike i
      (b'.evaluate (settings.context t' .current)).1 := by
  refine ⟨h.name, ?_⟩
  simp only [Break.evaluate, List.forall₂_map_left_iff, List.forall₂_map_right_iff]
  exact h.fields.imp fun x y hxy => hxy.evaluate ha settings

theorem any_changed {fields fields' : List Computation}
    (h : List.Forall₂ (Computation.Alike (Source.Apart i)) fields fields')
    (ha : t.Agree (Source.Apart i) t') (settings : Settings)
    (he : ∀ x ∈ fields, x.evaluated = true) :
    (fields.any fun x =>
        !((x.evaluate (settings.context t .current)).1.result t .current).sameAs
          ((x.evaluate (settings.context t .current)).1.result t .previous)) =
      fields'.any fun x =>
        !((x.evaluate (settings.context t' .current)).1.result t' .current).sameAs
          ((x.evaluate (settings.context t' .current)).1.result t' .previous) := by
  induction h with
  | nil => rw [List.any_nil, List.any_nil]
  | cons hxy _ ih =>
    obtain ⟨hx, hxs⟩ := List.forall_mem_cons.1 he
    obtain ⟨hcurrent, hprevious⟩ := hxy.result hx ha settings
    rw [List.any_cons, List.any_cons, ih hxs, hcurrent, hprevious]

/-- A break changes in both passes or in none. -/
theorem Break.Alike.changed (h : b.Alike i b') (ha : t.Agree (Source.Apart i) t')
    (settings : Settings) (he : ∀ x ∈ b.fields, x.evaluated = true) :
    (b.evaluate (settings.context t .current)).2 =
      (b'.evaluate (settings.context t' .current)).2 := by
  have hany := any_changed h.fields ha settings he
  simp only [Break.evaluate, List.any_map]
  exact hany

theorem findIdx?_changed {bs bs' : List Break} (h : List.Forall₂ (Break.Alike i) bs bs')
    (ha : t.Agree (Source.Apart i) t') (settings : Settings)
    (he : ∀ b ∈ bs, ∀ x ∈ b.fields, x.evaluated = true) :
    bs.findIdx? (fun b => (b.evaluate (settings.context t .current)).2) =
      bs'.findIdx? fun b => (b.evaluate (settings.context t' .current)).2 := by
  induction h with
  | nil => rw [List.findIdx?_nil, List.findIdx?_nil]
  | cons hb _ ih =>
    obtain ⟨hx, hxs⟩ := List.forall_mem_cons.1 he
    rw [List.findIdx?_cons, List.findIdx?_cons, hb.changed ha settings hx, ih hxs]

end

namespace Progress

variable {i k n : Nat} {p p' q q' last last' : Progress} {ps ps' : List Progress}
  {pass pass' : Pass} {more : Bool}

theorem evaluated_finished (p : Progress) (pass : Pass) : (p.finished pass).Evaluated := by
  have hbreaks : (p.finished pass).report.breaks = (p.evaluateBreaks pass).1.report.breaks := by
    apply (evaluateVariables_beside _ pass).breaks.trans
    unfold opened
    split <;> rfl
  unfold Evaluated
  rw [hbreaks, breaks_evaluateBreaks]
  intro b hb x hx
  obtain ⟨b₀, -, rfl⟩ := List.mem_map.1 hb
  obtain ⟨y, -, rfl⟩ := List.mem_map.1 hx
  exact Computation.evaluated_evaluate y _

namespace Alike

theorem fired (h : p.Alike i p') (he : p.row ≠ 1 → p.Evaluated) (pass pass' : Pass) :
    p.fired pass = p'.fired pass' := by
  rw [fired_eq, fired_eq, ← h.row]
  split
  · exact rfl
  · rename_i hrow
    have hfind := findIdx?_changed h.breaks (h.scope pass pass' none none) p.workspace.settings
      (he hrow)
    unfold context
    rw [← h.settings]
    exact hfind

theorem evaluateBreaks (h : p.Alike i p') (he : p.row ≠ 1 → p.Evaluated) (pass pass' : Pass) :
    (p.evaluateBreaks pass).1.Alike i (p'.evaluateBreaks pass').1 := by
  refine ⟨h.settings, h.environment, h.queries, h.main, h.row, ?_, ?_, h.var, h.state, h.balanced,
    h.balanced'⟩
  · rw [breaks_evaluateBreaks, breaks_evaluateBreaks, List.forall₂_map_left_iff,
      List.forall₂_map_right_iff]
    refine h.breaks.imp fun b b' hb => ?_
    unfold context
    rw [← h.settings]
    exact hb.evaluate (h.scope pass pass' none none) _
  · have hrows (p : Progress) (pass : Pass) : (p.evaluateBreaks pass).1.values.breakRows =
        p.values.breakRows.mapIdx fun k ring => ring.push .current
          (nextCount p.workspace.settings.precision
            (p.row ≠ 1 && (p.fired pass).all (k < ·)) ring.current) := rfl
    rw [hrows, hrows, h.fired he pass pass', h.row, h.settings, h.breakRows]

end Alike

/-! One variable -/

section

variable {i : Nat} {v v' : Variable} {s s' : VariableState}

theorem startOver_state (pass : Pass) (v : Variable) (s : VariableState) :
    (startOver pass v s).2.accumulator = {} ∧ (startOver pass v s).2.stages = s.stages ∧
      (startOver pass v s).2.result.current = s.result.current := by
  unfold startOver
  cases v.precalculated <;> cases pass <;> exact ⟨rfl, rfl, rfl⟩

theorem restart_alike (h : v.Alike i v') : v.restart.Alike i v'.restart := by
  refine ⟨h.kind, h.aggregate, h.resetBreak, ?_⟩
  change List.Forall₂ _ (v.stages.map (Option.map Computation.restart))
    (v'.stages.map (Option.map Computation.restart))
  rw [List.forall₂_map_left_iff, List.forall₂_map_right_iff]
  refine h.stages.imp fun o o' ho => ?_
  cases ho with
  | some hxy => exact .some hxy.restart
  | none => exact .none

theorem startOver_alike (hv : v.Alike i v') (hs : s.Alike s') (pass pass' : Pass) :
    (startOver pass v s).1.Alike i (startOver pass' v' s').1 ∧
      (startOver pass v s).2.Alike (startOver pass' v' s').2 := by
  obtain ⟨hacc, hstages, hcurrent⟩ := startOver_state pass v s
  obtain ⟨hacc', hstages', hcurrent'⟩ := startOver_state pass' v' s'
  refine ⟨restart_alike hv, hacc.trans hacc'.symm, ?_, ?_⟩
  · rw [hstages, hstages', hs.stages]
  · rw [hcurrent, hcurrent', hs.current]

theorem rel_stage (h : v.Alike i v') (k : Nat) :
    Option.Rel (Computation.Alike (Source.Apart i)) v.stages[k]?.join v'.stages[k]?.join := by
  have hrel := rel_getElem? h.stages k
  revert hrel
  generalize v.stages[k]? = o
  generalize v'.stages[k]? = o'
  rintro (hxy | _)
  · exact hxy
  · exact .none

theorem baseValue_alike (hv : v.Alike i v') (hs : s.Alike s') : baseValue v s = baseValue v' s' := by
  have hrel := rel_stage hv 0
  unfold baseValue
  rw [hs.stages]
  revert hrel
  generalize v.stages[0]?.join = o
  generalize v'.stages[0]?.join = o'
  rintro (hxy | _)
  · cases s'.stages[0]? <;> rfl
  · rfl

end

namespace Alike

theorem opened (h : p.Alike i p') (he : p.row ≠ 1 → p.Evaluated) (pass pass' : Pass) :
    (p.opened pass).Alike i (p'.opened pass') := by
  obtain ⟨v, v', hv, hv', hvv⟩ := h.var
  obtain ⟨s, s', hs, hs', hss⟩ := h.state
  obtain ⟨hvar, hstate⟩ := opened_getElem? pass hv hs
  obtain ⟨hvar', hstate'⟩ := opened_getElem? pass' hv' hs'
  have hstarts : p.startsOver pass v = p'.startsOver pass' v' := by
    rw [startsOver, startsOver, h.fired he pass pass', hvv.resetBreak]
  rw [← hstarts] at hvar' hstate'
  apply (h.evaluateBreaks he pass pass').of_beside (opened_beside h.balanced pass)
    (opened_beside h.balanced' pass')
  · refine ⟨_, _, hvar, hvar', ?_⟩
    split
    · exact (startOver_alike hvv hss pass pass').1
    · exact hvv
  · refine ⟨_, _, hstate, hstate', ?_⟩
    split
    · exact (startOver_alike hvv hss pass pass').2
    · exact hss

theorem evaluateStage (h : p.Alike i p') (pass pass' : Pass) (k : Nat) :
    (evaluateStage pass i p k).Alike i (evaluateStage pass' i p' k) := by
  obtain ⟨v, v', hv, hv', hvv⟩ := h.var
  obtain ⟨s, s', hs, hs', hss⟩ := h.state
  have hbind : (p.report.vars[i]?.bind fun v => v.stages[k]?.join) = v.stages[k]?.join := by
    rw [hv, Option.bind_some]
  have hbind' : (p'.report.vars[i]?.bind fun v => v.stages[k]?.join) = v'.stages[k]?.join := by
    rw [hv', Option.bind_some]
  have hrel := rel_stage hvv k
  rw [← hbind, ← hbind'] at hrel
  cases hx : p.report.vars[i]?.bind fun v => v.stages[k]?.join with
  | none =>
    cases hx' : p'.report.vars[i]?.bind fun v => v.stages[k]?.join with
    | none =>
      rw [evaluateStage_of_none hx, evaluateStage_of_none hx']
      exact h
    | some y =>
      rw [hx, hx'] at hrel
      cases hrel
  | some x =>
    cases hx' : p'.report.vars[i]?.bind fun v => v.stages[k]?.join with
    | none =>
      rw [hx, hx'] at hrel
      cases hrel
    | some y =>
      rw [hx, hx'] at hrel
      obtain ⟨hxy⟩ := hrel
      have ha := h.scope pass pass' (some i) (some i)
      have hvalue := hxy.value_evaluate ha p.workspace.settings
      have hnext := hxy.evaluate ha p.workspace.settings
      apply h.of_beside (evaluateStage_changes pass i p k).toBeside
        (evaluateStage_changes pass' i p' k).toBeside
      all_goals
        rw [evaluateStage_of_some hx, evaluateStage_of_some hx']
        unfold context
        rw [← h.settings]
      · refine ⟨_, _, (vars_modifyVariable ..).1.trans (congrArg _ hv),
          (vars_modifyVariable ..).1.trans (congrArg _ hv'), hvv.kind, hvv.aggregate,
          hvv.resetBreak, ?_⟩
        exact forall₂_set hvv.stages (.some hnext) k
      · refine ⟨_, _, (vars_modifyVariable ..).2.trans (congrArg _ hs),
          (vars_modifyVariable ..).2.trans (congrArg _ hs'), hss.accumulator, ?_, hss.current⟩
        unfold pushStage
        rw [hss.stages, hvalue]

theorem evaluateResult (h : p.Alike i p') (pass pass' : Pass) :
    (evaluateResult pass i p).Alike i (evaluateResult pass' i p') := by
  obtain ⟨v, v', hv, hv', hvv⟩ := h.var
  obtain ⟨s, s', hs, hs', hss⟩ := h.state
  have hk : v.kind ≠ .custom := by
    intro hcustom
    have haggregate := hvv.aggregate
    rw [hcustom] at haggregate
    cases haggregate
  obtain ⟨hvar, hstate⟩ := evaluateResult_of_aggregate pass hv hs hk
  obtain ⟨hvar', hstate'⟩ := evaluateResult_of_aggregate pass' hv' hs' (hvv.kind ▸ hk)
  rw [← h.settings, ← hvv.kind, ← baseValue_alike hvv hss] at hstate'
  apply h.of_beside (evaluateResult_changes pass i p).toBeside
    (evaluateResult_changes pass' i p').toBeside
  · exact ⟨v, v', hvar, hvar', hvv⟩
  · refine ⟨_, _, hstate, hstate', ?_, hss.stages, ?_⟩
    · unfold takeIn
      rw [hss.accumulator]
    · unfold takeIn
      rw [hss.accumulator]
      rfl

theorem evaluateVariable (h : p.Alike i p') (pass pass' : Pass) :
    (evaluateVariable pass p i).Alike i (evaluateVariable pass' p' i) := by
  have hstages (ks : List Nat) {p p' : Progress} (h : p.Alike i p') :
      (ks.foldl (Progress.evaluateStage pass i) p).Alike i
        (ks.foldl (Progress.evaluateStage pass' i) p') := by
    induction ks generalizing p p' with
    | nil => exact h
    | cons k ks ih => exact ih (h.evaluateStage pass pass' k)
  exact (hstages (List.range 3) h).evaluateResult pass pass'

theorem others (h : p.Alike i p') {is is' : List Nat} (hi : i ∉ is) (hi' : i ∉ is')
    (pass pass' : Pass) :
    (is.foldl (Progress.evaluateVariable pass) p).Alike i
      (is'.foldl (Progress.evaluateVariable pass') p') := by
  obtain ⟨hvar, hstate⟩ := foldl_evaluateVariable_ne pass hi p
  obtain ⟨hvar', hstate'⟩ := foldl_evaluateVariable_ne pass' hi' p'
  apply h.of_beside (foldl_evaluateVariable_beside pass is p)
    (foldl_evaluateVariable_beside pass' is' p')
  · rw [hvar, hvar']
    exact h.var
  · rw [hstate, hstate']
    exact h.state

theorem evaluateVariables (h : p.Alike i p') (pass pass' : Pass) :
    (p.evaluateVariables pass).Alike i (p'.evaluateVariables pass') := by
  obtain ⟨v, v', hv, hv', -⟩ := h.var
  have hbefore : i ∉ List.range i := fun hm => Nat.lt_irrefl _ (List.mem_range.1 hm)
  have hafter (n : Nat) : i ∉ List.range' (i + 1) n := by
    intro hm
    have := (List.mem_range'_1.1 hm).1
    omega
  rw [evaluateVariables_split pass (List.getElem?_eq_some_iff.1 hv).1,
    evaluateVariables_split pass' (List.getElem?_eq_some_iff.1 hv').1]
  exact ((h.others hbefore hbefore pass pass').evaluateVariable pass pass').others (hafter _)
    (hafter _) pass pass'

/-- What is done on a row keeps two passes in lockstep. -/
theorem finished (h : p.Alike i p') (he : p.row ≠ 1 → p.Evaluated) (pass pass' : Pass) :
    (p.finished pass).Alike i (p'.finished pass') :=
  (h.opened he pass pass').evaluateVariables pass pass'

end Alike

/-- What is done on a row of a pass. -/
def step : Pass → Progress → Progress
  | .ahead, p => p.precalculateRow
  | .final, p => p.renderRow.1

theorem Alike.step (h : p.Alike i p') (he : p.row ≠ 1 → p.Evaluated) (pass pass' : Pass) :
    (step pass p).Alike i (step pass' p') ∧ (step pass p).Evaluated := by
  have hf := h.finished he pass pass'
  have hev := p.evaluated_finished pass
  constructor
  · -- the expressions, which the final pass evaluates in addition, have no part in this
    cases pass <;> cases pass' <;> simp only [Progress.step, precalculateRow_eq, renderRow_fst] <;>
      exact ⟨hf.settings, hf.environment, hf.queries, hf.main, hf.row, hf.breaks, hf.breakRows, hf.var,
        hf.state, hf.balanced, hf.balanced'⟩
  · cases pass <;> simp only [Progress.step, precalculateRow_eq, renderRow_fst] <;> exact hev

theorem Alike.advance (h : p.Alike i p') (hp : p.advance = .ok (q, more)) :
    ∃ q', p'.advance = .ok (q', more) ∧ q.Alike i q' := by
  obtain ⟨queries, hnext, rfl⟩ := advance_eq_ok hp
  obtain ⟨queries', hnext', hqueries⟩ := h.queries.next hnext
  rw [h.settings, h.main] at hnext'
  refine ⟨_, advance_of_next hnext', h.settings, h.environment, hqueries, h.main, ?_, h.breaks,
    h.breakRows, h.var, h.state, h.balanced, h.balanced'⟩
  dsimp only
  rw [h.row]

/-- Two passes in lockstep have rows in lockstep, and come to their ends together. -/
theorem Turns.alike (h : Turns (step pass) p ps q) (h' : Turns (step pass') p' ps' q')
    (ha : p.Alike i p') (he : p.row ≠ 0 → p.Evaluated) (hend : Ends n ps q last)
    (hend' : Ends n ps' q' last') :
    List.Forall₂ (fun p p' => p.Alike i p' ∧ (p.row ≠ 1 → p.Evaluated)) ps ps' := by
  induction h generalizing p' ps' n with
  | none p =>
    cases h' with
    | none => exact .nil
    | next hadvance' hrest' =>
      cases hend with
      | done hadvance _ =>
        obtain ⟨q', hadvance'', -⟩ := ha.advance hadvance
        rw [hadvance'] at hadvance''
        cases hadvance''
      | full hlen _ =>
        cases hlen
        cases hend' with
        | done _ hlt => cases hlt
        | full hlen _ => cases hlen
  | @next p p₁ q ps hadvance hrest ih =>
    obtain ⟨p₁', hadvance', ha₁⟩ := ha.advance hadvance
    cases h' with
    | none =>
      cases hend' with
      | done hdone _ =>
        rw [hadvance'] at hdone
        cases hdone
      | full hlen _ =>
        cases hlen
        cases hend with
        | done _ hlt => cases hlt
        | full hlen _ => cases hlen
    | next hadvance'' hrest' =>
      rw [hadvance'] at hadvance''
      cases hadvance''
      obtain ⟨queries, -, hp₁⟩ := advance_eq_ok hadvance
      have he₁ : p₁.row ≠ 1 → p₁.Evaluated := by
        rw [hp₁]
        exact fun hrow => he fun hzero => hrow (congrArg (· + 1) hzero)
      obtain ⟨hstep, hev⟩ := ha₁.step he₁ pass pass'
      obtain ⟨m, rfl, hend₁⟩ := hend.tail
      obtain ⟨m', hm, hend₁'⟩ := hend'.tail
      cases hm
      exact .cons ⟨ha₁, he₁⟩ (ih hrest' hstep (fun _ => hev) hend₁ hend₁')

end Progress
end Reporting
