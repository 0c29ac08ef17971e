import Reporting.Report.Run
import Reporting.Proofs.Expr.Memory
/-!
What is done on a row, step by step: the breaks are evaluated, variables start over, and then each
variable is evaluated, which changes nothing but this variable.
-/
namespace Reporting

/-- Two states of one variable, which differ in what their expressions remember only. -/
structure Variable.Same (v v' : Variable) : Prop where
  name : v'.name = v.name
  kind : v'.kind = v.kind
  precalculated : v'.precalculated = v.precalculated
  resetOnBreak : v'.resetOnBreak = v.resetOnBreak
  resetBreak : v'.resetBreak = v.resetBreak

theorem Variable.Same.refl (v : Variable) : Same v v := ⟨rfl, rfl, rfl, rfl, rfl⟩

theorem Variable.Same.trans {v v' v'' : Variable} (h : Same v v') (h' : Same v' v'') : Same v v'' :=
  ⟨h'.name.trans h.name, h'.kind.trans h.kind, h'.precalculated.trans h.precalculated,
    h'.resetOnBreak.trans h.resetOnBreak, h'.resetBreak.trans h.resetBreak⟩

/-- The expressions of the stages of a variable, apart from what they remember. -/
def Variable.texts (v : Variable) : List (Option Computation) :=
  v.stages.map (Option.map Computation.forget)

/-- An aggregate before and after it has taken in the value of a row. -/
structure Variable.Takes (precision : Precision) (v v' : Variable) (s s' : VariableState) : Prop
    extends Variable.Same v v' where
  texts : v'.texts = v.texts
  finals : s'.finals = s.finals
  group : s'.group = s.group
  accumulator : s'.accumulator =
    (s.accumulator.add v.kind (Progress.baseValue v' s') precision).1
  result : s'.result = s.result.push .current
    (s.accumulator.add v.kind (Progress.baseValue v' s') precision).2

/-- A variable before and after it has got its value on a row. -/
structure Variable.Gets (v v' : Variable) (s s' : VariableState) (value : Value) : Prop
    extends Variable.Same v v' where
  finals : s'.finals = s.finals
  group : s'.group = s.group
  result : s'.result = s.result.push .current value

/-- For each variable the name and the position of the break that makes it start over. -/
def Report.resets (r : Report) : List (Option String × Option Nat) :=
  r.vars.map fun v => (v.resetOnBreak, v.resetBreak)

namespace Progress

variable {p p' p'' : Progress} {pass : Pass} {i j k n : Nat} {v : Variable} {s : VariableState}

/-! Changing one variable -/

/-- Each variable has a state. -/
def Balanced (p : Progress) : Prop := p.values.vars.length = p.report.vars.length

theorem Balanced.exists_state (h : p.Balanced) (hv : p.report.vars[i]? = some v) :
    ∃ s, p.values.vars[i]? = some s := by
  obtain ⟨hi, -⟩ := List.getElem?_eq_some_iff.1 hv
  exact ⟨_, List.getElem?_eq_getElem (h.symm ▸ hi)⟩

/-- Two states that differ in the variables only. -/
structure Beside (p p' : Progress) : Prop where
  workspace : p'.workspace = p.workspace
  main : p'.main = p.main
  row : p'.row = p.row
  breaks : p'.report.breaks = p.report.breaks
  breakRows : p'.values.breakRows = p.values.breakRows
  expressions : p'.report.expressions = p.report.expressions
  names : p'.report.names = p.report.names
  resets : p'.report.resets = p.report.resets
  same : ∀ (i : Nat) (v : Variable), p.report.vars[i]? = some v →
    ∃ v', p'.report.vars[i]? = some v' ∧ Variable.Same v v'
  balanced : p.Balanced → p'.Balanced

theorem Beside.refl (p : Progress) : Beside p p :=
  ⟨rfl, rfl, rfl, rfl, rfl, rfl, rfl, rfl, fun _ v hv => ⟨v, hv, .refl v⟩, id⟩

theorem Beside.trans (h : Beside p p') (h' : Beside p' p'') : Beside p p'' := by
  refine ⟨h'.workspace.trans h.workspace, h'.main.trans h.main, h'.row.trans h.row,
    h'.breaks.trans h.breaks, h'.breakRows.trans h.breakRows, h'.expressions.trans h.expressions,
    h'.names.trans h.names, h'.resets.trans h.resets, fun i v hv => ?_,
    fun hp => h'.balanced (h.balanced hp)⟩
  obtain ⟨v', hv', hsame⟩ := h.same i v hv
  obtain ⟨v'', hv'', hsame'⟩ := h'.same i v' hv'
  exact ⟨v'', hv'', hsame.trans hsame'⟩

theorem Beside.length (h : Beside p p') : p'.report.vars.length = p.report.vars.length := by
  have hv := congrArg (fun n => n.vars.length) h.names
  simpa only [Report.names, List.length_map] using hv

/-- Two states that differ in one variable only. -/
structure Changes (i : Nat) (p p' : Progress) : Prop extends Beside p p' where
  vars : ∀ j, j ≠ i → p'.report.vars[j]? = p.report.vars[j]?
  states : ∀ j, j ≠ i → p'.values.vars[j]? = p.values.vars[j]?

theorem Changes.refl (i : Nat) (p : Progress) : Changes i p p :=
  ⟨.refl p, fun _ _ => rfl, fun _ _ => rfl⟩

theorem Changes.trans (h : Changes i p p') (h' : Changes i p' p'') : Changes i p p'' :=
  ⟨h.toBeside.trans h'.toBeside, fun j hj => (h'.vars j hj).trans (h.vars j hj),
    fun j hj => (h'.states j hj).trans (h.states j hj)⟩

theorem getElem?_modify_self {α : Type} (l : List α) (i : Nat) (f : α → α) :
    (l.modify i f)[i]? = l[i]?.map f := by
  rw [List.getElem?_modify]
  simp only [if_true]
  rfl

theorem map_modify_of_eq {α β : Type} (l : List α) (i : Nat) {f : α → α} {g : α → β}
    (h : ∀ a, g (f a) = g a) : (l.modify i f).map g = l.map g := by
  apply List.ext_getElem?
  intro j
  rw [List.getElem?_map, List.getElem?_map]
  by_cases hij : i = j
  · subst hij
    rw [getElem?_modify_self, Option.map_map]
    congr 1
    exact funext h
  · rw [List.getElem?_modify_ne _ _ hij]

theorem mem_of_mem_modify {α : Type} {l : List α} {i : Nat} {f : α → α} {a : α}
    (h : a ∈ l.modify i f) : a ∈ l ∨ ∃ b ∈ l, a = f b := by
  obtain ⟨j, hj⟩ := List.mem_iff_getElem?.1 h
  by_cases hij : i = j
  · subst hij
    rw [getElem?_modify_self] at hj
    obtain ⟨b, hb, rfl⟩ := Option.map_eq_some_iff.1 hj
    exact .inr ⟨b, List.mem_iff_getElem?.2 ⟨i, hb⟩, rfl⟩
  · rw [List.getElem?_modify_ne _ _ hij] at hj
    exact .inl (List.mem_iff_getElem?.2 ⟨j, hj⟩)

theorem vars_modifyVariable (p : Progress) (i : Nat) (f : Variable → Variable)
    (g : VariableState → VariableState) :
    (p.modifyVariable i f g).report.vars[i]? = p.report.vars[i]?.map f ∧
      (p.modifyVariable i f g).values.vars[i]? = p.values.vars[i]?.map g :=
  ⟨getElem?_modify_self _ i f, getElem?_modify_self _ i g⟩

theorem modifyVariable_changes (p : Progress) (i : Nat) {f : Variable → Variable}
    (g : VariableState → VariableState) (hf : ∀ v, Variable.Same v (f v)) :
    Changes i p (p.modifyVariable i f g) where
  workspace := rfl
  main := rfl
  row := rfl
  breaks := rfl
  breakRows := rfl
  expressions := rfl
  names := by
    have hmap := map_modify_of_eq p.report.vars i (f := f)
      (g := fun v => (v.name, v.precalculated))
      fun v => Prod.ext (hf v).name (hf v).precalculated
    simp only [Report.names, modifyVariable, hmap]
  resets := map_modify_of_eq p.report.vars i fun v => Prod.ext (hf v).resetOnBreak (hf v).resetBreak
  same j v hv := by
    rw [modifyVariable, List.getElem?_modify, hv]
    refine ⟨_, rfl, ?_⟩
    split
    · exact hf v
    · exact .refl v
  balanced hp := by
    simpa only [Balanced, modifyVariable, List.length_modify] using hp
  vars j hj := by
    rw [modifyVariable, List.getElem?_modify_ne _ _ fun h => hj h.symm]
  states j hj := by
    rw [modifyVariable, List.getElem?_modify_ne _ _ fun h => hj h.symm]

/-! Evaluating one variable -/

theorem evaluateStage_of_none (h : (p.report.vars[i]?.bind fun v => v.stages[k]?.join) = none) :
    evaluateStage pass i p k = p := by
  simp only [evaluateStage, h]

/-- A variable with an expression that was evaluated. -/
def setStage (k : Nat) (x : Computation) (v : Variable) : Variable :=
  { v with stages := v.stages.set k (some x) }

/-- A variable whose stage has a new value. -/
def pushStage (k : Nat) (value : Value) (s : VariableState) : VariableState :=
  { s with stages := s.stages.modify k fun ring => ring.push .current value }

theorem evaluateStage_of_some {x : Computation}
    (h : (p.report.vars[i]?.bind fun v => v.stages[k]?.join) = some x) :
    evaluateStage pass i p k =
      p.modifyVariable i (setStage k (x.evaluate (p.context pass (some i))).1)
        (pushStage k (x.evaluate (p.context pass (some i))).2) := by
  simp only [evaluateStage, h]
  rfl

theorem texts_setStage {x y : Computation} (h : v.stages[k]?.join = some x)
    (hy : y.forget = x.forget) : (setStage k y v).texts = v.texts := by
  have hk := Option.join_eq_some_iff.1 h
  obtain ⟨hlt, -⟩ := List.getElem?_eq_some_iff.1 hk
  apply List.ext_getElem?
  intro j
  unfold Variable.texts setStage
  rw [List.getElem?_map, List.getElem?_map]
  by_cases hj : k = j
  · subst hj
    rw [List.getElem?_set_self hlt, hk, Option.map_some, Option.map_some, Option.map_some,
      Option.map_some, hy]
  · rw [List.getElem?_set_ne hj]

theorem evaluateStage_changes (pass : Pass) (i : Nat) (p : Progress) (k : Nat) :
    Changes i p (evaluateStage pass i p k) := by
  cases h : p.report.vars[i]?.bind fun v => v.stages[k]?.join with
  | none =>
    rw [evaluateStage_of_none h]
    exact .refl i p
  | some x =>
    rw [evaluateStage_of_some h]
    exact modifyVariable_changes p i _ fun v => ⟨rfl, rfl, rfl, rfl, rfl⟩

/-- The stages of a variable have no part in what it has taken in. -/
theorem evaluateStage_self (pass : Pass) (k : Nat) (hv : p.report.vars[i]? = some v)
    (hs : p.values.vars[i]? = some s) :
    ∃ v' stages, (evaluateStage pass i p k).report.vars[i]? = some v' ∧
      (Variable.Same v v' ∧ v'.texts = v.texts) ∧
      (evaluateStage pass i p k).values.vars[i]? = some { s with stages } := by
  cases h : p.report.vars[i]?.bind fun v => v.stages[k]?.join with
  | none =>
    rw [evaluateStage_of_none h]
    exact ⟨v, s.stages, hv, ⟨.refl v, rfl⟩, hs⟩
  | some x =>
    rw [evaluateStage_of_some h]
    rw [hv, Option.bind_some] at h
    obtain ⟨hv', hs'⟩ := vars_modifyVariable p i
      (setStage k (x.evaluate (p.context pass (some i))).1)
      (pushStage k (x.evaluate (p.context pass (some i))).2)
    rw [hv] at hv'
    rw [hs] at hs'
    exact ⟨_, _, hv',
      ⟨⟨rfl, rfl, rfl, rfl, rfl⟩, texts_setStage h (Computation.forget_evaluate x _)⟩, hs'⟩

theorem evaluateStages_spec (pass : Pass) (ks : List Nat) (hv : p.report.vars[i]? = some v)
    (hs : p.values.vars[i]? = some s) :
    Changes i p (ks.foldl (evaluateStage pass i) p) ∧
      ∃ v' stages, (ks.foldl (evaluateStage pass i) p).report.vars[i]? = some v' ∧
        (Variable.Same v v' ∧ v'.texts = v.texts) ∧
        (ks.foldl (evaluateStage pass i) p).values.vars[i]? = some { s with stages } := by
  induction ks generalizing p v s with
  | nil => exact ⟨.refl i p, v, s.stages, hv, ⟨.refl v, rfl⟩, hs⟩
  | cons k ks ih =>
    obtain ⟨v₁, stages₁, hv₁, ⟨hsame₁, htexts₁⟩, hs₁⟩ := evaluateStage_self pass k hv hs
    obtain ⟨hchanges, v', stages, hv', ⟨hsame, htexts⟩, hs'⟩ := ih hv₁ hs₁
    exact ⟨(evaluateStage_changes pass i p k).trans hchanges, v', stages, hv',
      ⟨hsame₁.trans hsame, htexts.trans htexts₁⟩, hs'⟩

theorem evaluateResult_changes (pass : Pass) (i : Nat) (p : Progress) :
    Changes i p (evaluateResult pass i p) := by
  unfold evaluateResult
  split
  · split
    · exact modifyVariable_changes p i _ fun v => ⟨rfl, rfl, rfl, rfl, rfl⟩
    · exact modifyVariable_changes p i _ fun v => ⟨rfl, rfl, rfl, rfl, rfl⟩
    · exact modifyVariable_changes p i _ fun v => ⟨rfl, rfl, rfl, rfl, rfl⟩
  · exact .refl i p

/-- A variable that has taken in a value. -/
def takeIn (precision : Precision) (kind : VariableKind) (value : Value) (s : VariableState) :
    VariableState :=
  { s with
    accumulator := (s.accumulator.add kind value precision).1
    result := s.result.push .current (s.accumulator.add kind value precision).2 }

theorem evaluateResult_of_aggregate (pass : Pass) (hv : p.report.vars[i]? = some v)
    (hs : p.values.vars[i]? = some s) (hk : v.kind ≠ .custom) :
    (evaluateResult pass i p).report.vars[i]? = some v ∧
      (evaluateResult pass i p).values.vars[i]? =
        some (takeIn p.workspace.settings.precision v.kind (baseValue v s) s) := by
  unfold evaluateResult
  rw [hv, hs]
  dsimp only
  split
  · rename_i hkind _
    exact absurd hkind hk
  · rename_i hkind _
    exact absurd hkind hk
  · obtain ⟨hv', hs'⟩ := vars_modifyVariable p i id fun s' =>
      { s' with
        accumulator := (s.accumulator.add v.kind (baseValue v s) p.workspace.settings.precision).1
        result := s'.result.push .current
          (s.accumulator.add v.kind (baseValue v s) p.workspace.settings.precision).2 }
    rw [hv] at hv'
    rw [hs] at hs'
    exact ⟨hv', hs'⟩

theorem evaluateResult_of_custom {x : Computation} (pass : Pass) (hv : p.report.vars[i]? = some v)
    (hs : p.values.vars[i]? = some s) (hk : v.kind = .custom) (hx : v.result = some x) :
    (evaluateResult pass i p).report.vars[i]? =
        some { v with result := some (x.evaluate (p.context pass (some i))).1 } ∧
      (evaluateResult pass i p).values.vars[i]? =
        some { s with result := s.result.push .current (x.evaluate (p.context pass (some i))).2 } := by
  have heq : evaluateResult pass i p =
      p.modifyVariable i (fun v => { v with result := some (x.evaluate (p.context pass (some i))).1 })
        fun s => { s with result := s.result.push .current (x.evaluate (p.context pass (some i))).2 } := by
    unfold evaluateResult
    simp only [hv, hs, hk, hx]
  rw [heq, (vars_modifyVariable p i _ _).1, (vars_modifyVariable p i _ _).2, hv, hs]
  exact ⟨rfl, rfl⟩

/-- Each variable gets a value, of whatever kind it is. -/
theorem evaluateResult_gets (pass : Pass) (hv : p.report.vars[i]? = some v)
    (hs : p.values.vars[i]? = some s) :
    ∃ v' s' value, (evaluateResult pass i p).report.vars[i]? = some v' ∧
      (evaluateResult pass i p).values.vars[i]? = some s' ∧ Variable.Gets v v' s s' value := by
  by_cases hk : v.kind = .custom
  · cases hx : v.result with
    | some x =>
      obtain ⟨hv', hs'⟩ := evaluateResult_of_custom pass hv hs hk hx
      exact ⟨_, _, _, hv', hs', ⟨rfl, rfl, rfl, rfl, rfl⟩, rfl, rfl, rfl⟩
    | none =>
      have heq : evaluateResult pass i p = p.modifyVariable i id
          fun s => { s with result := s.result.push .current (.null .number) } := by
        unfold evaluateResult
        simp only [hv, hs, hk, hx]
      rw [heq, (vars_modifyVariable p i _ _).1, (vars_modifyVariable p i _ _).2, hv, hs]
      exact ⟨_, _, _, rfl, rfl, .refl v, rfl, rfl, rfl⟩
  · obtain ⟨hv', hs'⟩ := evaluateResult_of_aggregate pass hv hs hk
    exact ⟨_, _, _, hv', hs', .refl v, rfl, rfl, rfl⟩

theorem evaluateStages_changes (pass : Pass) (i : Nat) (ks : List Nat) (p : Progress) :
    Changes i p (ks.foldl (evaluateStage pass i) p) := by
  induction ks generalizing p with
  | nil => exact .refl i p
  | cons k ks ih => exact (evaluateStage_changes pass i p k).trans (ih _)

theorem evaluateVariable_changes (pass : Pass) (p : Progress) (i : Nat) :
    Changes i p (evaluateVariable pass p i) :=
  (evaluateStages_changes pass i _ p).trans (evaluateResult_changes pass i _)

theorem evaluateVariable_takes (pass : Pass) (hv : p.report.vars[i]? = some v)
    (hs : p.values.vars[i]? = some s) (hk : v.kind ≠ .custom) :
    ∃ v' s', (evaluateVariable pass p i).report.vars[i]? = some v' ∧
      (evaluateVariable pass p i).values.vars[i]? = some s' ∧
      Variable.Takes p.workspace.settings.precision v v' s s' := by
  obtain ⟨hchanges, v', stages, hv', ⟨hsame, htexts⟩, hs'⟩ :=
    evaluateStages_spec pass (List.range 3) hv hs
  obtain ⟨hv'', hs''⟩ := evaluateResult_of_aggregate pass hv' hs' (hsame.kind ▸ hk)
  rw [hchanges.workspace, hsame.kind] at hs''
  exact ⟨v', _, hv'', hs'', hsame, htexts, rfl, rfl, rfl, rfl⟩

theorem evaluateVariable_gets (pass : Pass) (hv : p.report.vars[i]? = some v)
    (hs : p.values.vars[i]? = some s) :
    ∃ v' s' value, (evaluateVariable pass p i).report.vars[i]? = some v' ∧
      (evaluateVariable pass p i).values.vars[i]? = some s' ∧ Variable.Gets v v' s s' value := by
  obtain ⟨-, v₁, stages, hv₁, ⟨hsame, -⟩, hs₁⟩ := evaluateStages_spec pass (List.range 3) hv hs
  obtain ⟨v', s', value, hv', hs', hgets⟩ := evaluateResult_gets pass hv₁ hs₁
  exact ⟨v', s', value, hv', hs', hsame.trans hgets.toSame, hgets.finals, hgets.group, hgets.result⟩

/-! Evaluating all variables -/

theorem foldl_evaluateVariable_beside (pass : Pass) (is : List Nat) (p : Progress) :
    Beside p (is.foldl (evaluateVariable pass) p) := by
  induction is generalizing p with
  | nil => exact .refl p
  | cons i is ih => exact (evaluateVariable_changes pass p i).toBeside.trans (ih _)

theorem foldl_evaluateVariable_ne (pass : Pass) {is : List Nat} (h : i ∉ is) (p : Progress) :
    (is.foldl (evaluateVariable pass) p).report.vars[i]? = p.report.vars[i]? ∧
      (is.foldl (evaluateVariable pass) p).values.vars[i]? = p.values.vars[i]? := by
  induction is generalizing p with
  | nil => exact ⟨rfl, rfl⟩
  | cons j is ih =>
    obtain ⟨hj, his⟩ := not_or.1 (fun hm => h (List.mem_cons.2 hm))
    obtain ⟨hv, hs⟩ := ih his (evaluateVariable pass p j)
    have hchanges := evaluateVariable_changes pass p j
    exact ⟨hv.trans (hchanges.vars i hj), hs.trans (hchanges.states i hj)⟩

theorem evaluateVariables_beside (p : Progress) (pass : Pass) : Beside p (p.evaluateVariables pass) :=
  foldl_evaluateVariable_beside pass _ p

/-- The variables before one, this one itself, and those after it are evaluated. -/
theorem evaluateVariables_split (pass : Pass) (hi : i < p.report.vars.length) :
    p.evaluateVariables pass =
      (List.range' (i + 1) (p.report.vars.length - (i + 1))).foldl (evaluateVariable pass)
        (evaluateVariable pass ((List.range i).foldl (evaluateVariable pass) p) i) := by
  obtain ⟨m, hm⟩ : ∃ m, p.report.vars.length = i + (m + 1) := Nat.exists_eq_add_of_lt hi
  rw [evaluateVariables, hm, Nat.add_sub_add_left, List.range_add, List.foldl_append,
    List.range_succ_eq_map, List.map_cons, List.foldl_cons, Nat.add_zero, List.map_map,
    Nat.add_sub_cancel, List.range'_eq_map_range]
  congr 2
  funext k
  simp only [Function.comp_apply]
  omega

/-- What a row makes of a variable it makes of it when the variables before are evaluated. -/
theorem evaluateVariables_getElem? (pass : Pass) (hi : i < p.report.vars.length) :
    ((p.evaluateVariables pass).report.vars[i]? =
        (evaluateVariable pass ((List.range i).foldl (evaluateVariable pass) p) i).report.vars[i]? ∧
      (p.evaluateVariables pass).values.vars[i]? =
        (evaluateVariable pass ((List.range i).foldl (evaluateVariable pass) p) i).values.vars[i]?) ∧
      ((List.range i).foldl (evaluateVariable pass) p).report.vars[i]? = p.report.vars[i]? ∧
      ((List.range i).foldl (evaluateVariable pass) p).values.vars[i]? = p.values.vars[i]? := by
  have hbefore : i ∉ List.range i := fun hm => Nat.lt_irrefl _ (List.mem_range.1 hm)
  have hafter : i ∉ List.range' (i + 1) (p.report.vars.length - (i + 1)) := by
    intro hm
    have := (List.mem_range'_1.1 hm).1
    omega
  rw [evaluateVariables_split pass hi]
  exact ⟨foldl_evaluateVariable_ne pass hafter _, foldl_evaluateVariable_ne pass hbefore p⟩

/-- On each row each aggregate takes in one value. -/
theorem evaluateVariables_takes (pass : Pass) (hv : p.report.vars[i]? = some v)
    (hs : p.values.vars[i]? = some s) (hk : v.kind ≠ .custom) :
    ∃ v' s', (p.evaluateVariables pass).report.vars[i]? = some v' ∧
      (p.evaluateVariables pass).values.vars[i]? = some s' ∧
      Variable.Takes p.workspace.settings.precision v v' s s' := by
  obtain ⟨⟨hv₁, hs₁⟩, hv₀, hs₀⟩ :=
    evaluateVariables_getElem? pass (List.getElem?_eq_some_iff.1 hv).1
  have hp₀ := foldl_evaluateVariable_beside pass (List.range i) p
  obtain ⟨v', s', hv', hs', htakes⟩ := evaluateVariable_takes pass (hv₀.trans hv) (hs₀.trans hs) hk
  rw [hp₀.workspace] at htakes
  exact ⟨v', s', hv₁.trans hv', hs₁.trans hs', htakes⟩

/-- On each row each variable gets one value. -/
theorem evaluateVariables_gets (pass : Pass) (hv : p.report.vars[i]? = some v)
    (hs : p.values.vars[i]? = some s) :
    ∃ v' s' value, (p.evaluateVariables pass).report.vars[i]? = some v' ∧
      (p.evaluateVariables pass).values.vars[i]? = some s' ∧ Variable.Gets v v' s s' value := by
  obtain ⟨⟨hv₁, hs₁⟩, hv₀, hs₀⟩ :=
    evaluateVariables_getElem? pass (List.getElem?_eq_some_iff.1 hv).1
  obtain ⟨v', s', value, hv', hs', hgets⟩ := evaluateVariable_gets pass (hv₀.trans hv) (hs₀.trans hs)
  exact ⟨v', s', value, hv₁.trans hv', hs₁.trans hs', hgets⟩

/-! Starting over -/

theorem getElem?_mapVariables {f : Variable → VariableState → Variable × VariableState}
    (hv : p.report.vars[i]? = some v) (hs : p.values.vars[i]? = some s) :
    (p.mapVariables f).report.vars[i]? = some (f v s).1 ∧
      (p.mapVariables f).values.vars[i]? = some (f v s).2 := by
  simp only [mapVariables, List.getElem?_map, List.getElem?_zipWith, hv, hs, Option.map_some,
    and_self]

theorem mapVariables_beside {f : Variable → VariableState → Variable × VariableState}
    (hp : p.Balanced) (hf : ∀ v s, Variable.Same v (f v s).1) : Beside p (p.mapVariables f) := by
  have hmap {β : Type} (g : Variable → β) (hg : ∀ v v', Variable.Same v v' → g v' = g v) :
      ((List.zipWith f p.report.vars p.values.vars).map (·.1)).map g = p.report.vars.map g := by
    rw [List.map_map, List.map_zipWith]
    apply List.ext_getElem?
    intro j
    rw [List.getElem?_zipWith, List.getElem?_map]
    cases hv : p.report.vars[j]? with
    | none => rfl
    | some v =>
      have hs := List.getElem?_eq_getElem (hp ▸ (List.getElem?_eq_some_iff.1 hv).1)
      simp only [hs, Function.comp_apply, Option.map_some, hg v _ (hf v _)]
  refine ⟨rfl, rfl, rfl, rfl, rfl, rfl, ?_, ?_, fun i v hv => ?_, ?_⟩
  · simp only [Report.names, mapVariables,
      hmap (fun v => (v.name, v.precalculated)) fun v v' h => Prod.ext h.name h.precalculated]
  · exact hmap _ fun v v' h => Prod.ext h.resetOnBreak h.resetBreak
  · obtain ⟨s, hs⟩ := hp.exists_state hv
    exact ⟨_, (getElem?_mapVariables hv hs).1, hf v s⟩
  · intro _
    simp only [Balanced, mapVariables, List.length_map]

theorem startOver_same (pass : Pass) (v : Variable) (s : VariableState) :
    Variable.Same v (startOver pass v s).1 := ⟨rfl, rfl, rfl, rfl, rfl⟩

theorem texts_restart (v : Variable) : v.restart.texts = v.texts := by
  change (v.stages.map _).map _ = v.stages.map _
  rw [List.map_map]
  apply List.map_congr_left
  rintro (_ | x) _
  · rfl
  · rfl

theorem texts_startOver (pass : Pass) (v : Variable) (s : VariableState) :
    (startOver pass v s).1.texts = v.texts := texts_restart v

theorem resetVariables_beside (hp : p.Balanced) (pass : Pass) (first : Nat) :
    Beside p (p.resetVariables pass first) := by
  apply mapVariables_beside hp
  intro v s
  split
  · exact startOver_same pass v s
  · exact .refl v

theorem resetVariables_getElem? (pass : Pass) (first : Nat) (hv : p.report.vars[i]? = some v)
    (hs : p.values.vars[i]? = some s) :
    (p.resetVariables pass first).report.vars[i]? =
        some (if v.resetBreak.any (first ≤ ·) then startOver pass v s else (v, s)).1 ∧
      (p.resetVariables pass first).values.vars[i]? =
        some (if v.resetBreak.any (first ≤ ·) then startOver pass v s else (v, s)).2 :=
  getElem?_mapVariables hv hs

/-! A whole row -/

/-- What the variables find on a row: the breaks are evaluated, and where one triggers variables
have started over. -/
def opened (p : Progress) (pass : Pass) : Progress :=
  match (p.evaluateBreaks pass).2 with
  | some first => (p.evaluateBreaks pass).1.resetVariables pass first
  | none => (p.evaluateBreaks pass).1

/-- The first break that triggers on a row. -/
def fired (p : Progress) (pass : Pass) : Option Nat := (p.evaluateBreaks pass).2

/-- The breaks and variables at the end of a row. -/
def finished (p : Progress) (pass : Pass) : Progress := (p.opened pass).evaluateVariables pass

theorem precalculateRow_eq (p : Progress) : p.precalculateRow = p.finished .ahead := by
  unfold precalculateRow finished opened
  obtain ⟨q, fired⟩ := p.evaluateBreaks .ahead
  cases fired <;> rfl

theorem renderRow_fst (p : Progress) : p.renderRow.1 = (p.finished .final).evaluateExpressions := by
  unfold renderRow finished opened
  obtain ⟨q, fired⟩ := p.evaluateBreaks .final
  cases fired <;> rfl

/-- The breaks that trigger on a row. -/
def triggered (p : Progress) : List Break :=
  match p.fired .final with
  | some first => (p.evaluateBreaks .final).1.report.breaks.drop first
  | none => []

theorem renderRow_snd (p : Progress) :
    p.renderRow.2 = (p.triggered.length,
      p.triggered.map (fun b => ⟨.broke b.name, (p.evaluateBreaks .final).1⟩) ++
        [⟨.row, p.renderRow.1⟩]) := by
  rw [renderRow_fst]
  unfold renderRow finished opened triggered fired
  obtain ⟨q, fired⟩ := p.evaluateBreaks .final
  cases fired <;> rfl

theorem breaks_evaluateBreaks (p : Progress) (pass : Pass) :
    (p.evaluateBreaks pass).1.report.breaks =
      p.report.breaks.map fun b => (b.evaluate (p.context pass none)).1 := by
  simp only [evaluateBreaks, List.map_map, Function.comp_def]

theorem fired_eq (p : Progress) (pass : Pass) :
    p.fired pass = if p.row = 1 then none else
      p.report.breaks.findIdx? fun b => (b.evaluate (p.context pass none)).2 := by
  simp only [fired, evaluateBreaks, List.findIdx?_map, Function.comp_def]

theorem names_evaluateBreaks (p : Progress) (pass : Pass) :
    (p.evaluateBreaks pass).1.report.names = p.report.names := by
  simp only [Report.names, breaks_evaluateBreaks, List.map_map, Function.comp_def, Break.evaluate]
  rfl

theorem opened_beside (hp : p.Balanced) (pass : Pass) :
    Beside (p.evaluateBreaks pass).1 (p.opened pass) := by
  have hb : (p.evaluateBreaks pass).1.Balanced := hp
  unfold opened
  split
  · exact resetVariables_beside hb pass _
  · exact .refl _

/-- What a row leaves as it was, besides the variables. -/
theorem finished_beside (hp : p.Balanced) (pass : Pass) :
    Beside (p.evaluateBreaks pass).1 (p.finished pass) :=
  (opened_beside hp pass).trans (evaluateVariables_beside _ pass)

theorem exists_same_finished (hp : p.Balanced) (hv : (p.finished pass).report.vars[i]? = some v) :
    ∃ v₀, p.report.vars[i]? = some v₀ ∧ Variable.Same v₀ v := by
  have hbeside := finished_beside hp pass
  obtain ⟨hi, -⟩ := List.getElem?_eq_some_iff.1 hv
  have hi₀ : i < p.report.vars.length := hbeside.length ▸ hi
  obtain ⟨v', hv', hsame⟩ := hbeside.same i _ (List.getElem?_eq_getElem hi₀)
  obtain rfl := Option.some.inj (hv'.symm.trans hv)
  exact ⟨_, List.getElem?_eq_getElem hi₀, hsame⟩

/-- Whether a variable starts over on a row. -/
def startsOver (p : Progress) (pass : Pass) (v : Variable) : Bool :=
  (p.fired pass).any fun first => v.resetBreak.any (first ≤ ·)

theorem opened_getElem? (pass : Pass) (hv : p.report.vars[i]? = some v)
    (hs : p.values.vars[i]? = some s) :
    (p.opened pass).report.vars[i]? =
        some (if p.startsOver pass v then startOver pass v s else (v, s)).1 ∧
      (p.opened pass).values.vars[i]? =
        some (if p.startsOver pass v then startOver pass v s else (v, s)).2 := by
  unfold opened startsOver fired
  cases (p.evaluateBreaks pass).2 with
  | none => exact ⟨hv, hs⟩
  | some first => exact resetVariables_getElem? pass first hv hs

/-- What becomes of a variable on a row. -/
theorem finished_gets (pass : Pass) (hv : p.report.vars[i]? = some v)
    (hs : p.values.vars[i]? = some s) :
    ∃ v' s' value, (p.finished pass).report.vars[i]? = some v' ∧
      (p.finished pass).values.vars[i]? = some s' ∧
      Variable.Gets v v' (if p.startsOver pass v then startOver pass v s else (v, s)).2 s' value := by
  obtain ⟨hv₀, hs₀⟩ := opened_getElem? pass hv hs
  have hsame : Variable.Same v (if p.startsOver pass v then startOver pass v s else (v, s)).1 := by
    split
    · exact startOver_same pass v s
    · exact .refl v
  obtain ⟨v', s', value, hv', hs', hgets⟩ := evaluateVariables_gets pass hv₀ hs₀
  exact ⟨v', s', value, hv', hs', hsame.trans hgets.toSame, hgets.finals, hgets.group, hgets.result⟩

/-- What becomes of an aggregate on a row. -/
theorem finished_takes (pass : Pass) (hv : p.report.vars[i]? = some v)
    (hs : p.values.vars[i]? = some s) (hk : v.kind ≠ .custom) :
    ∃ v' s', (p.finished pass).report.vars[i]? = some v' ∧
      (p.finished pass).values.vars[i]? = some s' ∧
      Variable.Takes p.workspace.settings.precision v v'
        (if p.startsOver pass v then startOver pass v s else (v, s)).2 s' := by
  obtain ⟨hv₀, hs₀⟩ := opened_getElem? pass hv hs
  obtain ⟨hsame, htexts⟩ :
      Variable.Same v (if p.startsOver pass v then startOver pass v s else (v, s)).1 ∧
        (if p.startsOver pass v then startOver pass v s else (v, s)).1.texts = v.texts := by
    split
    · exact ⟨startOver_same pass v s, texts_startOver pass v s⟩
    · exact ⟨.refl v, rfl⟩
  obtain ⟨v', s', hv', hs', htakes⟩ := evaluateVariables_takes pass hv₀ hs₀ (hsame.kind ▸ hk)
  have hworkspace : (p.opened pass).workspace = p.workspace := by
    unfold opened
    split <;> rfl
  rw [hworkspace] at htakes
  refine ⟨v', s', hv', hs', hsame.trans htakes.toSame, htakes.texts.trans htexts, htakes.finals,
    htakes.group, ?_, ?_⟩
  · rw [htakes.accumulator, hsame.kind]
  · rw [htakes.result, hsame.kind]

end Progress
end Reporting
