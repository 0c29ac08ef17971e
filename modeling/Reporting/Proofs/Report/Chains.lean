import Reporting.Proofs.Expr.Iteration
import Reporting.Proofs.Report.Backwards
/-!
What a row makes of a custom variable. Its stages are evaluated one after the other and then its
result, and what they read of the variable and of those before it is what the row leaves behind.
-/
namespace Reporting

/-- What an expression of variable `i` may read when the stages before `k` are evaluated. -/
def Source.Settles (i k : Nat) : Source → Prop
  | .result j _ => j < i
  | .stage j m => j = i ∧ m < k
  | _ => True

theorem Source.settles_of_counter {source : Source} (h : source.IsCounter) (i k : Nat) :
    source.Settles i k := by
  cases source with
  | result => exact h.elim
  | stage => exact h.elim
  | _ => trivial

namespace Computation

variable {x : Computation} {c c' : Context}

theorem evaluate_of_computed (hs : x.startsWithInitial = false) (c : Context) :
    x.evaluate c = ({ x with root := x.root.evaluate c (some (x.before c)), evaluated := true },
      (x.root.evaluate c (some (x.before c))).value c.scope (some (x.before c)) c.slot) := by
  simp only [evaluate, hs, Bool.and_false, Bool.false_eq_true, if_false, before]

/-- An evaluation gives what the tree is worth, also the tree that it leaves. -/
theorem value_eq_meaning {y : Computation} (hx : x.Sound) (hxy : y.forget = x.forget)
    (hpure : x.root.Every (Expr.Calls Function.Pure)) (c : Context) :
    (y.evaluate c).2 = x.root.meaning c (some (y.before c)) := by
  obtain ⟨hs, hroot⟩ := root_of_forget hxy hx.computed
  exact value_of_forget hroot hs (Expr.noPrevval_of_pure hpure) (hx.counters.imp fun _ h => h.whole)

/-- When an expression is evaluated once more, what it reads of itself is its result before. -/
theorem meaning_before (hx : x.Sound) (hslot : c.slot = c'.slot) (d : Context) :
    (x.evaluate c).1.root.meaning d (some ((x.evaluate c).1.before c')) =
      (x.evaluate c).1.root.meaning d (some (x.evaluate c).2) := by
  have hroot : (x.evaluate c).1.root = x.root.evaluate c (some (x.before c)) := by
    rw [evaluate_of_computed hx.computed]
  cases he : x.root with
  | constant v g =>
    rw [hroot, he]
    rfl
  | reference r t g =>
    by_cases ht : t = some .self
    · -- a name for the value itself is never worth anything but the initial value
      subst ht
      have hinitial : x.before c = x.initialValue := by
        rw [before, he]
        split <;> rfl
      have hbefore : (x.evaluate c).1.before c' = x.initialValue := by
        rw [evaluate_of_computed hx.computed, he]
        rfl
      have hvalue : (x.evaluate c).2 = x.initialValue := by
        rw [evaluate_of_computed hx.computed, he, ← hinitial]
        rfl
      rw [hbefore, hvalue]
    · rw [hroot, he]
      cases t with
      | none => rfl
      | some source =>
        have hne : source ≠ .self := fun h => ht (congrArg some h)
        exact congrArg (Option.getD · r.invalid) (Expr.readSource_congr rfl fun h => absurd h hne)
  | call f es ring g =>
    have hcounters := hx.counters
    rw [he] at hcounters
    cases hb : Expr.boundTo? ring with
    | some source =>
      have hne : source ≠ .self := by
        rintro rfl
        exact (hcounters.node _ hb).2
      rw [hroot, he, Expr.evaluate_bound hb, Expr.meaning_bound hb, Expr.meaning_bound hb,
        Expr.readSource_congr rfl fun h => absurd h hne]
    | none =>
      have hkeeps : x.KeepsResult := ⟨⟨f, es, ring, g, he, hb⟩, hx.counters.imp fun _ h => h.whole⟩
      rw [before, if_pos (x.evaluated_evaluate c), ← hslot, (hkeeps.evaluate c).2]

end Computation

namespace Progress

variable {p q : Progress} {pass : Pass} {i j k m : Nat} {v : Variable} {s : VariableState}
  {x y : Computation} {e : Expr} {self self' : Option Value} {source : Source}

/-- The expression of a stage of a variable. -/
def stageAt? (p : Progress) (i k : Nat) : Option Computation :=
  p.report.vars[i]?.bind fun v => v.stages[k]?.join

/-- The expression that gives a custom variable its value. -/
def formula? (p : Progress) (i : Nat) : Option Computation := p.report.vars[i]?.bind (·.result)

/-- The value of a stage of a variable. -/
def stageValue? (p : Progress) (i k : Nat) : Option Value :=
  (p.values.vars[i]?.bind fun s => s.stages[k]?).map (·.current)

/-! Expressions, apart from what they remember -/

theorem exists_stageAt_of_forget (h : q.report.forget = p.report.forget) (hx : p.stageAt? i k = some x) :
    ∃ y, q.stageAt? i k = some y ∧ y.forget = x.forget := by
  have hmap (p : Progress) : (p.stageAt? i k).map Computation.forget =
      p.report.forget.vars[i]?.bind fun v => v.stages[k]?.join := by
    simp only [stageAt?, Report.forget, List.getElem?_map]
    cases p.report.vars[i]? with
    | none => rfl
    | some v =>
      simp only [Option.bind_some, Option.map_some, Variable.forget, Variable.map, List.getElem?_map]
      rcases v.stages[k]? with _ | _ | x <;> rfl
  have hget := hmap q
  rw [h, ← hmap p, hx] at hget
  exact Option.map_eq_some_iff.1 hget

theorem exists_formula_of_forget (h : q.report.forget = p.report.forget) (hx : p.formula? i = some x) :
    ∃ y, q.formula? i = some y ∧ y.forget = x.forget := by
  have hmap (p : Progress) : (p.formula? i).map Computation.forget =
      p.report.forget.vars[i]?.bind (·.result) := by
    simp only [formula?, Report.forget, List.getElem?_map]
    cases p.report.vars[i]? with
    | none => rfl
    | some v => rfl
  have hget := hmap q
  rw [h, ← hmap p, hx] at hget
  exact Option.map_eq_some_iff.1 hget

/-! The order of evaluation -/

theorem evaluating_succ (p : Progress) (pass : Pass) (i k : Nat) :
    p.evaluating pass i (k + 1) = evaluateStage pass i (p.evaluating pass i k) k := by
  rw [evaluating, List.range_succ, List.foldl_append]
  rfl

/-- A row leaves of a variable what is left when its result is evaluated. -/
theorem finished_eq_evaluateResult (hi : i < (p.opened pass).report.vars.length) :
    (p.finished pass).report.vars[i]? =
        (evaluateResult pass i (p.evaluating pass i 3)).report.vars[i]? ∧
      (p.finished pass).values.vars[i]? =
        (evaluateResult pass i (p.evaluating pass i 3)).values.vars[i]? :=
  (evaluateVariables_getElem? pass hi).1

theorem formula?_evaluateStage (pass : Pass) (q : Progress) (i k : Nat) :
    (evaluateStage pass i q k).formula? i = q.formula? i := by
  cases h : q.report.vars[i]?.bind fun v => v.stages[k]?.join with
  | none => rw [evaluateStage_of_none h]
  | some x =>
    rw [evaluateStage_of_some h, formula?, formula?, (vars_modifyVariable q i _ _).1]
    cases q.report.vars[i]? <;> rfl

/-- The stages leave the result to be evaluated as it was when the row began. -/
theorem formula?_evaluating (hi : i < (p.opened pass).report.vars.length) :
    (p.evaluating pass i k).formula? i = (p.opened pass).formula? i := by
  induction k with
  | zero =>
    rw [formula?, formula?]
    exact congrArg (Option.bind · (·.result)) (evaluateVariables_getElem? pass hi).2.1
  | succ k ih => rw [evaluating_succ, formula?_evaluateStage, ih]

theorem formula?_opened (hv : p.report.vars[i]? = some v) (hs : p.values.vars[i]? = some s) :
    (p.opened pass).formula? i =
      if p.startsOver pass v then v.result.map Computation.restart else v.result := by
  rw [formula?, (opened_getElem? pass hv hs).1, Option.bind_some]
  split <;> rfl

/-! The values of stages -/

theorem stageValue?_evaluateStage_ne (h : m ≠ k) (q : Progress) :
    (evaluateStage pass i q k).stageValue? i m = q.stageValue? i m := by
  cases hx : q.report.vars[i]?.bind fun v => v.stages[k]?.join with
  | none => rw [evaluateStage_of_none hx]
  | some x =>
    rw [evaluateStage_of_some hx, stageValue?, stageValue?, (vars_modifyVariable q i _ _).2]
    cases q.values.vars[i]? with
    | none => rfl
    | some s =>
      simp only [Option.map_some, Option.bind_some, pushStage]
      rw [List.getElem?_modify_ne _ _ h.symm]

theorem stageValue?_evaluateStage (hx : q.stageAt? i k = some x) (hs : (q.stageValue? i k).isSome) :
    (evaluateStage pass i q k).stageValue? i k = some (x.evaluate (q.context pass (some i))).2 := by
  rw [stageValue?, Option.isSome_map, Option.isSome_bind] at hs
  rw [evaluateStage_of_some hx, stageValue?, (vars_modifyVariable q i _ _).2]
  cases hstate : q.values.vars[i]? with
  | none =>
    rw [hstate] at hs
    cases hs
  | some s =>
    rw [hstate] at hs
    obtain ⟨ring, hring⟩ := Option.isSome_iff_exists.1 hs
    simp only [Option.map_some, Option.bind_some, pushStage]
    rw [getElem?_modify_self, hring]
    rfl

theorem stageValue?_evaluateResult (pass : Pass) (q : Progress) (i m : Nat) :
    (evaluateResult pass i q).stageValue? i m = q.stageValue? i m := by
  have hmodify {f : Variable → Variable} {g : VariableState → VariableState}
      (hg : ∀ s, (g s).stages = s.stages) :
      (q.modifyVariable i f g).stageValue? i m = q.stageValue? i m := by
    rw [stageValue?, stageValue?, (vars_modifyVariable q i f g).2]
    cases q.values.vars[i]? with
    | none => rfl
    | some s => rw [Option.map_some, Option.bind_some, Option.bind_some, hg]
  unfold evaluateResult
  split
  · split <;> exact hmodify fun _ => rfl
  · rfl

theorem stageValue?_evaluating (h : m < k) :
    (p.evaluating pass i k).stageValue? i m = (p.evaluating pass i (m + 1)).stageValue? i m := by
  induction k, h using Nat.le_induction with
  | base => rfl
  | succ k hk ih => rw [evaluating_succ, stageValue?_evaluateStage_ne (Nat.ne_of_lt hk), ih]

/-- Once it is evaluated, a stage keeps its value for the rest of the row. -/
theorem stageValue?_finished (hi : i < (p.opened pass).report.vars.length) (h : m < k) (hk : k ≤ 3) :
    (p.evaluating pass i k).stageValue? i m = (p.finished pass).stageValue? i m := by
  have hlast : (p.finished pass).stageValue? i m =
      (evaluateResult pass i (p.evaluating pass i 3)).stageValue? i m := by
    rw [stageValue?, stageValue?, (finished_eq_evaluateResult hi).2]
  rw [hlast, stageValue?_evaluateResult, stageValue?_evaluating h,
    ← stageValue?_evaluating (Nat.lt_of_lt_of_le h hk)]

theorem lookup?_stage (p : Progress) (pass : Pass) (stagesOf : Option Nat) (i k : Nat) :
    (p.scope pass stagesOf).lookup? (.stage i k) .current = p.stageValue? i k := by
  change (p.values.vars[i]?.bind fun s => s.stages[k]?.bind fun ring => some ring.current) = _
  rw [stageValue?]
  cases p.values.vars[i]? with
  | none => rfl
  | some s =>
    rw [Option.bind_some, Option.bind_some]
    cases s.stages[k]? <;> rfl

/-! What expressions read on a row -/

/-- What is settled when an expression is evaluated is read as the row leaves it. -/
theorem lookup?_of_settles (hi : i < (p.opened pass).report.vars.length) (hk : k ≤ 3)
    (h : source.Settles i k) :
    ((p.evaluating pass i k).scope pass (some i)).lookup? source .current =
      ((p.finished pass).scope pass (some i)).lookup? source .current := by
  cases source with
  | stage j m =>
    obtain ⟨rfl, hm⟩ := h
    rw [lookup?_stage, lookup?_stage, stageValue?_finished hi hm hk]
  | result j precalculated =>
    refine lookup?_evaluating hi (fun j' _ he => ?_) fun _ _ he => nomatch he
    cases he
    exact h
  | _ => exact lookup?_evaluating hi (fun _ _ he => nomatch he) fun _ _ he => nomatch he

theorem names_evaluating (pass : Pass) (i k : Nat) :
    ((p.evaluating pass i k).scope pass (some i)).names =
      ((p.finished pass).scope pass (some i)).names := by
  have hbefore := evaluating_beside p pass i k
  have hafter : Beside (p.opened pass) (p.finished pass) := evaluateVariables_beside _ pass
  have hworkspace := hbefore.workspace.trans hafter.workspace.symm
  have hmain := hbefore.main.trans hafter.main.symm
  have hnames := hbefore.names.trans hafter.names.symm
  rw [scope, scope, hworkspace, hmain, hnames]
  rfl

theorem counts_scope (p : Progress) (pass : Pass) (stagesOf : Option Nat) :
    (p.scope pass stagesOf).Counts :=
  have hcounts := p.workspace.counts_scope p.report.names stagesOf p.main
  ⟨hcounts.rowNumber, hcounts.breakRowNumber⟩

theorem counter_evaluating (hi : i < (p.opened pass).report.vars.length) (hk : k ≤ 3) (kind : CounterKind)
    (name : Option String) : ((p.evaluating pass i k).context pass (some i)).counter kind name =
      ((p.finished pass).context pass (some i)).counter kind name := by
  have hsource := Scope.counterSource?_of_names (names_evaluating (p := p) pass i k) kind name
  change Counter.read _ (Expr.counterSource? ((p.evaluating pass i k).scope pass (some i)) kind name) _ =
    Counter.read _ (Expr.counterSource? ((p.finished pass).scope pass (some i)) kind name) _
  rw [hsource]
  cases hc : Expr.counterSource? ((p.finished pass).scope pass (some i)) kind name with
  | none => rfl
  | some source =>
    have hcounter := Expr.counter_of_counterSource? (counts_scope _ _ _) hc
    let c := (p.evaluating pass i k).context pass (some i)
    let c' := (p.finished pass).context pass (some i)
    have hlookup : c.scope.lookup? source c.slot = c'.scope.lookup? source c'.slot :=
      lookup?_of_settles hi hk (source.settles_of_counter hcounter i k)
    rw [Counter.read, Counter.read, Option.bind_some, Option.bind_some, hlookup]

/-- An expression that reads what is settled is worth the same when it is evaluated and when the row ends. -/
theorem meaning_finished (hi : i < (p.opened pass).report.vars.length) (hk : k ≤ 3)
    (hpure : e.Every (Expr.Calls Function.Pure)) (hreads : ∀ source ∈ e.sources, source.Settles i k)
    (hself : .self ∈ e.sources → self = self') :
    e.meaning ((p.evaluating pass i k).context pass (some i)) self =
      e.meaning ((p.finished pass).context pass (some i)) self' := by
  have hworkspace : (p.evaluating pass i k).workspace = (p.finished pass).workspace :=
    (evaluating_beside p pass i k).workspace.trans (evaluateVariables_beside _ pass).workspace.symm
  have hsettings : ((p.evaluating pass i k).context pass (some i)).SameSettings
      ((p.finished pass).context pass (some i)) := by
    rw [context, context, hworkspace]
    exact ⟨rfl, rfl, rfl⟩
  apply Expr.meaning_of_reads hsettings hpure
  · refine Expr.every_readsOnly.2 fun source hm => ⟨lookup?_of_settles hi hk (hreads source hm), ?_⟩
    rintro rfl
    exact hself hm
  · exact Expr.every_looksUpOnly fun kind _ name => counter_evaluating hi hk kind name

/-! What a row makes of a variable -/

/-- The expressions of a report are read after a row as they are read when its variables are evaluated. -/
theorem context_step (pass : Pass) (p : Progress) (stagesOf : Option Nat) :
    (step pass p).context pass stagesOf = (p.finished pass).context pass stagesOf := by
  cases pass with
  | ahead => rw [step, precalculateRow_eq]
  | final =>
    rw [step, renderRow_fst]
    rfl

theorem formula?_step (pass : Pass) (p : Progress) (i : Nat) :
    (step pass p).formula? i = (p.finished pass).formula? i := by
  rw [formula?, formula?, (step_getElem? pass p i).1]

theorem stageValue?_step (pass : Pass) (p : Progress) (i k : Nat) :
    (step pass p).stageValue? i k = (p.finished pass).stageValue? i k := by
  rw [stageValue?, stageValue?, (step_getElem? pass p i).2]

/-- A row evaluates the result of a custom variable, which may have started over. -/
theorem step_formula (hb : p.Balanced) (hv : p.report.vars[i]? = some v) (hk : v.kind = .custom)
    (hx : (p.opened pass).formula? i = some x) :
    (step pass p).formula? i = some (x.evaluate ((p.evaluating pass i 3).context pass (some i))).1 ∧
      (step pass p).running? i =
        some (x.evaluate ((p.evaluating pass i 3).context pass (some i))).2 := by
  obtain ⟨s, hs⟩ := hb.exists_state hv
  have hopened := (opened_getElem? pass hv hs).1
  obtain ⟨hi, -⟩ := List.getElem?_eq_some_iff.1 hopened
  have hkind : (if p.startsOver pass v then startOver pass v s else (v, s)).1.kind = .custom := by
    split <;> exact hk
  -- what is left of the variable when its stages are evaluated
  have hbeside := evaluating_beside p pass i 3
  obtain ⟨v₃, hv₃, hsame⟩ := hbeside.same i _ hopened
  obtain ⟨s₃, hs₃⟩ := (hbeside.balanced ((opened_beside hb pass).balanced hb)).exists_state hv₃
  have hx₃ : v₃.result = some x := by
    rw [← formula?_evaluating (k := 3) hi, formula?, hv₃] at hx
    exact hx
  obtain ⟨hv', hs'⟩ := evaluateResult_of_custom pass hv₃ hs₃ (hsame.kind.trans hkind) hx₃
  obtain ⟨hlastVar, hlastState⟩ := finished_eq_evaluateResult hi
  rw [formula?_step, formula?, running?, (step_getElem? pass p i).2, hlastVar, hlastState, hv', hs']
  exact ⟨rfl, rfl⟩

/-- A row evaluates each stage of a variable. -/
theorem step_stage (hi : i < (p.opened pass).report.vars.length) (hk : k < 3)
    (hx : (p.evaluating pass i k).stageAt? i k = some x)
    (hs : ((p.evaluating pass i k).stageValue? i k).isSome) :
    (step pass p).stageValue? i k =
      some (x.evaluate ((p.evaluating pass i k).context pass (some i))).2 := by
  rw [stageValue?_step, ← stageValue?_finished hi (Nat.lt_succ_self k) hk, evaluating_succ,
    stageValue?_evaluateStage hx hs]

/-! The stages that a variable has room for -/

/-- Each variable has a place for the value of each of its stages. -/
def Staged (p : Progress) : Prop := ∀ s ∈ p.values.vars, s.stages.length = 3

theorem Staged.stageValue? (h : p.Staged) (hi : i < p.values.vars.length) (hk : k < 3) :
    (p.stageValue? i k).isSome := by
  have hlength := h _ (List.getElem_mem hi)
  rw [Progress.stageValue?, List.getElem?_eq_getElem hi, Option.bind_some,
    List.getElem?_eq_getElem (hlength.symm ▸ hk)]
  rfl

theorem Staged.modifyVariable (h : p.Staged) (i : Nat) (f : Variable → Variable)
    {g : VariableState → VariableState} (hg : ∀ s, (g s).stages.length = s.stages.length) :
    (p.modifyVariable i f g).Staged := by
  intro t ht
  rcases mem_of_mem_modify ht with ht | ⟨s, hs, rfl⟩
  · exact h t ht
  · exact (hg s).trans (h s hs)

theorem Staged.evaluateStage (h : p.Staged) (pass : Pass) (i k : Nat) :
    (evaluateStage pass i p k).Staged := by
  cases hx : p.report.vars[i]?.bind fun v => v.stages[k]?.join with
  | none =>
    rw [evaluateStage_of_none hx]
    exact h
  | some x =>
    rw [evaluateStage_of_some hx]
    exact h.modifyVariable i _ fun s => List.length_modify _ _ _

theorem Staged.evaluateResult (h : p.Staged) (pass : Pass) (i : Nat) :
    (evaluateResult pass i p).Staged := by
  unfold Progress.evaluateResult
  split
  · split <;> exact h.modifyVariable i _ fun _ => rfl
  · exact h

theorem Staged.evaluateStages (h : p.Staged) (pass : Pass) (i : Nat) (ks : List Nat) :
    (ks.foldl (Progress.evaluateStage pass i) p).Staged :=
  List.foldlRecOn ks _ h fun _ hq k _ => hq.evaluateStage pass i k

theorem Staged.foldl_evaluateVariable (h : p.Staged) (pass : Pass) (is : List Nat) :
    (is.foldl (evaluateVariable pass) p).Staged :=
  List.foldlRecOn is _ h fun _ hq i _ => (hq.evaluateStages pass i _).evaluateResult pass i

theorem Staged.opened (h : p.Staged) (pass : Pass) : (p.opened pass).Staged := by
  have hstart (v : Variable) (s : VariableState) : (startOver pass v s).2.stages = s.stages := by
    unfold startOver
    cases v.precalculated <;> cases pass <;> rfl
  unfold Progress.opened
  split
  · intro t ht
    obtain ⟨changed, hchanged, rfl⟩ := List.mem_map.1 ht
    obtain ⟨j, hj⟩ := List.mem_iff_getElem?.1 hchanged
    obtain ⟨v, s, -, hs, rfl⟩ := List.getElem?_zipWith_eq_some.1 hj
    have hlength := h s (List.mem_of_getElem? hs)
    split
    · rw [hstart, hlength]
    · exact hlength
  · exact h

theorem Staged.evaluating (h : p.Staged) (pass : Pass) (i k : Nat) : (p.evaluating pass i k).Staged :=
  ((h.opened pass).foldl_evaluateVariable pass _).evaluateStages pass i _

theorem staged_reset (p : Progress) : p.reset.Staged := by
  intro s hs
  rw [List.eq_of_mem_replicate hs]
  rfl

theorem kept_staged : Kept Staged where
  advance h hp := by
    obtain ⟨queries, -, rfl⟩ := advance_eq_ok hp
    exact h
  rewind h hp := by
    obtain ⟨-, rfl⟩ := rewind_eq_ok hp
    exact h
  finished pass h := (h.opened pass).foldl_evaluateVariable pass _
  evaluateExpressions h := h
  again {p} h := by
    intro s hs
    obtain ⟨j, hj⟩ := List.mem_iff_getElem?.1 hs
    obtain ⟨v, finals, -, -, rfl⟩ := List.getElem?_zipWith_eq_some.1 hj
    unfold fresh
    split <;> rfl

end Progress
end Reporting
