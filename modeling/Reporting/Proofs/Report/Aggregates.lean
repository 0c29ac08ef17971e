import Reporting.Proofs.Report.Totals
import Reporting.Proofs.Report.Afresh
import Reporting.Proofs.Report.Triggers
/-!
What an aggregate is on a row of a run: the aggregate of the values that the rows of its group have
given to it so far.
-/
namespace Reporting

variable {v : Value} {vs : List Value} {k : VariableKind} {precision : Precision}

namespace Accumulator

/-- What an accumulator has when it has taken in some values, and the result on the last one. -/
def addAll (k : VariableKind) (precision : Precision) (vs : List Value) : Accumulator × Value :=
  vs.foldl (fun a v => a.1.add k v precision) ({}, .null .number)

theorem addAll_concat (k : VariableKind) (precision : Precision) (vs : List Value) (v : Value) :
    addAll k precision (vs ++ [v]) = (addAll k precision vs).1.add k v precision := by
  rw [addAll, List.foldl_append]
  rfl

theorem holds_addAll (hk : k.isAggregate = true) (hvs : ∀ v ∈ vs, v.Numeric) :
    (addAll k precision vs).1.Holds k precision vs ∧
      (vs ≠ [] → k.Aggregates precision vs (addAll k precision vs).2) := by
  induction vs using List.reverseRecOn with
  | nil => exact ⟨holds_nil k precision, fun h => (h rfl).elim⟩
  | append_singleton vs v ih =>
    obtain ⟨hvs, hv⟩ := List.forall_mem_append.1 hvs
    obtain ⟨hresult, hholds⟩ := (ih hvs).1.add hk (hv v List.mem_cons_self)
    rw [addAll_concat]
    refine ⟨hholds, fun _ => ?_⟩
    rw [hresult]
    exact hholds.result hk

end Accumulator

/-- Whether a variable has a base expression. -/
def Variable.hasBase (v : Variable) : Bool := v.stages[0]?.join.isSome

/-- A name that is unique stands for the variable of this name. -/
theorem Report.names_result? {r : Report} {i : Nat} {v : Variable}
    (hn : (r.vars.map (·.name)).Nodup) (hv : r.vars[i]? = some v) :
    r.names.result? v.name = some (.result i v.precalculated) := by
  have hfind : r.names.vars.findIdx? (fun w => w.1 = v.name) = some i := by
    obtain ⟨hi, rfl⟩ := List.getElem?_eq_some_iff.1 hv
    have hi' : i < r.names.vars.length := by
      simpa only [Report.names, List.length_map] using hi
    refine List.findIdx?_eq_some_iff_getElem.2 ⟨hi', ?_, fun j hj he => ?_⟩
    · simp only [Report.names, List.getElem_map, decide_true]
    · have hname := of_decide_eq_true he
      have hjlt := Nat.lt_trans hj hi
      have hnames : (r.vars.map (·.name))[j]? = (r.vars.map (·.name))[i]? := by
        rw [List.getElem?_map, List.getElem?_map, List.getElem?_eq_getElem hi,
          List.getElem?_eq_getElem hjlt]
        simp only [Report.names, List.getElem_map] at hname
        exact congrArg some hname
      have hlength : j < (r.vars.map (·.name)).length := by
        rw [List.length_map]
        exact hjlt
      exact Nat.ne_of_lt hj ((List.getElem?_inj hlength hn).1 hnames)
  have hname : r.names.vars[i]? = some (v.name, v.precalculated) := by
    rw [Report.names, List.getElem?_map, hv]
    rfl
  unfold ReportNames.result?
  rw [hfind]
  change some (Source.result i ((r.names.vars[i]?.map (·.2)).getD false)) = _
  rw [hname]
  rfl

namespace Progress

variable {base p p' q : Progress} {ps : List Progress} {i n : Nat} {v₀ v : Variable}
  {s : VariableState}

/-- The value that a row has given to an aggregate. -/
def baseValue? (p : Progress) (i : Nat) : Option Value := do
  return baseValue (← p.report.vars[i]?) (← p.values.vars[i]?)

/-- The result of a variable for the rows so far. -/
def running? (p : Progress) (i : Nat) : Option Value :=
  p.values.vars[i]?.map fun s => s.result.current

/-- What a variable is read as: its result so far, or the last one of its group. -/
theorem result?_eq (hn : (p.report.vars.map (·.name)).Nodup) (hv : p.report.vars[i]? = some v) :
    p.result? v.name = p.values.vars[i]?.map fun s =>
      if v.precalculated then s.result.precalculated else s.result.current := by
  change (p.report.names.result? v.name).bind _ = _
  rw [Report.names_result? hn hv]
  change (p.values.vars[i]?.bind fun s => some (s.result.get
    (if v.precalculated && true then _ else _))) = _
  cases p.values.vars[i]? with
  | none => rfl
  | some s => cases v.precalculated <;> rfl

theorem hasBase_of_texts {v' : Variable} (h : v'.texts = v.texts) : v'.hasBase = v.hasBase := by
  have hisSome (v : Variable) : v.hasBase = v.texts[0]?.join.isSome := by
    rw [Variable.texts, List.getElem?_map, Variable.hasBase]
    rcases v.stages[0]? with _ | _ | x <;> rfl
  rw [hisSome, hisSome, h]

theorem baseValue_of_not_hasBase (h : v.hasBase = false) (s : VariableState) :
    baseValue v s = .ofInt 1 := by
  unfold Variable.hasBase at h
  unfold baseValue
  rw [Option.isSome_eq_false_iff, Option.isNone_iff_eq_none] at h
  rw [h]

/-- On each row an aggregate takes in the base value of the row, after all others of its group. -/
theorem renderRow_takes (hp : p.Bound) (hv : p.report.vars[i]? = some v)
    (hs : p.values.vars[i]? = some s) (hk : v.kind.isAggregate = true) :
    ∃ v' s' b, p.renderRow.1.report.vars[i]? = some v' ∧ p.renderRow.1.values.vars[i]? = some s' ∧
      (Variable.Same v v' ∧ v'.texts = v.texts) ∧
      p.renderRow.1.baseValue? i = some b ∧ (v.hasBase = false → b = .ofInt 1) ∧
      (s'.accumulator, s'.result.current) =
        (if p.told.BreaksAny (v.resetNames p.report.names) then {} else s.accumulator).add v.kind b
          p.workspace.settings.precision := by
  have hcustom : v.kind ≠ .custom := by
    intro hcustom
    rw [hcustom] at hk
    cases hk
  obtain ⟨v', s', hv', hs', htakes⟩ := finished_takes .final hv hs hcustom
  rw [renderRow_fst]
  refine ⟨v', s', baseValue v' s', hv', hs', ⟨htakes.toSame, htakes.texts⟩, ?_, ?_, ?_⟩
  · change ((p.finished .final).report.vars[i]?.bind fun v =>
      (p.finished .final).values.vars[i]?.bind fun s => some (baseValue v s)) = _
    rw [hv', hs']
    rfl
  · exact fun hbase => baseValue_of_not_hasBase ((hasBase_of_texts htakes.texts).trans hbase) s'
  · have hstart : (if p.startsOver .final v then startOver .final v s else (v, s)).2.accumulator =
        if p.told.BreaksAny (v.resetNames p.report.names) then {} else s.accumulator := by
      simp only [← startsOver_iff hp (List.mem_iff_getElem?.2 ⟨i, hv⟩)]
      split <;> rfl
    rw [htakes.result, Ring.push_current, htakes.accumulator, hstart]

/-- An aggregate at the end of a row: what its group has given to it, and what it has made of that. -/
structure Collects (precision : Precision) (i : Nat) (v : Variable) (p : Progress)
    (group : List ToldRow) (vs : List Value) : Prop where
  kept : ∃ v', p.report.vars[i]? = some v' ∧ Variable.Same v v' ∧ v'.texts = v.texts
  values : group.map (fun row => row.seen.baseValue? i) = vs.map some
  nonempty : vs ≠ []
  ones : v.hasBase = false → ∀ b ∈ vs, b = .ofInt 1
  holds : ∃ s, p.values.vars[i]? = some s ∧
    (s.accumulator, s.result.current) = Accumulator.addAll v.kind precision vs

/-- A row with which a group starts. -/
theorem Collects.first (hp : p.Bound) (hv : p.report.vars[i]? = some v)
    (hs : p.values.vars[i]? = some s) (hk : v.kind.isAggregate = true)
    (hstart : p.told.BreaksAny (v.resetNames p.report.names) ∨ s.accumulator = {}) :
    ∃ b, Collects p.workspace.settings.precision i v p.renderRow.1 [p.told] [b] := by
  obtain ⟨v', s', b, hv', hs', hsame, hb, hone, hadd⟩ := renderRow_takes hp hv hs hk
  have hempty : (if p.told.BreaksAny (v.resetNames p.report.names) then {} else s.accumulator) =
      ({} : Accumulator) := by
    rcases hstart with hbreaks | hempty
    · exact if_pos hbreaks
    · rw [hempty, ite_self]
  rw [hempty] at hadd
  exact ⟨b, ⟨v', hv', hsame⟩, congrArg (fun b => [b]) hb, List.cons_ne_nil _ _,
    fun h => List.forall_mem_singleton.2 (hone h), s', hs', hadd⟩

theorem Collects.next {group : List ToldRow} {vs : List Value}
    (h : Collects p'.workspace.settings.precision i v₀ p group vs) (hreport : p'.report = p.report)
    (hvalues : p'.values = p.values) (hp : p'.Bound) (hv : p'.report.vars[i]? = some v)
    (hk : v.kind.isAggregate = true)
    (hgoes : ¬ p'.told.BreaksAny (v.resetNames p'.report.names)) :
    ∃ b, Collects p'.workspace.settings.precision i v p'.renderRow.1 (group ++ [p'.told])
      (vs ++ [b]) := by
  obtain ⟨v₁, hv₁, hsame₁, htexts₁⟩ := h.kept
  obtain ⟨s, hs, hholds⟩ := h.holds
  obtain rfl := Option.some.inj (hv.symm.trans (hreport ▸ hv₁))
  obtain ⟨v', s', b, hv', hs', hsame, hb, hone, hadd⟩ :=
    renderRow_takes hp hv (hvalues ▸ hs) hk
  rw [if_neg hgoes, hsame₁.kind] at hadd
  refine ⟨b, ⟨v', hv', hsame⟩, ?_, List.append_ne_nil_of_right_ne_nil _ (List.cons_ne_nil _ _), ?_,
    s', hs', ?_⟩
  · rw [List.map_append, List.map_append, h.values]
    exact congrArg (fun b => vs.map some ++ [b]) hb
  · intro hbase
    exact List.forall_mem_append.2 ⟨h.ones ((hasBase_of_texts htexts₁).symm.trans hbase),
      List.forall_mem_singleton.2 (hone hbase)⟩
  · rw [Accumulator.addAll_concat, hsame₁.kind, ← hholds]
    exact hadd

theorem exists_same_renderRow (hb : p.Balanced) (hv : p.renderRow.1.report.vars[i]? = some v) :
    ∃ v₀, p.report.vars[i]? = some v₀ ∧ Variable.Same v₀ v := by
  rw [renderRow_fst] at hv
  exact exists_same_finished hb hv

/-- On each row an aggregate has taken in the values of its group. -/
theorem Turns.collects {first : Progress} (h : Turns (fun p => p.renderRow.1) first ps q)
    (hwithin : ∀ p ∈ ps, Within base p) (hbound : ∀ p ∈ ps, p.Bound)
    (hfirst : ∀ s ∈ first.values.vars, s.accumulator = {}) {n s : Nat} (hp : ps[n]? = some p)
    (hv : p.report.vars[i]? = some v) (hk : v.kind.isAggregate = true)
    (hgroup : GroupStart (v.resetNames base.report.names) (ps.map told) s n) :
    ∃ vs, Collects base.workspace.settings.precision i v p.renderRow.1
      (groupRows (ps.map told) s n) vs := by
  have htold {n : Nat} {p : Progress} (hp : ps[n]? = some p) : (ps.map told)[n]? = some p.told := by
    rw [List.getElem?_map, hp]
    rfl
  induction n generalizing p v with
  | zero =>
    have hmem := List.mem_iff_getElem?.2 ⟨0, hp⟩
    obtain ⟨queries, -, hp'⟩ := advance_eq_ok (h.first hp)
    obtain ⟨state, hs⟩ := (hwithin p hmem).balanced.exists_state hv
    have hvalues : p.values = first.values := by rw [hp']
    have hempty := hfirst state (hvalues ▸ List.mem_iff_getElem?.2 ⟨i, hs⟩)
    obtain ⟨b, hb⟩ := Collects.first (hbound p hmem) hv hs hk (.inr hempty)
    rw [(hwithin p hmem).settings] at hb
    rw [hgroup.zero, groupRows_self (htold hp)]
    exact ⟨[b], hb⟩
  | succ n ih =>
    have hmem := List.mem_iff_getElem?.2 ⟨n + 1, hp⟩
    have hnames := (hwithin p hmem).names
    by_cases hbreaks : p.told.BreaksAny (v.resetNames base.report.names)
    · obtain ⟨state, hs⟩ := (hwithin p hmem).balanced.exists_state hv
      obtain ⟨b, hb⟩ := Collects.first (hbound p hmem) hv hs hk (.inl (hnames ▸ hbreaks))
      rw [(hwithin p hmem).settings] at hb
      rw [hgroup.of_breaks (htold hp) hbreaks, groupRows_self (htold hp)]
      exact ⟨[b], hb⟩
    · obtain ⟨hlt, -⟩ := List.getElem?_eq_some_iff.1 hp
      have hp₀ := List.getElem?_eq_getElem (Nat.lt_of_succ_lt hlt)
      obtain ⟨queries, -, hp'⟩ := advance_eq_ok (h.succ hp₀ hp)
      generalize ps[n] = p₀ at hp₀ hp'
      have hmem₀ := List.mem_iff_getElem?.2 ⟨n, hp₀⟩
      have hreport : p.report = p₀.renderRow.1.report := by rw [hp']
      have hvalues : p.values = p₀.renderRow.1.values := by rw [hp']
      obtain ⟨v₀, hv₀, hsame⟩ := exists_same_renderRow (hwithin p₀ hmem₀).balanced (hreport ▸ hv)
      have hgroup₀ := hgroup.of_not_breaks (htold hp) hbreaks
      rw [Variable.resetNames, hsame.resetOnBreak] at hgroup₀
      obtain ⟨vs, hvs⟩ := ih hp₀ hv₀ (hsame.kind ▸ hk) hgroup₀
      rw [← (hwithin p hmem).settings] at hvs
      obtain ⟨b, hb⟩ := hvs.next hreport hvalues (hbound p hmem) hv hk (hnames ▸ hbreaks)
      rw [(hwithin p hmem).settings] at hb
      rw [groupRows_succ hgroup₀.le (htold hp)]
      exact ⟨vs ++ [b], hb⟩

end Progress

namespace Report

variable {r : Report} {w : Workspace} {run : Run} {row : ToldRow} {n i s : Nat} {v : Variable}

theorem countIn_of_ones {vs : List Value} (h : ∀ b ∈ vs, b = .ofInt 1) :
    (∀ b ∈ vs, b.Numeric) ∧ countIn vs = vs.length := by
  have hone : Value.ofInt 1 = .plain (.ofInt 1) := Value.ofInt_eq_plain rfl
  constructor
  · intro b hb
    rw [h b hb, hone]
    exact .inl rfl
  · refine List.countP_eq_length.2 fun b hb => ?_
    rw [h b hb, hone]
    rfl

/-- On each row of a run each aggregate is the aggregate of the base values of its group up to this
row, as long as these are numbers or nulls. Without a base expression every row counts. -/
theorem run_aggregates (hr : r.Reachable) (hw : w.queries.Reachable) (h : r.run w = .ok run)
    (hrow : run.rows[n]? = some row) (hv : row.seen.report.vars[i]? = some v)
    (hk : v.kind.isAggregate = true)
    (hgroup : GroupStart (v.resetNames row.seen.report.names) run.rows s n) :
    ∃ vs x, (groupRows run.rows s n).map (fun row => row.seen.baseValue? i) = vs.map some ∧
      (v.hasBase = false → (∀ b ∈ vs, b.Numeric) ∧ countIn vs = vs.length) ∧
      row.seen.running? i = some x ∧
      (v.precalculated = false → row.seen.result? v.name = some x) ∧
      ((∀ b ∈ vs, b.Numeric) → v.kind.Aggregates w.settings.precision vs x) := by
  have hf := hw.forest
  obtain ⟨prepared, started, first, ps, behind, hruns⟩ := runs_of_run h
  have hwithin := hruns.rows_within hr.sound hf
  obtain ⟨-, -, hbound, -, -⟩ := Progress.kept_bound.run hruns (bound_prepare hr.sound hruns.prepare)
  obtain ⟨hworkspace, -, -⟩ := live_of_prepare hruns.prepare
  have hfirst : ∀ s ∈ first.values.vars, s.accumulator = {} := by
    intro s hs
    obtain ⟨i, hi⟩ := List.mem_iff_getElem?.1 hs
    exact (hruns.fresh_first.state s hi).1
  rw [hruns.rows, List.getElem?_map] at hrow
  obtain ⟨p, hp, rfl⟩ := Option.map_eq_some_iff.1 hrow
  have hmem := List.mem_iff_getElem?.2 ⟨n, hp⟩
  obtain ⟨v₀, hv₀, hsame⟩ := Progress.exists_same_renderRow (hwithin p hmem).balanced hv
  have hnames : p.told.seen.report.names = prepared.report.names :=
    (hwithin p hmem).renderRow.names
  rw [hruns.rows, Variable.resetNames, hsame.resetOnBreak, hnames] at hgroup
  obtain ⟨vs, hvs⟩ :=
    hruns.turns.collects hwithin hbound hfirst hp hv₀ (hsame.kind ▸ hk) hgroup
  obtain ⟨v', hv', -, htexts⟩ := hvs.kept
  obtain rfl := Option.some.inj (hv'.symm.trans hv)
  obtain ⟨state, hs, hholds⟩ := hvs.holds
  have hrunning : p.renderRow.1.running? i = some state.result.current := by
    rw [Progress.running?, hs]
    rfl
  refine ⟨vs, state.result.current, ?_, ?_, hrunning, ?_, ?_⟩
  · rw [hruns.rows]
    exact hvs.values
  · exact fun h => countIn_of_ones (hvs.ones ((Progress.hasBase_of_texts htexts).symm.trans h))
  · intro hprecalculated
    have hsound := (Progress.kept_bound.renderRow (hbound p hmem)).report.varNames
    refine (Progress.result?_eq hsound hv).trans ?_
    rw [hprecalculated]
    exact hrunning
  · intro hnumeric
    obtain ⟨-, hresult⟩ := Accumulator.holds_addAll (hsame.kind ▸ hk) hnumeric
    have hx := hresult hvs.nonempty
    rw [← hholds, hworkspace, ← hsame.kind] at hx
    exact hx

/-- A report that breaks when the key changes and sums the keys up to there. -/
def totaled : Report :=
  let stages := [some keyField, none, none]
  { byKey with vars := [{ name := "s", kind := .sum, stages, resetOnBreak := some "b" }] }

def keySum : VariableDef :=
  { name := "s", kind := .sum, base := some "k", resetOnBreak := some "b" }

theorem totaled_reachable : totaled.Reachable := by
  have hbase : Variable.compileFormula keyed.compiler keySum.base = .ok (some keyField) := by
    change Variable.compileFormula _ (some "k") = _
    rw [Variable.compileFormula, compileText_key]
    rfl
  have hvariable : byKey.newVariable keyed.compiler keySum = .ok totaled := by
    unfold newVariable Variable.compile
    simp only [List.mapM_cons, hbase]
    rfl
  exact .newVariable byKey_reachable hvariable

/-- The second row ends the group of the first two, whose keys are ones. -/
theorem run_aggregates_of_keys :
    totaled.Reachable ∧ keyed.queries.Reachable ∧ ∃ run row v, totaled.run keyed = .ok run ∧
      run.rows[1]? = some row ∧ row.seen.report.vars[0]? = some v ∧ v.kind.isAggregate = true ∧
      GroupStart (v.resetNames row.seen.report.names) run.rows 0 1 ∧
      ∃ vs x, (groupRows run.rows 0 1).map (fun row => row.seen.baseValue? 0) = vs.map some ∧
        row.seen.running? 0 = some x ∧ x = .ofInt 2 ∧ (∀ b ∈ vs, b.Numeric) ∧
        v.kind.Aggregates keyed.settings.precision vs x := by
  have htold : ((totaled.run keyed).toOption.map fun run => run.rows[1]?.bind fun row =>
      row.seen.report.vars[0]?.map fun v => (v.kind, row.broken)) = some (some (.sum, [])) := by
    decide +kernel
  have hgiven : ((totaled.run keyed).toOption.map fun run =>
      ((groupRows run.rows 0 1).map fun row => row.seen.baseValue? 0,
        run.rows[1]?.bind fun row => row.seen.running? 0)) =
      some ([some (.ofInt 1), some (.ofInt 1)], some (.ofInt 2)) := by
    decide +kernel
  obtain ⟨run, hrun, htold⟩ := exists_ok_of_map htold
  obtain ⟨row, hrow, htold⟩ := Option.bind_eq_some_iff.1 htold
  obtain ⟨v, hv, htold⟩ := Option.map_eq_some_iff.1 htold
  obtain ⟨hkind, hbroken⟩ := Prod.mk.inj htold
  rw [hrun] at hgiven
  obtain ⟨hvalues, hrunning⟩ := Prod.mk.inj (Option.some.inj hgiven)
  rw [hrow, Option.bind_some] at hrunning
  have hk : v.kind.isAggregate = true := by rw [hkind]; rfl
  have hstart : GroupStart (v.resetNames row.seen.report.names) run.rows 0 1 := by
    refine ⟨Nat.zero_le 1, .inl rfl, fun t row' hpos hle hrow' => ?_⟩
    obtain rfl : t = 1 := Nat.le_antisymm hle hpos
    obtain rfl := Option.some.inj (hrow.symm.trans hrow')
    rintro ⟨name, -, hname⟩
    rw [hbroken] at hname
    cases hname
  obtain ⟨vs, x, hvs, -, hx, -, haggregates⟩ :=
    run_aggregates totaled_reachable keyed_reachable hrun hrow hv hk hstart
  have hones : ∀ b ∈ vs, b = .ofInt 1 := by
    have hlist : [.ofInt 1, .ofInt 1] = vs :=
      List.map_injective_iff.2 (Option.some_injective Value) (hvalues.symm.trans hvs)
    rw [← hlist]
    exact fun b hb => List.eq_of_mem_replicate (n := 2) hb
  have hnumeric := (countIn_of_ones hones).1
  exact ⟨totaled_reachable, keyed_reachable, run, row, v, hrun, hrow, hv, hk, hstart, vs, x, hvs, hx,
    Option.some.inj (hx.symm.trans hrunning), hnumeric, haggregates hnumeric⟩

def nulls : Table := ⟨[[some "k"], [none], [none]], [.error]⟩

/-- A query with a column of errors that are all null. -/
def erring : Workspace where
  settings := keySettings
  queries := { slots := #[some (.ofTable "q" "a" nulls none)], dirty := true }

/-- A report that counts the keys. -/
def counted : Report :=
  { vars := [{ name := "c", kind := .count, stages := [some keyField, none, none] }] }

/-- A null of the kind of errors is an error all the same, and the result of its row instead of the
number of values. -/
theorem aggregates_of_nulls :
    ∃ run, counted.run erring = .ok run ∧
      run.rows.map (fun row => (row.seen.baseValue? 0).map (·.isNull)) = [some true, some true] ∧
      run.rows.map (fun row => row.seen.running? 0) =
        [some (.null .error), some (.null .error)] ∧
      Value.null .error ≠ .ofInt 0 := by
  have htold : ((counted.run erring).toOption.map fun run =>
      (run.rows.map (fun row => (row.seen.baseValue? 0).map (·.isNull)),
        run.rows.map fun row => row.seen.running? 0)) =
      some ([some true, some true], [some (.null .error), some (.null .error)]) := by
    decide +kernel
  obtain ⟨run, hrun, hrows⟩ := exists_ok_of_map htold
  obtain ⟨hnull, hrunning⟩ := Prod.mk.inj hrows
  exact ⟨run, hrun, hnull, hrunning, by decide +kernel⟩

end Report
end Reporting
