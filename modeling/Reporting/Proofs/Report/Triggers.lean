import Reporting.Proofs.Expr.Alike
import Reporting.Proofs.Function.Exact
import Reporting.Proofs.Query.Previous
import Reporting.Proofs.Report.Course
import Reporting.Proofs.Report.Groups
/-!
When breaks trigger: a break triggers on a row where a field of it or of a break around it has another
value than on the row before, and its row counter counts from there.
-/
namespace Reporting

/-! Values of this row and of the row before -/

namespace Expr

variable {e : Expr} {c : Context} {self : Option Value} {s s' : Scope} {slot slot' : Slot} {v : Value}

theorem source?_evaluate (e : Expr) : (e.evaluate c self).source? = e.source? := by
  cases e with
  | constant => rfl
  | reference => rfl
  | call f es ring g =>
    cases hb : boundTo? ring with
    | some source => rw [evaluate_bound hb]
    | none => rw [evaluate_call hb, source?_call, source?_call, hb, boundTo?_push hb]

theorem value_of_cell (h : e.cell slot = some (.owned v)) : e.value s self slot = v := by
  cases e with
  | constant => cases h
  | reference => cases h
  | call f es ring g =>
    have hring : ring.get slot = some (.owned v) := h
    rw [value, hring]

theorem value_congr_source (hw : e.BoundWhole) (h : e.isComputed = false)
    (hs : ∀ source, e.source? = some source →
      readSource s self slot source = readSource s' self slot' source) :
    e.value s self slot = e.value s' self slot' := by
  cases e with
  | constant => rfl
  | reference r t g =>
    cases t with
    | none => rfl
    | some source => simp only [value, hs source rfl]
  | call f es ring g =>
    obtain ⟨source, hb⟩ := Option.isSome_iff_exists.1 (Option.isNone_eq_false_iff.1 h)
    rw [value, value, hw source hb, Ring.get_fill, Ring.get_fill]
    simp only [hs source hb]

end Expr

namespace Computation

variable {x : Computation} {s s' : Scope} {settings : Settings} {slot slot' : Slot}

/-- An expression that is read from its source has the value that its source has. -/
theorem result_congr_source (hx : x.Sound) (h : x.root.isComputed = false)
    (hs : ∀ source, x.root.source? = some source → source ≠ .self →
      s.lookup? source slot = s'.lookup? source slot') :
    x.result s slot = x.result s' slot' := by
  refine Expr.value_congr_source (hx.counters.node.whole) h fun source hsource => ?_
  by_cases hself : source = .self
  · rw [hself, Expr.readSource, Expr.readSource]
  · have hlookup := hs source hsource hself
    cases source with
    | self => exact (hself rfl).elim
    | _ => exact hlookup

/-- Whether an expression holds a value if it is computed. -/
def Holds (x : Computation) : Prop :=
  x.root.isComputed = true → ∃ v, x.root.cell .current = some (.owned v)

theorem isComputed_evaluate (hx : x.Sound) (c : Context) :
    (x.evaluate c).1.root.isComputed = x.root.isComputed := by
  rw [(evaluate_eq hx.computed c).1, ← Expr.isComputed_forget, Expr.forget_evaluate,
    Expr.isComputed_forget]

theorem holds_evaluate (hx : x.Sound) (s : Scope) :
    (x.evaluate (settings.context s .current)).1.Holds := by
  intro h
  rw [isComputed_evaluate hx] at h
  rw [(evaluate_eq hx.computed _).1]
  exact ⟨_, (Expr.cell_evaluate _ rfl h).1⟩

/-- What an evaluated expression is worth is decided by the source that it reads, if any. -/
theorem Holds.result_congr (h : x.Holds) (hx : x.Sound)
    (hs : ∀ source, x.root.source? = some source → source ≠ .self →
      s.lookup? source .current = s'.lookup? source .current) :
    x.result s .current = x.result s' .current := by
  cases hc : x.root.isComputed with
  | true =>
    obtain ⟨v, hv⟩ := h hc
    rw [result, result, Expr.value_of_cell hv, Expr.value_of_cell hv]
  | false => exact result_congr_source hx hc hs

/-- After an evaluation the previous value is the value that was there before it, if this is so for
the source that the expression reads. -/
theorem Holds.previous (h : x.Holds) (hx : x.Sound)
    (hs : ∀ source, x.root.source? = some source → source ≠ .self →
      s'.lookup? source .previous = s.lookup? source .current) :
    (x.evaluate (settings.context s' .current)).1.result s' .previous = x.result s .current := by
  obtain ⟨hroot, -⟩ := evaluate_eq hx.computed (settings.context s' .current)
  cases hc : x.root.isComputed with
  | true =>
    obtain ⟨v, hv⟩ := h hc
    have hprev := (Expr.cell_evaluate (some (x.before (settings.context s' .current)))
      (rfl : (settings.context s' .current).slot = .current) hc).2
    rw [← hroot, hv] at hprev
    rw [result, result, Expr.value_of_cell hprev, Expr.value_of_cell hv]
  | false =>
    have hinitial : (x.evaluate (settings.context s' .current)).1.initial = x.initial := by
      simp only [evaluate, hx.computed, Bool.and_false, Bool.false_eq_true, if_false]
    have hsame : (x.evaluate (settings.context s' .current)).1.result s' .previous =
        x.result s' .previous := by
      rw [result, result, hroot, Expr.evaluate_of_not_computed hc, hinitial]
    rw [hsame]
    exact result_congr_source hx hc hs

theorem source?_evaluate (hx : x.Sound) (s : Scope) :
    (x.evaluate (settings.context s .current)).1.root.source? = x.root.source? := by
  rw [(evaluate_eq hx.computed _).1, Expr.source?_evaluate]

end Computation

/-! Breaks in a run -/

/-- The sources whose values a family shows on each row, or that are the same on all rows. -/
def Source.ShownBy (family : List QueryId) : Source → Prop
  | .column m _ | .rowNumber m => m ∈ family
  | .environment _ | .self => True
  | _ => False

instance (family : List QueryId) : DecidablePred (Source.ShownBy family)
  | .column m _ => inferInstanceAs (Decidable (m ∈ family))
  | .rowNumber m => inferInstanceAs (Decidable (m ∈ family))
  | .environment _ => .isTrue trivial
  | .self => .isTrue trivial
  | .breakRowNumber _ => .isFalse id
  | .result _ _ => .isFalse id
  | .stage _ _ => .isFalse id

namespace Progress

variable {base p p' q : Progress} {ps : List Progress} {family : List QueryId} {b : Break}
  {x : Computation} {i j k n : Nat} {more : Bool} {settings : Settings}

/-- A run whose break fields read by themselves what a family shows. -/
structure Breakable (family : List QueryId) (p : Progress) : Prop extends Sound p where
  counted : p.values.breakRows.length = p.report.breaks.length
  shown : ∀ b ∈ p.report.breaks, ∀ x ∈ b.fields, ∀ source ∈ x.root.source?,
    source.ShownBy family

theorem Breakable.of_same (h : p.Breakable family) (hs : p'.Sound)
    (hb : p'.report.breaks = p.report.breaks) (hr : p'.values.breakRows = p.values.breakRows) :
    p'.Breakable family := by
  refine ⟨hs, ?_, ?_⟩
  · rw [hb, hr]
    exact h.counted
  · rw [hb]
    exact h.shown

theorem Breakable.evaluateBreaks (h : p.Breakable family) (pass : Pass) :
    (p.evaluateBreaks pass).1.Breakable family := by
  refine ⟨h.toSound.evaluateBreaks pass, ?_, ?_⟩
  · rw [breaks_evaluateBreaks, List.length_map, ← h.counted]
    exact List.length_mapIdx
  · rw [breaks_evaluateBreaks]
    intro b' hb' x' hx'
    obtain ⟨b, hb, rfl⟩ := List.mem_map.1 hb'
    obtain ⟨x, hx, rfl⟩ := List.mem_map.1 hx'
    unfold context
    rw [Computation.source?_evaluate (h.report.fields b hb x hx)]
    exact h.shown b hb x hx

theorem Breakable.finished (h : p.Breakable family) (pass : Pass) :
    (p.finished pass).Breakable family := by
  have hb := finished_beside h.balanced pass
  exact (h.evaluateBreaks pass).of_same (h.toSound.finished pass) hb.breaks hb.breakRows

theorem Breakable.reset (h : p.Breakable family) : p.reset.Breakable family := by
  refine ⟨sound_reset h.report, ?_, ?_⟩
  · simp only [Progress.reset, ReportValues.ofSizes, List.length_replicate, List.length_map]
  · intro b' hb' x' hx'
    obtain ⟨b, hb, rfl⟩ := List.mem_map.1 hb'
    obtain ⟨x, hx, rfl⟩ := List.mem_map.1 hx'
    exact h.shown b hb x hx

theorem kept_breakable (family : List QueryId) : Kept (Breakable family) where
  advance h hp := by
    obtain ⟨queries, -, rfl⟩ := advance_eq_ok hp
    exact h.of_same (h.toSound.advance hp) rfl rfl
  rewind h hp := by
    obtain ⟨-, rfl⟩ := rewind_eq_ok hp
    exact h.of_same (h.toSound.rewind hp) rfl rfl
  finished pass h := h.finished pass
  evaluateExpressions h := h.of_same h.toSound.evaluateExpressions rfl rfl
  again h := h.reset.of_same h.toSound.again rfl rfl

/-! A row and the row before -/

/-- The value of a field of a break. -/
def fieldValue? (p : Progress) (j k : Nat) : Option Value :=
  (p.report.breaks[j]?.bind fun b => b.fields[k]?).map fun x =>
    x.result (p.scope .final none) .current

theorem lookup?_shown {source : Source} (hs : source.ShownBy family) (hself : source ≠ .self)
    (p : Progress) (slot : Slot) :
    (p.scope .final none).lookup? source slot =
      p.workspace.queries.lookup? (some p.workspace.environment) source slot := by
  cases source with
  | column => rfl
  | rowNumber => rfl
  | environment => rfl
  | self => exact (hself rfl).elim
  | breakRowNumber => exact hs.elim
  | result => exact hs.elim
  | stage => exact hs.elim

/-- Where nothing is combined, the previous values of a row are the values of the row before. -/
theorem lookup?_previous {p₀ : Progress} (hp₀ : Within base p₀)
    (hf : QueryStore.Forest base.workspace.queries)
    (hm : ∀ m, ¬ base.workspace.queries.UnderMatched base.main m)
    (h₀ : p₀.advance = .ok (p, true)) (hw : q.workspace = p.workspace) (hq : q.main = base.main)
    (h : q.advance = .ok (p', true)) {source : Source}
    (hs : source.ShownBy (base.workspace.queries.family base.main)) (hself : source ≠ .self) :
    (p'.scope .final none).lookup? source .previous =
      (q.scope .final none).lookup? source .current := by
  have hforest := hp₀.forest hf
  rw [lookup?_shown hs hself, lookup?_shown hs hself]
  obtain ⟨s, hrow, hp⟩ := advance_eq_ok h₀
  obtain ⟨s', hnext, rfl⟩ := advance_eq_ok h
  have hqueries : q.workspace.queries = s := by rw [hw, hp]
  have hsettings : q.workspace.settings = p₀.workspace.settings := by rw [hw, hp]
  rw [hqueries, hsettings, hq] at hnext
  rw [hp₀.main] at hrow
  rw [hqueries]
  have hmember {m : QueryId} (hmem : m ∈ base.workspace.queries.family base.main) :
      m ∈ p₀.workspace.queries.family base.main ∧
        ¬ p₀.workspace.queries.UnderMatched base.main m := by
    rw [QueryStore.family_of_still hp₀.still, hf.family_finalize,
      QueryStore.underMatched_of_still hp₀.still, QueryStore.underMatched_finalize]
    exact ⟨hmem, hm m⟩
  cases source with
  | column m i =>
    obtain ⟨hmem, hnot⟩ := hmember hs
    exact QueryStore.previous_of_row hforest hrow hnext hmem hnot (.inr ⟨i, rfl⟩)
  | rowNumber m =>
    obtain ⟨hmem, hnot⟩ := hmember hs
    exact QueryStore.previous_of_row hforest hrow hnext hmem hnot (.inl rfl)
  | environment => rfl
  | self => exact (hself rfl).elim
  | breakRowNumber => exact hs.elim
  | result => exact hs.elim
  | stage => exact hs.elim

theorem breaks_renderRow (hb : p.Balanced) : p.renderRow.1.report.breaks =
    p.report.breaks.map fun b => (b.evaluate (p.context .final none)).1 := by
  rw [renderRow_fst]
  change (p.finished .final).report.breaks = _
  rw [(finished_beside hb .final).breaks, breaks_evaluateBreaks]

theorem holds_renderRow (hp : p.Sound) :
    ∀ b ∈ p.renderRow.1.report.breaks, ∀ x ∈ b.fields, x.Holds := by
  rw [breaks_renderRow hp.balanced]
  intro b' hb' x' hx'
  obtain ⟨b, hb, rfl⟩ := List.mem_map.1 hb'
  obtain ⟨x, hx, rfl⟩ := List.mem_map.1 hx'
  exact Computation.holds_evaluate (hp.report.fields b hb x hx) _

/-- The value of a field on a row is the one that it was compared with. -/
theorem fieldValue?_renderRow (hp : p.Breakable family) (hw : p.renderRow.1.workspace = p.workspace)
    (hb : p.report.breaks[j]? = some b) (hx : b.fields[k]? = some x) :
    p.renderRow.1.fieldValue? j k =
      some ((x.evaluate (p.context .final none)).1.result (p.scope .final none) .current) := by
  have hmem := List.mem_iff_getElem?.2 ⟨j, hb⟩
  have hmem' := List.mem_iff_getElem?.2 ⟨k, hx⟩
  have hsound := hp.report.fields b hmem x hmem'
  rw [fieldValue?, breaks_renderRow hp.balanced, List.getElem?_map, hb, Option.map_some,
    Option.bind_some]
  simp only [Break.evaluate, List.getElem?_map, hx, Option.map_some]
  unfold context
  rw [(Computation.holds_evaluate hsound _).result_congr (hsound.evaluate _)]
  intro source hsource hself
  rw [Computation.source?_evaluate hsound] at hsource
  have hshown := hp.shown b hmem x hmem' source hsource
  rw [lookup?_shown hshown hself, lookup?_shown hshown hself, hw]

theorem exists_break_of_fieldValue? (hb : p.Balanced) {v : Value}
    (h : p.renderRow.1.fieldValue? j k = some v) : ∃ b, p.report.breaks[j]? = some b := by
  obtain ⟨x, hx, -⟩ := Option.map_eq_some_iff.1 h
  obtain ⟨b, hb', -⟩ := Option.bind_eq_some_iff.1 hx
  rw [breaks_renderRow hb, List.getElem?_map] at hb'
  exact (Option.map_eq_some_iff.1 hb').imp fun _ hb => hb.1

/-- A row of a pass is entered from the row before it, or from the state in which the pass begins. -/
theorem Turns.exists_before {first : Progress} (h : Turns (fun p => p.renderRow.1) first ps q)
    (hfirst : Within base first) (hwithin : ∀ p ∈ ps, Within base p) (hp : ps[n]? = some p) :
    ∃ p₀, Within base p₀ ∧ p₀.advance = .ok (p, true) := by
  cases n with
  | zero => exact ⟨first, hfirst, h.first hp⟩
  | succ n =>
    have hlt := (List.getElem?_eq_some_iff.1 hp).1
    have hp₀ := List.getElem?_eq_getElem (Nat.lt_of_succ_lt hlt)
    exact ⟨_, (hwithin _ (List.mem_iff_getElem?.2 ⟨n, hp₀⟩)).renderRow, h.succ hp₀ hp⟩

/-- A break finds one of its fields changed where a value differs from that of the row before. -/
theorem changed_iff {p₀ : Progress} (hp₀ : Within base p₀)
    (hf : QueryStore.Forest base.workspace.queries)
    (hm : ∀ m, ¬ base.workspace.queries.UnderMatched base.main m)
    (h₀ : p₀.advance = .ok (p, true))
    (hp : p.Breakable (base.workspace.queries.family base.main))
    (h : p.renderRow.1.advance = .ok (p', true)) (hb : p'.report.breaks[j]? = some b) :
    (b.evaluate (p'.context .final none)).2 = true ↔
      ∃ k v v', p.renderRow.1.fieldValue? j k = some v ∧ p'.renderRow.1.fieldValue? j k = some v' ∧
        v'.sameAs v = false := by
  have hwithin := hp₀.advance hf h₀
  have hseen := hwithin.renderRow
  have hbreakable := (kept_breakable _).renderRow hp
  have hp' := (kept_breakable _).advance hbreakable h
  have hreport : p'.report = p.renderRow.1.report := by
    obtain ⟨queries, -, rfl⟩ := advance_eq_ok h
    rfl
  have hwithin' := hseen.advance hf h
  have hb₀ : p.renderRow.1.report.breaks[j]? = some b := by rw [← hreport]; exact hb
  have hmem := List.mem_iff_getElem?.2 ⟨j, hb₀⟩
  have hprev {k : Nat} {x : Computation} (hx : b.fields[k]? = some x) :
      (x.evaluate (p'.context .final none)).1.result (p'.scope .final none) .previous =
        x.result (p.renderRow.1.scope .final none) .current := by
    have hmem' := List.mem_iff_getElem?.2 ⟨k, hx⟩
    refine (holds_renderRow hp.toSound b hmem x hmem').previous
      (hbreakable.report.fields b hmem x hmem') fun source hsource hself => ?_
    exact lookup?_previous hp₀ hf hm h₀ hwithin.workspace_renderRow.1 hseen.main h
      (hbreakable.shown b hmem x hmem' source hsource) hself
  have hvalue {k : Nat} {x : Computation} (hx : b.fields[k]? = some x) :
      p.renderRow.1.fieldValue? j k = some (x.result (p.renderRow.1.scope .final none) .current) := by
    rw [fieldValue?, hb₀, Option.bind_some, hx, Option.map_some]
  have hvalue' {k : Nat} {x : Computation} (hx : b.fields[k]? = some x) :=
    fieldValue?_renderRow hp' hwithin'.workspace_renderRow.1 hb hx
  simp only [Break.evaluate, List.any_map, List.any_eq_true, Function.comp_apply,
    Bool.not_eq_true']
  constructor
  · rintro ⟨x, hx, hchanged⟩
    obtain ⟨k, hk⟩ := List.mem_iff_getElem?.1 hx
    refine ⟨k, _, _, hvalue hk, hvalue' hk, ?_⟩
    rw [← hprev hk]
    exact hchanged
  · rintro ⟨k, v, v', hv, hv', hchanged⟩
    cases hk : b.fields[k]? with
    | none =>
      rw [fieldValue?, hb₀, Option.bind_some, hk] at hv
      cases hv
    | some x =>
      refine ⟨x, List.mem_iff_getElem?.2 ⟨k, hk⟩, ?_⟩
      rw [hvalue hk] at hv
      rw [hvalue' hk] at hv'
      cases hv
      cases hv'
      rw [← hprev hk] at hchanged
      exact hchanged

/-! Row counters -/

theorem idxOf?_of_nodup {names : List String} {name : String} (hn : names.Nodup)
    (h : names[i]? = some name) : names.idxOf? name = some i := by
  obtain ⟨hi, rfl⟩ := List.getElem?_eq_some_iff.1 h
  refine List.findIdx?_eq_some_iff_getElem.2 ⟨hi, beq_self_eq_true _, fun j hj he => ?_⟩
  exact Nat.ne_of_lt hj ((List.getElem_inj hn).1 (eq_of_beq he))

theorem breakRow?_eq {name : String} (hn : p.report.names.breaks.Nodup)
    (h : p.report.names.breaks[i]? = some name) :
    p.breakRow? name = p.values.breakRows[i]?.map fun ring => ring.current := by
  change ((p.report.names.breaks.idxOf? name).map Source.breakRowNumber).bind _ = _
  rw [idxOf?_of_nodup hn h, Option.map_some, Option.bind_some]
  change (p.values.breakRows[i]?.bind fun ring => some (ring.get .current)) = _
  cases p.values.breakRows[i]? <;> rfl

/-- The row counter of a break goes on until the break triggers. -/
theorem breakRows_renderRow (hb : p.Balanced) (i : Nat) :
    p.renderRow.1.values.breakRows[i]? = p.values.breakRows[i]?.map fun ring =>
      ring.push .current (nextCount p.workspace.settings.precision
        (p.row ≠ 1 && (p.fired .final).all (i < ·)) ring.current) := by
  rw [renderRow_fst]
  change (p.finished .final).values.breakRows[i]? = _
  rw [(finished_beside hb .final).breakRows]
  exact List.getElem?_mapIdx

theorem nextCount_false (precision : Precision) (v : Value) :
    nextCount precision false v = .ofInt 1 := by
  unfold nextCount
  split <;> rfl

theorem nextCount_true {precision : Precision} {k : Nat} (hk : Decimal.Fits precision ↑(k + 1)) :
    nextCount precision true (.ofInt ↑k) = .ofInt ↑(k + 1) := by
  have hk₀ : Decimal.Fits precision ↑k := Nat.lt_of_succ_lt hk
  have h1 : Decimal.Fits precision 1 :=
    Nat.lt_of_le_of_lt (Nat.le_add_left 1 k) hk
  have hnumber : (Value.ofInt ↑k).number? = some (.ofInt ↑k) := by
    rw [Value.ofInt, Value.number, if_pos hk₀.inRange]
    rfl
  unfold nextCount
  rw [hnumber]
  change Value.number ((Decimal.ofInt ↑k).add (.ofInt 1) precision) = _
  rw [hk₀.add h1 hk]
  rfl

/-- On each row the row counter of a break starts over or goes on. -/
theorem exists_counter (hw : Within base p) (hp : p.Breakable family)
    (hn : base.report.names.breaks.Nodup) {name : String}
    (hname : base.report.names.breaks[i]? = some name) :
    ∃ ring, p.values.breakRows[i]? = some ring ∧ p.renderRow.1.breakRow? name =
      some (nextCount base.workspace.settings.precision
        (p.row ≠ 1 && (p.fired .final).all (i < ·)) ring.current) := by
  have hi : i < p.values.breakRows.length := by
    have hlt := (List.getElem?_eq_some_iff.1 hname).1
    rw [← hw.names] at hlt
    simpa only [hp.counted, Report.names, List.length_map] using hlt
  refine ⟨_, List.getElem?_eq_getElem hi, ?_⟩
  rw [← hw.renderRow.names] at hn hname
  rw [breakRow?_eq hn hname, breakRows_renderRow hw.balanced, List.getElem?_eq_getElem hi,
    hw.settings]
  rfl

/-- Throughout a pass the row counter of a break counts the rows of its group. -/
theorem Turns.counts {first : Progress} (h : Turns (fun p => p.renderRow.1) first ps q)
    (hps : ∀ p ∈ ps, p.Breakable family)
    (hwithin : ∀ n p, ps[n]? = some p → Within base p ∧ p.row = n + 1)
    (hn : base.report.names.breaks.Nodup)
    (hroom : Decimal.Fits base.workspace.settings.precision ps.length) {name : String} {s : Nat}
    (hname : base.report.names.breaks[i]? = some name) (hp : ps[n]? = some p)
    (hgroup : GroupStart (base.report.names.breaks.take (i + 1)) (ps.map told) s n) :
    p.renderRow.1.breakRow? name = some (.ofInt ↑(n - s + 1)) := by
  have hcounter {n : Nat} {p : Progress} (hp : ps[n]? = some p) :=
    exists_counter (hwithin n p hp).1 (hps p (List.mem_iff_getElem?.2 ⟨n, hp⟩)) hn hname
  induction n generalizing p s with
  | zero =>
    obtain ⟨ring, -, hrow⟩ := hcounter hp
    obtain rfl := hgroup.zero
    rw [hrow, (hwithin 0 p hp).2]
    exact congrArg some (nextCount_false _ _)
  | succ n ih =>
    obtain ⟨hlt, -⟩ := List.getElem?_eq_some_iff.1 hp
    have hp₀ := List.getElem?_eq_getElem (Nat.lt_of_succ_lt hlt)
    generalize ps[n] = p₀ at hp₀
    obtain ⟨ring, hring, hrow⟩ := hcounter hp
    obtain ⟨hw, hnumber⟩ := hwithin (n + 1) p hp
    have htold : (ps.map told)[n + 1]? = some p.told := by
      rw [List.getElem?_map, hp]
      rfl
    have hbreaks := breaksAny_told (p := p) (by rw [hw.names]; exact hn) i
    rw [hw.names] at hbreaks
    rw [hrow, show decide (p.row ≠ 1) = true from decide_eq_true (by omega), Bool.true_and]
    by_cases hb : p.told.BreaksAny (base.report.names.breaks.take (i + 1))
    · obtain rfl := hgroup.of_breaks htold hb
      obtain ⟨f, hf, hle⟩ := hbreaks.1 hb
      have hstops : (p.fired .final).all (i < ·) = false := by
        rw [hf]
        exact decide_eq_false (Nat.not_lt.2 hle)
      rw [hstops, nextCount_false, Nat.sub_self]
      rfl
    · have hgroup₀ := hgroup.of_not_breaks htold hb
      have hcontinues : (p.fired .final).all (i < ·) = true := by
        cases hf : p.fired .final with
        | none => rfl
        | some f => exact decide_eq_true (Nat.not_le.1 fun hle => hb (hbreaks.2 ⟨f, hf, hle⟩))
      have hseen := ih hp₀ hgroup₀
      have hw₀ := (hwithin n p₀ hp₀).1.renderRow
      rw [breakRow?_eq (by rw [hw₀.names]; exact hn) (by rw [hw₀.names]; exact hname)] at hseen
      have hvalues : p.values = p₀.renderRow.1.values := by
        obtain ⟨queries, -, rfl⟩ := advance_eq_ok (h.succ hp₀ hp)
        rfl
      rw [hvalues] at hring
      rw [hring, Option.map_some] at hseen
      have hle := hgroup₀.le
      have hfits : Decimal.Fits base.workspace.settings.precision ↑(n - s + 1 + 1) :=
        Nat.lt_of_le_of_lt (show n - s + 1 + 1 ≤ ps.length by omega) hroom
      rw [hcontinues, Option.some.inj hseen, nextCount_true hfits]
      congr 4
      omega

end Progress

/-! Whole runs -/

/-- The rows of a run break where the fields of its breaks change, and are counted from there. -/
structure BreakLaw (names : List String) (precision : Precision) (rows : List ToldRow) : Prop where
  nested : ∀ row ∈ rows, row.broken <:+ names
  first : ∀ row, rows[0]? = some row → row.broken = []
  changes : ∀ n before row i name, rows[n]? = some before → rows[n + 1]? = some row →
    names[i]? = some name →
      (name ∈ row.broken ↔ ∃ j ≤ i, ∃ k v v', before.seen.fieldValue? j k = some v ∧
        row.seen.fieldValue? j k = some v' ∧ v'.sameAs v = false)
  counts : rows.length < 10 ^ precision.digits → rows.length < 2 ^ 64 →
    ∀ n row i name s, rows[n]? = some row → names[i]? = some name →
      GroupStart (names.take (i + 1)) rows s n →
        row.seen.breakRow? name = some (.ofInt ↑(n - s + 1))

namespace Report

variable {r : Report} {w : Workspace} {p : Progress} {run : Run}
  {prepared started first behind : Progress} {ps : List Progress}

theorem Runs.breakLaw (h : r.Runs w run prepared started first ps behind) (hr : r.Sound)
    (hf : QueryStore.Forest w.queries)
    (hm : ∀ m, ¬ w.queries.UnderMatched prepared.main m)
    (hb : prepared.Breakable (w.queries.family prepared.main)) :
    BreakLaw prepared.report.names.breaks w.settings.precision run.rows := by
  obtain ⟨hw, -⟩ := live_of_prepare h.prepare
  obtain ⟨-, hfirst, -, hwithin, -⟩ := h.within hr hf
  have hrows := h.rows_within hr hf
  rw [← hw] at hf hm hb ⊢
  obtain ⟨-, -, hps, -⟩ := (Progress.kept_breakable _).run h hb
  have hn : prepared.report.names.breaks.Nodup := hb.report.breakNames
  have htold {n : Nat} {row : ToldRow} (hrow : run.rows[n]? = some row) :
      ∃ p, ps[n]? = some p ∧ row = p.told := by
    rw [h.rows, List.getElem?_map] at hrow
    obtain ⟨p, hp, rfl⟩ := Option.map_eq_some_iff.1 hrow
    exact ⟨p, hp, rfl⟩
  have hmem {n : Nat} {p : Progress} (hp : ps[n]? = some p) : p ∈ ps :=
    List.mem_iff_getElem?.2 ⟨n, hp⟩
  refine ⟨?_, ?_, ?_, ?_⟩
  · intro row hrow
    obtain ⟨n, hn⟩ := List.mem_iff_getElem?.1 hrow
    obtain ⟨p, hp, rfl⟩ := htold hn
    rw [← (hwithin n p hp).1.names]
    exact p.suffix_told
  · intro row hrow
    obtain ⟨p, hp, rfl⟩ := htold hrow
    rw [Progress.broken_told, Progress.fired_eq, if_pos (hwithin 0 p hp).2]
    rfl
  · intro n before row i name hbefore hrow hname
    obtain ⟨p, hp, rfl⟩ := htold hbefore
    obtain ⟨p', hp', rfl⟩ := htold hrow
    obtain ⟨hw', hnumber⟩ := hwithin (n + 1) p' hp'
    obtain ⟨p₀, hp₀, hadvance⟩ := h.turns.exists_before hfirst hrows hp
    have hnext := h.turns.succ hp hp'
    rw [← hw'.names] at hn hname
    rw [Progress.mem_broken_told hn hname, Progress.fired_eq, if_neg (by omega), exists_findIdx?_le]
    constructor
    · rintro ⟨j, hj, b, hbj, hchanged⟩
      exact ⟨j, hj, (Progress.changed_iff hp₀ hf hm hadvance (hps p (hmem hp)) hnext hbj).1 hchanged⟩
    · rintro ⟨j, hj, k, v, v', hv, hv', hdiffer⟩
      obtain ⟨b, hbj⟩ := Progress.exists_break_of_fieldValue? hw'.balanced hv'
      exact ⟨j, hj, b, hbj, (Progress.changed_iff hp₀ hf hm hadvance (hps p (hmem hp)) hnext hbj).2
        ⟨k, v, v', hv, hv', hdiffer⟩⟩
  · intro hdigits hmemory n row i name s hrow hname hgroup
    obtain ⟨p, hp, rfl⟩ := htold hrow
    rw [h.rows] at hgroup hdigits hmemory
    rw [List.length_map] at hdigits hmemory
    have hroom : Decimal.Fits prepared.workspace.settings.precision ps.length :=
      Decimal.fits_of_lt hdigits hmemory
    exact h.turns.counts hps hwithin hn hroom hname hp hgroup

/-- Where nothing is combined and the break fields read the family of the main query, a report that
can be prepared can be run. It tells its rows in their order, each after the breaks that trigger on it,
and counts both. A break triggers where a field of it or of a break around it has another value than on
the row before, and its row counter counts the rows from there. -/
theorem run_breaks (hr : r.Reachable) (hw : w.queries.Reachable) (hp : r.prepare w = .ok p)
    (hmatched : ∀ m ∈ w.queries.family p.main, w.queries.matchedIds m = [])
    (hshown : ∀ b ∈ p.report.breaks, ∀ x ∈ b.fields, ∀ source ∈ x.root.source?,
      source.ShownBy (w.queries.family p.main)) :
    ∃ run, r.run w = .ok run ∧
      run.trace.map (·.event) = (if p.asksAhead then [.precalculated] else []) ++
        .start :: (run.rows.flatMap fun row => row.broken.map .broke ++ [.row]) ++ [.done] ∧
      run.summary = ⟨run.rows.length, (run.rows.map fun row => row.broken.length).sum⟩ ∧
      run.rows.map (fun row => row.seen.workspace.queries.shownRow p.main) =
        w.queries.rows w.settings p.main ∧
      BreakLaw p.report.names.breaks w.settings.precision run.rows := by
  have hf := hw.forest
  obtain ⟨run, hrun⟩ := exists_run hr.sound hf hp
  obtain ⟨prepared, started, first, ps, behind, hruns⟩ := runs_of_run hrun
  obtain rfl := Except.ok.inj (hp.symm.trans hruns.prepare)
  have hjoinable : w.queries.Joinable p.main := by
    intro m hm q hq x hx
    have hnone := hmatched m hm
    rw [QueryStore.matchedIds, hq] at hnone
    have hmem := List.mem_map_of_mem (f := Matched.query) hx
    rw [show q.matched.map Matched.query = [] from hnone] at hmem
    cases hmem
  have hbreakable : p.Breakable (w.queries.family p.main) := by
    refine ⟨hr.sound.prepare hp, ?_, hshown⟩
    obtain ⟨main, -, -, rfl⟩ := prepare_eq_ok hp
    simp only [Progress.reset, ReportValues.ofSizes, List.length_replicate, List.length_map]
  exact ⟨run, hrun, hruns.events, hruns.counted, hruns.shows hr.sound hf hjoinable,
    hruns.breakLaw hr.sound hf (hf.not_underMatched hmatched) hbreakable⟩

def keys : Table := ⟨[[some "k"], [some "1"], [some "1"], [some "2"]], [.number]⟩
def seven : Table := ⟨[[some "v"], [some "7"]], [.number]⟩
def keySettings : Settings := ⟨.ofBits 64 .nearest, .dayFirst, false, {}⟩

/-- A query with a key column. -/
def keyed : Workspace where
  settings := keySettings
  queries := { slots := #[some (.ofTable "q" "a" keys none)], dirty := true }

theorem keyed_reachable : keyed.queries.Reachable := .insert "q" "a" keys none .empty rfl

def keyField : Computation :=
  { root := .reference (.column (.plain "k")) none false, source := "k" }

/-- A report that breaks when the key changes. -/
def byKey : Report := { breaks := [{ name := "b", fields := [keyField] }] }

theorem compileText_key : keyed.compiler.compileText "k" = .ok keyField := by
  have hparse : Formula.parse "k" = .ok (.column (.plain "k")) := by cbv
  rw [Compiler.compileText, hparse]
  rfl

theorem byKey_reachable : byKey.Reachable := by
  have hbreak : Report.newBreak {} keyed.compiler { name := "b", fields := ["k"] } = .ok byKey := by
    unfold Report.newBreak Break.compile
    simp only [List.mapM_cons, compileText_key]
    rfl
  exact .newBreak (.empty none) hbreak

/-- The key changes on the third row only. -/
theorem run_breaks_of_keys :
    byKey.Reachable ∧ keyed.queries.Reachable ∧ ∃ p, byKey.prepare keyed = .ok p ∧
      (∀ m ∈ keyed.queries.family p.main, keyed.queries.matchedIds m = []) ∧
      (∀ b ∈ p.report.breaks, ∀ x ∈ b.fields, ∀ source ∈ x.root.source?,
        source.ShownBy (keyed.queries.family p.main)) ∧
      ∃ run, byKey.run keyed = .ok run ∧ run.summary = ⟨3, 1⟩ ∧
        run.rows.map (·.broken) = [[], [], ["b"]] ∧
        BreakLaw p.report.names.breaks keyed.settings.precision run.rows := by
  have hcheck : ((byKey.prepare keyed).toOption.map fun (p : Progress) =>
      (decide (∀ m ∈ keyed.queries.family p.main, keyed.queries.matchedIds m = []),
        decide (∀ b ∈ p.report.breaks, ∀ x ∈ b.fields, ∀ source ∈ x.root.source?,
          source.ShownBy (keyed.queries.family p.main)))) = some (true, true) := by
    decide +kernel
  obtain ⟨p, hp, hchecks⟩ := exists_ok_of_map hcheck
  rw [Prod.mk.injEq, decide_eq_true_eq, decide_eq_true_eq] at hchecks
  obtain ⟨hmatched, hshown⟩ := hchecks
  obtain ⟨run, hrun, -, -, -, hlaw⟩ :=
    run_breaks byKey_reachable keyed_reachable hp hmatched hshown
  have htold : ((byKey.run keyed).toOption.map fun run => (run.summary, run.rows.map (·.broken))) =
      some (⟨3, 1⟩, [[], [], ["b"]]) := by
    decide +kernel
  rw [hrun] at htold
  obtain ⟨hsummary, hbroken⟩ := Prod.mk.inj (Option.some.inj htold)
  exact ⟨byKey_reachable, keyed_reachable, p, hp, hmatched, hshown, run, hrun, hsummary, hbroken, hlaw⟩

/-- Two queries that do not follow each other; the second one stands on its first row. -/
def besides : Workspace where
  settings := keySettings
  queries :=
    let s : QueryStore :=
      { slots := #[some (.ofTable "q" "a" keys none), some (.ofTable "f" "a" seven none)]
        dirty := true }
    match (s.start ⟨1⟩).1.next keySettings ⟨1⟩ with
    | .ok (s, _) => s
    | .error _ => s

def counterField : Computation where
  root := .ofCall (.builtin ⟨"rownum", .rownum, .variadic, .volatile⟩) [.constant (.text "f") true]
  source := "rownum('f')"

/-- A report that breaks when the row counter of the other query changes. -/
def byCounter : Report := { breaks := [{ name := "b", fields := [counterField] }] }

/-- A counter of a query that does not go along keeps the previous value that it was left with, and
the break triggers although the value never changes. -/
theorem breaks_of_counter :
    ∃ run, byCounter.run besides = .ok run ∧ run.rows.map (·.broken) = [[], ["b"], ["b"]] ∧
      run.rows.map (fun row => row.seen.fieldValue? 0 0) =
        [some (.ofInt 1), some (.ofInt 1), some (.ofInt 1)] := by
  have htold : ((byCounter.run besides).toOption.map fun run => (run.rows.map (·.broken),
      run.rows.map fun row => row.seen.fieldValue? 0 0)) =
      some ([[], ["b"], ["b"]], [some (.ofInt 1), some (.ofInt 1), some (.ofInt 1)]) := by
    decide +kernel
  obtain ⟨run, hrun, hrows⟩ := exists_ok_of_map htold
  obtain ⟨hbroken, hvalues⟩ := Prod.mk.inj hrows
  exact ⟨run, hrun, hbroken, hvalues⟩

end Report
end Reporting
