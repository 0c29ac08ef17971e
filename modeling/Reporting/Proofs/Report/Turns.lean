import Reporting.Proofs.Report.Row
import Mathlib.Algebra.Order.Ring.Nat
/-!
The rows of a pass as a list, and what is told of them: a run is the events of its rows one after
another, between those of its start and of its end.
-/
namespace Reporting

namespace Progress

variable {p p' q : Progress} {ps : List Progress} {step : Progress → Progress} {n m : Nat}
  {summary : Summary} {run : Run}

/-- The states in which the rows of a pass begin, and the state behind the last of them. -/
inductive Turns (step : Progress → Progress) : Progress → List Progress → Progress → Prop
  | none (p : Progress) : Turns step p [] p
  | next {p p' q : Progress} {ps : List Progress} : p.advance = .ok (p', true) →
      Turns step (step p') ps q → Turns step p (p' :: ps) q

namespace Turns

theorem first (h : Turns step p ps q) (hp : ps[0]? = some p') : p.advance = .ok (p', true) := by
  cases h with
  | none => cases hp
  | next hadvance _ =>
    cases hp
    exact hadvance

theorem succ (h : Turns step p ps q) {p₁ : Progress} (h₁ : ps[n]? = some p₁)
    (h₂ : ps[n + 1]? = some p') : (step p₁).advance = .ok (p', true) := by
  induction h generalizing n with
  | none => cases h₁
  | next _ hrest ih =>
    cases n with
    | zero =>
      cases h₁
      exact hrest.first h₂
    | succ n => exact ih h₁ h₂

/-- What each row keeps holds when a row begins. -/
theorem invariant {I : Progress → Prop} (h : Turns step p ps q) (hp : I p)
    (hstep : ∀ p p', I p → p.advance = .ok (p', true) → I (step p')) :
    I q ∧ ∀ p' ∈ ps, ∃ p₀, I p₀ ∧ p₀.advance = .ok (p', true) := by
  induction h with
  | none => exact ⟨hp, List.forall_mem_nil _⟩
  | next hadvance _ ih =>
    obtain ⟨hq, hps⟩ := ih (hstep _ _ hp hadvance)
    exact ⟨hq, List.forall_mem_cons.2 ⟨⟨_, hp, hadvance⟩, hps⟩⟩

theorem last (h : Turns step p ps q) (hlast : ps.getLast? = some p') : q = step p' := by
  induction h with
  | none => cases hlast
  | @next p p₁ q ps _ hrest ih =>
    cases ps with
    | nil =>
      cases hlast
      cases hrest
      rfl
    | cons p₂ ps => exact ih (by rwa [List.getLast?_cons_cons] at hlast)

end Turns

/-- A row that is entered: the store has moved, and the row has a number. -/
theorem advance_eq_ok {more : Bool} (h : p.advance = .ok (p', more)) :
    ∃ queries, p.workspace.queries.next p.workspace.settings p.main = .ok (queries, more) ∧
      p' = { p with
        workspace := { p.workspace with queries }
        row := if more then p.row + 1 else p.row } := by
  unfold advance Workspace.next at h
  cases hn : p.workspace.queries.next p.workspace.settings p.main with
  | error e =>
    rw [hn] at h
    cases h
  | ok r =>
    obtain ⟨queries, produced⟩ := r
    rw [hn] at h
    cases h
    exact ⟨queries, rfl, rfl⟩

theorem advance_of_next {queries : QueryStore} {more : Bool}
    (h : p.workspace.queries.next p.workspace.settings p.main = .ok (queries, more)) :
    p.advance = .ok ({ p with
      workspace := { p.workspace with queries }
      row := if more then p.row + 1 else p.row }, more) := by
  unfold advance Workspace.next
  rw [h]
  rfl

theorem rewind_eq_ok (h : p.rewind = .ok p') :
    (p.workspace.queries.start p.main).2 = .ok () ∧
      p' = { p with workspace :=
        { p.workspace with queries := (p.workspace.queries.start p.main).1 } } := by
  unfold rewind Workspace.start at h
  generalize p.workspace.queries.start p.main = started at h ⊢
  obtain ⟨queries, outcome⟩ := started
  cases outcome with
  | error e => cases h
  | ok =>
    cases h
    exact ⟨rfl, rfl⟩

/-- The end of a pass of at most `n` rows: nothing is left behind its last row, or there were `n`. -/
inductive Ends (n : Nat) (ps : List Progress) (behind last : Progress) : Prop
  | done : behind.advance = .ok (last, false) → ps.length < n → Ends n ps behind last
  | full : ps.length = n → last = behind → Ends n ps behind last

theorem Ends.cons (h : Ends n ps q p) (p' : Progress) : Ends (n + 1) (p' :: ps) q p := by
  cases h with
  | done hadvance hlt => exact .done hadvance (Nat.succ_lt_succ hlt)
  | full hlen hq => exact .full (congrArg (· + 1) hlen) hq

theorem Ends.tail (h : Ends n (p' :: ps) q p) : ∃ m, n = m + 1 ∧ Ends m ps q p := by
  cases h with
  | done hadvance hlt =>
    obtain ⟨m, rfl⟩ := Nat.exists_eq_succ_of_ne_zero (Nat.ne_of_gt (Nat.zero_lt_of_lt hlt))
    exact ⟨m, rfl, .done hadvance (Nat.lt_of_succ_lt_succ hlt)⟩
  | full hlen hq => exact ⟨ps.length, hlen.symm, .full rfl hq⟩

/-! The two passes -/

theorem turns_of_precalculateRows (h : precalculateRows n p = .ok q) :
    ∃ ps q', Turns precalculateRow p ps q' ∧ Ends n ps q' q := by
  induction n generalizing p with
  | zero =>
    cases h
    exact ⟨[], q, .none q, .full rfl rfl⟩
  | succ n ih =>
    unfold precalculateRows at h
    cases hadvance : p.advance with
    | error e =>
      rw [hadvance] at h
      cases h
    | ok r =>
      obtain ⟨p', more⟩ := r
      rw [hadvance] at h
      cases more with
      | false =>
        cases h
        exact ⟨[], p, .none p, .done hadvance (Nat.succ_pos n)⟩
      | true =>
        obtain ⟨ps, q', hturns, hend⟩ := ih h
        exact ⟨p' :: ps, q', .next hadvance hturns, hend.cons p'⟩

/-- The rows of the final pass, and what is told and counted of them. -/
theorem turns_of_renderRows (h : renderRows n p summary = .ok run) :
    ∃ ps q, Turns (fun p => p.renderRow.1) p ps q ∧ Ends n ps q run.progress ∧
      run.trace = ps.flatMap (fun p => p.renderRow.2.2) ∧
      run.summary = ⟨summary.rows + ps.length,
        summary.triggers + (ps.map fun p => p.renderRow.2.1).sum⟩ := by
  induction n generalizing p summary run with
  | zero =>
    cases h
    exact ⟨[], p, .none p, .full rfl rfl, rfl, rfl⟩
  | succ n ih =>
    unfold renderRows at h
    cases hadvance : p.advance with
    | error e =>
      rw [hadvance] at h
      cases h
    | ok r =>
      obtain ⟨p', more⟩ := r
      rw [hadvance] at h
      cases more with
      | false =>
        cases h
        exact ⟨[], p, .none p, .done hadvance (Nat.succ_pos n), rfl, rfl⟩
      | true =>
        change (do
          let run ← renderRows n p'.renderRow.1
            ⟨summary.rows + 1, summary.triggers + p'.renderRow.2.1⟩
          return { run with trace := p'.renderRow.2.2 ++ run.trace } : Except Error Run) = _ at h
        cases hrest : renderRows n p'.renderRow.1
            ⟨summary.rows + 1, summary.triggers + p'.renderRow.2.1⟩ with
        | error e =>
          rw [hrest] at h
          cases h
        | ok rest =>
          rw [hrest] at h
          cases h
          obtain ⟨ps, q, hturns, hend, htrace, hsummary⟩ := ih hrest
          refine ⟨p' :: ps, q, .next hadvance hturns, hend.cons p', ?_, ?_⟩
          · rw [htrace, List.flatMap_cons]
          · rw [hsummary, List.length_cons, List.map_cons, List.sum_cons, Nat.add_assoc,
              Nat.add_assoc, Nat.add_comm 1]

end Progress

/-! What is told of a run -/

/-- A row as it is told: the names of the breaks that trigger on it, and what is seen at its end. -/
structure ToldRow where
  broken : List String
  seen : Progress

/-- The rows of a trace; the breaks were told before them. -/
def toldRows (broken : List String) : List Observation → List ToldRow
  | [] => []
  | ⟨.broke name, _⟩ :: trace => toldRows (broken ++ [name]) trace
  | ⟨.row, p⟩ :: trace => ⟨broken, p⟩ :: toldRows [] trace
  | ⟨.precalculated, _⟩ :: trace => toldRows broken trace
  | ⟨.start, _⟩ :: trace => toldRows broken trace
  | ⟨.done, _⟩ :: trace => toldRows broken trace

/-- The rows of a run. -/
def Run.rows (run : Run) : List ToldRow := toldRows [] run.trace

/-- What is told of a row that begins in a state. -/
def Progress.told (p : Progress) : ToldRow := ⟨p.triggered.map (·.name), p.renderRow.1⟩

theorem toldRows_broke (broken : List String) (bs : List Break) (p : Progress)
    (trace : List Observation) :
    toldRows broken (bs.map (fun b => ⟨.broke b.name, p⟩) ++ trace) =
      toldRows (broken ++ bs.map (·.name)) trace := by
  induction bs generalizing broken with
  | nil => rw [List.map_nil, List.map_nil, List.append_nil, List.nil_append]
  | cons b bs ih =>
    rw [List.map_cons, List.cons_append, toldRows, ih, List.map_cons, List.append_assoc,
      List.singleton_append]

theorem toldRows_renderRows (ps : List Progress) (trace : List Observation) :
    toldRows [] (ps.flatMap (fun p => p.renderRow.2.2) ++ trace) =
      ps.map Progress.told ++ toldRows [] trace := by
  induction ps with
  | nil => rfl
  | cons p ps ih =>
    rw [List.flatMap_cons, List.append_assoc, p.renderRow_snd]
    dsimp only
    rw [List.append_assoc, toldRows_broke, List.nil_append, List.singleton_append, toldRows, ih,
      List.map_cons, List.cons_append]
    rfl

/-! Runs as a whole -/

theorem except_bind_eq_ok {ε α β : Type} {x : Except ε α} {f : α → Except ε β} {b : β} :
    x.bind f = .ok b ↔ ∃ a, x = .ok a ∧ f a = .ok b := by
  cases x with
  | error e => exact ⟨nofun, nofun⟩
  | ok a =>
    constructor
    · exact fun h => ⟨a, rfl, h⟩
    · rintro ⟨_, ⟨⟩, h⟩
      exact h

theorem exists_ok_of_map {ε α β : Type} {x : Except ε α} {f : α → β} {b : β}
    (h : x.toOption.map f = some b) : ∃ a, x = .ok a ∧ f a = b := by
  cases x with
  | error e => cases h
  | ok a => exact ⟨a, rfl, Option.some.inj h⟩

namespace Progress

/-- A variable before the final pass, with the last values of its groups. -/
def fresh (v : Variable) (finals : List Value) : VariableState :=
  if v.precalculated then { finals : VariableState }.loadFinal else {}

/-- The states of the variables before the final pass. -/
def freshStates (p : Progress) : List VariableState :=
  List.zipWith fresh p.reset.report.vars (p.values.vars.map fun s => s.saveFinal.finals)

/-- The state before the final pass, when all rows have been gone through in advance. -/
def again (p : Progress) : Progress :=
  { p.reset with values := { p.reset.values with vars := p.freshStates } }

theorem precalculate_eq (p : Progress) :
    p.precalculate = p.rewind.bind fun first =>
      (precalculateRows first.rowBound first).bind fun last => .ok last.again := rfl

/-- Whether some variable asks for the last values of its groups. -/
def asksAhead (p : Progress) : Bool := p.report.vars.any (·.precalculated)

/-- The state before the final pass. -/
def ready (p : Progress) : Except Error Progress := if p.asksAhead then p.precalculate else .ok p

/-- What is told before the first row. -/
def opening (ahead : Bool) (started : Progress) : List Observation :=
  (if ahead then [⟨.precalculated, started⟩] else []) ++ [⟨.start, started⟩]

/-- The final pass. -/
def render (ahead : Bool) (started : Progress) : Except Error Run :=
  started.rewind.bind fun first => (first.renderRows first.rowBound {}).bind fun run =>
    .ok { run with trace := opening ahead started ++ run.trace ++ [⟨.done, run.progress⟩] }

end Progress

/-- A run, as its steps follow each other. -/
theorem Report.run_eq (r : Report) (w : Workspace) :
    r.run w = (r.prepare w).bind fun prepared => prepared.ready.bind
      (Progress.render prepared.asksAhead) := by
  unfold Report.run
  cases r.prepare w with
  | error e => rfl
  | ok prepared =>
    have hrender (started : Progress) : (do
        let first ← started.rewind
        let run ← first.renderRows first.rowBound {}
        return { run with trace := (if prepared.asksAhead then [⟨.precalculated, started⟩] else []) ++
          ⟨.start, started⟩ :: run.trace ++ [⟨.done, run.progress⟩] }) =
        Progress.render prepared.asksAhead started := by
      unfold Progress.render Progress.opening
      simp only [List.append_assoc, List.cons_append]
      rfl
    change (if prepared.asksAhead then prepared.precalculate.bind _ else _ : Except Error Run) =
      (if prepared.asksAhead then prepared.precalculate else .ok prepared).bind _
    split
    · exact congrArg prepared.precalculate.bind (funext hrender)
    · exact hrender prepared

/-- The parts of a run that does not fail. -/
structure Report.Runs (r : Report) (w : Workspace) (run : Run) (prepared started first : Progress)
    (ps : List Progress) (behind : Progress) : Prop where
  prepare : r.prepare w = .ok prepared
  ready : prepared.ready = .ok started
  rewind : started.rewind = .ok first
  turns : Progress.Turns (fun p => p.renderRow.1) first ps behind
  ends : Progress.Ends first.rowBound ps behind run.progress
  trace : run.trace = Progress.opening prepared.asksAhead started ++
    ps.flatMap (fun p => p.renderRow.2.2) ++ [⟨.done, run.progress⟩]
  summary : run.summary = ⟨ps.length, (ps.map fun p => p.renderRow.2.1).sum⟩

theorem Report.runs_of_run {r : Report} {w : Workspace} {run : Run} (h : r.run w = .ok run) :
    ∃ prepared started first ps behind, r.Runs w run prepared started first ps behind := by
  rw [Report.run_eq, except_bind_eq_ok] at h
  obtain ⟨prepared, hprepare, h⟩ := h
  obtain ⟨started, hready, h⟩ := except_bind_eq_ok.1 h
  obtain ⟨first, hrewind, h⟩ := except_bind_eq_ok.1 h
  obtain ⟨final, hrender, h⟩ := except_bind_eq_ok.1 h
  cases h
  obtain ⟨ps, behind, hturns, hend, htrace, hsummary⟩ := Progress.turns_of_renderRows hrender
  refine ⟨prepared, started, first, ps, behind, hprepare, hready, hrewind, hturns, hend, ?_, ?_⟩
  · dsimp only
    rw [htrace]
  · rw [hsummary, Nat.zero_add, Nat.zero_add]

/-- What all steps of a run keep. -/
structure Progress.Kept (I : Progress → Prop) : Prop where
  advance : ∀ {p p' more}, I p → p.advance = .ok (p', more) → I p'
  rewind : ∀ {p p'}, I p → p.rewind = .ok p' → I p'
  finished : ∀ {p} pass, I p → I (p.finished pass)
  evaluateExpressions : ∀ {p}, I p → I p.evaluateExpressions
  again : ∀ {p}, I p → I p.again

namespace Progress.Kept

variable {I : Progress → Prop} {p q : Progress} {ps : List Progress} (hI : Kept I)
include hI

theorem turns {step : Progress → Progress} (hstep : ∀ p, I p → I (step p))
    (h : Turns step p ps q) (hp : I p) : I q ∧ ∀ p ∈ ps, I p := by
  obtain ⟨hq, hps⟩ := h.invariant hp fun p p' hp hadvance => hstep p' (hI.advance hp hadvance)
  refine ⟨hq, fun p hmem => ?_⟩
  obtain ⟨p₀, hp₀, hadvance⟩ := hps p hmem
  exact hI.advance hp₀ hadvance

theorem precalculateRow (hp : I p) : I p.precalculateRow := by
  rw [precalculateRow_eq]
  exact hI.finished .ahead hp

theorem renderRow (hp : I p) : I p.renderRow.1 := by
  rw [renderRow_fst]
  exact hI.evaluateExpressions (hI.finished .final hp)

theorem precalculate (hp : I p) (h : p.precalculate = .ok q) : I q := by
  rw [precalculate_eq, except_bind_eq_ok] at h
  obtain ⟨first, hfirst, h⟩ := h
  obtain ⟨last, hlast, h⟩ := except_bind_eq_ok.1 h
  cases h
  apply hI.again
  obtain ⟨ps, behind, hturns, hend⟩ := turns_of_precalculateRows hlast
  have hbehind := (hI.turns (fun p => hI.precalculateRow) hturns (hI.rewind hp hfirst)).1
  rcases hend with ⟨hadvance, -⟩ | ⟨-, rfl⟩
  · exact hI.advance hbehind hadvance
  · exact hbehind

/-- What all steps keep holds throughout a run. -/
theorem run {r : Report} {w : Workspace} {run : Run} {prepared started first behind : Progress}
    {ps : List Progress} (h : r.Runs w run prepared started first ps behind) (hp : I prepared) :
    I started ∧ I first ∧ (∀ p ∈ ps, I p) ∧ I behind ∧ I run.progress := by
  have hstarted : I started := by
    have hready := h.ready
    unfold Progress.ready at hready
    split at hready
    · exact hI.precalculate hp hready
    · cases hready
      exact hp
  have hfirst := hI.rewind hstarted h.rewind
  obtain ⟨hbehind, hps⟩ := hI.turns (fun p => hI.renderRow) h.turns hfirst
  refine ⟨hstarted, hfirst, hps, hbehind, ?_⟩
  rcases h.ends with ⟨hadvance, -⟩ | ⟨-, hlast⟩
  · exact hI.advance hbehind hadvance
  · rw [hlast]
    exact hbehind

end Progress.Kept

/-- The rows of a run are those of its final pass. -/
theorem Report.Runs.rows {r : Report} {w : Workspace} {run : Run}
    {prepared started first behind : Progress} {ps : List Progress}
    (h : r.Runs w run prepared started first ps behind) : run.rows = ps.map Progress.told := by
  have hopening (trace : List Observation) :
      toldRows [] (Progress.opening prepared.asksAhead started ++ trace) = toldRows [] trace := by
    unfold Progress.opening
    cases prepared.asksAhead <;> rfl
  rw [Run.rows, h.trace, List.append_assoc, hopening, toldRows_renderRows]
  exact List.append_nil _

/-- The events of a run are those of its rows, in their order. -/
theorem Report.Runs.events {r : Report} {w : Workspace} {run : Run}
    {prepared started first behind : Progress} {ps : List Progress}
    (h : r.Runs w run prepared started first ps behind) :
    run.trace.map (·.event) = (if prepared.asksAhead then [.precalculated] else []) ++
      .start :: (run.rows.flatMap fun row => row.broken.map .broke ++ [.row]) ++ [.done] := by
  have hrow (p : Progress) : p.renderRow.2.2.map (·.event) = p.told.broken.map .broke ++ [.row] := by
    rw [p.renderRow_snd]
    change List.map _ (_ ++ _) = List.map _ (p.triggered.map _) ++ _
    rw [List.map_append, List.map_map, List.map_map]
    rfl
  have hrows : (ps.flatMap fun p => p.renderRow.2.2).map (·.event) =
      run.rows.flatMap fun row => row.broken.map .broke ++ [.row] := by
    rw [h.rows, List.map_flatMap, List.flatMap_map]
    exact congrArg (fun f => ps.flatMap f) (funext hrow)
  have hopening : (Progress.opening prepared.asksAhead started).map (·.event) =
      (if prepared.asksAhead then [.precalculated] else []) ++ [.start] := by
    unfold Progress.opening
    cases prepared.asksAhead <;> rfl
  rw [h.trace, List.map_append, List.map_append, hrows, hopening, List.append_assoc, List.append_assoc,
    List.append_assoc]
  rfl

/-- A run counts its rows and the breaks that trigger on them. -/
theorem Report.Runs.counted {r : Report} {w : Workspace} {run : Run}
    {prepared started first behind : Progress} {ps : List Progress}
    (h : r.Runs w run prepared started first ps behind) :
    run.summary = ⟨run.rows.length, (run.rows.map fun row => row.broken.length).sum⟩ := by
  rw [h.summary, h.rows, List.length_map, List.map_map]
  congr 2
  apply List.map_congr_left
  intro p _
  rw [p.renderRow_snd]
  exact (List.length_map _).symm

end Reporting
