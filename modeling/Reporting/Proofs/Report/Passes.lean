import Reporting.Proofs.Report.Chains
/-!
The rows of both passes of a run as they are told, and what the names in the expressions of a
variable stand for on them: the same as when they were bound, so that what they are worth can be
told by the names.
-/
namespace Reporting

/-! The rows of a pass -/

namespace Progress

variable {p q last : Progress} {ps : List Progress} {n : Nat}

/-- A row of a pass that begins in a state, as it is told. -/
def toldOn (pass : Pass) (p : Progress) : ToldRow := ⟨p.broken pass, step pass p⟩

theorem toldOn_final (p : Progress) : p.toldOn .final = p.told :=
  congrArg (ToldRow.mk · p.renderRow.1) p.broken_told.symm

/-- The rows of a pass in advance, which are at most `n`. -/
def rowsAhead : Nat → Progress → List ToldRow
  | 0, _ => []
  | n + 1, p =>
    match p.advance with
    | .ok (p, true) => p.toldOn .ahead :: rowsAhead n p.precalculateRow
    | _ => []

theorem Turns.rowsAhead (h : Turns (step .ahead) p ps q) (hend : Ends n ps q last) :
    Progress.rowsAhead n p = ps.map (toldOn .ahead) := by
  induction h generalizing n with
  | none p =>
    cases hend with
    | done hadvance hlt =>
      obtain ⟨m, rfl⟩ := Nat.exists_eq_succ_of_ne_zero (Nat.ne_of_gt hlt)
      rw [Progress.rowsAhead, hadvance]
      rfl
    | full hlen _ =>
      cases hlen
      rfl
  | next hadvance _ ih =>
    obtain ⟨m, rfl, hrest⟩ := hend.tail
    rw [Progress.rowsAhead, hadvance, List.map_cons, ← ih hrest]
    rfl

theorem staying_step (base : Progress) (pass : Pass) : Staying base (step pass) := by
  cases pass with
  | ahead =>
    intro p h
    rw [step, precalculateRow_eq]
    have hb := finished_beside h.balanced .ahead
    exact ⟨h.finished .ahead, hb.workspace, hb.row⟩
  | final => exact staying_renderRow base

theorem Leads.step (h : p.Leads q) (pass : Pass) : p.Leads (step pass q) := by
  cases pass with
  | ahead => exact (kept_leads p).precalculateRow h
  | final => exact (kept_leads p).renderRow h

/-- The variables before the first row of a pass: none of their results was evaluated yet. -/
def Unevaluated (p : Progress) : Prop := ∀ i x, p.formula? i = some x → x.evaluated = false

theorem unevaluated_reset (p : Progress) : p.reset.Unevaluated := by
  intro i x hx
  obtain ⟨v, hv, hx⟩ := Option.bind_eq_some_iff.1 hx
  obtain ⟨u, -, rfl⟩ := List.mem_map.1 (List.mem_of_getElem? hv)
  obtain ⟨y, -, rfl⟩ := Option.map_eq_some_iff.1 hx
  rfl

theorem Unevaluated.of_report (h : p.Unevaluated) (hq : q.report = p.report) : q.Unevaluated := by
  intro i x hx
  rw [formula?, hq] at hx
  exact h i x hx

end Progress

namespace Report

variable {r : Report} {w : Workspace} {run : Run} {pass : Pass} {n : Nat} {row : ToldRow}
  {p started first behind : Progress} {ps : List Progress}

/-- The rows that a run goes through in advance; there are none if no variable asks for it. -/
def rowsAhead (r : Report) (w : Workspace) : List ToldRow :=
  match r.prepare w with
  | .ok p =>
    if p.asksAhead then
      match p.rewind with
      | .ok first => first.rowsAhead first.rowBound
      | .error _ => []
    else []
  | .error _ => []

/-- The rows of a pass of a run. -/
def passRows (r : Report) (w : Workspace) (run : Run) : Pass → List ToldRow
  | .ahead => r.rowsAhead w
  | .final => run.rows

/-- A pass of a run: its rows follow each other from a state in which nothing was evaluated. -/
structure Passes (r : Report) (w : Workspace) (run : Run) (pass : Pass) (p first : Progress)
    (ps : List Progress) (behind : Progress) : Prop where
  leads : p.Leads first
  within : Progress.Within p first
  unevaluated : first.Unevaluated
  turns : Progress.Turns (Progress.step pass) first ps behind
  rows : r.passRows w run pass = ps.map (Progress.toldOn pass)

theorem rowsAhead_of_foresees (hp : r.prepare w = .ok p) (ha : p.asksAhead = true) {last : Progress}
    (h : p.Foresees first ps behind last started) : r.rowsAhead w = ps.map (Progress.toldOn .ahead) := by
  rw [rowsAhead, hp]
  dsimp only
  rw [if_pos ha, h.rewind]
  exact h.turns.rowsAhead h.ends

theorem unevaluated_prepare (hp : r.prepare w = .ok p) : p.Unevaluated := by
  obtain ⟨main, -, -, rfl⟩ := prepare_eq_ok hp
  exact Progress.unevaluated_reset _

theorem Runs.exists_ahead (h : r.Runs w run p started first ps behind) (hr : r.Sound)
    (hf : QueryStore.Forest w.queries) (ha : p.asksAhead = true) :
    ∃ first ps behind last, p.Foresees first ps behind last started ∧
      r.Passes w run .ahead p first ps behind := by
  obtain ⟨hw, -, hlive⟩ := live_of_prepare h.prepare
  obtain ⟨first, ps, behind, last, hforesees⟩ := Progress.exists_foreseen h.ready ha
  obtain ⟨first', hfirst', hwithin, -⟩ :=
    Progress.rewind_within (.refl (hr.prepare h.prepare).balanced) (hw.symm ▸ hf) rfl (hw.symm ▸ hlive)
  obtain rfl := Except.ok.inj (hforesees.rewind.symm.trans hfirst')
  obtain ⟨-, hfirst⟩ := Progress.rewind_eq_ok hforesees.rewind
  refine ⟨first, ps, behind, last, hforesees, .rewind .refl hforesees.rewind, hwithin, ?_,
    hforesees.turns, rowsAhead_of_foresees h.prepare ha hforesees⟩
  exact (unevaluated_prepare h.prepare).of_report (by rw [hfirst])

theorem Runs.passes (h : r.Runs w run p started first ps behind) (hr : r.Sound)
    (hf : QueryStore.Forest w.queries) : r.Passes w run .final p first ps behind := by
  have hstarted : started.Unevaluated := by
    have hready := h.ready
    unfold Progress.ready at hready
    split at hready
    · rw [Progress.precalculate_eq, except_bind_eq_ok] at hready
      obtain ⟨_, -, hready⟩ := hready
      obtain ⟨last, -, hready⟩ := except_bind_eq_ok.1 hready
      cases hready
      exact (Progress.unevaluated_reset last).of_report rfl
    · cases hready
      exact unevaluated_prepare h.prepare
  obtain ⟨-, hfirst⟩ := Progress.rewind_eq_ok h.rewind
  refine ⟨((Progress.kept_leads p).run h .refl).2.1, (h.within hr hf).2.1,
    hstarted.of_report (by rw [hfirst]), h.turns, ?_⟩
  rw [passRows, h.rows]
  exact List.map_congr_left fun q _ => q.toldOn_final.symm

/-- There are no rows but those of passes. -/
theorem Runs.exists_pass (h : r.Runs w run p started first ps behind) (hr : r.Sound)
    (hf : QueryStore.Forest w.queries) (hrow : (r.passRows w run pass)[n]? = some row) :
    ∃ first ps behind, r.Passes w run pass p first ps behind := by
  cases pass with
  | ahead =>
    cases ha : p.asksAhead with
    | false =>
      have hnone : r.rowsAhead w = [] := by
        rw [rowsAhead, h.prepare]
        dsimp only
        rw [ha]
        rfl
      rw [passRows, hnone] at hrow
      cases hrow
    | true =>
      obtain ⟨first, ps, behind, last, -, hpass⟩ := h.exists_ahead hr hf ha
      exact ⟨first, ps, behind, hpass⟩
  | final => exact ⟨first, ps, behind, h.passes hr hf⟩

/-- The states in which the rows of a pass begin, and those in which they end. -/
theorem Passes.states (h : r.Passes w run pass p first ps behind) (hp : r.prepare w = .ok p)
    (hf : QueryStore.Forest w.queries) {q : Progress} (hq : q ∈ ps) :
    (p.Leads q ∧ Progress.Within p q) ∧
      p.Leads (Progress.step pass q) ∧ Progress.Within p (Progress.step pass q) := by
  obtain ⟨hw, -, -⟩ := live_of_prepare hp
  have hleads := ((Progress.kept_leads p).turns (fun q hq => hq.step pass) h.turns h.leads).2 q hq
  obtain ⟨n, hn⟩ := List.mem_iff_getElem?.1 hq
  have hwithin :=
    ((h.turns.within (Progress.staying_step p pass) h.within (hw.symm ▸ hf)).2 n q hn).1
  exact ⟨⟨hleads, hwithin⟩, hleads.step pass, (Progress.staying_step p pass q hwithin).1⟩

end Report

/-! What names are worth -/

/-- What a name is worth in a context, where an expression gave `self` before. -/
def Context.worth? (c : Context) (self : Option Value) (ref : Reference) : Option Value :=
  (c.scope.find? ref).bind (Expr.readSource c.scope self c.slot)

namespace Expr

/-- A name in an expression is worth what it stands for in a context. -/
def WorthIn (c : Context) : Expr → Prop
  | reference r t g => ∀ self, (reference r t g).meaning c self = (c.worth? self r).getD r.invalid
  | _ => True

theorem worthIn_of_settled {c : Context} {e : Expr} (h : e.Every (Settled c.scope)) :
    e.Every (WorthIn c) := by
  refine h.imp fun e he => ?_
  cases e with
  | constant => trivial
  | reference r t g =>
    intro self
    obtain rfl : c.scope.find? r = t := he
    rw [Context.worth?]
    cases c.scope.find? r <;> rfl
  | call => trivial

end Expr

namespace Report

variable {r : Report} {w : Workspace} {queries : Scope} {stagesOf : Option Nat} {ref : Reference}
  {source : Source} {p t : Progress} {pass : Pass} {i k : Nat} {v : Variable} {y : Computation}

/-- A name that stands for something where some of the variables are bound stands for the same where
all are. -/
theorem find?_of_take (hr : (r.vars.map (·.name)).Nodup)
    (h : (({ breaks := r.breaks, vars := r.vars.take i } : Report).resolvedScope queries stagesOf).find? ref =
      some source) : (r.resolvedScope queries stagesOf).find? ref = some source := by
  cases ref with
  | column name => exact h
  | named scope name =>
    cases scope with
    | environment => exact h
    | row => exact h
    | report =>
      obtain ⟨j, u, hu, rfl, rfl⟩ := exists_of_result? h
      change (r.vars.take i)[j]? = some u at hu
      rw [List.getElem?_take] at hu
      split at hu
      · exact names_result? hr hu
      · cases hu

/-- In all states of a run the names are those with which its expressions were bound. -/
theorem names_scope (hf : QueryStore.Forest w.queries) (hp : r.prepare w = .ok p) (ht : Progress.Within p t)
    (pass : Pass) (stagesOf : Option Nat) : (t.scope pass stagesOf).names =
      ((r.resolve w p.main).resolvedScope (w.scope (some p.main)) stagesOf).names := by
  obtain ⟨hw, -, -⟩ := live_of_prepare hp
  have hreport : t.report.names = (r.resolve w p.main).names := by
    rw [ht.names, ← names_forget, forget_prepare hp, names_forget]
  have hstill := ht.still
  rw [hw] at hstill
  have hqueries : (t.workspace.scope (some t.main)).names = (w.scope (some p.main)).names := by
    rw [ht.main]
    exact (QueryStore.sameNames_moved hf hstill).scope _ _ _
  change (t.report.resolvedScope (t.workspace.scope (some t.main)) stagesOf).names = _
  rw [resolvedScope_of_names hreport, names_resolvedScope hqueries]

/-- On each row the expressions of a variable are bound to what their names stand for there. -/
theorem settled_row (hr : r.Reachable) (hf : QueryStore.Forest w.queries) (hp : r.prepare w = .ok p)
    (ht : Progress.Within p t) (hv : p.report.vars[i]? = some v) (hy : y ∈ v.computations) (pass : Pass) :
    y.root.Every (Expr.Settled (t.scope pass (some i))) ∧ y.root.Every Expr.Found := by
  have hsound := hr.sound.resolve w p.main
  obtain ⟨v', hv', -, hroots⟩ := exists_var_of_forget (forget_prepare hp) hsound hv
  obtain ⟨z, hz, hroot⟩ := hroots y hy
  have hfound := ((settled_resolve hr.named w p.main).1.vars i v' hv').computations z hz
  rw [List.length_take_of_le (Nat.le_of_lt (List.getElem?_eq_some_iff.1 hv').1)] at hfound
  have hnames := names_scope hf hp ht pass (some i)
  have hsettled : z.root.Every (Expr.Settled (t.scope pass (some i))) := by
    apply Expr.settled_mono hfound.settled hfound.found
    · intro ref source hfind
      rw [Scope.find?_of_names hnames]
      exact find?_of_take hsound.varNames hfind
    · intro kind name source hcounter
      rw [Scope.counterSource?_of_names hnames]
      cases kind <;> exact hcounter
  exact ⟨Expr.settled_of_forget hroot.symm hsettled, Expr.found_of_forget hroot.symm hfound.found⟩

end Report

namespace Progress

variable {p t : Progress} {pass : Pass} {i j k m : Nat} {v u : Variable} {y : Computation} {ref : Reference}
  {source : Source} {name : String}

/-- Only names of rows stand for stages and for the value before. -/
theorem row_of_find? (h : (t.scope pass (some i)).find? ref = some source) :
    (∃ name, ref = .named .row name) ∨ (source ≠ .self ∧ ∀ j m, source ≠ .stage j m) := by
  cases ref with
  | column name =>
    have hcolumn : (t.workspace.scope (some t.main)).column? name = some source := h
    obtain ⟨id, n, rfl⟩ := QueryStore.column?_eq_some hcolumn
    exact .inr ⟨nofun, fun _ _ => nofun⟩
  | named scope name =>
    cases scope with
    | environment =>
      cases h
      exact .inr ⟨nofun, fun _ _ => nofun⟩
    | row => exact .inl ⟨name, rfl⟩
    | report =>
      obtain ⟨j, u, -, -, rfl⟩ := Report.exists_of_result? h
      exact .inr ⟨nofun, fun _ _ => nofun⟩

theorem find?_row (t : Progress) (pass : Pass) (i : Nat) (name : String) :
    (t.scope pass (some i)).find? (.named .row name) =
      if name = "self" then some .self else (stage? name).map (.stage i) := by
  rw [Scope.find?]
  split
  · rfl
  · change (stage? name).bind _ = _
    cases stage? name <;> rfl

theorem ne_self_of_stage? (h : stage? name = some k) : name ≠ "self" := by
  rintro rfl
  have hnone : stage? "self" = none := by decide +kernel
  rw [hnone] at h
  cases h

theorem exists_of_find?_stage (h : (t.scope pass (some i)).find? ref = some (.stage j m)) :
    ∃ name, ref = .named .row name ∧ stage? name = some m := by
  rcases row_of_find? h with ⟨name, rfl⟩ | ⟨-, hne⟩
  · rw [find?_row] at h
    split at h
    · cases h
    · obtain ⟨m, hm, hsource⟩ := Option.map_eq_some_iff.1 h
      cases hsource
      exact ⟨name, rfl, hm⟩
  · exact absurd rfl (hne j m)

theorem eq_self_of_find? (h : (t.scope pass (some i)).find? ref = some .self) :
    ref = .named .row "self" := by
  rcases row_of_find? h with ⟨name, rfl⟩ | ⟨hne, -⟩
  · rw [find?_row] at h
    split at h
    · rename_i hname
      rw [hname]
    · obtain ⟨m, -, hsource⟩ := Option.map_eq_some_iff.1 h
      cases hsource
  · exact absurd rfl hne

/-! What the names in the expressions of a variable are worth on a row -/

/-- Each variable that an expression names stands before its own. -/
theorem exists_referred (h : p.report.BoundBack) (hnames : t.report.names = p.report.names)
    (hv : p.report.vars[i]? = some v) (hy : y ∈ v.computations)
    (hsettled : y.root.Every (Expr.Settled (t.scope pass (some i)))) (hfound : y.root.Every Expr.Found)
    (href : .named .report name ∈ y.root.references) :
    ∃ j u, j < i ∧ p.report.vars[j]? = some u ∧ u.name = name ∧
      (t.scope pass (some i)).find? (.named .report name) = some (.result j u.precalculated) := by
  obtain ⟨source, hfind⟩ := Expr.every_names.1 (Expr.names_of_found hsettled hfound) _ href
  have hresult : p.report.names.result? name = some source := by
    rw [← hnames]
    exact hfind
  obtain ⟨j, u, hu, hname, rfl⟩ := Report.exists_of_result? hresult
  have hlt := (h.results i v hv y hy j u.precalculated
    (Expr.mem_sources_of_reference hsettled href hfind)).1
  exact ⟨j, u, hlt, hu, hname, hfind⟩

/-- An expression whose names of stages are those before `k` reads what is settled when these are
evaluated. -/
theorem settles_of_bound (h : p.report.BoundBack) (hv : p.report.vars[i]? = some v) (hy : y ∈ v.computations)
    (hsettled : y.root.Every (Expr.Settled (t.scope pass (some i))))
    (hstages : ∀ name m, .named .row name ∈ y.root.references → stage? name = some m → m < k) :
    ∀ source ∈ y.sources, source.Settles i k := by
  intro source hs
  cases source with
  | result j precalculated => exact (h.results i v hv y hy j precalculated hs).1
  | stage j m =>
    obtain rfl : j = i := h.stages i v hv y hy _ hs
    have hcounters : ∀ kind name,
        Expr.counterSource? (t.scope pass (some j)) kind name ≠ some (.stage j m) :=
      fun _ _ hcounter => Expr.counter_of_counterSource? (counts_scope t pass _) hcounter
    obtain ⟨ref, href, hfind⟩ := Expr.exists_reference hsettled hcounters hs
    obtain ⟨name, rfl, hm⟩ := exists_of_find?_stage hfind
    exact ⟨rfl, hstages name m href hm⟩
  | _ => trivial

theorem self_not_mem_sources (hsettled : y.root.Every (Expr.Settled (t.scope pass (some i))))
    (hself : .named .row "self" ∉ y.root.references) : .self ∉ y.sources := by
  intro hs
  have hcounters : ∀ kind name, Expr.counterSource? (t.scope pass (some i)) kind name ≠ some .self :=
    fun _ _ hcounter => Expr.counter_of_counterSource? (counts_scope t pass _) hcounter
  obtain ⟨ref, href, hfind⟩ := Expr.exists_reference hsettled hcounters hs
  exact hself (eq_self_of_find? hfind ▸ href)

theorem worth?_stage (t : Progress) (pass : Pass) (i : Nat) (self : Option Value)
    (hk : stage? name = some k) :
    (t.context pass (some i)).worth? self (.named .row name) = t.stageValue? i k := by
  rw [← lookup?_stage t pass (some i)]
  change ((t.scope pass (some i)).find? (.named .row name)).bind _ = _
  rw [find?_row, if_neg (ne_self_of_stage? hk), hk]
  rfl

/-- A variable is worth its value on the row, but while rendering, if it is precalculated, the one that was
found in advance. -/
theorem worth?_variable {precalculated : Bool} (self : Option Value)
    (hfind : (t.scope pass (some i)).find? (.named .report name) = some (.result j precalculated)) :
    (t.context pass (some i)).worth? self (.named .report name) = t.values.vars[j]?.map fun s =>
      if precalculated = true ∧ pass = .final then s.result.precalculated else s.result.current := by
  change ((t.scope pass (some i)).find? (.named .report name)).bind _ = _
  rw [hfind]
  change (t.values.vars[j]?.bind fun s => some (s.result.get (if precalculated && !decide (pass = .ahead)
    then .precalculated else .current))) = _
  cases t.values.vars[j]? with
  | none => rfl
  | some s => cases precalculated <;> cases pass <;> rfl

end Progress
end Reporting
