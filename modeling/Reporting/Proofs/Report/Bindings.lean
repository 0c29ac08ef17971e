import Reporting.Proofs.Expr.Optimized
import Reporting.Proofs.Report.Afresh
import Reporting.Proofs.Workspace.Reachable
/-!
What the expressions of a report are bound to: the fields of breaks read no variables, and whether a
variable is precalculated changes nothing but how it is read.
-/
namespace Reporting

/-- Whether a source is the result of a variable. -/
def Source.IsResult : Source → Prop
  | .result .. => True
  | _ => False

/-- A source that is no stage of another variable. -/
def Source.OwnStage (i : Nat) : Source → Prop
  | .stage j _ => j = i
  | _ => True

theorem Source.apart_iff {source : Source} {i : Nat} :
    source.Apart i ↔ source.OwnStage i ∧ ¬ source.IsResult := by
  cases source <;> simp only [Source.Apart, Source.OwnStage, Source.IsResult, not_true,
    not_false_eq_true, and_true, and_false]

theorem Source.ownStage_of_counter {source : Source} (h : source.IsCounter) (i : Nat) :
    source.OwnStage i := by
  cases source with
  | stage => exact h.elim
  | _ => trivial

theorem Source.not_result_of_counter {source : Source} (h : source.IsCounter) :
    ¬ source.IsResult := by
  cases source with
  | result => exact h.elim
  | _ => exact id

/-! What names stand for -/

section

variable {r : Report} {w : Workspace} {main : QueryId} {ref : Reference} {source : Source} {i : Nat}

/-- A name stands for a stage of the variable that it belongs to only. -/
theorem Report.ownStage_of_find? {stagesOf : Option Nat} (hstages : ∀ j ∈ stagesOf, j = i)
    (h : (r.resolvedScope (w.scope (some main)) stagesOf).find? ref = some source) :
    source.OwnStage i := by
  unfold Scope.find? at h
  split at h
  · cases h
    trivial
  · split at h
    · cases h
      trivial
    · obtain ⟨j, hj, h⟩ := Option.bind_eq_some_iff.1 h
      obtain ⟨k, -, h⟩ := Option.bind_eq_some_iff.1 h
      cases h
      exact hstages j hj
  · obtain ⟨j, -, h⟩ := Option.bind_eq_some_iff.1 h
    cases h
    trivial
  · have hcolumn : (w.scope (some main)).column? _ = some source := h
    obtain ⟨id, k, rfl⟩ := QueryStore.column?_eq_some hcolumn
    trivial

/-- Before any variable is bound, no name stands for one. -/
theorem Report.not_result_of_find? {stagesOf : Option Nat} (hvars : r.vars = [])
    (h : (r.resolvedScope (w.scope (some main)) stagesOf).find? ref = some source) :
    ¬ source.IsResult := by
  unfold Scope.find? at h
  split at h
  · cases h
    exact id
  · split at h
    · cases h
      exact id
    · obtain ⟨j, -, h⟩ := Option.bind_eq_some_iff.1 h
      obtain ⟨k, -, h⟩ := Option.bind_eq_some_iff.1 h
      cases h
      exact id
  · obtain ⟨j, hj, -⟩ := Option.bind_eq_some_iff.1 h
    obtain ⟨hlt, -⟩ := List.findIdx?_eq_some_iff_getElem.1 hj
    simp only [Report.names, hvars, List.map_nil, List.length_nil, Nat.not_lt_zero] at hlt
  · have hcolumn : (w.scope (some main)).column? _ = some source := h
    obtain ⟨id, k, rfl⟩ := QueryStore.column?_eq_some hcolumn
    exact fun h => h

end

namespace Computation

variable {x : Computation} {P : Source → Prop}

/-- A bound and simplified expression reads what its names stand for, and counters. -/
theorem Sound.readsOnly_optimize (h : x.Sound) {s : Scope} (hs : s.Counts) (w : Workspace)
    (hcounter : ∀ source : Source, source.IsCounter → P source)
    (hnames : ∀ ref source, s.find? ref = some source → P source) :
    (w.optimize (x.resolve s).1).root.Every (Expr.ReadsOnly P) := by
  apply Expr.every_simplify (fun _ _ => trivial) (fun _ _ _ _ _ h => h)
  apply Expr.readsOnly_bind
  · exact fun _ _ source hsource => hcounter source (Expr.counter_of_counterSource? hs hsource)
  · exact fun ref _ => hnames ref
  · refine h.counters.imp fun e he => ?_
    cases e with
    | constant => trivial
    | reference => trivial
    | call => exact fun source hsource => hcounter source (he source hsource).2

end Computation

namespace Report

variable {r r₀ : Report} {w : Workspace} {main : QueryId} {i : Nat} {v V : Variable}

/-! Breaks -/

/-- The fields of breaks read no variables. -/
theorem readsOnly_fields (w : Workspace) (main : QueryId) (bs : List Break) (i : Nat)
    (hbs : ∀ b ∈ bs, ∀ x ∈ b.fields, x.Sound) (hvars : r.vars = [])
    (hr : ∀ b ∈ r.breaks, ∀ x ∈ b.fields, x.root.Every (Expr.ReadsOnly (Source.Apart i))) :
    ∀ b ∈ (bs.foldl (addResolvedBreak (w.scope (some main)) w.optimize) r).breaks, ∀ x ∈ b.fields,
      x.root.Every (Expr.ReadsOnly (Source.Apart i)) := by
  induction bs generalizing r with
  | nil => exact hr
  | cons b bs ih =>
    obtain ⟨hb, hbs⟩ := List.forall_mem_cons.1 hbs
    rw [List.foldl_cons]
    rcases addResolvedBreak_cases (w.scope (some main)) w.optimize r b with
      heq | ⟨fields, hfields, heq⟩
    · rw [heq]
      exact ih hbs hvars hr
    · rw [heq]
      refine ih hbs hvars fun b' hb' => ?_
      rcases List.mem_append.1 hb' with hb' | hb'
      · exact hr b' hb'
      · rw [List.mem_singleton.1 hb']
        intro x hx
        obtain ⟨y, hy, rfl⟩ := hfields x hx
        refine (hb y hy).readsOnly_optimize (w.counts_scope r.names none main) w ?_ ?_
        · exact fun source hs => Source.apart_iff.2
            ⟨Source.ownStage_of_counter hs i, Source.not_result_of_counter hs⟩
        · intro ref source hfind
          have hnone : ∀ j ∈ (none : Option Nat), j = i := fun j hj => nomatch hj
          exact Source.apart_iff.2 ⟨ownStage_of_find? hnone hfind, not_result_of_find? hvars hfind⟩

/-! Variables -/

/-- A variable that stays is bound behind those before it, whatever comes after. -/
theorem getElem?_foldl_addResolvedVariable (queries : Scope) (optimize : Computation → Computation)
    (vs : List Variable) (r : Report) (hi : i < r.vars.length) :
    (vs.foldl (addResolvedVariable queries optimize) r).vars[i]? = r.vars[i]? := by
  induction vs generalizing r with
  | nil => rfl
  | cons v vs ih =>
    rw [List.foldl_cons]
    rcases addResolvedVariable_cases queries optimize r v with heq | ⟨resetBreak, -, heq⟩
    · rw [heq, ih r hi]
    · rw [heq, ih _ (by rw [List.length_append]; omega), List.getElem?_append_left hi]

theorem exists_bound (queries : Scope) (optimize : Computation → Computation) {vs : List Variable}
    (hi : r.vars.length ≤ i)
    (hv : (vs.foldl (addResolvedVariable queries optimize) r).vars[i]? = some V) :
    ∃ before v after r₀ resetBreak, vs = before ++ v :: after ∧
      r₀ = before.foldl (addResolvedVariable queries optimize) r ∧ r₀.vars.length = i ∧
      V = boundVariable queries optimize r₀ resetBreak v ∧
      addResolvedVariable queries optimize r₀ v = { r₀ with vars := r₀.vars ++ [V] } := by
  induction vs generalizing r with
  | nil =>
    have hnone : r.vars[i]? = none := List.getElem?_eq_none hi
    rw [List.foldl_nil, hnone] at hv
    cases hv
  | cons v vs ih =>
    rw [List.foldl_cons] at hv
    rcases addResolvedVariable_cases queries optimize r v with heq | ⟨resetBreak, -, heq⟩
    · have hlength : (addResolvedVariable queries optimize r v).vars.length ≤ i := by
        rw [heq]
        exact hi
      obtain ⟨before, v', after, r₀, resetBreak, hvs, hr₀, hrest⟩ := ih hlength hv
      exact ⟨v :: before, v', after, r₀, resetBreak, by rw [hvs]; rfl, hr₀, hrest⟩
    · rcases Nat.lt_or_eq_of_le hi with hlt | rfl
      · have hlength : (addResolvedVariable queries optimize r v).vars.length ≤ i := by
          rw [heq, List.length_append]
          exact hlt
        obtain ⟨before, v', after, r₀, resetBreak, hvs, hr₀, hrest⟩ := ih hlength hv
        exact ⟨v :: before, v', after, r₀, resetBreak, by rw [hvs]; rfl, hr₀, hrest⟩
      · have hlength : r.vars.length < (addResolvedVariable queries optimize r v).vars.length := by
          rw [heq, List.length_append]
          exact Nat.lt_succ_self _
        have hV : V = boundVariable queries optimize r resetBreak v := by
          rw [getElem?_foldl_addResolvedVariable _ _ _ _ hlength, heq,
            List.getElem?_append_right (Nat.le_refl _), Nat.sub_self] at hv
          exact (Option.some.inj hv).symm
        exact ⟨[], v, vs, r, resetBreak, rfl, rfl, rfl, hV, hV ▸ heq⟩

end Report

/-! Reading a variable as its result so far -/

/-- The variable, when its result so far is read. -/
def Variable.notAhead (v : Variable) : Variable := { v with precalculated := false }

/-- The report in which the result so far of a variable is read. -/
def Report.notAhead (r : Report) (name : String) : Report :=
  { r with vars := r.vars.map fun v => if v.name = name then v.notAhead else v }

namespace Report

variable {r r₀ : Report} {w : Workspace} {main : QueryId} {i : Nat} {v V : Variable} {p : Progress}

theorem Sound.notAhead (h : r.Sound) (name : String) : (r.notAhead name).Sound := by
  refine ⟨h.breakNames, ?_, h.fields, ?_, h.expressions⟩
  · change ((r.vars.map _).map _).Nodup
    rw [List.map_map]
    have hnames : r.vars.map ((·.name) ∘ fun v => if v.name = name then v.notAhead else v) =
        r.vars.map (·.name) := by
      apply List.map_congr_left
      intro v _
      rw [Function.comp_apply]
      split <;> rfl
    rw [hnames]
    exact h.varNames
  · intro v hv x hx
    obtain ⟨u, hu, rfl⟩ := List.mem_map.1 hv
    have hcomputations :
        (if u.name = name then u.notAhead else u).computations = u.computations := by
      split <;> rfl
    rw [hcomputations] at hx
    exact h.vars u hu x hx

theorem addResolvedVariable_notAhead {queries : Scope} {optimize : Computation → Computation}
    (h : addResolvedVariable queries optimize r₀ v = { r₀ with vars := r₀.vars ++ [V] }) :
    addResolvedVariable queries optimize r₀ v.notAhead =
      { r₀ with vars := r₀.vars ++ [V.notAhead] } := by
  have hdropped : r₀ ≠ { r₀ with vars := r₀.vars ++ [V] } := by
    intro he
    have hlength := congrArg (fun r : Report => r.vars.length) he
    simp only [List.length_append, List.length_singleton] at hlength
    omega
  have hreset : r₀.resetBreak? v.notAhead = r₀.resetBreak? v := rfl
  have hcomputations : v.notAhead.computations = v.computations := rfl
  unfold addResolvedVariable Variable.resolve? at h ⊢
  rw [hreset, hcomputations]
  dsimp only at h ⊢
  cases hr : r₀.resetBreak? v with
  | none =>
    rw [hr] at h
    exact (hdropped h).elim
  | some resetBreak =>
    rw [hr] at h
    by_cases hall : (v.computations.all fun x =>
        (x.resolve (r₀.resolvedScope queries (some r₀.vars.length))).2.isEmpty) = true
    · rw [if_pos hall] at h ⊢
      have hvars := congrArg (fun r : Report => r.vars) h
      rw [← (List.cons.inj (List.append_cancel_left hvars)).1]
      rfl
    · rw [if_neg hall] at h
      exact (hdropped h).elim

theorem vars_boundBreaks (hr : r.Sound) (w : Workspace) (main : QueryId) :
    (r.boundBreaks w main).vars = [] :=
  (foldl_addResolvedBreak w main r.breaks { r with breaks := [], vars := [] } hr.fields
    (List.forall_mem_nil _)).2.2.1

/-- A variable of a report in a run, as it was bound. -/
theorem exists_bound_of_resolve (hr : r.Sound) (hV : (r.resolve w main).vars[i]? = some V) :
    ∃ before v after r₀ resetBreak, r.vars = before ++ v :: after ∧
      r₀ = before.foldl (addResolvedVariable (w.scope (some main)) w.optimize)
        (r.boundBreaks w main) ∧
      r₀.vars.length = i ∧
      V = boundVariable (w.scope (some main)) w.optimize r₀ resetBreak v ∧
      addResolvedVariable (w.scope (some main)) w.optimize r₀ v =
        { r₀ with vars := r₀.vars ++ [V] } := by
  have hlength : (r.boundBreaks w main).vars.length ≤ i := by
    rw [vars_boundBreaks hr]
    exact Nat.zero_le i
  exact exists_bound _ _ hlength hV

theorem breaks_resolve (hr : r.Sound) (w : Workspace) (main : QueryId) :
    (r.resolve w main).breaks = (r.boundBreaks w main).breaks := by
  refine (foldl_addResolvedVariable w main r.vars (r.boundBreaks w main) hr.vars ?_).2.2.1
  rw [vars_boundBreaks hr]
  exact List.forall_mem_nil _

theorem vars_notAhead {before after : List Variable} (hr : r.Sound)
    (h : r.vars = before ++ v :: after) :
    (r.notAhead v.name).vars = before ++ v.notAhead ::
      after.map fun u => if u.name = v.name then u.notAhead else u := by
  have hnames := hr.varNames
  rw [h, List.map_append, List.map_cons] at hnames
  have hbefore : ∀ u ∈ before, u.name ≠ v.name := by
    intro u hu
    exact (List.nodup_append.1 hnames).2.2 _ (List.mem_map_of_mem hu) _ List.mem_cons_self
  change r.vars.map (fun u => if u.name = v.name then u.notAhead else u) = _
  rw [h, List.map_append, List.map_cons, if_pos rfl]
  congr 1
  calc before.map (fun u => if u.name = v.name then u.notAhead else u)
      = before.map id := List.map_congr_left fun u hu => if_neg (hbefore u hu)
    _ = before := List.map_id before

/-- Whether a variable is precalculated has no part in what breaks, and the variable itself, are
bound to. -/
theorem prepare_notAhead (hr : r.Sound) (hp : r.prepare w = .ok p)
    (hv : p.report.vars[i]? = some v) :
    ∃ p', (r.notAhead v.name).prepare w = .ok p' ∧ p'.main = p.main ∧
      p'.report.breaks = p.report.breaks ∧ p'.report.vars[i]? = some v.notAhead := by
  obtain ⟨main, hmain, hcheck, rfl⟩ := prepare_eq_ok hp
  change ((r.resolve w main).vars.map Variable.restart)[i]? = some v at hv
  rw [List.getElem?_map] at hv
  obtain ⟨V, hV, rfl⟩ := Option.map_eq_some_iff.1 hv
  obtain ⟨before, u, after, r₀, resetBreak, hvs, hr₀, hlength, hbound, hadd⟩ :=
    exists_bound_of_resolve hr hV
  have hname : V.restart.name = u.name := by
    rw [hbound]
    rfl
  rw [hname]
  have hr' := hr.notAhead u.name
  have hvar : ((r.notAhead u.name).resolve w main).vars[i]? = some V.notAhead := by
    change ((r.notAhead u.name).vars.foldl (addResolvedVariable (w.scope (some main)) w.optimize)
      (r.boundBreaks w main)).vars[i]? = _
    have hlt : i < (r₀.vars ++ [V.notAhead]).length := by
      rw [List.length_append, hlength]
      exact Nat.lt_succ_self i
    rw [vars_notAhead hr hvs, List.foldl_append, List.foldl_cons, ← hr₀,
      addResolvedVariable_notAhead hadd]
    refine (getElem?_foldl_addResolvedVariable _ _ _ _ hlt).trans ?_
    dsimp only
    rw [List.getElem?_append_right (Nat.le_of_eq hlength), hlength, Nat.sub_self]
    rfl
  refine ⟨({ workspace := w, report := (r.notAhead u.name).resolve w main, main, values := {} } :
    Progress).reset, ?_, rfl, ?_, ?_⟩
  · have hmain' : (r.notAhead u.name).mainQuery w = .ok main := hmain
    have hcheck' : (r.notAhead u.name).breaks.forM Break.check = .ok () := hcheck
    unfold prepare
    rw [hcheck', hmain']
    rfl
  · change ((r.notAhead u.name).resolve w main).breaks.map Break.restart =
      (r.resolve w main).breaks.map Break.restart
    rw [breaks_resolve hr', breaks_resolve hr]
    rfl
  · change (((r.notAhead u.name).resolve w main).vars.map Variable.restart)[i]? = _
    rw [List.getElem?_map, hvar]
    rfl

theorem readsOnly_prepare (hr : r.Sound) (hp : r.prepare w = .ok p) (i : Nat) :
    ∀ b ∈ p.report.breaks, ∀ x ∈ b.fields,
      x.root.Every (Expr.ReadsOnly (Source.Apart i)) := by
  obtain ⟨main, -, -, rfl⟩ := prepare_eq_ok hp
  intro b hb x hx
  obtain ⟨b₀, hb₀, rfl⟩ := List.mem_map.1 hb
  obtain ⟨y, hy, rfl⟩ := List.mem_map.1 hx
  change b₀ ∈ (r.resolve w main).breaks at hb₀
  rw [breaks_resolve hr] at hb₀
  exact readsOnly_fields w main r.breaks i hr.fields rfl (List.forall_mem_nil _) b₀ hb₀ y hy

/-- In a run the expressions of a variable read no stages but its own. -/
theorem ownStages_prepare (hr : r.Sound) (hp : r.prepare w = .ok p)
    (hv : p.report.vars[i]? = some v) :
    ∀ x ∈ v.computations, x.root.Every (Expr.ReadsOnly (Source.OwnStage i)) := by
  obtain ⟨main, -, -, rfl⟩ := prepare_eq_ok hp
  change ((r.resolve w main).vars.map Variable.restart)[i]? = some v at hv
  rw [List.getElem?_map] at hv
  obtain ⟨V, hV, rfl⟩ := Option.map_eq_some_iff.1 hv
  obtain ⟨before, u, after, r₀, resetBreak, hvs, -, hlength, rfl, -⟩ :=
    exists_bound_of_resolve hr hV
  have hu : u ∈ r.vars := by
    rw [hvs]
    exact List.mem_append_right _ List.mem_cons_self
  have hown : ∀ j ∈ some r₀.vars.length, j = i := by
    intro j hj
    rw [← Option.some.inj hj, hlength]
  intro x hx
  rw [Variable.restart, Variable.computations_map] at hx
  obtain ⟨y, hy, rfl⟩ := List.mem_map.1 hx
  change y ∈ (u.map _).computations at hy
  rw [Variable.computations_map] at hy
  obtain ⟨z, hz, rfl⟩ := List.mem_map.1 hy
  refine (hr.vars u hu z hz).readsOnly_optimize
    (w.counts_scope r₀.names (some r₀.vars.length) main) w ?_ ?_
  · exact fun source hs => Source.ownStage_of_counter hs i
  · exact fun ref source hfind => ownStage_of_find? hown hfind

/-- The expressions that matter for an aggregate read no results of variables. -/
theorem clean_prepare (hr : r.Sound) (hp : r.prepare w = .ok p) (hv : p.report.vars[i]? = some v)
    (hfields : ∀ b ∈ p.report.breaks, ∀ x ∈ b.fields, x.root.Every (Expr.Calls Function.Pure))
    (hbase : ∀ x ∈ v.computations, x.root.Every (Expr.Calls Function.Pure) ∧
      ∀ source ∈ x.sources, ¬ source.IsResult) : p.Clean i := by
  have hsound := (hr.prepare hp).report
  constructor
  · intro b hb x hx
    exact (hsound.fields b hb x hx).reads (hfields b hb x hx)
      (readsOnly_prepare hr hp i b hb x hx)
  · intro v' hv' o ho x hx
    obtain rfl := Option.some.inj (hv.symm.trans hv')
    have hmem : x ∈ v.computations := Variable.mem_computations.2 (.inl (hx ▸ ho))
    obtain ⟨hpure, hresults⟩ := hbase x hmem
    have hreads : x.Sound := hsound.vars v (List.mem_iff_getElem?.2 ⟨i, hv⟩) x hmem
    refine hreads.reads hpure ?_
    have hapart := (ownStages_prepare hr hp hv x hmem).and
      (Expr.every_readsOnly_of_sources hresults)
    refine hapart.imp fun e he => ?_
    cases e with
    | constant => trivial
    | reference => exact fun s hs => Source.apart_iff.2 ⟨he.1 s hs, he.2 s hs⟩
    | call => exact fun s hs => Source.apart_iff.2 ⟨he.1 s hs, he.2 s hs⟩

end Report
end Reporting
