import Reporting.Proofs.Report.References
/-!
The single pass over the variables of a row. Once names are bound each variable reads variables at
positions before its own, and so it reads what the row has given to them already.
-/
namespace Reporting

namespace Report

variable {r r' : Report} {w : Workspace} {main : QueryId} {i j : Nat} {v : Variable}

/-- A report whose names are bound, those of variables to positions before their own. -/
structure BoundBack (r : Report) : Prop where
  breakNames : (r.breaks.map (·.name)).Nodup
  varNames : (r.vars.map (·.name)).Nodup
  index : ∀ (i : Nat) (v : Variable), r.vars[i]? = some v →
    r.names.result? v.name = some (.result i v.precalculated)
  results : ∀ (i : Nat) (v : Variable), r.vars[i]? = some v → ∀ x ∈ v.computations,
    ∀ j precalculated, .result j precalculated ∈ x.sources →
      j < i ∧ ∃ u, r.vars[j]? = some u ∧ u.precalculated = precalculated
  stages : ∀ (i : Nat) (v : Variable), r.vars[i]? = some v → ∀ x ∈ v.computations,
    ∀ source ∈ x.sources, source.OwnStage i
  resetBreak : ∀ v ∈ r.vars,
    Option.Rel (fun name k => r.names.breaks[k]? = some name) v.resetOnBreak v.resetBreak
  fields : ∀ b ∈ r.breaks, ∀ x ∈ b.fields, x.root.Every Expr.Found
  computations : ∀ v ∈ r.vars, ∀ x ∈ v.computations, x.root.Every Expr.Found

theorem resetBreak_of_fits {queries : Scope} {c : Context} {before : List Variable}
    (h : v.FitsIn queries c r.breaks before) :
    Option.Rel (fun name k => r.names.breaks[k]? = some name) v.resetOnBreak v.resetBreak := by
  have hreset := h.resetBreak
  unfold resetBreak? at hreset
  cases hname : v.resetOnBreak with
  | none =>
    rw [hname] at hreset
    rw [← Option.some.inj hreset]
    exact .none
  | some name =>
    rw [hname] at hreset
    obtain ⟨k, hk, hreset⟩ := Option.map_eq_some_iff.1 hreset
    obtain ⟨hlt, hget, -⟩ := List.idxOf?_eq_some_iff.1 hk
    rw [← hreset]
    exact .some (List.getElem?_eq_some_iff.2 ⟨hlt, hget⟩)

section

variable {c : Context} {breaks : List Break} {before : List Variable} {x : Computation}

theorem counter_of_resolvedScope {stagesOf : Option Nat} {kind : CounterKind} {name : Option String}
    {source : Source}
    (h : Expr.counterSource? (r.resolvedScope (w.scope (some main)) stagesOf) kind name =
      some source) : source.IsCounter :=
  Expr.counter_of_counterSource? (w.counts_scope _ _ main) h

/-- A variable that a bound expression reads is one of those before. -/
theorem results_of_fits (h : v.FitsIn (w.scope (some main)) c breaks before)
    (hx : x ∈ v.computations) {precalculated : Bool} (hs : .result j precalculated ∈ x.sources) :
    ∃ u, before[j]? = some u ∧ u.precalculated = precalculated := by
  have hreads : x.root.Every (Expr.ReadsOnly fun source => ∀ j precalculated,
      source = .result j precalculated →
        ∃ u, before[j]? = some u ∧ u.precalculated = precalculated) := by
    apply Expr.readsOnly_of_settled (h.computations x hx).settled
    · rintro ref _ hfind j precalculated rfl
      exact exists_of_find? hfind
    · rintro kind name _ hcounter j precalculated rfl
      exact absurd trivial (Source.not_result_of_counter (counter_of_resolvedScope hcounter))
  exact Expr.every_readsOnly.1 hreads _ hs j precalculated rfl

theorem ownStages_of_fits (h : v.FitsIn (w.scope (some main)) c breaks before)
    (hx : x ∈ v.computations) {source : Source} (hs : source ∈ x.sources) :
    source.OwnStage before.length := by
  have hreads : x.root.Every (Expr.ReadsOnly (Source.OwnStage before.length)) := by
    apply Expr.readsOnly_of_settled (h.computations x hx).settled
    · exact fun ref source hfind => ownStage_of_find? (fun j hj => (Option.some.inj hj).symm) hfind
    · exact fun kind name source hcounter =>
        Source.ownStage_of_counter (counter_of_resolvedScope hcounter) _
  exact Expr.every_readsOnly.1 hreads source hs

end

/-- Binding names leaves none unbound and binds each to what comes before. -/
theorem boundBack_resolve (hr : r.Sound) (hn : ∀ x ∈ r.computations, x.root.Every Expr.Named)
    (w : Workspace) (main : QueryId) : (r.resolve w main).BoundBack := by
  have hsound := hr.resolve w main
  have hsettled := (settled_resolve hn w main).1
  refine ⟨hsound.breakNames, hsound.varNames, fun i v hv => names_result? hsound.varNames hv,
    fun i v hv x hx j precalculated hsource => ?_, fun i v hv x hx source hsource => ?_,
    fun v hv => ?_, fun b hb x hx => ?_, fun v hv x hx => ?_⟩
  · obtain ⟨u, hu, hahead⟩ := results_of_fits (hsettled.vars i v hv) hx hsource
    rw [List.getElem?_take] at hu
    split at hu
    · exact ⟨‹j < i›, u, hu, hahead⟩
    · cases hu
  · have hlength : ((r.resolve w main).vars.take i).length = i :=
      List.length_take_of_le (Nat.le_of_lt (List.getElem?_eq_some_iff.1 hv).1)
    exact hlength ▸ ownStages_of_fits (hsettled.vars i v hv) hx hsource
  · obtain ⟨k, hk⟩ := List.mem_iff_getElem?.1 hv
    exact resetBreak_of_fits (hsettled.vars k v hk)
  · obtain ⟨before, hfits⟩ := hsettled.breaks.exists_before hb
    exact (hfits.fields x hx).found
  · obtain ⟨before, hfits⟩ := hsettled.vars.exists_before hv
    exact (hfits.computations x hx).found

/-! What expressions remember has no part in this -/

theorem exists_root_of_forget {xs ys : List Computation}
    (h : xs.map Computation.forget = ys.map Computation.forget) (hs : ∀ y ∈ ys, y.Sound)
    {x : Computation} (hx : x ∈ xs) : ∃ y ∈ ys, x.root.forget = y.root.forget := by
  have hmem := List.mem_map_of_mem (f := Computation.forget) hx
  rw [h] at hmem
  obtain ⟨y, hy, hxy⟩ := List.mem_map.1 hmem
  exact ⟨y, hy, (Computation.root_of_forget hxy.symm (hs y hy).computed).2⟩

theorem exists_var_of_forget (h : r.forget = r'.forget) (hs : r'.Sound)
    (hv : r.vars[i]? = some v) : ∃ v', r'.vars[i]? = some v' ∧ v.forget = v'.forget ∧
      ∀ x ∈ v.computations, ∃ y ∈ v'.computations, x.root.forget = y.root.forget := by
  have hvars : r.vars.map Variable.forget = r'.vars.map Variable.forget := congrArg vars h
  have hget := congrArg (·[i]?) hvars
  simp only [List.getElem?_map, hv, Option.map_some] at hget
  obtain ⟨v', hv', hforget⟩ := Option.map_eq_some_iff.1 hget.symm
  refine ⟨v', hv', hforget.symm, fun x hx => ?_⟩
  apply exists_root_of_forget ?_ (hs.vars v' (List.mem_of_getElem? hv')) hx
  rw [← v.computations_map, ← v'.computations_map]
  exact congrArg Variable.computations hforget.symm

theorem BoundBack.of_forget (h : r'.BoundBack) (hs : r'.Sound) (hr : r.forget = r'.forget) :
    r.BoundBack := by
  have hnames : r.names = r'.names := by rw [← r.names_forget, hr, r'.names_forget]
  have hbreaks : r.breaks.map Break.forget = r'.breaks.map Break.forget := congrArg breaks hr
  have hvarNames : (r.vars.map (·.name)).Nodup := by
    have hmap (r : Report) : r.vars.map (·.name) = r.names.vars.map (·.1) := by
      simp only [names, List.map_map, Function.comp_def]
    rw [hmap, hnames, ← hmap]
    exact h.varNames
  refine ⟨?_, hvarNames, fun i v hv => names_result? hvarNames hv, ?_, ?_, ?_, ?_, ?_⟩
  · change r.names.breaks.Nodup
    rw [hnames]
    exact h.breakNames
  · intro i v hv x hx j precalculated hsource
    obtain ⟨v', hv', -, hcomputations⟩ := exists_var_of_forget hr hs hv
    obtain ⟨y, hy, hroot⟩ := hcomputations x hx
    have hsources : x.sources = y.sources := Expr.sources_of_forget hroot
    obtain ⟨hlt, u', hu', hahead⟩ := h.results i v' hv' y hy j precalculated (hsources ▸ hsource)
    have hread : r.names.vars[j]? = some (u'.name, u'.precalculated) := by
      rw [hnames, names, List.getElem?_map, hu']
      rfl
    rw [names, List.getElem?_map] at hread
    obtain ⟨u, hu, hpair⟩ := Option.map_eq_some_iff.1 hread
    exact ⟨hlt, u, hu, (Prod.mk.inj hpair).2.trans hahead⟩
  · intro i v hv x hx source hsource
    obtain ⟨v', hv', -, hcomputations⟩ := exists_var_of_forget hr hs hv
    obtain ⟨y, hy, hroot⟩ := hcomputations x hx
    have hsources : x.sources = y.sources := Expr.sources_of_forget hroot
    exact h.stages i v' hv' y hy source (hsources ▸ hsource)
  · intro v hv
    obtain ⟨i, hi⟩ := List.mem_iff_getElem?.1 hv
    obtain ⟨v', hv', hforget, -⟩ := exists_var_of_forget hr hs hi
    have hname : v.forget.resetOnBreak = v'.forget.resetOnBreak := by rw [hforget]
    have hposition : v.forget.resetBreak = v'.forget.resetBreak := by rw [hforget]
    change Option.Rel _ v.forget.resetOnBreak v.forget.resetBreak
    rw [hnames, hname, hposition]
    exact h.resetBreak v' (List.mem_of_getElem? hv')
  · intro b hb x hx
    have hmem := List.mem_map_of_mem (f := Break.forget) hb
    rw [hbreaks] at hmem
    obtain ⟨b', hb', hforget⟩ := List.mem_map.1 hmem
    obtain ⟨y, hy, hroot⟩ := exists_root_of_forget (congrArg Break.fields hforget.symm)
      (hs.fields b' hb') hx
    exact Expr.found_of_forget hroot.symm (h.fields b' hb' y hy)
  · intro v hv x hx
    obtain ⟨i, hi⟩ := List.mem_iff_getElem?.1 hv
    obtain ⟨v', hv', -, hcomputations⟩ := exists_var_of_forget hr hs hi
    obtain ⟨y, hy, hroot⟩ := hcomputations x hx
    exact Expr.found_of_forget hroot.symm (h.computations v' (List.mem_of_getElem? hv') y hy)

theorem forall₂_leaves_of_forget {kept : List Variable} (h : r.forget = r'.forget)
    (hleaves : List.Forall₂ Variable.Leaves kept r'.vars) :
    List.Forall₂ Variable.Leaves kept r.vars := by
  have hvars : r.vars.map Variable.forget = r'.vars.map Variable.forget := congrArg vars h
  have hmap (vs : List Variable) : List.Forall₂ Variable.Leaves kept (vs.map Variable.forget) ↔
      List.Forall₂ Variable.Leaves kept vs := by
    simp only [List.forall₂_map_right_iff, Variable.leaves_forget]
  rw [← hmap, hvars, hmap]
  exact hleaves

end Report

/-! The pass over the variables of a row -/

namespace Progress

variable {p q q' : Progress} {pass : Pass} {i j k n : Nat} {source : Source} {slot : Slot}

/-- The state in which a row evaluates stage `k` of a variable, and for `k = 3` its result. -/
def evaluating (p : Progress) (pass : Pass) (i k : Nat) : Progress :=
  (List.range k).foldl (evaluateStage pass i)
    ((List.range i).foldl (evaluateVariable pass) (p.opened pass))

theorem evaluating_beside (p : Progress) (pass : Pass) (i k : Nat) :
    Beside (p.opened pass) (p.evaluating pass i k) :=
  (foldl_evaluateVariable_beside pass _ _).trans (evaluateStages_changes pass i _ _).toBeside

theorem forget_evaluating (hb : p.Balanced) (pass : Pass) (i k : Nat) :
    (p.evaluating pass i k).report.forget = p.report.forget := by
  rw [evaluating, forget_evaluateStages, forget_foldl_evaluateVariable, forget_opened hb]

/-- What a variable has once it is evaluated it keeps for the rest of the row. -/
theorem states_foldl_evaluateVariable (pass : Pass) (p : Progress) (h : j < n) :
    ((List.range n).foldl (evaluateVariable pass) p).values.vars[j]? =
      ((List.range (j + 1)).foldl (evaluateVariable pass) p).values.vars[j]? := by
  induction n, h using Nat.le_induction with
  | base => rfl
  | succ n hn ih =>
    rw [List.range_succ, List.foldl_append]
    exact ((evaluateVariable_changes pass _ n).states j (Nat.ne_of_lt hn)).trans ih

/-- A variable finds those before it as the row leaves them. -/
theorem states_evaluating (pass : Pass) (hi : i < (p.opened pass).report.vars.length) (hj : j < i) :
    (p.evaluating pass i k).values.vars[j]? = (p.finished pass).values.vars[j]? := by
  rw [evaluating, (evaluateStages_changes pass i _ _).states j (Nat.ne_of_lt hj),
    states_foldl_evaluateVariable pass _ hj, finished, evaluateVariables,
    states_foldl_evaluateVariable pass _ (Nat.lt_trans hj hi)]

theorem lookup?_evaluating (hi : i < (p.opened pass).report.vars.length)
    (hresults : ∀ j precalculated, source = .result j precalculated → j < i)
    (hstages : ∀ j n, source ≠ .stage j n) :
    ((p.evaluating pass i k).scope pass (some i)).lookup? source slot =
      ((p.finished pass).scope pass (some i)).lookup? source slot := by
  have hbefore := evaluating_beside p pass i k
  have hafter : Beside (p.opened pass) (p.finished pass) := evaluateVariables_beside _ pass
  have hworkspace := hbefore.workspace.trans hafter.workspace.symm
  have hmain := hbefore.main.trans hafter.main.symm
  have hbreakRows := hbefore.breakRows.trans hafter.breakRows.symm
  simp only [scope, ReportScope.onTopOf, ReportScope.lookup?]
  rw [hworkspace, hmain, hbreakRows]
  cases source with
  | result j precalculated =>
    dsimp only
    rw [states_evaluating pass hi (hresults j precalculated rfl)]
  | stage j n => exact absurd rfl (hstages j n)
  | _ => rfl

/-- Whatever an expression of a variable reads on a row, apart from other stages of this variable, it
reads as the row leaves it. -/
def ReadsUpdated (p : Progress) (pass : Pass) : Prop :=
  ∀ (i k : Nat) (v : Variable), (p.evaluating pass i k).report.vars[i]? = some v → ∀ x ∈ v.computations,
    ∀ source ∈ x.sources, (∀ j n, source ≠ .stage j n) → ∀ slot,
      ((p.evaluating pass i k).scope pass (some i)).lookup? source slot =
        ((p.finished pass).scope pass (some i)).lookup? source slot

/-- The states that the steps of a run lead to. -/
inductive Leads (p : Progress) : Progress → Prop
  | refl : Leads p p
  | advance {q q' : Progress} {more : Bool} : Leads p q → q.advance = .ok (q', more) → Leads p q'
  | rewind {q q' : Progress} : Leads p q → q.rewind = .ok q' → Leads p q'
  | finished {q : Progress} (pass : Pass) : Leads p q → Leads p (q.finished pass)
  | evaluateExpressions {q : Progress} : Leads p q → Leads p q.evaluateExpressions
  | again {q : Progress} : Leads p q → Leads p q.again

theorem kept_leads (p : Progress) : Kept (Leads p) where
  advance := .advance
  rewind := .rewind
  finished := .finished
  evaluateExpressions := .evaluateExpressions
  again := .again

/-- What all steps of a run keep holds wherever they lead. -/
theorem Kept.leads {I : Progress → Prop} (hI : Kept I) (hp : I p) (h : p.Leads q) : I q := by
  induction h with
  | refl => exact hp
  | advance _ hadvance ih => exact hI.advance ih hadvance
  | rewind _ hrewind ih => exact hI.rewind ih hrewind
  | finished pass _ ih => exact hI.finished pass ih
  | evaluateExpressions _ ih => exact hI.evaluateExpressions ih
  | again _ ih => exact hI.again ih

end Progress

namespace Report

variable {r : Report} {q : Progress}

theorem BoundBack.readsUpdated {r' : Report} (h : r'.BoundBack) (hs : r'.Sound) (hb : q.Balanced)
    (hq : q.report.forget = r'.forget) (pass : Pass) : q.ReadsUpdated pass := by
  intro i k v hv x hx source hsource hstages slot
  have hbound := h.of_forget hs ((Progress.forget_evaluating hb pass i k).trans hq)
  have hlength : (q.evaluating pass i k).report.vars.length =
      (q.opened pass).report.vars.length := by
    have hnames := congrArg (fun n => n.vars.length) (Progress.evaluating_beside q pass i k).names
    simpa only [names, List.length_map] using hnames
  have hi : i < (q.opened pass).report.vars.length :=
    hlength ▸ (List.getElem?_eq_some_iff.1 hv).1
  refine Progress.lookup?_evaluating hi (fun j precalculated hresult => ?_) hstages
  exact (hbound.results i v hv x hx j precalculated (hresult ▸ hsource)).1

/-- In each report that was built and run names are unique and variables refer to variables before them
only, as their kinds allow. When the names of such a report are bound, the variables that stay keep
their order, and nowhere in a run from there on a name is unbound or bound to a variable that comes
later; so on each row of each pass all variables read what is up to date. -/
theorem variables_refer_back (hr : r.Reachable) :
    (r.vars.map (·.name)).Nodup ∧ Fits (fun before v => v.RefersBack before) r.vars ∧
      ∀ w p, r.prepare w = .ok p →
        (∀ q, p.Leads q →
          (∃ kept, kept.Sublist r.vars ∧ List.Forall₂ Variable.Leaves kept q.report.vars) ∧
            q.report.BoundBack ∧ ∀ pass, q.ReadsUpdated pass) ∧
        ∀ run, r.run w = .ok run → p.Leads run.progress := by
  refine ⟨hr.sound.varNames, hr.refersBack, fun w p hp => ⟨fun q hq => ?_, fun run hrun => ?_⟩⟩
  · have hsound := hr.sound.resolve w p.main
    have hbound := boundBack_resolve hr.sound hr.named w p.main
    obtain ⟨kept, hkept, hleaves⟩ := exists_kept_resolve hr.sound w p.main
    obtain ⟨hbalanced, hlasts⟩ := (Progress.kept_lasts p).leads
      ⟨(hr.sound.prepare hp).balanced, rfl⟩ hq
    have hforget := hlasts.trans (forget_prepare hp)
    exact ⟨⟨kept, hkept, forall₂_leaves_of_forget hforget hleaves⟩,
      hbound.of_forget hsound hforget, hbound.readsUpdated hsound hbalanced hforget⟩
  · obtain ⟨prepared, started, first, ps, behind, hruns⟩ := runs_of_run hrun
    obtain rfl := Except.ok.inj (hp.symm.trans hruns.prepare)
    exact ((Progress.kept_leads p).run hruns .refl).2.2.2.2

/-- An expression that is a name and nothing else. -/
def nameField (ref : Reference) (text : String) : Computation :=
  { root := .reference ref none false, source := text }

/-- A column that there is not, a variable that reads it, and one that reads that variable; and the sum
of a variable that reads the key. -/
def chainDefs : List VariableDef :=
  [{ name := "u", kind := .expression, base := some "z" },
    { name := "d", kind := .custom, result := some "v.u" },
    { name := "e", kind := .expression, base := some "k" },
    { name := "s", kind := .sum, base := some "v.e", resetOnBreak := some "b" }]

def chained : Report :=
  { byKey with vars :=
    [{ name := "u", kind := .expression
       stages := [some (nameField (.column (.plain "z")) "z"), none, none] },
      { name := "d", kind := .custom, stages := [none, none, none]
        result := some (nameField (.named .report "u") "v.u") },
      { name := "e", kind := .expression, stages := [some keyField, none, none] },
      { name := "s", kind := .sum
        stages := [some (nameField (.named .report "e") "v.e"), none, none]
        resetOnBreak := some "b" }] }

set_option maxRecDepth 20000 in
theorem chained_reachable : chained.Reachable := by
  have hcolumn : keyed.compiler.compileText "z" = .ok (nameField (.column (.plain "z")) "z") := by
    have hparse : Formula.parse "z" = .ok (.column (.plain "z")) := by cbv
    rw [Compiler.compileText, hparse]
    rfl
  have hdropped : keyed.compiler.compileText "v.u" =
      .ok (nameField (.named .report "u") "v.u") := by
    have hparse : Formula.parse "v.u" = .ok (.named .report "u") := by cbv
    rw [Compiler.compileText, hparse]
    rfl
  have hexpression : keyed.compiler.compileText "v.e" =
      .ok (nameField (.named .report "e") "v.e") := by
    have hparse : Formula.parse "v.e" = .ok (.named .report "e") := by cbv
    rw [Compiler.compileText, hparse]
    rfl
  have hbuilt : chainDefs.foldlM (fun r d => r.newVariable keyed.compiler d) byKey =
      .ok chained := by
    unfold chainDefs Report.newVariable Variable.compile
    simp only [List.foldlM_cons, List.mapM_cons, Variable.compileFormula, hcolumn, hdropped,
      compileText_key, hexpression]
    rfl
  have hfold (ds : List VariableDef) (r r' : Report) (hr : r.Reachable)
      (h : ds.foldlM (fun r d => r.newVariable keyed.compiler d) r = .ok r') : r'.Reachable := by
    induction ds generalizing r with
    | nil =>
      cases h
      exact hr
    | cons d ds ih =>
      rw [List.foldlM_cons] at h
      obtain ⟨r₁, hr₁, h⟩ := Compiler.bind_eq_ok h
      exact ih r₁ (.newVariable hr hr₁) h
  exact hfold chainDefs byKey chained byKey_reachable hbuilt

/-- Without the missing column two variables are dropped, and the sum reads the one before it. -/
theorem variables_refer_back_of_chain :
    chained.Reachable ∧ ∃ p, chained.prepare keyed = .ok p ∧
      (p.report.vars.map fun v => (v.name, v.resetBreak, v.computations.flatMap (·.sources))) =
        [("e", none, [.column ⟨0⟩ 0]), ("s", some 0, [.result 0 false])] ∧
      p.report.BoundBack ∧ ∃ run, chained.run keyed = .ok run ∧ run.summary = ⟨3, 1⟩ ∧
        run.progress.report.BoundBack ∧ run.progress.ReadsUpdated .final := by
  have hprepare : ((chained.prepare keyed).toOption.map fun (p : Progress) =>
      p.report.vars.map fun v => (v.name, v.resetBreak, v.computations.flatMap (·.sources))) =
      some [("e", none, [.column ⟨0⟩ 0]), ("s", some 0, [.result 0 false])] := by
    decide +kernel
  obtain ⟨p, hp, hvars⟩ := exists_ok_of_map hprepare
  have htold : ((chained.run keyed).toOption.map fun run => run.summary) = some ⟨3, 1⟩ := by
    decide +kernel
  obtain ⟨run, hrun, hsummary⟩ := exists_ok_of_map htold
  obtain ⟨-, -, hruns⟩ := variables_refer_back chained_reachable
  obtain ⟨hstates, hlast⟩ := hruns keyed p hp
  obtain ⟨-, hbound, -⟩ := hstates p .refl
  obtain ⟨-, hbound', hupdated⟩ := hstates run.progress (hlast run hrun)
  exact ⟨chained_reachable, p, hp, hvars, hbound, run, hrun, hsummary, hbound', hupdated .final⟩

end Report
end Reporting
