import Reporting.Proofs.Expr.Sources
import Reporting.Proofs.Report.Again
import Reporting.Proofs.Report.Precalculated
/-!
Variables read variables before them only: in each report that was built or run, by their names, and
when names are bound, by their positions. So on each row what a variable reads is up to date.
-/
namespace Reporting

/-! The variables that a variable refers to -/

namespace Variable

variable {v v' : Variable} {before : List Variable} {x : Computation} {name : String}

/-- The names of the variables that the expressions of a variable read. -/
def refersTo (v : Variable) : List String := v.computations.flatMap variableNames

theorem mem_variableNames :
    name ∈ variableNames x ↔ .named .report name ∈ x.root.references := by
  rw [variableNames, List.mem_filterMap]
  constructor
  · rintro ⟨r, hr, hname⟩
    split at hname
    · cases hname
      exact hr
    · cases hname
  · exact fun h => ⟨_, h, rfl⟩

theorem mem_refersTo :
    name ∈ v.refersTo ↔ ∃ x ∈ v.computations, .named .report name ∈ x.root.references := by
  simp only [refersTo, List.mem_flatMap, mem_variableNames]

/-- A variable that refers to variables before it only, and to those that its kind allows. -/
structure RefersBack (before : List Variable) (v : Variable) : Prop where
  earlier : ∀ name ∈ v.refersTo, ∃ w ∈ before, w.name = name ∧
    (v.kind.isAggregate = true → w.kind = .expression)
  expression : v.kind = .expression → v.refersTo = []

theorem RefersBack.of_check (h : v.checkReferences before = .ok ()) : v.RefersBack before := by
  unfold checkReferences at h
  split at h
  · cases h
  · rename_i hnone
    have hnofault := List.findSome?_eq_none_iff.1 hnone
    have hkind : ∀ name ∈ v.refersTo, v.kind ≠ .expression := by
      intro name hname hkind
      have hfault := hnofault name hname
      rw [referenceFault?, if_pos hkind] at hfault
      cases hfault
    refine ⟨fun name hname => ?_, fun hexpression => ?_⟩
    · have hfault := hnofault name hname
      rw [referenceFault?, if_neg (hkind name hname)] at hfault
      split at hfault
      · cases hfault
      · rename_i w hfind
        have hname := List.find?_some hfind
        refine ⟨w, List.mem_of_find?_eq_some hfind, of_decide_eq_true hname,
          fun haggregate => ?_⟩
        by_contra hne
        rw [haggregate, bne_iff_ne.2 hne] at hfault
        cases hfault
    · exact List.eq_nil_iff_forall_not_mem.2 fun name hname => hkind name hname hexpression

theorem refersBack_compile {c : Compiler} {d : VariableDef} (h : compile c before d = .ok v) :
    v.RefersBack before :=
  .of_check (compile_eq_ok h).2.1

/-! What expressions remember has no part in this -/

theorem refersTo_forget (v : Variable) : v.forget.refersTo = v.refersTo := by
  have hnames (x : Computation) : variableNames x.forget = variableNames x := by
    have hreferences : x.forget.root.references = x.root.references := by
      rw [Computation.forget]
      dsimp only
      split
      · rw [Expr.references_unbind, Expr.references_forget]
      · exact Expr.references_forget x.root
    rw [variableNames, hreferences, variableNames]
  have hcomputations : v.forget.computations = v.computations.map .forget :=
    v.computations_map .forget
  rw [refersTo, hcomputations, List.flatMap_map]
  exact List.flatMap_congr fun x _ => hnames x

theorem refersBack_forget : v.forget.RefersBack (before.map forget) ↔ v.RefersBack before := by
  constructor
  · intro h
    refine ⟨fun name hname => ?_, fun hkind => v.refersTo_forget ▸ h.expression hkind⟩
    obtain ⟨w, hw, hback⟩ := h.earlier name (v.refersTo_forget.symm ▸ hname)
    obtain ⟨u, hu, rfl⟩ := List.mem_map.1 hw
    exact ⟨u, hu, hback⟩
  · intro h
    refine ⟨fun name hname => ?_, fun hkind => v.refersTo_forget.trans (h.expression hkind)⟩
    obtain ⟨w, hw, hback⟩ := h.earlier name (v.refersTo_forget ▸ hname)
    exact ⟨w.forget, List.mem_map_of_mem hw, hback⟩

/-- What binding its names leaves of a variable. -/
structure Leaves (v v' : Variable) : Prop where
  name : v'.name = v.name
  kind : v'.kind = v.kind
  resetOnBreak : v'.resetOnBreak = v.resetOnBreak
  precalculated : v'.precalculated = v.precalculated
  texts : v'.computations.map (·.source) = v.computations.map (·.source)
  refersTo : v'.refersTo ⊆ v.refersTo

theorem leaves_forget : v.Leaves v'.forget ↔ v.Leaves v' := by
  have htexts : v'.forget.computations.map (·.source) = v'.computations.map (·.source) := by
    have hcomputations : v'.forget.computations = v'.computations.map .forget :=
      v'.computations_map .forget
    rw [hcomputations, List.map_map]
    rfl
  constructor
  · intro h
    exact ⟨h.name, h.kind, h.resetOnBreak, h.precalculated, htexts.symm.trans h.texts,
      v'.refersTo_forget ▸ h.refersTo⟩
  · intro h
    exact ⟨h.name, h.kind, h.resetOnBreak, h.precalculated, htexts.trans h.texts,
      v'.refersTo_forget.symm ▸ h.refersTo⟩

end Variable

theorem fits_map {α β : Type} {P : List β → β → Prop} {f : α → β} {l : List α} :
    Fits P (l.map f) ↔ Fits (fun before a => P (before.map f) (f a)) l := by
  simp only [Fits, List.getElem?_map, Option.map_eq_some_iff, forall_exists_index, and_imp,
    forall_apply_eq_imp_iff₂, List.map_take]

namespace Report

variable {r r' : Report} {c : Compiler} {queries : Scope} {w : Workspace} {main : QueryId} {i : Nat}
  {v : Variable} {source : Source} {name : String}

/-! Binding names -/

theorem leaves_bound (queries : Scope) (w : Workspace) (r : Report) (resetBreak : Option Nat)
    (v : Variable) : v.Leaves (boundVariable queries w.optimize r resetBreak v) := by
  have hcomputations : (boundVariable queries w.optimize r resetBreak v).computations =
      v.computations.map fun x =>
        w.optimize (x.resolve (r.resolvedScope queries (some r.vars.length))).1 :=
    v.computations_map _
  refine ⟨rfl, rfl, rfl, rfl, ?_, fun name hname => ?_⟩
  · rw [hcomputations, List.map_map]
    rfl
  · obtain ⟨x, hx, hread⟩ := Variable.mem_refersTo.1 hname
    rw [hcomputations] at hx
    obtain ⟨y, hy, rfl⟩ := List.mem_map.1 hx
    have hnames : y.root.Every (Expr.Names (· ∈ y.root.references)) :=
      Expr.every_names.2 fun _ hr => hr
    exact Variable.mem_refersTo.2
      ⟨y, hy, Expr.every_names.1 (Expr.names_simplify (Expr.names_bind hnames)) _ hread⟩

theorem exists_kept (queries : Scope) (w : Workspace) (vs : List Variable) (r : Report) :
    ∃ kept added, kept.Sublist vs ∧
      (vs.foldl (addResolvedVariable queries w.optimize) r).vars = r.vars ++ added ∧
      List.Forall₂ Variable.Leaves kept added := by
  induction vs generalizing r with
  | nil => exact ⟨[], [], .slnil, (List.append_nil _).symm, .nil⟩
  | cons v vs ih =>
    rw [List.foldl_cons]
    rcases addResolvedVariable_cases queries w.optimize r v with heq | ⟨resetBreak, -, heq⟩
    · rw [heq]
      obtain ⟨kept, added, hkept, hvars, hleaves⟩ := ih r
      exact ⟨kept, added, hkept.cons v, hvars, hleaves⟩
    · rw [heq]
      obtain ⟨kept, added, hkept, hvars, hleaves⟩ :=
        ih { r with vars := r.vars ++ [boundVariable queries w.optimize r resetBreak v] }
      refine ⟨v :: kept, _ :: added, hkept.cons_cons v, ?_,
        .cons (leaves_bound queries w r resetBreak v) hleaves⟩
      rw [hvars, List.append_assoc, List.singleton_append]

/-- The variables that are not dropped keep their order. -/
theorem exists_kept_resolve (hr : r.Sound) (w : Workspace) (main : QueryId) :
    ∃ kept, kept.Sublist r.vars ∧ List.Forall₂ Variable.Leaves kept (r.resolve w main).vars := by
  obtain ⟨kept, added, hkept, hvars, hleaves⟩ :=
    exists_kept (w.scope (some main)) w r.vars (r.boundBreaks w main)
  rw [vars_boundBreaks hr, List.nil_append] at hvars
  refine ⟨kept, hkept, ?_⟩
  rw [resolve_eq]
  exact hvars ▸ hleaves

/-- The name of a variable stands for its position. -/
theorem exists_of_result? (h : r.names.result? name = some source) :
    ∃ j v, r.vars[j]? = some v ∧ v.name = name ∧ source = .result j v.precalculated := by
  obtain ⟨j, hj, hsource⟩ := Option.bind_eq_some_iff.1 h
  obtain ⟨hlt, hname, -⟩ := List.findIdx?_eq_some_iff_getElem.1 hj
  have hlt' : j < r.vars.length := by simpa only [names, List.length_map] using hlt
  refine ⟨j, r.vars[j], List.getElem?_eq_getElem hlt', ?_, ?_⟩
  · simpa only [names, List.getElem_map] using of_decide_eq_true hname
  · have hread : r.names.vars[j]? = some (r.vars[j].name, r.vars[j].precalculated) := by
      rw [names, List.getElem?_map, List.getElem?_eq_getElem hlt']
      rfl
    rw [hread] at hsource
    exact (Option.some.inj hsource).symm

/-- Only the name of a variable stands for one. -/
theorem exists_of_find? {stagesOf : Option Nat} {ref : Reference} {j : Nat} {precalculated : Bool}
    (h : (r.resolvedScope (w.scope (some main)) stagesOf).find? ref =
      some (.result j precalculated)) :
    ∃ v, r.vars[j]? = some v ∧ v.precalculated = precalculated := by
  unfold Scope.find? at h
  split at h
  · cases h
  · split at h
    · cases h
    · obtain ⟨_, -, h⟩ := Option.bind_eq_some_iff.1 h
      obtain ⟨_, -, h⟩ := Option.bind_eq_some_iff.1 h
      cases h
  · obtain ⟨j', v, hv, -, hsource⟩ := exists_of_result? h
    cases hsource
    exact ⟨v, hv, rfl⟩
  · have hcolumn : (w.scope (some main)).column? _ = some (.result j precalculated) := h
    obtain ⟨_, _, hsource⟩ := QueryStore.column?_eq_some hcolumn
    cases hsource

/-- Each name that a bound variable refers to is that of a variable before it. -/
theorem refersTo_of_fits {breaks : List Break} {before : List Variable}
    (h : v.FitsIn queries w.folding breaks before) (hname : name ∈ v.refersTo) :
    ∃ u ∈ before, u.name = name := by
  obtain ⟨x, hx, hread⟩ := Variable.mem_refersTo.1 hname
  have hfound := h.computations x hx
  obtain ⟨source, hsource⟩ :=
    Expr.every_names.1 (Expr.names_of_found hfound.settled hfound.found) _ hread
  obtain ⟨j, u, hu, hname, -⟩ := exists_of_result? hsource
  exact ⟨u, List.mem_of_getElem? hu, hname⟩

theorem exists_of_forall₂ {α β : Type} {R : α → β → Prop} {l : List α} {l' : List β} {b : β}
    (h : List.Forall₂ R l l') (hb : b ∈ l') : ∃ a ∈ l, R a b := by
  induction h with
  | nil => cases hb
  | @cons a b' l l' hab _ ih =>
    rcases List.mem_cons.1 hb with rfl | hb
    · exact ⟨a, List.mem_cons_self, hab⟩
    · obtain ⟨a', ha', hR⟩ := ih hb
      exact ⟨a', List.mem_cons_of_mem a ha', hR⟩

/-- Binding names keeps references as they must be, whatever is dropped. -/
theorem refersBack_resolve (hr : r.Sound) (hn : ∀ x ∈ r.computations, x.root.Every Expr.Named)
    (h : Fits (fun before v => v.RefersBack before) r.vars) (w : Workspace) (main : QueryId) :
    Fits (fun before v => v.RefersBack before) (r.resolve w main).vars := by
  have hfits := (settled_resolve hn w main).1.vars
  obtain ⟨kept, hkept, hleaves⟩ := exists_kept_resolve hr w main
  have hstems : ∀ v' ∈ (r.resolve w main).vars, ∃ v ∈ r.vars, v.Leaves v' := by
    intro v' hv'
    obtain ⟨v, hv, hleft⟩ := exists_of_forall₂ hleaves hv'
    exact ⟨v, hkept.subset hv, hleft⟩
  intro k v' hv'
  obtain ⟨v, hv, hleft⟩ := hstems v' (List.mem_of_getElem? hv')
  obtain ⟨before, hback⟩ := h.exists_before hv
  refine ⟨fun name hname => ?_, fun hkind => ?_⟩
  · obtain ⟨u', hu', rfl⟩ := refersTo_of_fits (hfits k v' hv') hname
    refine ⟨u', hu', rfl, fun haggregate => ?_⟩
    -- the variable of this name that stays is the one that was referred to
    obtain ⟨u, hu, hleft'⟩ := hstems u' (List.mem_of_mem_take hu')
    obtain ⟨j, hj⟩ := List.mem_iff_getElem?.1 hv
    obtain ⟨t, ht, hname', hkind⟩ := (h j v hj).earlier _ (hleft.refersTo hname)
    have hsame : t = u := List.inj_on_of_nodup_map hr.varNames (List.mem_of_mem_take ht) hu
      (hname'.trans hleft'.name)
    rw [hleft'.kind, ← hsame]
    exact hkind (hleft.kind ▸ haggregate)
  · exact List.subset_nil.1 (hback.expression (hleft.kind ▸ hkind) ▸ hleft.refersTo)

theorem vars_newBreak {d : BreakDef} (h : r.newBreak c d = .ok r') : r'.vars = r.vars := by
  obtain ⟨-, b, -, rfl⟩ := newBreak_eq_ok h
  rfl

theorem vars_addBreakField {text : String} (h : r.addBreakField c name text = .ok r') : r'.vars = r.vars := by
  obtain ⟨i, x, -, -, rfl⟩ := addBreakField_eq_ok h
  rfl

theorem vars_addExpression {label : Option String} {text : String}
    (h : r.addExpression c label text = .ok (r', i)) : r'.vars = r.vars := by
  obtain ⟨x, -, rfl⟩ := addExpression_eq_ok h
  rfl

/-- Whatever was built and run, variables refer to variables before them only. -/
theorem Reachable.refersBack (h : r.Reachable) :
    Fits (fun before v => v.RefersBack before) r.vars := by
  induction h with
  | empty name => exact .nil
  | setQuery query _ ih => exact ih
  | newBreak _ hr ih =>
    rw [vars_newBreak hr]
    exact ih
  | addBreakField _ hr ih =>
    rw [vars_addBreakField hr]
    exact ih
  | newVariable _ hr ih =>
    obtain ⟨v, hv, rfl⟩ := newVariable_eq_ok hr
    exact ih.concat (Variable.refersBack_compile hv)
  | addExpression _ hr ih =>
    rw [vars_addExpression hr]
    exact ih
  | @run r w run hr hrun ih =>
    obtain ⟨p, started, first, ps, behind, hruns⟩ := runs_of_run hrun
    have hforget : run.progress.report.forget = (r.resolve w p.main).forget :=
      (hruns.forget hr.sound).trans (forget_prepare hruns.prepare)
    have hvars : run.progress.report.vars.map Variable.forget =
        (r.resolve w p.main).vars.map Variable.forget := congrArg vars hforget
    have hback := refersBack_resolve hr.sound hr.named ih w p.main
    have hmap (vs : List Variable) : Fits (fun before v => v.RefersBack before)
        (vs.map Variable.forget) ↔ Fits (fun before v => v.RefersBack before) vs := by
      rw [fits_map]
      simp only [Variable.refersBack_forget]
    rw [← hmap, hvars, hmap]
    exact hback

end Report
end Reporting
