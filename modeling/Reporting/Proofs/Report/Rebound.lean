import Reporting.Proofs.Expr.Again
import Reporting.Proofs.Report.Lasting
/-!
Binding the names of a report that was run before: nothing is bound to another place, and nothing more
is dropped.
-/
namespace Reporting

/-! Lists in which each element fits those before it -/

section

variable {α σ : Type} {P Q : List α → α → Prop} {l : List α} {a : α}

/-- Each element of a list has a property, given those before it. -/
def Fits (P : List α → α → Prop) (l : List α) : Prop := ∀ k a, l[k]? = some a → P (l.take k) a

theorem Fits.nil : Fits P [] := fun _ _ h => nomatch h

theorem Fits.imp (h : Fits P l) (hPQ : ∀ before a, a ∈ l → P before a → Q before a) : Fits Q l :=
  fun k a ha => hPQ _ a (List.mem_iff_getElem?.2 ⟨k, ha⟩) (h k a ha)

theorem Fits.exists_before (h : Fits P l) (ha : a ∈ l) : ∃ before, P before a := by
  obtain ⟨k, hk⟩ := List.mem_iff_getElem?.1 ha
  exact ⟨_, h k a hk⟩

theorem Fits.concat (h : Fits P l) (ha : P l a) : Fits P (l ++ [a]) := by
  intro k b hb
  rcases Nat.lt_or_ge k l.length with hk | hk
  · rw [List.getElem?_append_left hk] at hb
    rw [List.take_append_of_le_length (Nat.le_of_lt hk)]
    exact h k b hb
  · rw [List.getElem?_append_right hk] at hb
    obtain ⟨hlt, hb⟩ := List.getElem?_eq_some_iff.1 hb
    have hk' : k = l.length := by
      rw [List.length_singleton] at hlt
      omega
    subst hk'
    rw [List.take_left]
    simp only [Nat.sub_self, List.getElem_cons_zero] at hb
    exact hb ▸ ha

theorem Fits.of_concat (h : Fits P (l ++ [a])) : Fits P l ∧ P l a := by
  constructor
  · intro k b hb
    have hk := (List.getElem?_eq_some_iff.1 hb).1
    have hfits := h k b (by rw [List.getElem?_append_left hk, hb])
    rwa [List.take_append_of_le_length (Nat.le_of_lt hk)] at hfits
  · have hfits := h l.length a (by rw [List.getElem?_concat_length])
    rwa [List.take_left] at hfits

/-- What is built step by step is built once more from the elements that it consists of. -/
theorem Fits.foldl_eq (step : σ → α → σ) (mk : List α → σ) (h : Fits P l)
    (hstep : ∀ before a, P before a → step (mk before) a = mk (before ++ [a])) :
    l.foldl step (mk []) = mk l := by
  induction l using List.reverseRecOn with
  | nil => rfl
  | append_singleton l a ih =>
    obtain ⟨hl, ha⟩ := h.of_concat
    rw [List.foldl_append, ih hl, List.foldl_cons, List.foldl_nil, hstep l a ha]

end

/-! Expressions -/

/-- The context in which a workspace computes constants. -/
def Workspace.folding (w : Workspace) : Context :=
  Expr.foldContext w.settings.precision w.settings.dateOrder

/-- A scope without its values. -/
def Scope.names (s : Scope) : Scope := { s with lookup? := fun _ _ => none }

theorem Scope.find?_of_names {s s' : Scope} (h : s.names = s'.names) (ref : Reference) :
    s.find? ref = s'.find? ref := by
  have hnames (s : Scope) : s.names.find? ref = s.find? ref := by
    cases ref with
    | named scope name => cases scope <;> rfl
    | column name => rfl
  rw [← hnames, h, hnames]

theorem Scope.counterSource?_of_names {s s' : Scope} (h : s.names = s'.names) (kind : CounterKind)
    (name : Option String) : Expr.counterSource? s kind name = Expr.counterSource? s' kind name := by
  have hnames (s : Scope) : Expr.counterSource? s.names kind name = Expr.counterSource? s kind name := by
    cases kind <;> rfl
  rw [← hnames, h, hnames]

theorem Expr.settled_names (s : Scope) (e : Expr) : e.Settled s.names ↔ e.Settled s := by
  have hnames : s.names.names = s.names := rfl
  cases e with
  | constant => exact Iff.rfl
  | reference r t g => simp only [Settled, Scope.find?_of_names hnames]
  | call f es ring g => simp only [Settled, Scope.counterSource?_of_names hnames]

namespace Computation

variable {x : Computation} {s s' : Scope} {c : Context} {w : Workspace}

/-- An expression that was bound in a scope and simplified. -/
structure BoundIn (s : Scope) (c : Context) (x : Computation) : Prop where
  settled : x.root.Every (Expr.Settled s)
  simplified : x.root.Every (Expr.Simplified c)

/-- An expression whose names all stand for something. -/
structure FoundIn (s : Scope) (c : Context) (x : Computation) : Prop extends BoundIn s c x where
  found : x.root.Every Expr.Found

/-- An expression in which the counters that are known before evaluation are read directly. -/
structure Direct (x : Computation) : Prop where
  byName : x.root.Every Expr.BoundByName
  whole : x.root.Every Expr.BoundWhole

theorem BoundIn.of_names (h : x.BoundIn s c) (hs : s.names = s'.names) : x.BoundIn s' c := by
  refine ⟨h.settled.imp fun e he => ?_, h.simplified⟩
  rw [← Expr.settled_names, ← hs, Expr.settled_names]
  exact he

theorem FoundIn.of_names (h : x.FoundIn s c) (hs : s.names = s'.names) : x.FoundIn s' c :=
  ⟨h.toBoundIn.of_names hs, h.found⟩

theorem BoundIn.named (h : x.BoundIn s c) : x.root.Every Expr.Named :=
  h.settled.imp fun _ he => he.named

theorem boundIn_optimize (h : x.root.Every Expr.Named) (s : Scope) (w : Workspace) :
    (w.optimize (x.resolve s).1).BoundIn s w.folding :=
  ⟨Expr.settled_simplify (Expr.settled_bind h), Expr.simplified_simplify _ _⟩

theorem foundIn_optimize (h : x.root.Every Expr.Named) (hfound : (x.resolve s).2 = [])
    (w : Workspace) : (w.optimize (x.resolve s).1).FoundIn s w.folding :=
  ⟨boundIn_optimize h s w, Expr.found_simplify (Expr.found_bind hfound)⟩

/-- Binding and simplifying an expression once more changes nothing. -/
theorem BoundIn.again (h : x.BoundIn s w.folding) (hx : x.Direct) :
    w.optimize (x.resolve s).1 = x := by
  have hbind := Expr.bind_of_settled h.settled hx.byName hx.whole
  change ({ x with root := (Expr.bind s x.root).simplify w.folding } : Computation) = x
  rw [hbind, Expr.simplify_of_simplified h.simplified]

theorem FoundIn.missing (h : x.FoundIn s c) : (x.resolve s).2 = [] :=
  Expr.missing_of_found h.settled h.found

/-! What an expression remembers has no part in binding it -/

theorem forget_of_computed (h : x.startsWithInitial = false) :
    x.forget = { x with root := x.root.forget, evaluated := false } := by
  rw [forget, h, if_neg Bool.false_ne_true]

theorem forget_bound (h : x.startsWithInitial = false) (s : Scope) (w : Workspace) :
    w.optimize (x.forget.resolve s).1 = (w.optimize (x.resolve s).1).forget := by
  have hbound : (w.optimize (x.resolve s).1).startsWithInitial = false := h
  rw [forget_of_computed h, forget_of_computed hbound]
  change ({ x with root := (Expr.bind s x.root.forget).simplify w.folding, evaluated := false } :
    Computation) = { x with
      root := ((Expr.bind s x.root).simplify w.folding).forget, evaluated := false }
  rw [Expr.bind_forget, Expr.simplify_forget]

theorem missing_forget (h : x.startsWithInitial = false) (s : Scope) :
    (x.forget.resolve s).2 = (x.resolve s).2 := by
  rw [forget_of_computed h]
  exact Expr.missing_forget s x.root

end Computation

namespace Report

variable {r r' : Report} {w : Workspace} {main : QueryId} {queries : Scope} {c : Context}

theorem resolvedScope_of_names (h : r.names = r'.names) (queries : Scope) (stagesOf : Option Nat) :
    r.resolvedScope queries stagesOf = r'.resolvedScope queries stagesOf := by
  rw [resolvedScope, h, resolvedScope]

theorem names_resolvedScope {queries' : Scope} (h : queries.names = queries'.names) (r : Report)
    (stagesOf : Option Nat) :
    (r.resolvedScope queries stagesOf).names = (r.resolvedScope queries' stagesOf).names := by
  obtain ⟨column, report, row, rowNumber, breakRowNumber, lookup⟩ := queries
  obtain ⟨column', report', row', rowNumber', breakRowNumber', lookup'⟩ := queries'
  cases h
  rfl

end Report

/-- A break whose fields are bound behind the breaks before it. -/
structure Break.FitsIn (queries : Scope) (c : Context) (before : List Break) (b : Break) : Prop where
  nonempty : b.fields ≠ []
  fields : ∀ x ∈ b.fields,
    x.FoundIn (({ breaks := before } : Report).resolvedScope queries none) c

/-- A variable whose expressions are bound behind the variables before it. -/
structure Variable.FitsIn (queries : Scope) (c : Context) (breaks : List Break)
    (before : List Variable) (v : Variable) : Prop where
  resetBreak : ({ breaks, vars := before } : Report).resetBreak? v = some v.resetBreak
  computations : ∀ x ∈ v.computations,
    x.FoundIn (({ breaks, vars := before } : Report).resolvedScope queries (some before.length)) c

namespace Report

variable {r r' : Report} {w : Workspace} {main : QueryId} {queries : Scope} {c : Context}
  {b : Break} {v : Variable}

/-- A report whose names are bound. -/
structure Settled (queries : Scope) (c : Context) (r : Report) : Prop where
  breaks : Fits (Break.FitsIn queries c) r.breaks
  vars : Fits (Variable.FitsIn queries c r.breaks) r.vars
  expressions : ∀ e ∈ r.expressions, e.computation.BoundIn (r.resolvedScope queries none) c

/-- Only the names of the queries matter. -/
theorem Settled.of_names {queries' : Scope} (h : r.Settled queries c)
    (hq : queries.names = queries'.names) : r.Settled queries' c where
  breaks := h.breaks.imp fun _ _ _ hb =>
    ⟨hb.nonempty, fun x hx => (hb.fields x hx).of_names (names_resolvedScope hq _ _)⟩
  vars := h.vars.imp fun _ _ _ hv =>
    ⟨hv.resetBreak, fun x hx => (hv.computations x hx).of_names (names_resolvedScope hq _ _)⟩
  expressions e he := (h.expressions e he).of_names (names_resolvedScope hq _ _)

/-- The expressions of a report. -/
def computations (r : Report) : List Computation :=
  r.breaks.flatMap (·.fields) ++ r.vars.flatMap (·.computations) ++
    r.expressions.map (·.computation)

theorem mem_computations {x : Computation} : x ∈ r.computations ↔
    (∃ b ∈ r.breaks, x ∈ b.fields) ∨ (∃ v ∈ r.vars, x ∈ v.computations) ∨
      ∃ e ∈ r.expressions, e.computation = x := by
  simp only [computations, List.mem_append, List.mem_flatMap, List.mem_map, or_assoc]

theorem Settled.named (h : r.Settled queries c) : ∀ x ∈ r.computations, x.root.Every Expr.Named := by
  intro x hx
  rcases mem_computations.1 hx with ⟨b, hb, hx⟩ | ⟨v, hv, hx⟩ | ⟨e, he, rfl⟩
  · obtain ⟨before, hfits⟩ := h.breaks.exists_before hb
    exact (hfits.fields x hx).named
  · obtain ⟨before, hfits⟩ := h.vars.exists_before hv
    exact (hfits.computations x hx).named
  · exact (h.expressions e he).named

theorem computations_forget (r : Report) : r.forget.computations = r.computations.map .forget := by
  have hvars (v : Variable) : v.forget.computations = v.computations.map .forget :=
    v.computations_map .forget
  simp only [computations, forget, Break.forget, ReportExpression.forget, List.flatMap_map,
    List.map_append, List.map_flatMap, List.map_map, hvars, Function.comp_def]

theorem Sound.computed (h : r.Sound) {x : Computation} (hx : x ∈ r.computations) : x.Sound := by
  rcases mem_computations.1 hx with ⟨b, hb, hx⟩ | ⟨v, hv, hx⟩ | ⟨e, he, rfl⟩
  · exact h.fields b hb x hx
  · exact h.vars v hv x hx
  · exact h.expressions e he

theorem exists_of_forget (h : r.forget = r'.forget) {x : Computation} (hx : x ∈ r.computations) :
    ∃ y ∈ r'.computations, y.forget = x.forget := by
  have hmem : x.forget ∈ r.forget.computations := by
    rw [computations_forget]
    exact List.mem_map_of_mem hx
  rw [h, computations_forget] at hmem
  exact List.mem_map.1 hmem

/-! Binding the names of a report settles it -/

theorem addResolvedBreak_fits (hvars : r.vars = [])
    (hb : ∀ x ∈ b.fields, x.root.Every Expr.Named) (queries : Scope) (w : Workspace) :
    addResolvedBreak queries w.optimize r b = r ∨
      ∃ b', b'.FitsIn queries w.folding r.breaks ∧
        addResolvedBreak queries w.optimize r b = { r with breaks := r.breaks ++ [b'] } := by
  have hscope : r.resolvedScope queries none =
      ({ breaks := r.breaks } : Report).resolvedScope queries none := by
    apply resolvedScope_of_names
    rw [names, hvars]
    rfl
  unfold addResolvedBreak Break.resolve?
  dsimp only
  split
  · rename_i b' hb'
    split at hb'
    · cases hb'
    · rename_i hnonempty
      cases hb'
      refine .inr ⟨_, ⟨fun hnil => hnonempty (List.isEmpty_iff.2 hnil), ?_⟩, rfl⟩
      intro x hx
      obtain ⟨y, hy, hx⟩ := List.mem_filterMap.1 hx
      split at hx
      · rename_i hfound
        rw [← Option.some.inj hx, ← hscope]
        exact Computation.foundIn_optimize (hb y hy) (List.isEmpty_iff.1 hfound) w
      · cases hx
  · exact .inl rfl

theorem addResolvedVariable_fits (hv : ∀ x ∈ v.computations, x.root.Every Expr.Named)
    (queries : Scope) (w : Workspace) :
    addResolvedVariable queries w.optimize r v = r ∨
      ∃ v', v'.FitsIn queries w.folding r.breaks r.vars ∧
        addResolvedVariable queries w.optimize r v = { r with vars := r.vars ++ [v'] } := by
  unfold addResolvedVariable Variable.resolve?
  dsimp only
  cases hreset : r.resetBreak? v with
  | none => exact .inl rfl
  | some resetBreak =>
    split
    · rename_i resetBreak' v' hresetBreak' hv'
      cases hresetBreak'
      split at hv'
      · rename_i hfound
        cases hv'
        refine .inr ⟨boundVariable queries w.optimize r resetBreak v, ⟨hreset, ?_⟩, rfl⟩
        intro x hx
        change x ∈ (v.map _).computations at hx
        rw [Variable.computations_map] at hx
        obtain ⟨y, hy, rfl⟩ := List.mem_map.1 hx
        exact Computation.foundIn_optimize (hv y hy)
          (List.isEmpty_iff.1 (List.all_eq_true.1 hfound y hy)) w
      · cases hv'
    · exact .inl rfl

theorem settled_foldl_addResolvedBreak (queries : Scope) (w : Workspace) (bs : List Break)
    (hbs : ∀ b ∈ bs, ∀ x ∈ b.fields, x.root.Every Expr.Named) (hvars : r.vars = [])
    (h : Fits (Break.FitsIn queries w.folding) r.breaks) :
    let r' := bs.foldl (addResolvedBreak queries w.optimize) r
    Fits (Break.FitsIn queries w.folding) r'.breaks ∧ r'.vars = [] ∧ r'.query = r.query := by
  induction bs generalizing r with
  | nil => exact ⟨h, hvars, rfl⟩
  | cons b bs ih =>
    obtain ⟨hb, hbs⟩ := List.forall_mem_cons.1 hbs
    rw [List.foldl_cons]
    rcases addResolvedBreak_fits hvars hb queries w with heq | ⟨b', hfits, heq⟩
    · rw [heq]
      exact ih hbs hvars h
    · rw [heq]
      exact ih (r := { r with breaks := r.breaks ++ [b'] }) hbs hvars (h.concat hfits)

theorem settled_foldl_addResolvedVariable (queries : Scope) (w : Workspace) (vs : List Variable)
    (hvs : ∀ v ∈ vs, ∀ x ∈ v.computations, x.root.Every Expr.Named)
    (h : Fits (Variable.FitsIn queries w.folding r.breaks) r.vars) :
    let r' := vs.foldl (addResolvedVariable queries w.optimize) r
    Fits (Variable.FitsIn queries w.folding r.breaks) r'.vars ∧ r'.breaks = r.breaks ∧
      r'.query = r.query := by
  induction vs generalizing r with
  | nil => exact ⟨h, rfl, rfl⟩
  | cons v vs ih =>
    obtain ⟨hv, hvs⟩ := List.forall_mem_cons.1 hvs
    rw [List.foldl_cons]
    rcases addResolvedVariable_fits hv queries w with heq | ⟨v', hfits, heq⟩
    · rw [heq]
      exact ih hvs h
    · rw [heq]
      exact ih (r := { r with vars := r.vars ++ [v'] }) hvs (h.concat hfits)

/-- A report is settled when its names are bound. -/
theorem settled_resolve (h : ∀ x ∈ r.computations, x.root.Every Expr.Named) (w : Workspace)
    (main : QueryId) :
    (r.resolve w main).Settled (w.scope (some main)) w.folding ∧
      (r.resolve w main).query = r.query := by
  have hfields : ∀ b ∈ r.breaks, ∀ x ∈ b.fields, x.root.Every Expr.Named :=
    fun b hb x hx => h x (mem_computations.2 (.inl ⟨b, hb, hx⟩))
  have hvars : ∀ v ∈ r.vars, ∀ x ∈ v.computations, x.root.Every Expr.Named :=
    fun v hv x hx => h x (mem_computations.2 (.inr (.inl ⟨v, hv, hx⟩)))
  obtain ⟨hbreaks, hnone, hquery⟩ := settled_foldl_addResolvedBreak (w.scope (some main)) w r.breaks
    (r := { r with breaks := [], vars := [] }) hfields rfl .nil
  change Fits _ (r.boundBreaks w main).breaks at hbreaks
  change (r.boundBreaks w main).vars = [] at hnone
  change (r.boundBreaks w main).query = r.query at hquery
  obtain ⟨hbound, hsame, hquery'⟩ := settled_foldl_addResolvedVariable (w.scope (some main)) w r.vars
    (r := r.boundBreaks w main) hvars (hnone ▸ .nil)
  change Fits _ (r.boundVars w main).vars at hbound
  change (r.boundVars w main).breaks = (r.boundBreaks w main).breaks at hsame
  change (r.boundVars w main).query = (r.boundBreaks w main).query at hquery'
  rw [resolve_eq]
  refine ⟨⟨?_, ?_, ?_⟩, hquery'.trans hquery⟩
  · dsimp only
    rw [hsame]
    exact hbreaks
  · dsimp only
    rw [hsame]
    exact hbound
  · intro e' he'
    obtain ⟨e, he, rfl⟩ := List.mem_map.1 he'
    exact Computation.boundIn_optimize (h _ (mem_computations.2 (.inr (.inr ⟨e, he, rfl⟩)))) _ w

/-! A settled report stays as it is -/

theorem addResolvedBreak_again (h : b.FitsIn queries w.folding r.breaks) (hvars : r.vars = [])
    (hb : ∀ x ∈ b.fields, x.Direct) :
    addResolvedBreak queries w.optimize r b = { r with breaks := r.breaks ++ [b] } := by
  have hscope : r.resolvedScope queries none =
      ({ breaks := r.breaks } : Report).resolvedScope queries none := by
    apply resolvedScope_of_names
    rw [names, hvars]
    rfl
  have hfields : b.fields.filterMap (fun x =>
      if (x.resolve (r.resolvedScope queries none)).2.isEmpty
      then some (w.optimize (x.resolve (r.resolvedScope queries none)).1) else none) = b.fields := by
    conv_rhs => rw [← List.filterMap_some (l := b.fields)]
    apply List.filterMap_congr
    intro x hx
    have hfits := h.fields x hx
    rw [hscope, hfits.missing, hfits.again (hb x hx)]
    rfl
  have hresolved : b.resolve? (r.resolvedScope queries none) w.optimize = some b := by
    unfold Break.resolve?
    change (if (b.fields.filterMap _).isEmpty then none else some { b with fields := _ }) = _
    rw [hfields, if_neg (mt List.isEmpty_iff.1 h.nonempty)]
  rw [addResolvedBreak, hresolved]

theorem addResolvedVariable_again (h : v.FitsIn queries w.folding r.breaks r.vars)
    (hv : ∀ x ∈ v.computations, x.Direct) :
    addResolvedVariable queries w.optimize r v = { r with vars := r.vars ++ [v] } := by
  have hscope : r.resolvedScope queries (some r.vars.length) =
      ({ breaks := r.breaks, vars := r.vars } : Report).resolvedScope queries (some r.vars.length) :=
    resolvedScope_of_names rfl _ _
  have hreset : r.resetBreak? v = some v.resetBreak := h.resetBreak
  have hfound : (v.computations.all fun x =>
      (x.resolve (r.resolvedScope queries (some r.vars.length))).2.isEmpty) = true := by
    apply List.all_eq_true.2
    intro x hx
    rw [hscope, (h.computations x hx).missing]
    rfl
  have hsame (x : Computation) (hx : x ∈ v.computations) :
      w.optimize (x.resolve (r.resolvedScope queries (some r.vars.length))).1 = x := by
    rw [hscope]
    exact (h.computations x hx).again (hv x hx)
  have hmap : (v.map fun x =>
      w.optimize (x.resolve (r.resolvedScope queries (some r.vars.length))).1) = v := by
    have hstages : v.stages.map (Option.map fun x =>
        w.optimize (x.resolve (r.resolvedScope queries (some r.vars.length))).1) = v.stages := by
      conv_rhs => rw [← List.map_id v.stages]
      apply List.map_congr_left
      intro o ho
      cases o with
      | none => rfl
      | some x => exact congrArg some (hsame x (Variable.mem_computations.2 (.inl ho)))
    have hresult : (v.result.map fun x =>
        w.optimize (x.resolve (r.resolvedScope queries (some r.vars.length))).1) = v.result := by
      cases hx : v.result with
      | none => rfl
      | some x => exact congrArg some (hsame x (Variable.mem_computations.2 (.inr hx)))
    rw [Variable.map, hstages, hresult]
  unfold addResolvedVariable Variable.resolve?
  dsimp only
  rw [hreset, if_pos hfound, hmap]

theorem resolve_of_settled (h : r.Settled (w.scope (some main)) w.folding)
    (hr : ∀ x ∈ r.computations, x.Direct) : r.resolve w main = r := by
  have hbreaks : r.boundBreaks w main = { r with vars := [] } := by
    have hfits : Fits (fun before b => b.FitsIn (w.scope (some main)) w.folding before ∧
        ∀ x ∈ b.fields, x.Direct) r.breaks :=
      h.breaks.imp fun before b hb hfits =>
        ⟨hfits, fun x hx => hr x (mem_computations.2 (.inl ⟨b, hb, hx⟩))⟩
    apply hfits.foldl_eq (addResolvedBreak (w.scope (some main)) w.optimize) fun bs =>
      ({ r with breaks := bs, vars := [] } : Report)
    rintro before b ⟨hfits, hb⟩
    exact addResolvedBreak_again hfits rfl hb
  have hvars : r.boundVars w main = r := by
    rw [boundVars, hbreaks]
    have hfits : Fits (fun before v => v.FitsIn (w.scope (some main)) w.folding r.breaks before ∧
        ∀ x ∈ v.computations, x.Direct) r.vars :=
      h.vars.imp fun before v hv hfits =>
        ⟨hfits, fun x hx => hr x (mem_computations.2 (.inr (.inl ⟨v, hv, hx⟩)))⟩
    apply hfits.foldl_eq (addResolvedVariable (w.scope (some main)) w.optimize) fun vs =>
      ({ r with vars := vs } : Report)
    rintro before v ⟨hfits, hv⟩
    exact addResolvedVariable_again hfits hv
  have hexpressions : (r.expressions.map fun e => { e with
      computation := w.optimize (e.computation.resolve (r.expressionScope w main)).1 }) =
      r.expressions := by
    conv_rhs => rw [← List.map_id r.expressions]
    apply List.map_congr_left
    intro e he
    have hbound := h.expressions e he
    rw [expressionScope, hvars,
      hbound.again (hr _ (mem_computations.2 (.inr (.inr ⟨e, he, rfl⟩))))]
    rfl
  rw [resolve_eq, hexpressions, hvars]

/-! What expressions remember has no part in binding their names -/

theorem names_forget (r : Report) : r.forget.names = r.names := by
  simp only [names, forget, List.map_map]
  rfl

theorem addResolvedBreak_forget (hb : ∀ x ∈ b.fields, x.startsWithInitial = false)
    (queries : Scope) (w : Workspace) (r : Report) :
    addResolvedBreak queries w.optimize r.forget b.forget =
      (addResolvedBreak queries w.optimize r b).forget := by
  have hscope := resolvedScope_of_names r.names_forget queries none
  have hresolve : b.forget.resolve? (r.resolvedScope queries none) w.optimize =
      (b.resolve? (r.resolvedScope queries none) w.optimize).map .forget := by
    have hfields : (b.fields.map Computation.forget).filterMap (fun x =>
        if (x.resolve (r.resolvedScope queries none)).2.isEmpty
        then some (w.optimize (x.resolve (r.resolvedScope queries none)).1) else none) =
        (b.fields.filterMap (fun x =>
          if (x.resolve (r.resolvedScope queries none)).2.isEmpty
          then some (w.optimize (x.resolve (r.resolvedScope queries none)).1) else none)).map
          Computation.forget := by
      rw [List.filterMap_map, List.map_filterMap]
      apply List.filterMap_congr
      intro x hx
      rw [Function.comp_apply, Computation.missing_forget (hb x hx),
        Computation.forget_bound (hb x hx)]
      split <;> rfl
    unfold Break.resolve?
    change (if ((b.fields.map Computation.forget).filterMap _).isEmpty then none
      else some { b with fields := (b.fields.map Computation.forget).filterMap _ }) =
      Option.map Break.forget (if (b.fields.filterMap _).isEmpty then none
        else some { b with fields := b.fields.filterMap _ })
    rw [hfields, List.isEmpty_map]
    split <;> rfl
  rw [addResolvedBreak, addResolvedBreak, hscope, hresolve]
  cases b.resolve? (r.resolvedScope queries none) w.optimize with
  | none => rfl
  | some b' =>
    simp only [Option.map_some, forget, List.map_append, List.map_cons, List.map_nil]

theorem addResolvedVariable_forget (hv : ∀ x ∈ v.computations, x.startsWithInitial = false)
    (queries : Scope) (w : Workspace) (r : Report) :
    addResolvedVariable queries w.optimize r.forget v.forget =
      (addResolvedVariable queries w.optimize r v).forget := by
  have hlength : r.forget.vars.length = r.vars.length := List.length_map _
  have hscope := resolvedScope_of_names r.names_forget queries (some r.vars.length)
  have hreset : r.forget.resetBreak? v.forget = r.resetBreak? v := by
    have hname : v.forget.resetOnBreak = v.resetOnBreak := rfl
    rw [resetBreak?, resetBreak?, names_forget, hname]
  have hresolve : v.forget.resolve? (r.resolvedScope queries (some r.vars.length)) w.optimize =
      (v.resolve? (r.resolvedScope queries (some r.vars.length)) w.optimize).map .forget := by
    have hcomputations : v.forget.computations = v.computations.map .forget :=
      v.computations_map .forget
    have hall : (v.forget.computations.all fun x =>
        (x.resolve (r.resolvedScope queries (some r.vars.length))).2.isEmpty) =
        v.computations.all fun x =>
          (x.resolve (r.resolvedScope queries (some r.vars.length))).2.isEmpty := by
      rw [hcomputations, List.all_map, Bool.eq_iff_iff, List.all_eq_true, List.all_eq_true]
      apply forall₂_congr
      intro x hx
      rw [Function.comp_apply, Computation.missing_forget (hv x hx)]
    have hstages : (v.stages.map (Option.map Computation.forget)).map (Option.map fun x =>
        w.optimize (x.resolve (r.resolvedScope queries (some r.vars.length))).1) =
        (v.stages.map (Option.map fun x =>
          w.optimize (x.resolve (r.resolvedScope queries (some r.vars.length))).1)).map
          (Option.map Computation.forget) := by
      rw [List.map_map, List.map_map]
      apply List.map_congr_left
      intro o ho
      cases o with
      | none => rfl
      | some x =>
        exact congrArg some (Computation.forget_bound
          (hv x (Variable.mem_computations.2 (.inl ho))) _ w)
    have hresult : (v.result.map Computation.forget).map (fun x =>
        w.optimize (x.resolve (r.resolvedScope queries (some r.vars.length))).1) =
        (v.result.map fun x =>
          w.optimize (x.resolve (r.resolvedScope queries (some r.vars.length))).1).map
          Computation.forget := by
      cases hx : v.result with
      | none => rfl
      | some x =>
        exact congrArg some (Computation.forget_bound
          (hv x (Variable.mem_computations.2 (.inr hx))) _ w)
    unfold Variable.resolve?
    rw [hall]
    split
    · simp only [Variable.forget, Variable.map, Option.map_some, hstages, hresult]
    · rfl
  unfold addResolvedVariable
  dsimp only
  rw [hlength, hscope, hreset, hresolve]
  cases r.resetBreak? v with
  | none => rfl
  | some resetBreak =>
    cases v.resolve? (r.resolvedScope queries (some r.vars.length)) w.optimize with
    | none => rfl
    | some v' =>
      simp only [Option.map_some, forget, List.map_append, List.map_cons, List.map_nil]
      rfl

/-- Binding names and forgetting what expressions remember can be done in either order. -/
theorem resolve_forget (h : ∀ x ∈ r.computations, x.startsWithInitial = false) (w : Workspace)
    (main : QueryId) : r.forget.resolve w main = (r.resolve w main).forget := by
  have hbreaks (bs : List Break) (r₀ : Report)
      (hbs : ∀ b ∈ bs, ∀ x ∈ b.fields, x.startsWithInitial = false) :
      (bs.map Break.forget).foldl (addResolvedBreak (w.scope (some main)) w.optimize) r₀.forget =
        (bs.foldl (addResolvedBreak (w.scope (some main)) w.optimize) r₀).forget := by
    induction bs generalizing r₀ with
    | nil => rfl
    | cons b bs ih =>
      obtain ⟨hb, hbs⟩ := List.forall_mem_cons.1 hbs
      rw [List.map_cons, List.foldl_cons, List.foldl_cons, addResolvedBreak_forget hb, ih _ hbs]
  have hvars (vs : List Variable) (r₀ : Report)
      (hvs : ∀ v ∈ vs, ∀ x ∈ v.computations, x.startsWithInitial = false) :
      (vs.map Variable.forget).foldl (addResolvedVariable (w.scope (some main)) w.optimize)
          r₀.forget =
        (vs.foldl (addResolvedVariable (w.scope (some main)) w.optimize) r₀).forget := by
    induction vs generalizing r₀ with
    | nil => rfl
    | cons v vs ih =>
      obtain ⟨hv, hvs⟩ := List.forall_mem_cons.1 hvs
      rw [List.map_cons, List.foldl_cons, List.foldl_cons, addResolvedVariable_forget hv, ih _ hvs]
  have hbound : r.forget.boundBreaks w main = (r.boundBreaks w main).forget :=
    hbreaks r.breaks { r with breaks := [], vars := [] }
      fun b hb x hx => h x (mem_computations.2 (.inl ⟨b, hb, hx⟩))
  have hall : r.forget.boundVars w main = (r.boundVars w main).forget := by
    rw [boundVars, hbound]
    exact hvars r.vars _ fun v hv x hx => h x (mem_computations.2 (.inr (.inl ⟨v, hv, hx⟩)))
  have hscope : r.forget.expressionScope w main = r.expressionScope w main := by
    rw [expressionScope, hall]
    exact resolvedScope_of_names (names_forget _) _ _
  rw [resolve_eq, resolve_eq, hall, hscope]
  simp only [forget, List.map_map, Function.comp_def, ReportExpression.forget]
  congr 1
  apply List.map_congr_left
  intro e he
  rw [Computation.forget_bound (h _ (mem_computations.2 (.inr (.inr ⟨e, he, rfl⟩))))]

end Report
end Reporting
