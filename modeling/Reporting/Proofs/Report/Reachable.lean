import Reporting.Proofs.Expr.Compiled
import Reporting.Proofs.Expr.Reading
import Reporting.Proofs.Query.Forest
import Reporting.Proofs.Report.Turns
/-!
The reports that can be built and run, and what holds of them: names are unique, and expressions are
computed on every row, except that a counter whose name is known is read directly.
-/
namespace Reporting

/-- The row counters of queries and of breaks. -/
def Source.IsCounter : Source → Prop
  | .rowNumber _ | .breakRowNumber _ => True
  | _ => False

namespace Expr

variable {c : Context} {self : Option Value} {e e' : Expr} {es : List Expr} {f : Function}
  {ring : Ring (Option Cell)} {g : Bool} {s : Scope}

/-- A call that reads a source reads a counter, and this in every slot. -/
def ReadsCounter : Expr → Prop
  | call _ _ ring _ => ∀ source, boundTo? ring = some source →
      ring = .fill (some (.borrowed source)) ∧ source.IsCounter
  | _ => True

theorem ReadsCounter.whole (h : e.ReadsCounter) : e.BoundWhole := by
  cases e with
  | constant => trivial
  | reference => trivial
  | call f es ring g => exact fun s hs => (h s hs).1

theorem boundTo?_of_fresh (h : (call f es ring g).Fresh) {source : Source} :
    boundTo? ring ≠ some source := by
  rw [h.1]
  exact nofun

theorem readsCounter_of_fresh (h : e.Every Fresh) : e.Every ReadsCounter := by
  apply h.imp
  intro e he
  cases e with
  | constant => trivial
  | reference => trivial
  | call => exact fun source hs => (boundTo?_of_fresh he hs).elim

end Expr

/-- A scope in which the names of counters stand for counters. -/
structure Scope.Counts (s : Scope) : Prop where
  rowNumber : ∀ name source, s.rowNumber? name = some source → source.IsCounter
  breakRowNumber : ∀ name source, s.breakRowNumber? name = some source → source.IsCounter

theorem Workspace.counts_scope (w : Workspace) (names : ReportNames) (stagesOf : Option Nat)
    (main : QueryId) :
    (({ names, stagesOf } : ReportScope).onTopOf (w.scope (some main))).Counts where
  rowNumber name source hs := by
    have hrow : (w.scope (some main)).rowNumber? name = some source := hs
    obtain ⟨id, rfl⟩ := QueryStore.rowNumber?_eq_some hrow
    trivial
  breakRowNumber name source hs := by
    obtain ⟨k, -, rfl⟩ := Option.map_eq_some_iff.1 hs
    trivial

namespace Expr

variable {c : Context} {self : Option Value} {e e' : Expr} {es : List Expr} {f : Function}
  {ring : Ring (Option Cell)} {g : Bool} {s : Scope} {P : Source → Prop} {kind : CounterKind}

theorem counter_of_counterSource? (hs : s.Counts) {name : Option String} {source : Source}
    (h : counterSource? s kind name = some source) : source.IsCounter := by
  cases kind with
  | ofQuery => exact hs.rowNumber name source h
  | ofBreak =>
    obtain ⟨n, -, hn⟩ := Option.bind_eq_some_iff.1 h
    exact hs.breakRowNumber n source hn

/-- Binding a counter makes it read a counter, or leaves it as it was. -/
theorem readsCounter_bind (hs : s.Counts) (h : e.Every ReadsCounter) :
    (bind s e).Every ReadsCounter := by
  induction e using tree_induction with
  | constant => trivial
  | reference => trivial
  | call f es ring g ih =>
    have hops : ∀ e ∈ es.map (bind s), e.Every ReadsCounter :=
      List.forall_mem_map.2 fun e he => ih e he (h.operand he)
    rcases bind_call_cases s f es ring g with
      ⟨-, v, heq⟩ | ⟨-, kind, name, source, hsource, heq⟩ | heq
    · rw [heq]
      trivial
    · rw [heq]
      refine every_call.2 ⟨fun source' hs' => ?_, hops⟩
      cases hs'
      exact ⟨rfl, counter_of_counterSource? hs hsource⟩
    · rw [heq]
      exact every_call.2 ⟨h.node, hops⟩

/-- A call reads no other sources than those in `P`. -/
def CallReads (P : Source → Prop) : Expr → Prop
  | call _ _ ring _ => ∀ source, boundTo? ring = some source → P source
  | _ => True

theorem mem_references_of_mem {r : Reference} (he : e ∈ es) (hr : r ∈ e.references) :
    r ∈ (call f es ring g).references := by
  rw [references]
  induction es with
  | nil => cases he
  | cons e' es ih =>
    rw [referencesAll]
    rcases List.mem_cons.1 he with rfl | he
    · exact List.mem_append_left _ hr
    · exact List.mem_append_right _ (ih he)

/-- A bound tree reads what its names stand for, the counters of the scope, and what it was bound to
before. -/
theorem readsOnly_bind
    (hcounter : ∀ kind name source, counterSource? s kind name = some source → P source)
    (hnames : ∀ r ∈ e.references, ∀ source, s.find? r = some source → P source)
    (h : e.Every (CallReads P)) : (bind s e).Every (ReadsOnly P) := by
  induction e using tree_induction with
  | constant => trivial
  | reference r t g => exact hnames r List.mem_cons_self
  | call f es ring g ih =>
    have hops : ∀ e ∈ es.map (bind s), e.Every (ReadsOnly P) :=
      List.forall_mem_map.2 fun e he =>
        ih e he (fun r hr => hnames r (mem_references_of_mem he hr)) (h.operand he)
    rcases bind_call_cases s f es ring g with
      ⟨-, v, heq⟩ | ⟨-, kind, name, source, hsource, heq⟩ | heq
    · rw [heq]
      trivial
    · rw [heq]
      refine every_call.2 ⟨fun source' hs' => ?_, hops⟩
      cases hs'
      exact hcounter kind name source hsource
    · rw [heq]
      exact every_call.2 ⟨h.node, hops⟩

theorem readsCounter_of_forget (h : e.forget = e'.forget) (he : e.Every ReadsCounter) :
    e'.Every ReadsCounter := by
  apply every_of_forget ?_ h he
  intro f es ring g
  simp only [ReadsCounter, boundTo?_forgetRing]
  cases hb : boundTo? ring with
  | some s => simp only [forgetRing, hb, Option.isSome_some, if_true]
  | none => simp only [reduceCtorEq, false_implies, implies_true]

end Expr

/-! Expressions of a report -/

/-- An expression that is computed on every row, up to the counters that it reads. -/
structure Computation.Sound (x : Computation) : Prop where
  computed : x.startsWithInitial = false
  counters : x.root.Every Expr.ReadsCounter

namespace Computation

variable {x : Computation} {c : Compiler} {s : Scope} {text : String}

theorem fresh_compileText (h : c.compileText text = .ok x) :
    x.startsWithInitial = false ∧ x.root.Every Expr.Fresh := by
  unfold Compiler.compileText at h
  split at h
  · cases h
  · obtain ⟨e, he, h⟩ := Compiler.bind_eq_ok h
    cases h
    exact ⟨rfl, Compiler.fresh_compile _ he⟩

theorem sound_compileText (h : c.compileText text = .ok x) : x.Sound := by
  obtain ⟨hcomputed, hfresh⟩ := fresh_compileText h
  exact ⟨hcomputed, Expr.readsCounter_of_fresh hfresh⟩

theorem Sound.resolve (h : x.Sound) (hs : s.Counts) : (x.resolve s).1.Sound :=
  ⟨h.computed, Expr.readsCounter_bind hs h.counters⟩

theorem Sound.optimize (h : x.Sound) (precision : Precision) (order : DateOrder) :
    (x.optimize precision order).Sound :=
  ⟨h.computed, Expr.every_simplify (fun _ _ => trivial) (fun _ _ _ _ _ h => h) h.counters⟩

theorem Sound.restart (h : x.Sound) : x.restart.Sound := ⟨h.computed, h.counters⟩

theorem Sound.of_forget {y : Computation} (h : x.Sound) (hxy : y.forget = x.forget) : y.Sound := by
  obtain ⟨hs, hroot⟩ := root_of_forget hxy h.computed
  exact ⟨hs, Expr.readsCounter_of_forget hroot.symm h.counters⟩

theorem Sound.evaluate (h : x.Sound) (c : Context) : (x.evaluate c).1.Sound :=
  h.of_forget (forget_evaluate x c)

end Computation

/-! Reports -/

/-- Names are unique, and all expressions are sound. -/
structure Report.Sound (r : Report) : Prop where
  breakNames : (r.breaks.map (·.name)).Nodup
  varNames : (r.vars.map (·.name)).Nodup
  fields : ∀ b ∈ r.breaks, ∀ x ∈ b.fields, x.Sound
  vars : ∀ v ∈ r.vars, ∀ x ∈ v.computations, x.Sound
  expressions : ∀ e ∈ r.expressions, e.computation.Sound

theorem mem_of_mapM_ok {α β : Type} {f : α → Except Error β} {xs : List α} {ys : List β}
    (h : xs.mapM f = .ok ys) {y : β} (hy : y ∈ ys) : ∃ x ∈ xs, f x = .ok y := by
  induction xs generalizing ys with
  | nil =>
    rw [List.mapM_nil] at h
    cases h
    cases hy
  | cons x xs ih =>
    rw [List.mapM_cons] at h
    obtain ⟨y', hy', h⟩ := Compiler.bind_eq_ok h
    obtain ⟨ys', hys', h⟩ := Compiler.bind_eq_ok h
    cases h
    rcases List.mem_cons.1 hy with rfl | hy
    · exact ⟨x, List.mem_cons_self, hy'⟩
    · obtain ⟨x', hx', hf⟩ := ih hys' hy
      exact ⟨x', List.mem_cons_of_mem _ hx', hf⟩

theorem Break.exists_text {c : Compiler} {d : BreakDef} {b : Break} (h : Break.compile c d = .ok b) :
    b.name = d.name ∧ ∀ x ∈ b.fields, ∃ text, c.compileText text = .ok x := by
  obtain ⟨_, -, h⟩ := Compiler.bind_eq_ok h
  obtain ⟨_, -, h⟩ := Compiler.bind_eq_ok h
  obtain ⟨_, -, h⟩ := Compiler.bind_eq_ok h
  obtain ⟨fields, hfields, h⟩ := Compiler.bind_eq_ok h
  cases h
  refine ⟨rfl, fun x hx => ?_⟩
  obtain ⟨text, -, htext⟩ := mem_of_mapM_ok hfields hx
  exact ⟨text, htext⟩

theorem Variable.mem_computations {v : Variable} {x : Computation} :
    x ∈ v.computations ↔ some x ∈ v.stages ∨ v.result = some x := by
  rw [computations, List.mem_filterMap]
  simp only [id_eq, exists_eq_right, List.mem_append, List.mem_singleton, eq_comm]

theorem Variable.computations_map (v : Variable) (f : Computation → Computation) :
    (v.map f).computations = v.computations.map f := by
  simp only [computations, map, List.filterMap_append, List.map_append, List.filterMap_map,
    List.map_filterMap]
  rfl

/-- What is compiled does not depend on the variables before, except that it may be refused. -/
theorem Variable.compile_eq_ok {c : Compiler} {earlier : List Variable} {d : VariableDef}
    {v : Variable} (h : Variable.compile c earlier d = .ok v) :
    (∀ w ∈ earlier, w.name ≠ d.name) ∧ v.checkReferences earlier = .ok () ∧ ∃ stages result,
      [d.base, d.intermediate, d.intermediate2].mapM (compileFormula c) = .ok stages ∧
      compileFormula c d.result = .ok result ∧
      v = { name := d.name, kind := d.kind, stages, result, resetOnBreak := d.resetOnBreak
            precalculated := d.precalculated } := by
  unfold Variable.compile at h
  split at h
  · cases h
  · rename_i hnew
    obtain ⟨_, -, h⟩ := Compiler.bind_eq_ok h
    obtain ⟨stages, hstages, h⟩ := Compiler.bind_eq_ok h
    obtain ⟨result, hresult, h⟩ := Compiler.bind_eq_ok h
    obtain ⟨⟨⟩, hcheck, h⟩ := Compiler.bind_eq_ok h
    cases h
    refine ⟨fun w hw he => hnew ?_, hcheck, stages, result, hstages, hresult, rfl⟩
    exact List.any_eq_true.2 ⟨w, hw, decide_eq_true he⟩

theorem Variable.exists_text {c : Compiler} {earlier : List Variable} {d : VariableDef} {v : Variable}
    (h : Variable.compile c earlier d = .ok v) :
    ∀ x ∈ v.computations, ∃ text, c.compileText text = .ok x := by
  have hformula {text : Option String} {x : Computation}
      (hx : Variable.compileFormula c text = .ok (some x)) : ∃ text, c.compileText text = .ok x := by
    cases text with
    | none => cases hx
    | some text =>
      obtain ⟨y, hy, hx⟩ := Compiler.bind_eq_ok hx
      cases hx
      exact ⟨text, hy⟩
  obtain ⟨-, -, stages, result, hstages, hresult, rfl⟩ := compile_eq_ok h
  intro x hx
  rcases mem_computations.1 hx with hx | hx
  · obtain ⟨text, -, htext⟩ := mem_of_mapM_ok hstages hx
    exact hformula htext
  · exact hformula (hresult.trans (congrArg Except.ok hx))

namespace Report

/-- The reports that can be built and run. -/
inductive Reachable : Report → Prop
  | empty (name : Option String) : Reachable { name }
  | setQuery {r : Report} (query : Option String) : Reachable r → Reachable { r with query }
  | newBreak {r r' : Report} {c : Compiler} {d : BreakDef} : Reachable r →
      r.newBreak c d = .ok r' → Reachable r'
  | addBreakField {r r' : Report} {c : Compiler} {name text : String} : Reachable r →
      r.addBreakField c name text = .ok r' → Reachable r'
  | newVariable {r r' : Report} {c : Compiler} {d : VariableDef} : Reachable r →
      r.newVariable c d = .ok r' → Reachable r'
  | addExpression {r r' : Report} {c : Compiler} {name : Option String} {text : String} {i : Nat} :
      Reachable r → r.addExpression c name text = .ok (r', i) → Reachable r'
  | run {r : Report} {w : Workspace} {run : Run} : Reachable r → r.run w = .ok run →
      Reachable run.progress.report

variable {r r' : Report} {c : Compiler}

theorem nodup_concat {names : List String} {name : String} (h : names.Nodup)
    (hn : ∀ n ∈ names, n ≠ name) : (names ++ [name]).Nodup := by
  refine List.nodup_append.2 ⟨h, List.pairwise_singleton _ name, ?_⟩
  intro n hm m hm'
  rw [List.mem_singleton.1 hm']
  exact hn n hm

/-! What a report is after it was extended -/

theorem newBreak_eq_ok {d : BreakDef} (h : r.newBreak c d = .ok r') :
    (∀ b ∈ r.breaks, b.name ≠ d.name) ∧
      ∃ b, Break.compile c d = .ok b ∧ r' = { r with breaks := r.breaks ++ [b] } := by
  unfold Report.newBreak at h
  split at h
  · cases h
  · rename_i hnew
    obtain ⟨b, hb, h⟩ := Compiler.bind_eq_ok h
    refine ⟨fun b' hb' he => hnew ?_, b, hb, (Except.ok.inj h).symm⟩
    exact List.any_eq_true.2 ⟨b', hb', decide_eq_true he⟩

theorem addBreakField_eq_ok {name text : String} (h : r.addBreakField c name text = .ok r') :
    ∃ i x, r.breaks.findIdx? (fun b => b.name = name) = some i ∧ c.compileText text = .ok x ∧
      r' = { r with breaks := r.breaks.modify i fun b => { b with fields := b.fields ++ [x] } } := by
  unfold Report.addBreakField at h
  split at h
  · cases h
  · rename_i i hi
    obtain ⟨x, hx, h⟩ := Compiler.bind_eq_ok h
    exact ⟨i, x, hi, hx, (Except.ok.inj h).symm⟩

theorem newVariable_eq_ok {d : VariableDef} (h : r.newVariable c d = .ok r') :
    ∃ v, Variable.compile c r.vars d = .ok v ∧ r' = { r with vars := r.vars ++ [v] } := by
  obtain ⟨v, hv, h⟩ := Compiler.bind_eq_ok h
  exact ⟨v, hv, (Except.ok.inj h).symm⟩

theorem addExpression_eq_ok {name : Option String} {text : String} {i : Nat}
    (h : r.addExpression c name text = .ok (r', i)) :
    ∃ x, c.compileText text = .ok x ∧
      r' = { r with expressions := r.expressions ++ [⟨name, x⟩] } := by
  obtain ⟨x, hx, h⟩ := Compiler.bind_eq_ok h
  exact ⟨x, hx, (congrArg Prod.fst (Except.ok.inj h)).symm⟩

theorem Sound.newBreak {d : BreakDef} (h : r.Sound) (hr : r.newBreak c d = .ok r') : r'.Sound := by
  obtain ⟨hnew, b, hb, rfl⟩ := newBreak_eq_ok hr
  obtain ⟨hname, hfields⟩ := Break.exists_text hb
  refine ⟨?_, h.varNames, ?_, h.vars, h.expressions⟩
  · rw [List.map_append]
    refine nodup_concat h.breakNames fun n hn he => ?_
    obtain ⟨b', hb', rfl⟩ := List.mem_map.1 hn
    exact hnew b' hb' (he.trans hname)
  · intro b' hb'
    rcases List.mem_append.1 hb' with hb' | hb'
    · exact h.fields b' hb'
    · rw [List.mem_singleton.1 hb']
      intro x hx
      obtain ⟨text, htext⟩ := hfields x hx
      exact Computation.sound_compileText htext

theorem Sound.addBreakField {name text : String} (h : r.Sound)
    (hr : r.addBreakField c name text = .ok r') : r'.Sound := by
  obtain ⟨i, x, -, hx, rfl⟩ := addBreakField_eq_ok hr
  refine ⟨?_, h.varNames, ?_, h.vars, h.expressions⟩
  · have hmap := Progress.map_modify_of_eq r.breaks i
      (f := fun b => { b with fields := b.fields ++ [x] }) (g := fun b => b.name) fun _ => rfl
    rw [hmap]
    exact h.breakNames
  · intro b hb y hy
    rcases Progress.mem_of_mem_modify hb with hb | ⟨b', hb', rfl⟩
    · exact h.fields b hb y hy
    · rcases List.mem_append.1 hy with hy | hy
      · exact h.fields b' hb' y hy
      · rw [List.mem_singleton.1 hy]
        exact Computation.sound_compileText hx

theorem Sound.newVariable {d : VariableDef} (h : r.Sound) (hr : r.newVariable c d = .ok r') :
    r'.Sound := by
  obtain ⟨v, hv, rfl⟩ := newVariable_eq_ok hr
  refine ⟨h.breakNames, ?_, h.fields, ?_, h.expressions⟩
  · obtain ⟨hnew, -, stages, result, -, -, rfl⟩ := Variable.compile_eq_ok hv
    rw [List.map_append]
    refine nodup_concat h.varNames fun n hn => ?_
    obtain ⟨w, hw, rfl⟩ := List.mem_map.1 hn
    exact hnew w hw
  · intro w hw
    rcases List.mem_append.1 hw with hw | hw
    · exact h.vars w hw
    · rw [List.mem_singleton.1 hw]
      intro x hx
      obtain ⟨text, htext⟩ := Variable.exists_text hv x hx
      exact Computation.sound_compileText htext

theorem Sound.addExpression {name : Option String} {text : String} {i : Nat} (h : r.Sound)
    (hr : r.addExpression c name text = .ok (r', i)) : r'.Sound := by
  obtain ⟨x, hx, rfl⟩ := addExpression_eq_ok hr
  refine ⟨h.breakNames, h.varNames, h.fields, h.vars, ?_⟩
  intro e he
  rcases List.mem_append.1 he with he | he
  · exact h.expressions e he
  · rw [List.mem_singleton.1 he]
    exact Computation.sound_compileText hx

/-! Binding names -/

theorem addResolvedBreak_cases (queries : Scope) (optimize : Computation → Computation) (r : Report)
    (b : Break) :
    addResolvedBreak queries optimize r b = r ∨
      ∃ fields, (∀ x ∈ fields, ∃ y ∈ b.fields,
          x = optimize (y.resolve (r.resolvedScope queries none)).1) ∧
        addResolvedBreak queries optimize r b =
          { r with breaks := r.breaks ++ [{ b with fields }] } := by
  unfold addResolvedBreak Break.resolve?
  dsimp only
  split
  · rename_i b' hb'
    split at hb'
    · cases hb'
    · cases hb'
      refine .inr ⟨_, fun x hx => ?_, rfl⟩
      obtain ⟨y, hy, hx⟩ := List.mem_filterMap.1 hx
      refine ⟨y, hy, ?_⟩
      split at hx
      · exact (Option.some.inj hx).symm
      · cases hx
  · exact .inl rfl

/-- A variable with its names bound behind the variables of a report. -/
def boundVariable (queries : Scope) (optimize : Computation → Computation) (r : Report)
    (resetBreak : Option Nat) (v : Variable) : Variable :=
  { v.map fun x => optimize (x.resolve (r.resolvedScope queries (some r.vars.length))).1 with
    resetBreak }

theorem addResolvedVariable_cases (queries : Scope) (optimize : Computation → Computation)
    (r : Report) (v : Variable) :
    addResolvedVariable queries optimize r v = r ∨
      ∃ resetBreak, r.resetBreak? v = some resetBreak ∧
        addResolvedVariable queries optimize r v =
          { r with vars := r.vars ++ [boundVariable queries optimize r resetBreak v] } := by
  unfold addResolvedVariable Variable.resolve?
  dsimp only
  cases hb : r.resetBreak? v with
  | none => exact .inl rfl
  | some resetBreak =>
    split
    · rename_i resetBreak' v' hb' hv'
      cases hb'
      split at hv'
      · cases hv'
        exact .inr ⟨resetBreak, rfl, rfl⟩
      · cases hv'
    · exact .inl rfl

theorem foldl_addResolvedBreak (w : Workspace) (main : QueryId) (bs : List Break) (r : Report)
    (hbs : ∀ b ∈ bs, ∀ x ∈ b.fields, x.Sound) (hr : ∀ b ∈ r.breaks, ∀ x ∈ b.fields, x.Sound) :
    let r' := bs.foldl (addResolvedBreak (w.scope (some main)) w.optimize) r
    (∀ b ∈ r'.breaks, ∀ x ∈ b.fields, x.Sound) ∧
      (r'.breaks.map (·.name)).Sublist (r.breaks.map (·.name) ++ bs.map (·.name)) ∧
      r'.vars = r.vars ∧ r'.expressions = r.expressions := by
  induction bs generalizing r with
  | nil =>
    refine ⟨hr, ?_, rfl, rfl⟩
    rw [List.map_nil, List.append_nil]
    exact List.Sublist.refl _
  | cons b bs ih =>
    obtain ⟨hb, hbs⟩ := List.forall_mem_cons.1 hbs
    rw [List.foldl_cons]
    rcases addResolvedBreak_cases (w.scope (some main)) w.optimize r b with
      heq | ⟨fields, hfields, heq⟩
    · rw [heq]
      obtain ⟨hsound, hnames, hrest⟩ := ih r hbs hr
      refine ⟨hsound, hnames.trans ?_, hrest⟩
      exact List.Sublist.append (List.Sublist.refl _) (List.sublist_cons_self _ _)
    · rw [heq]
      obtain ⟨hsound, hnames, hrest⟩ := ih { r with breaks := r.breaks ++ [{ b with fields }] } hbs (by
        intro b' hb'
        rcases List.mem_append.1 hb' with hb' | hb'
        · exact hr b' hb'
        · rw [List.mem_singleton.1 hb']
          intro x hx
          obtain ⟨y, hy, rfl⟩ := hfields x hx
          exact ((hb y hy).resolve (w.counts_scope r.names none main)).optimize _ _)
      refine ⟨hsound, ?_, hrest⟩
      rw [List.map_append, List.append_assoc] at hnames
      exact hnames

theorem foldl_addResolvedVariable (w : Workspace) (main : QueryId) (vs : List Variable) (r : Report)
    (hvs : ∀ v ∈ vs, ∀ x ∈ v.computations, x.Sound)
    (hr : ∀ v ∈ r.vars, ∀ x ∈ v.computations, x.Sound) :
    let r' := vs.foldl (addResolvedVariable (w.scope (some main)) w.optimize) r
    (∀ v ∈ r'.vars, ∀ x ∈ v.computations, x.Sound) ∧
      (r'.vars.map (·.name)).Sublist (r.vars.map (·.name) ++ vs.map (·.name)) ∧
      r'.breaks = r.breaks ∧ r'.expressions = r.expressions := by
  induction vs generalizing r with
  | nil =>
    refine ⟨hr, ?_, rfl, rfl⟩
    rw [List.map_nil, List.append_nil]
    exact List.Sublist.refl _
  | cons v vs ih =>
    obtain ⟨hv, hvs⟩ := List.forall_mem_cons.1 hvs
    rw [List.foldl_cons]
    rcases addResolvedVariable_cases (w.scope (some main)) w.optimize r v with
      heq | ⟨resetBreak, -, heq⟩
    · rw [heq]
      obtain ⟨hsound, hnames, hrest⟩ := ih r hvs hr
      refine ⟨hsound, hnames.trans ?_, hrest⟩
      exact List.Sublist.append (List.Sublist.refl _) (List.sublist_cons_self _ _)
    · rw [heq]
      have hbound : ∀ x ∈ (boundVariable (w.scope (some main)) w.optimize r resetBreak v).computations,
          x.Sound := by
        intro x hx
        change x ∈ (v.map _).computations at hx
        rw [Variable.computations_map] at hx
        obtain ⟨y, hy, rfl⟩ := List.mem_map.1 hx
        exact ((hv y hy).resolve (w.counts_scope r.names _ main)).optimize _ _
      obtain ⟨hsound, hnames, hrest⟩ := ih { r with vars := r.vars ++ [_] } hvs (by
        intro v' hv'
        rcases List.mem_append.1 hv' with hv' | hv'
        · exact hr v' hv'
        · rw [List.mem_singleton.1 hv']
          exact hbound)
      refine ⟨hsound, ?_, hrest⟩
      rw [List.map_append, List.append_assoc] at hnames
      exact hnames

/-- A report whose breaks are bound, and no variables. -/
def boundBreaks (r : Report) (w : Workspace) (main : QueryId) : Report :=
  r.breaks.foldl (addResolvedBreak (w.scope (some main)) w.optimize)
    { r with breaks := [], vars := [] }

/-- A report whose breaks and variables are bound. -/
def boundVars (r : Report) (w : Workspace) (main : QueryId) : Report :=
  r.vars.foldl (addResolvedVariable (w.scope (some main)) w.optimize) (r.boundBreaks w main)

/-- What an expression sees when its names are bound. -/
def expressionScope (r : Report) (w : Workspace) (main : QueryId) : Scope :=
  (r.boundVars w main).resolvedScope (w.scope (some main)) none

theorem resolve_eq (r : Report) (w : Workspace) (main : QueryId) :
    r.resolve w main = { r.boundVars w main with
      expressions := r.expressions.map fun e => { e with
        computation := w.optimize (e.computation.resolve (r.expressionScope w main)).1 } } := rfl

theorem Sound.resolve (h : r.Sound) (w : Workspace) (main : QueryId) : (r.resolve w main).Sound := by
  obtain ⟨hfields, hbreaks, hvars₀, -⟩ := foldl_addResolvedBreak w main r.breaks
    { r with breaks := [], vars := [] } h.fields (List.forall_mem_nil _)
  have hnone : ∀ v ∈ (r.boundBreaks w main).vars, ∀ x ∈ v.computations, x.Sound := by
    rw [boundBreaks, hvars₀]
    exact List.forall_mem_nil _
  obtain ⟨hcomputed, hvars, hbreaks₁, -⟩ :=
    foldl_addResolvedVariable w main r.vars (r.boundBreaks w main) h.vars hnone
  rw [boundBreaks, hvars₀] at hvars
  have hbreaks' : (r.boundVars w main).breaks = (r.boundBreaks w main).breaks := hbreaks₁
  rw [resolve_eq]
  refine ⟨?_, h.varNames.sublist hvars, ?_, hcomputed, ?_⟩
  · dsimp only
    rw [hbreaks']
    exact h.breakNames.sublist hbreaks
  · dsimp only
    rw [hbreaks']
    exact hfields
  · intro e he
    obtain ⟨e', he', rfl⟩ := List.mem_map.1 he
    exact ((h.expressions e' he').resolve (w.counts_scope _ none main)).optimize _ _

/-- The positions of the breaks that make variables start over are those of their names. -/
def Bound (r : Report) : Prop := ∀ x ∈ r.resets, x.2 = x.1.bind r.names.breakIndex?

theorem Bound.of_names {r r' : Report} (h : r.Bound) (hresets : r'.resets = r.resets)
    (hnames : r'.names = r.names) : r'.Bound := by
  intro x hx
  rw [hresets] at hx
  rw [hnames]
  exact h x hx

theorem Bound.addResolvedVariable {r : Report} (h : r.Bound) (queries : Scope)
    (optimize : Computation → Computation) (v : Variable) :
    (r.addResolvedVariable queries optimize v).Bound := by
  rcases addResolvedVariable_cases queries optimize r v with heq | ⟨resetBreak, hreset, heq⟩
  · rw [heq]
    exact h
  · rw [heq]
    intro x hx
    change x ∈ (r.vars ++ [_]).map _ at hx
    rw [List.map_append] at hx
    rcases List.mem_append.1 hx with hx | hx
    · exact h x hx
    · rw [List.map_singleton, List.mem_singleton] at hx
      rw [hx]
      change resetBreak = v.resetOnBreak.bind r.names.breakIndex?
      unfold resetBreak? at hreset
      cases hname : v.resetOnBreak with
      | none =>
        rw [hname] at hreset
        exact (Option.some.inj hreset).symm
      | some name =>
        rw [hname] at hreset
        obtain ⟨i, hi, rfl⟩ := Option.map_eq_some_iff.1 hreset
        exact hi.symm

theorem bound_resolve (r : Report) (w : Workspace) (main : QueryId) : (r.resolve w main).Bound := by
  have hfold (vs : List Variable) (r : Report) (h : r.Bound) :
      (vs.foldl (addResolvedVariable (w.scope (some main)) w.optimize) r).Bound := by
    induction vs generalizing r with
    | nil => exact h
    | cons v vs ih => exact ih _ (h.addResolvedVariable _ _ v)
  have hbreaks (bs : List Break) (r : Report) (h : r.vars = []) :
      (bs.foldl (addResolvedBreak (w.scope (some main)) w.optimize) r).vars = [] := by
    induction bs generalizing r with
    | nil => exact h
    | cons b bs ih =>
      rcases addResolvedBreak_cases (w.scope (some main)) w.optimize r b with
        heq | ⟨fields, -, heq⟩
      · rw [List.foldl_cons, heq]
        exact ih r h
      · rw [List.foldl_cons, heq]
        exact ih _ h
  have hnone : (r.boundBreaks w main).Bound := by
    intro x hx
    rw [resets, boundBreaks, hbreaks _ _ rfl] at hx
    cases hx
  rw [resolve_eq]
  exact (hfold r.vars _ hnone).of_names rfl rfl

end Report

/-! Runs -/

namespace Progress

variable {p p' : Progress} {pass : Pass} {i : Nat}

/-- The variables of a run are sound. -/
def SoundVars (p : Progress) : Prop := ∀ v ∈ p.report.vars, ∀ x ∈ v.computations, x.Sound

/-- A run of a sound report. -/
structure Sound (p : Progress) : Prop where
  report : p.report.Sound
  balanced : p.Balanced

theorem Sound.beside (h : p.Sound) (hp : Beside p p') (hvars : p'.SoundVars) : p'.Sound := by
  refine ⟨⟨?_, ?_, ?_, hvars, ?_⟩, hp.balanced h.balanced⟩
  · rw [hp.breaks]
    exact h.report.breakNames
  · have hnames (r : Report) : r.vars.map (·.name) = r.names.vars.map (·.1) := by
      simp only [Report.names, List.map_map, Function.comp_def]
    rw [hnames, hp.names, ← hnames]
    exact h.report.varNames
  · rw [hp.breaks]
    exact h.report.fields
  · rw [hp.expressions]
    exact h.report.expressions

theorem SoundVars.modifyVariable {f : Variable → Variable} (g : VariableState → VariableState)
    (h : p.SoundVars) (hf : ∀ v, (∀ x ∈ v.computations, x.Sound) → ∀ x ∈ (f v).computations, x.Sound) :
    (p.modifyVariable i f g).SoundVars := by
  intro v hv
  rcases mem_of_mem_modify hv with hv | ⟨v', hv', rfl⟩
  · exact h v hv
  · exact hf v' (h v' hv')

theorem SoundVars.evaluateStage (h : p.SoundVars) (pass : Pass) (i k : Nat) :
    (evaluateStage pass i p k).SoundVars := by
  cases hx : p.report.vars[i]?.bind fun v => v.stages[k]?.join with
  | none =>
    rw [evaluateStage_of_none hx]
    exact h
  | some x =>
    rw [evaluateStage_of_some hx]
    obtain ⟨v, hv, hstage⟩ := Option.bind_eq_some_iff.1 hx
    have hmem : some x ∈ v.stages :=
      List.mem_iff_getElem?.2 ⟨k, Option.join_eq_some_iff.1 hstage⟩
    have hsound : x.Sound :=
      h v (List.mem_iff_getElem?.2 ⟨i, hv⟩) x (Variable.mem_computations.2 (.inl hmem))
    apply h.modifyVariable
    intro w hw y hy
    rcases Variable.mem_computations.1 hy with hy | hy
    · rcases List.mem_or_eq_of_mem_set hy with hy | hy
      · exact hw y (Variable.mem_computations.2 (.inl hy))
      · rw [Option.some.inj hy]
        exact hsound.evaluate _
    · exact hw y (Variable.mem_computations.2 (.inr hy))

theorem SoundVars.evaluateResult (h : p.SoundVars) (pass : Pass) (i : Nat) :
    (evaluateResult pass i p).SoundVars := by
  unfold Progress.evaluateResult
  split
  · rename_i v s hv _
    split
    · rename_i x _ hresult
      have hsound : x.Sound := h v (List.mem_iff_getElem?.2 ⟨i, hv⟩) x
        (Variable.mem_computations.2 (.inr hresult))
      apply h.modifyVariable
      intro w hw y hy
      rcases Variable.mem_computations.1 hy with hy | hy
      · exact hw y (Variable.mem_computations.2 (.inl hy))
      · rw [← Option.some.inj hy]
        exact hsound.evaluate _
    · exact h.modifyVariable _ fun _ hw => hw
    · exact h.modifyVariable _ fun _ hw => hw
  · exact h

theorem SoundVars.evaluateVariables (h : p.SoundVars) (pass : Pass) :
    (p.evaluateVariables pass).SoundVars := by
  have hstages (i : Nat) (ks : List Nat) (p : Progress) (h : p.SoundVars) :
      (ks.foldl (Progress.evaluateStage pass i) p).SoundVars := by
    induction ks generalizing p with
    | nil => exact h
    | cons k ks ih => exact ih _ (h.evaluateStage pass i k)
  have hall (is : List Nat) (p : Progress) (h : p.SoundVars) :
      (is.foldl (evaluateVariable pass) p).SoundVars := by
    induction is generalizing p with
    | nil => exact h
    | cons i is ih => exact ih _ ((hstages i _ p h).evaluateResult pass i)
  exact hall _ p h

theorem Sound.evaluateVariables (h : p.Sound) (pass : Pass) : (p.evaluateVariables pass).Sound :=
  h.beside (evaluateVariables_beside p pass)
    (SoundVars.evaluateVariables (show p.SoundVars from h.report.vars) pass)

theorem Sound.resetVariables (h : p.Sound) (pass : Pass) (first : Nat) :
    (p.resetVariables pass first).Sound := by
  refine h.beside (resetVariables_beside h.balanced pass first) ?_
  intro v hv x hx
  obtain ⟨⟨v', s'⟩, hmem, rfl⟩ := List.mem_map.1 hv
  obtain ⟨j, hj⟩ := List.mem_iff_getElem?.1 hmem
  rw [List.getElem?_zipWith] at hj
  split at hj
  · rename_i v s hv hs
    have hsound := h.report.vars v (List.mem_iff_getElem?.2 ⟨j, hv⟩)
    split at hj
    · cases hj
      change x ∈ (v.map _).computations at hx
      rw [Variable.computations_map] at hx
      obtain ⟨y, hy, rfl⟩ := List.mem_map.1 hx
      exact (hsound y hy).restart
    · cases hj
      exact hsound x hx
  · cases hj

theorem Sound.evaluateBreaks (h : p.Sound) (pass : Pass) : (p.evaluateBreaks pass).1.Sound := by
  refine ⟨⟨?_, h.report.varNames, ?_, h.report.vars, h.report.expressions⟩, h.balanced⟩
  · rw [breaks_evaluateBreaks, List.map_map]
    exact h.report.breakNames
  · rw [breaks_evaluateBreaks]
    intro b hb x hx
    obtain ⟨b', hb', rfl⟩ := List.mem_map.1 hb
    obtain ⟨y, hy, rfl⟩ := List.mem_map.1 hx
    exact (h.report.fields b' hb' y hy).evaluate _

theorem Sound.finished (h : p.Sound) (pass : Pass) : (p.finished pass).Sound := by
  refine Sound.evaluateVariables ?_ pass
  unfold opened
  split
  · exact (h.evaluateBreaks pass).resetVariables pass _
  · exact h.evaluateBreaks pass

theorem Sound.evaluateExpressions (h : p.Sound) : p.evaluateExpressions.Sound := by
  refine ⟨⟨h.report.breakNames, h.report.varNames, h.report.fields, h.report.vars, ?_⟩, h.balanced⟩
  intro e he
  obtain ⟨e', he', rfl⟩ := List.mem_map.1 he
  exact (h.report.expressions e' he').evaluate _

theorem Sound.advance {more : Bool} (h : p.Sound) (hp : p.advance = .ok (p', more)) : p'.Sound := by
  obtain ⟨queries, -, rfl⟩ := advance_eq_ok hp
  exact ⟨h.report, h.balanced⟩

theorem Sound.rewind (h : p.Sound) (hp : p.rewind = .ok p') : p'.Sound := by
  obtain ⟨-, rfl⟩ := rewind_eq_ok hp
  exact ⟨h.report, h.balanced⟩

theorem sound_reset (h : p.report.Sound) : p.reset.Sound := by
  refine ⟨⟨?_, ?_, ?_, ?_, ?_⟩, ?_⟩
  · change ((p.report.breaks.map Break.restart).map _).Nodup
    rw [List.map_map]
    exact h.breakNames
  · change ((p.report.vars.map Variable.restart).map _).Nodup
    rw [List.map_map]
    exact h.varNames
  · intro b hb x hx
    obtain ⟨b', hb', rfl⟩ := List.mem_map.1 hb
    obtain ⟨y, hy, rfl⟩ := List.mem_map.1 hx
    exact (h.fields b' hb' y hy).restart
  · intro v hv x hx
    obtain ⟨v', hv', rfl⟩ := List.mem_map.1 hv
    rw [Variable.restart, Variable.computations_map] at hx
    obtain ⟨y, hy, rfl⟩ := List.mem_map.1 hx
    exact (h.vars v' hv' y hy).restart
  · intro e he
    obtain ⟨e', he', rfl⟩ := List.mem_map.1 he
    exact (h.expressions e' he').restart
  · simp only [Balanced, reset, ReportValues.ofSizes, List.length_replicate, List.length_map]

theorem Sound.again (h : p.Sound) : p.again.Sound := by
  obtain ⟨hreport, -⟩ := sound_reset h.report
  refine ⟨hreport, ?_⟩
  have hlen : p.reset.report.vars.length = p.report.vars.length := by
    simp only [reset, List.length_map]
  change p.freshStates.length = p.reset.report.vars.length
  rw [freshStates, List.length_zipWith, List.length_map, hlen, h.balanced, Nat.min_self]

theorem kept_sound : Kept Sound where
  advance := Sound.advance
  rewind := Sound.rewind
  finished pass h := h.finished pass
  evaluateExpressions := Sound.evaluateExpressions
  again := Sound.again

end Progress

namespace Report

variable {r : Report} {w : Workspace} {p : Progress} {run : Run}

theorem prepare_eq_ok (h : r.prepare w = .ok p) : ∃ main, r.mainQuery w = .ok main ∧
    r.breaks.forM Break.check = .ok () ∧
    p = ({ workspace := w, report := r.resolve w main, main, values := {} } : Progress).reset := by
  obtain ⟨⟨⟩, hcheck, h⟩ := Compiler.bind_eq_ok h
  obtain ⟨main, hmain, h⟩ := Compiler.bind_eq_ok h
  cases h
  exact ⟨main, hmain, hcheck, rfl⟩

theorem Sound.prepare (hr : r.Sound) (h : r.prepare w = .ok p) : p.Sound := by
  obtain ⟨main, -, -, rfl⟩ := prepare_eq_ok h
  exact Progress.sound_reset (hr.resolve w main)

/-- Whatever was built and run, names are unique and expressions are sound. -/
theorem Reachable.sound (h : Reachable r) : r.Sound := by
  induction h with
  | empty name =>
    exact ⟨List.nodup_nil, List.nodup_nil, List.forall_mem_nil _, List.forall_mem_nil _,
      List.forall_mem_nil _⟩
  | setQuery query _ ih => exact ⟨ih.breakNames, ih.varNames, ih.fields, ih.vars, ih.expressions⟩
  | newBreak _ hr ih => exact ih.newBreak hr
  | addBreakField _ hr ih => exact ih.addBreakField hr
  | newVariable _ hr ih => exact ih.newVariable hr
  | addExpression _ hr ih => exact ih.addExpression hr
  | run _ hrun ih =>
    obtain ⟨prepared, started, first, ps, behind, hruns⟩ := runs_of_run hrun
    exact (Progress.kept_sound.run hruns (ih.prepare hruns.prepare)).2.2.2.2.report

end Report
end Reporting
