import Reporting.Proofs.Expr.Rebinding
import Reporting.Proofs.Report.Rerun
/-!
A report that was run before, and changed since then, is bound as a report that is freshly built of
what was not dropped; only row counters that were not found in an earlier run are not bound again.
-/
namespace Reporting

/-! Taking out counters that are lost -/

section

variable {α : Type} {lost : Mention → Prop} {mention : α → Mention} {l l' : List α}
  {ms ms' : List Mention}

/-- What is left of a list when counters are taken out of it, each of them wherever it stands. Names
are never taken out, and of the counters only such that are lost. -/
def Left (lost : Mention → Prop) (mention : α → Mention) (l l' : List α) : Prop :=
  ∃ keeps : Mention → Bool, (∀ ref, keeps (.name ref) = true) ∧
    (∀ a ∈ l, keeps (mention a) = false → lost (mention a)) ∧
    l' = l.filter fun a => keeps (mention a)

theorem left_refl (l : List α) : Left lost mention l l :=
  ⟨fun _ => true, fun _ => rfl, nofun, (List.filter_true l).symm⟩

/-- If nothing is lost, everything is left. -/
theorem Left.eq (h : Left lost mention l l') (hlost : ∀ m, ¬ lost m) : l' = l := by
  obtain ⟨keeps, -, hkeeps, rfl⟩ := h
  refine List.filter_eq_self.2 fun a ha => ?_
  by_contra hfalse
  exact hlost _ (hkeeps a ha (Bool.eq_false_iff.2 hfalse))

theorem Left.bind (h : Left lost id ms ms') (s : Scope)
    (hlost : ∀ m ∈ ms', m ∈ ms'.filter s.keeps ∨ lost m) :
    Left lost id ms (ms'.filter s.keeps) := by
  obtain ⟨keeps, hname, hkeeps, rfl⟩ := h
  refine ⟨fun m => s.keeps m && keeps m, fun ref => ?_, fun m hm hfalse => ?_, ?_⟩
  · exact hname ref
  · cases hkept : keeps m with
    | false => exact hkeeps m hm hkept
    | true =>
      have hnot : s.keeps m = false := by
        simpa only [id_eq, hkept, Bool.and_true] using hfalse
      refine (hlost m (List.mem_filter.2 ⟨hm, hkept⟩)).resolve_left fun hmem => ?_
      rw [(List.mem_filter.1 hmem).2] at hnot
      cases hnot
  · exact List.filter_filter

/-- The same names are missing. -/
theorem Left.missing (h : Left lost id ms ms') (s : Scope) :
    ms.filterMap s.missing? = ms'.filterMap s.missing? := by
  obtain ⟨keeps, hname, -, rfl⟩ := h
  rw [List.filterMap_filter]
  congr 1
  funext m
  cases m with
  | name ref => exact (if_pos (hname ref)).symm
  | counter kind name => split <;> rfl

/-- What is left is found where it is found in the whole. -/
theorem Left.place (h : Left lost id ms ms') (s : Scope) :
    Left lost Prod.fst ((ms.filter s.keeps).map fun m => (m, s.place? m))
      ((ms'.filter s.keeps).map fun m => (m, s.place? m)) := by
  obtain ⟨keeps, hname, hkeeps, rfl⟩ := h
  refine ⟨keeps, hname, ?_, ?_⟩
  · rintro _ hmem hfalse
    obtain ⟨m, hm, rfl⟩ := List.mem_map.1 hmem
    exact hkeeps m (List.mem_filter.1 hm).1 hfalse
  · rw [List.filter_map, List.filter_filter, List.filter_filter]
    congr 2
    funext m
    exact Bool.and_comm _ _

end

namespace Computation

variable {lost : Mention → Prop} {x y : Computation} {s : Scope} {w : Workspace}

/-- The second expression is the first one, but for counters that are lost. -/
structure Lacks (lost : Mention → Prop) (x y : Computation) : Prop where
  source : y.source = x.source
  mentions : Left lost id x.root.mentions y.root.mentions

/-- The second expression is bound like the first one, but for counters that are lost. -/
structure BoundLike (lost : Mention → Prop) (x y : Computation) : Prop where
  source : y.source = x.source
  bindings : Left lost Prod.fst x.root.bindings y.root.bindings

theorem Lacks.missing (h : Lacks lost x y) (s : Scope) : (x.resolve s).2 = (y.resolve s).2 := by
  change (x.root.resolve s).2 = (y.root.resolve s).2
  rw [Expr.missing_eq, Expr.missing_eq, h.mentions.missing]

theorem Lacks.bound (h : Lacks lost x y) (hx : x.root.Every Expr.Regular)
    (hy : y.root.Every Expr.Regular) (s : Scope) (w : Workspace) :
    BoundLike lost (w.optimize (x.resolve s).1) (w.optimize (y.resolve s).1) := by
  have hbindings {x : Computation} (hx : x.root.Every Expr.Regular) :
      (w.optimize (x.resolve s).1).root.bindings =
        (x.root.mentions.filter s.keeps).map fun m => (m, s.place? m) := by
    change ((Expr.bind s x.root).simplify w.folding).bindings = _
    rw [Expr.bindings_simplify (Expr.regular_bind hx), Expr.bindings_bind hx.named_of_regular]
  refine ⟨h.source, ?_⟩
  rw [hbindings hx, hbindings hy]
  exact h.mentions.place s

/-- What a run leaves of an expression, unless simplifying has named a counter in it. -/
theorem Lacks.left (h : Lacks lost x y) (hy : y.root.Every Expr.Regular) {z : Computation}
    (hsource : z.source = y.source) {c : Context}
    (hz : z.root.forget = ((Expr.bind s y.root).simplify c).forget)
    (hnames : z.root.Every Expr.BoundByName)
    (hlost : ∀ m ∈ y.root.mentions, m ∈ z.root.mentions ∨ lost m) : Lacks lost x z := by
  have hmentions : z.root.mentions = y.root.mentions.filter s.keeps := by
    rw [← Expr.mentions_forget, hz, Expr.mentions_forget,
      Expr.mentions_simplify_bind hy (Expr.boundByName_of_forget hz hnames)]
  rw [hmentions] at hlost
  refine ⟨hsource.trans h.source, ?_⟩
  rw [hmentions]
  exact h.mentions.bind s hlost

end Computation

namespace Report

variable {lost : Mention → Prop} {fresh used fresh' used' : Report} {c : Compiler} {w : Workspace}
  {p : Progress} {run : Run}

/-- A report that is freshly built, and one that was built in the same way but has been run in
between. Of both there is left what the runs have not dropped. Whatever row counters were not found in
a run must be among those that are lost. -/
inductive Renewed (lost : Mention → Prop) : Report → Report → Prop
  | empty (name : Option String) : Renewed lost { name } { name }
  | setQuery {fresh used : Report} (query : Option String) : Renewed lost fresh used →
      Renewed lost { fresh with query } { used with query }
  | newBreak {fresh fresh' used used' : Report} {c : Compiler} {d : BreakDef} :
      Renewed lost fresh used → fresh.newBreak c d = .ok fresh' → used.newBreak c d = .ok used' →
      Renewed lost fresh' used'
  | addBreakField {fresh fresh' used used' : Report} {c : Compiler} {name text : String} :
      Renewed lost fresh used → fresh.addBreakField c name text = .ok fresh' →
      used.addBreakField c name text = .ok used' → Renewed lost fresh' used'
  | newVariable {fresh fresh' used used' : Report} {c : Compiler} {d : VariableDef} :
      Renewed lost fresh used → fresh.newVariable c d = .ok fresh' →
      used.newVariable c d = .ok used' → Renewed lost fresh' used'
  | addExpression {fresh fresh' used used' : Report} {c : Compiler} {name : Option String}
      {text : String} {i j : Nat} : Renewed lost fresh used →
      fresh.addExpression c name text = .ok (fresh', i) →
      used.addExpression c name text = .ok (used', j) → Renewed lost fresh' used'
  | run {fresh used : Report} {w : Workspace} {p : Progress} {run : Run} :
      Renewed lost fresh used → used.prepare w = .ok p → used.run w = .ok run →
      (∀ x ∈ p.report.computations, x.root.Every Expr.BoundByName) →
      (used.pruned (w.scope (some p.main))).Matches
        (fun x y => ∀ m ∈ x.root.mentions, m ∈ y.root.mentions ∨ lost m) p.report →
      Renewed lost (fresh.pruned (w.scope (some p.main))) run.progress.report

theorem Renewed.reachable (h : Renewed lost fresh used) : used.Reachable := by
  induction h with
  | empty name => exact .empty name
  | setQuery query _ ih => exact .setQuery query ih
  | newBreak _ _ hu ih => exact .newBreak ih hu
  | addBreakField _ _ hu ih => exact .addBreakField ih hu
  | newVariable _ _ hu ih => exact .newVariable ih hu
  | addExpression _ _ hu ih => exact .addExpression ih hu
  | run _ _ hrun _ _ ih => exact .run ih hrun

/-- A report that is freshly built has compiled expressions only. -/
theorem Renewed.compiled (h : Renewed lost fresh used) :
    ∀ x ∈ fresh.computations, ∃ (c : Compiler) (text : String), c.compileText text = .ok x := by
  have hextends {fresh fresh' : Report} {c : Compiler}
      (h : ∀ x ∈ fresh.computations, ∃ (c : Compiler) (text : String), c.compileText text = .ok x)
      (hf : Extends c fresh fresh') :
      ∀ x ∈ fresh'.computations, ∃ (c : Compiler) (text : String), c.compileText text = .ok x :=
    fun x hx => (hf x hx).elim (h x) fun hcompiled => ⟨c, hcompiled⟩
  induction h with
  | empty name => exact List.forall_mem_nil _
  | setQuery query _ ih => exact ih
  | newBreak _ hf _ ih => exact hextends ih (extends_newBreak hf)
  | addBreakField _ hf _ ih => exact hextends ih (extends_addBreakField hf)
  | newVariable _ hf _ ih => exact hextends ih (extends_newVariable hf)
  | addExpression _ hf _ ih => exact hextends ih (extends_addExpression hf)
  | run _ _ _ _ _ ih => exact fun x hx => ih x (mem_of_mem_pruned hx)

theorem Reachable.regular (h : used.Reachable) :
    ∀ x ∈ used.computations, x.root.Every Expr.Regular :=
  h.every (fun _ => Expr.regular_of_fresh)
    (fun _ _ _ he => Expr.regular_simplify (Expr.regular_bind he)) fun _ _ => Expr.regular_of_forget

theorem Renewed.regular (h : Renewed lost fresh used) :
    ∀ x ∈ fresh.computations, x.root.Every Expr.Regular := by
  intro x hx
  obtain ⟨c, text, htext⟩ := h.compiled x hx
  exact (Computation.fresh_compileText htext).2.imp fun _ => Expr.regular_of_fresh

/-- Reports that are the same up to what their expressions remember. -/
theorem Sound.matches_of_forget {r r' : Report} (hr : r.Sound) (h : r'.forget = r.forget) :
    r.Matches (fun x y => y.root.forget = x.root.forget ∧ y.source = x.source) r' := by
  refine (Report.matches_of_forget h.symm).imp fun x hx y _ hxy => ⟨?_, ?_⟩
  · exact (Computation.root_of_forget hxy.symm (hr.computed hx).computed).2
  · exact (congrArg Computation.source hxy.symm :)

/-- What a run leaves of a report. -/
theorem Matches.left (h : fresh.Matches (Computation.Lacks lost) used) (hu : used.Reachable)
    (hp : used.prepare w = .ok p) (hrun : used.run w = .ok run)
    (hnames : ∀ x ∈ p.report.computations, x.root.Every Expr.BoundByName)
    (hlost : (used.pruned (w.scope (some p.main))).Matches
      (fun x y => ∀ m ∈ x.root.mentions, m ∈ y.root.mentions ∨ lost m) p.report) :
    (fresh.pruned (w.scope (some p.main))).Matches (Computation.Lacks lost)
      run.progress.report := by
  have hpruned : (fresh.pruned (w.scope (some p.main))).Matches (Computation.Lacks lost)
      (used.pruned (w.scope (some p.main))) :=
    h.mapFound (fun s _ _ hxy => hxy.missing s) fun _ _ _ hxy => hxy
  have hbound : (used.pruned (w.scope (some p.main))).Matches
      (fun y z => y.root.Every Expr.Regular ∧ ∃ s, z = w.optimize (y.resolve s).1)
      (used.resolve w p.main) := by
    have hsame : used.Matches (fun x y => x.root.Every Expr.Regular ∧ x = y) used :=
      matches_refl fun x hx => ⟨hu.regular x hx, rfl⟩
    rw [resolve_eq_mapFound]
    refine hsame.mapFound (fun _ _ _ hxy => by rw [hxy.2]) ?_
    rintro s x _ ⟨hx, rfl⟩
    exact ⟨hx, s, rfl⟩
  have hsound := hu.sound.resolve w p.main
  have hprepared : (used.pruned (w.scope (some p.main))).Matches
      (fun y z => y.root.Every Expr.Regular ∧ z.source = y.source ∧
        ∃ s, z.root.forget = ((Expr.bind s y.root).simplify w.folding).forget) p.report := by
    refine hbound.trans ?_ (hsound.matches_of_forget (forget_prepare hp))
    rintro y _ z ⟨hy, s, rfl⟩ ⟨hroot, hsource⟩
    exact ⟨hy, hsource, s, hroot⟩
  have hleft : (used.pruned (w.scope (some p.main))).Matches
      (fun y z => ∀ x, Computation.Lacks lost x y → Computation.Lacks lost x z) p.report := by
    refine (hprepared.mp (fun _ _ => And.intro) hlost).imp ?_
    rintro y - z hz ⟨⟨hy, hsource, s, hroot⟩, hl⟩ x hxy
    exact hxy.left hy hsource hroot (hnames z hz) hl
  obtain ⟨_, started, first, ps, behind, hruns⟩ := runs_of_run hrun
  obtain rfl := Except.ok.inj (hp.symm.trans hruns.prepare)
  have hbehind := (hu.sound.prepare hp).report.matches_of_forget (hruns.forget hu.sound)
  refine (hpruned.trans (fun _ _ _ hxy hyz => hyz _ hxy) hleft).trans ?_ hbehind
  rintro x y z hxy ⟨hroot, hsource⟩
  refine ⟨hsource.trans hxy.source, ?_⟩
  rw [← Expr.mentions_forget z.root, hroot, Expr.mentions_forget]
  exact hxy.mentions

theorem Renewed.lacks (h : Renewed lost fresh used) :
    fresh.Matches (Computation.Lacks lost) used := by
  have hrefl (x : Computation) : Computation.Lacks lost x x := ⟨rfl, left_refl _⟩
  have hoption (o : Option Computation) : Option.Rel (Computation.Lacks lost) o o := by
    cases o with
    | none => exact .none
    | some x => exact .some (hrefl x)
  induction h with
  | empty name => exact matches_refl (List.forall_mem_nil _)
  | setQuery query _ ih => exact { ih with query := rfl }
  | newBreak _ hf hu ih =>
    obtain ⟨-, b, hb, rfl⟩ := newBreak_eq_ok hf
    obtain ⟨-, b', hb', rfl⟩ := newBreak_eq_ok hu
    obtain rfl := Except.ok.inj (hb.symm.trans hb')
    have hbreak : b.Matches (Computation.Lacks lost) b :=
      ⟨rfl, rfl, List.forall₂_same.2 fun x _ => hrefl x⟩
    exact { ih with breaks := List.rel_append ih.breaks (.cons hbreak .nil) }
  | @addBreakField fresh _ used _ _ name _ _ hf hu ih =>
    obtain ⟨i, x, hi, hx, rfl⟩ := addBreakField_eq_ok hf
    obtain ⟨j, y, hj, hy, rfl⟩ := addBreakField_eq_ok hu
    obtain rfl := Except.ok.inj (hx.symm.trans hy)
    have hindex (bs : List Break) : bs.findIdx? (fun b => b.name = name) =
        (bs.map (·.name)).findIdx? (· = name) := by
      rw [List.findIdx?_map]
      rfl
    rw [hindex, map_eq_of_forall₂ ih.breaks fun _ _ hb => hb.name, ← hindex] at hi
    obtain rfl := Option.some.inj (hi.symm.trans hj)
    have hbreaks := forall₂_modify ih.breaks i
      (f := fun b => { b with fields := b.fields ++ [x] })
      (g := fun b => { b with fields := b.fields ++ [x] }) fun _ _ _ _ hb =>
        { hb with fields := List.rel_append hb.fields (.cons (hrefl x) .nil) }
    exact { ih with breaks := hbreaks }
  | newVariable _ hf hu ih =>
    obtain ⟨v, hv, rfl⟩ := newVariable_eq_ok hf
    obtain ⟨v', hv', rfl⟩ := newVariable_eq_ok hu
    obtain ⟨-, -, stages, result, hstages, hresult, rfl⟩ := Variable.compile_eq_ok hv
    obtain ⟨-, -, stages', result', hstages', hresult', rfl⟩ := Variable.compile_eq_ok hv'
    obtain rfl := Except.ok.inj (hstages.symm.trans hstages')
    obtain rfl := Except.ok.inj (hresult.symm.trans hresult')
    refine { ih with vars := List.rel_append ih.vars (.cons ?_ .nil) }
    exact ⟨rfl, rfl, rfl, rfl, List.forall₂_same.2 fun o _ => hoption o, hoption result⟩
  | addExpression _ hf hu ih =>
    obtain ⟨x, hx, rfl⟩ := addExpression_eq_ok hf
    obtain ⟨y, hy, rfl⟩ := addExpression_eq_ok hu
    obtain rfl := Except.ok.inj (hx.symm.trans hy)
    exact { ih with
      expressions := List.rel_append ih.expressions (.cons ⟨rfl, hrefl x⟩ .nil) }
  | run h hp hrun hnames hlost ih => exact ih.left h.reachable hp hrun hnames hlost

/-! Preparing both -/

theorem Beside.check {R : Computation → Computation → Prop} (h : fresh.Beside R used) :
    fresh.breaks.forM Break.check = used.breaks.forM Break.check := by
  have hcheck {b b' : Break} (h : b.Matches R b') : b.check = b'.check := by
    rw [Break.check, Break.check, h.name, isEmpty_eq_of_forall₂ h.fields]
  have hall {bs bs' : List Break} (h : List.Forall₂ (Break.Matches R) bs bs') :
      bs.forM Break.check = bs'.forM Break.check := by
    induction h with
    | nil => rfl
    | cons hb _ ih =>
      change (Break.check _ >>= fun _ => _) = (Break.check _ >>= fun _ => _)
      rw [hcheck hb, ih]
  exact hall h.breaks

theorem Matches.reset {R S : Computation → Computation → Prop} {p p' : Progress}
    (h : p.report.Matches R p'.report) (hS : ∀ x y, R x y → S x.restart y.restart) :
    p.reset.report.Matches S p'.reset.report where
  query := h.query
  breaks := List.rel_map (fun _ _ hb => { hb with fields := List.rel_map hS hb.fields }) h.breaks
  vars := List.rel_map (fun _ _ hv => hv.map hS) h.vars
  expressions := List.rel_map (fun _ _ he => ⟨he.name, hS _ _ he.computation⟩) h.expressions

theorem Beside.resets {R : Computation → Computation → Prop} (h : fresh.Beside R used)
    (hfresh : fresh.Bound) (hused : used.Bound) : used.resets = fresh.resets := by
  have hresets {r : Report} (hr : r.Bound) :
      r.resets = r.vars.map fun v => (v.resetOnBreak, v.resetOnBreak.bind r.names.breakIndex?) :=
    List.map_congr_left fun v hv => congrArg (v.resetOnBreak, ·) (hr _ (List.mem_map_of_mem hv))
  rw [hresets hfresh, hresets hused, h.names]
  exact (map_eq_of_forall₂ h.vars fun _ _ hv => by rw [hv.resetOnBreak]).symm

theorem Renewed.prepare (h : Renewed lost fresh used) (hp : fresh.prepare w = .ok p) :
    ∃ p', used.prepare w = .ok p' ∧ p'.main = p.main ∧ p'.report.resets = p.report.resets ∧
      p.report.Matches (Computation.BoundLike lost) p'.report := by
  obtain ⟨main, hmain, hcheck, rfl⟩ := prepare_eq_ok hp
  have hlacks := h.lacks
  have hresolved : (fresh.resolve w main).Matches (Computation.BoundLike lost)
      (used.resolve w main) := by
    have hregular : fresh.Matches (fun x y => x.root.Every Expr.Regular ∧
        y.root.Every Expr.Regular ∧ Computation.Lacks lost x y) used :=
      hlacks.imp fun x hx y hy hxy => ⟨h.regular x hx, h.reachable.regular y hy, hxy⟩
    rw [resolve_eq_mapFound, resolve_eq_mapFound]
    exact hregular.mapFound (fun s _ _ hxy => hxy.2.2.missing s) fun s _ _ ⟨hx, hy, hxy⟩ =>
      hxy.bound hx hy s w
  have hmain' : used.mainQuery w = .ok main := by
    rw [← hmain, mainQuery, mainQuery, hlacks.query]
  have hp' : used.prepare w =
      .ok ({ workspace := w, report := used.resolve w main, main, values := {} } : Progress).reset := by
    unfold prepare
    rw [← hlacks.check, hcheck, hmain']
    rfl
  have hmatches : Report.Matches (Computation.BoundLike lost)
      ({ workspace := w, report := fresh.resolve w main, main, values := {} } : Progress).reset.report
      ({ workspace := w, report := used.resolve w main, main, values := {} } : Progress).reset.report :=
    Matches.reset hresolved fun _ _ hxy => ⟨hxy.source, hxy.bindings⟩
  exact ⟨_, hp', rfl, hmatches.resets (bound_of_prepare hp) (bound_of_prepare hp'), hmatches⟩

/-- Binding an expression again tells the same names as if it had not been bound before, and leaves the
same expression exactly if each row counter that was not found before is not found now. A report that
was run before, and changed in between, is bound as one that is freshly built of what was not dropped:
its variables start over on the same breaks, and each of its names and row counters is bound to the
same, up to counters that were lost in a run. -/
theorem bound_like_fresh :
    (∀ (x : Computation) (s₁ s₂ : Scope),
      ((x.resolve s₁).1.resolve s₂).2 = (x.resolve s₂).2 ∧
      (((x.resolve s₁).1.resolve s₂).1 = (x.resolve s₂).1 ↔
        ∀ m ∈ x.root.mentions, s₁.keeps m = false → s₂.keeps m = false)) ∧
    ∀ (lost : Mention → Prop) (fresh used : Report), Renewed lost fresh used →
      ∀ (w : Workspace) (p : Progress), fresh.prepare w = .ok p →
        ∃ p', used.prepare w = .ok p' ∧ p'.main = p.main ∧ p'.report.resets = p.report.resets ∧
          p.report.Matches (Computation.BoundLike lost) p'.report := by
  refine ⟨fun x s₁ s₂ => ⟨Expr.missing_bind s₁ s₂ x.root, ?_⟩, fun _ _ _ h w p hp => h.prepare hp⟩
  rw [← Expr.bind_bind_iff]
  refine ⟨fun h => congrArg Computation.root h, fun h => ?_⟩
  change ({ x with root := Expr.bind s₂ (Expr.bind s₁ x.root) } : Computation) = _
  rw [h]
  rfl

/-! A report with a row counter -/

/-- The number of the row of a query. -/
def rowNumbered : Computation where
  root := .ofCall (.builtin ⟨"rownum", .rownum, .variadic, .volatile⟩) [.constant (.text "q") true]
  source := "rownum('q')"

set_option maxRecDepth 20000 in
theorem compileText_rowNumbered : keyed.compiler.compileText "rownum('q')" = .ok rowNumbered := by
  have hparse : Formula.parse "rownum('q')" = .ok (.call "rownum" [.literal (.text "q")]) := by cbv
  rw [Compiler.compileText, hparse]
  simp only [Compiler.compile, Compiler.compileAll, Compiler.literal]
  rfl

/-- A report that breaks when the key changes, and tells the number of the row of a query. -/
def numbering : Report := { byKey with expressions := [⟨none, rowNumbered⟩] }

theorem renewed_numbering (lost : Mention → Prop) : Renewed lost numbering numbering := by
  have hbreak : Report.newBreak {} keyed.compiler { name := "b", fields := ["k"] } = .ok byKey := by
    unfold Report.newBreak Break.compile
    simp only [List.mapM_cons, compileText_key]
    rfl
  have hexpression : byKey.addExpression keyed.compiler none "rownum('q')" = .ok (numbering, 0) := by
    unfold Report.addExpression
    rw [compileText_rowNumbered]
    rfl
  exact .addExpression (.newBreak (.empty none) hbreak hbreak) hexpression hexpression

/-- The query was removed, and added again behind another one. -/
def moved : Workspace :=
  { served with
    queries :=
      { slots := #[none, some (.ofTable "p" "a" seven none), some (.ofTable "q" "a" keys none)]
        dirty := true } }

/-- What the expressions of a report are bound to. -/
def boundExpressions (r : Report) : List (List (Option Source)) :=
  r.expressions.map fun e => e.computation.root.bindings.map Prod.snd

/-- The row counter is found in both runs, at another place in the second one. -/
theorem bound_like_fresh_of_moved :
    ∃ run fresh p p', numbering.run served = .ok run ∧
      Renewed (fun _ => False) fresh run.progress.report ∧ fresh.prepare moved = .ok p ∧
      run.progress.report.prepare moved = .ok p' ∧
      p'.report.boundExpressions = p.report.boundExpressions ∧
      p.report.boundExpressions = [[some (.rowNumber ⟨2⟩)]] := by
  -- the first run
  have hprepare : ((numbering.prepare served).toOption.map fun (p : Progress) =>
      (p.main, p.report)) = some (⟨0⟩,
        { breaks := [{ name := "b", fields := [keyColumn] }]
          expressions := [⟨none, { rowNumbered with
            root := Expr.bind (served.scope (some ⟨0⟩)) rowNumbered.root }⟩] }) := rfl
  obtain ⟨p, hp, hbound⟩ := exists_ok_of_map hprepare
  obtain ⟨hmain, hreport⟩ := Prod.mk.inj hbound
  have hnames : ∀ x ∈ p.report.computations, x.root.Every Expr.BoundByName := by
    rw [hreport]
    refine List.forall_mem_cons.2 ⟨trivial, List.forall_mem_singleton.2 ?_⟩
    exact Expr.every_call.2 ⟨fun _ _ => rfl, List.forall_mem_singleton.2 trivial⟩
  have hlost : (numbering.pruned (served.scope (some p.main))).Matches
      (fun x y => ∀ m ∈ x.root.mentions, m ∈ y.root.mentions ∨ False) p.report := by
    rw [hmain, hreport]
    exact {
      query := rfl
      breaks := .cons ⟨rfl, rfl, .cons (fun _ => .inl) .nil⟩ .nil
      vars := .nil
      expressions := .cons ⟨rfl, fun _ => .inl⟩ .nil }
  obtain ⟨run, hrun⟩ :=
    exists_run (renewed_numbering fun _ => False).reachable.sound
      served_reachable.wellBuilt.reachable.forest hp
  have hrenewed : Renewed (fun _ => False) (numbering.pruned (served.scope (some p.main)))
      run.progress.report := .run (renewed_numbering _) hp hrun hnames hlost
  -- the second one
  have hagain : (((numbering.pruned (served.scope (some p.main))).prepare moved).toOption.map
      fun (p : Progress) => p.report.boundExpressions) =
      some [[some (.rowNumber ⟨2⟩)]] := by
    rw [hmain]
    rfl
  obtain ⟨q, hq, hbindings⟩ := exists_ok_of_map hagain
  obtain ⟨q', hq', -, -, hmatches⟩ := bound_like_fresh.2 _ _ _ hrenewed moved q hq
  refine ⟨run, _, q, q', hrun, hrenewed, hq, hq', ?_, hbindings⟩
  exact (map_eq_of_forall₂ hmatches.expressions fun _ _ he => by
    rw [he.computation.bindings.eq fun _ => id]).symm

/-- A workspace without the query that is counted. -/
def alone : Workspace :=
  { served with
    queries := { slots := #[some (.ofTable "p" "a" seven none)], dirty := true } }

/-- The workspace after the query was added. -/
def joined : Workspace :=
  { served with
    queries :=
      { slots := #[some (.ofTable "p" "a" seven none), some (.ofTable "q" "a" keys none)]
        dirty := true } }

/-- The same, with a name that only simplifying finds. -/
def rowNumberedLater : Computation where
  root := .ofCall (.builtin ⟨"rownum", .rownum, .variadic, .volatile⟩)
    [.group (.ofCall (.builtin ⟨"lower", .lower, .exact 1, .plain⟩) [.constant (.text "Q") true])]
  source := "rownum(lower('Q'))"

set_option maxRecDepth 20000 in
theorem compileText_rowNumberedLater :
    keyed.compiler.compileText "rownum(lower('Q'))" = .ok rowNumberedLater := by
  have hparse : Formula.parse "rownum(lower('Q'))" =
      .ok (.call "rownum" [.call "lower" [.literal (.text "Q")]]) := by cbv
  rw [Compiler.compileText, hparse]
  simp only [Compiler.compile, Compiler.compileAll, Compiler.literal]
  rfl

def numberingLater : Report := { expressions := [⟨none, rowNumberedLater⟩] }

theorem reachable_numberingLater : numberingLater.Reachable := by
  have hexpression : Report.addExpression {} keyed.compiler none "rownum(lower('Q'))" =
      .ok (numberingLater, 0) := by
    unfold Report.addExpression
    rw [compileText_rowNumberedLater]
    rfl
  exact .addExpression (.empty none) hexpression

/-- What names a report has for its breaks, and what its expressions are bound to. -/
def told (p : Progress) : List String × List (List (Option Source)) :=
  (p.report.names.breaks, p.report.boundExpressions)

theorem exists_told {r : Report} {w w' : Workspace} {t t' : List String × List (List (Option Source))}
    (hfresh : (r.prepare w').toOption.map told = some t)
    (hused : ((r.run w).toOption.map fun run =>
      (run.progress.report.prepare w').toOption.map told) = some (some t')) :
    ∃ run p p', r.run w = .ok run ∧ r.prepare w' = .ok p ∧
      run.progress.report.prepare w' = .ok p' ∧ told p = t ∧ told p' = t' := by
  obtain ⟨p, hp, hfresh⟩ := exists_ok_of_map hfresh
  obtain ⟨run, hrun, hused⟩ := exists_ok_of_map hused
  obtain ⟨p', hp', hused⟩ := exists_ok_of_map hused
  exact ⟨run, p, p', hrun, hp, hp', hfresh, hused⟩

/-- A row counter that is not found becomes an error and stays one, and a break that is dropped stays
dropped. A row counter whose name is found by simplifying is bound by the next run only. -/
theorem not_bound_like_fresh :
    keyed.compiler.compileText "rownum('q')" = .ok rowNumbered ∧
      ((rowNumbered.resolve (alone.scope none)).1.resolve (joined.scope none)).1 ≠
        (rowNumbered.resolve (joined.scope none)).1 ∧
      (numbering.Reachable ∧ ∃ run p p', numbering.run alone = .ok run ∧
        numbering.prepare joined = .ok p ∧ run.progress.report.prepare joined = .ok p' ∧
        told p = (["b"], [[some (.rowNumber ⟨1⟩)]]) ∧ told p' = ([], [[]])) ∧
      numberingLater.Reachable ∧ ∃ run p p', numberingLater.run joined = .ok run ∧
        numberingLater.prepare joined = .ok p ∧ run.progress.report.prepare joined = .ok p' ∧
        told p = ([], [[]]) ∧ told p' = ([], [[some (.rowNumber ⟨1⟩)]]) := by
  refine ⟨compileText_rowNumbered, ?_,
    ⟨(renewed_numbering fun _ => False).reachable, exists_told rfl ?_⟩,
    reachable_numberingLater, exists_told ?_ ?_⟩
  · intro hsame
    cases congrArg Computation.root hsame
  · decide +kernel
  · decide +kernel
  · decide +kernel

end Report
end Reporting
