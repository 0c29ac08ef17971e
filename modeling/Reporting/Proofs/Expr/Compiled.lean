import Reporting.Expr.Evaluate
import Reporting.Proofs.Expr.Simplifying
/-!
What compiling, resolving and simplifying make of the nodes of a tree: functions come from the table,
and only counters are bound to the places they read.
-/
namespace Reporting

/-- A built-in function as the table has it. -/
def Function.FromTable : Function → Prop
  | builtin e => e ∈ Entry.all
  | user _ => True

namespace Expr

variable {c : Context} {e : Expr} {es : List Expr} {f : Function} {ring : Ring (Option Cell)}
  {grouped : Bool} {P : Expr → Prop} {s : Scope} {v : Value}

/-- A call that was compiled and neither bound nor evaluated. -/
def Fresh : Expr → Prop
  | call f _ ring _ => ring = .fill none ∧ f.FromTable
  | _ => True

/-- A call with as many operands as its function takes. -/
def Accepted : Expr → Prop
  | call f operands _ _ => f.arity.accepts operands.length = true
  | _ => True

/-- A call of a function that is found by a name. -/
def Calling (t : FunctionTable) : Expr → Prop
  | call f _ _ _ => ∃ name, t.find? name = some f
  | _ => True

/-- What every node of a tree is that was compiled. -/
structure Compiled (t : FunctionTable) (e : Expr) : Prop where
  fresh : e.Fresh
  accepted : e.Accepted
  calling : e.Calling t

theorem every_group (hP : ∀ f es ring g g', P (call f es ring g) → P (call f es ring g'))
    (hconst : ∀ v g g', P (constant v g) → P (constant v g'))
    (href : ∀ r t g g', P (reference r t g) → P (reference r t g')) (h : e.Every P) :
    e.group.Every P := by
  cases e with
  | constant v g => exact hconst v g true h
  | reference r t g => exact href r t g true h
  | call f es ring g => exact every_call.2 ⟨hP _ _ _ _ _ h.node, fun e he => h.operand he⟩

theorem compiled_group {t : FunctionTable} (h : e.Every (Compiled t)) :
    e.group.Every (Compiled t) :=
  every_group (fun _ _ _ _ _ h => ⟨h.fresh, h.accepted, h.calling⟩)
    (fun _ _ _ _ => ⟨trivial, trivial, trivial⟩) (fun _ _ _ _ _ => ⟨trivial, trivial, trivial⟩) h

end Expr

namespace Compiler

variable {c : Compiler} {e : Expr} {es : List Expr}

theorem fromTable_of_find? {t : FunctionTable} {name : String} {f : Function}
    (h : t.find? name = some f) : f.FromTable := by
  unfold FunctionTable.find? at h
  dsimp only at h
  split at h
  · cases h
    trivial
  · obtain ⟨e, he, rfl⟩ := Option.map_eq_some_iff.1 h
    exact List.mem_of_find?_eq_some he

theorem call_eq_ok {name : String} (h : c.call name es = .ok e) :
    ∃ f, c.functions.find? name = some f ∧ f.arity.accepts es.length = true ∧ e = .ofCall f es := by
  unfold call at h
  cases hf : c.functions.find? name with
  | none =>
    rw [hf] at h
    cases h
  | some f =>
    rw [hf] at h
    dsimp only at h
    refine ⟨f, rfl, ?_⟩
    cases hn : f.arity with
    | exact n =>
      rw [hn] at h
      dsimp only at h
      split at h
      · rename_i hlength
        cases h
        exact ⟨beq_iff_eq.2 hlength, rfl⟩
      · cases h
    | variadic =>
      rw [hn] at h
      cases h
      exact ⟨rfl, rfl⟩

theorem compiled_call {name : String} (h : c.call name es = .ok e)
    (hes : ∀ e ∈ es, e.Every (Expr.Compiled c.functions)) : e.Every (Expr.Compiled c.functions) := by
  obtain ⟨f, hf, haccepts, rfl⟩ := call_eq_ok h
  exact Expr.every_call.2 ⟨⟨⟨rfl, fromTable_of_find? hf⟩, haccepts, ⟨name, hf⟩⟩, hes⟩

theorem bind_eq_ok {α β : Type} {x : Except Error α} {f : α → Except Error β} {b : β}
    (h : (x >>= f) = .ok b) : ∃ a, x = .ok a ∧ f a = .ok b := by
  cases x with
  | error e => cases h
  | ok a => exact ⟨a, rfl, h⟩

mutual

/-- A compiled tree holds no values, its functions come from the table, and their calls have as many
operands as they take. -/
theorem compiled_compile (F : Formula) {e : Expr} (h : c.compile F = .ok e) :
    e.Every (Expr.Compiled c.functions) := by
  cases F with
  | literal l =>
    obtain ⟨v, -, h⟩ := bind_eq_ok h
    cases h
    exact ⟨trivial, trivial, trivial⟩
  | column name =>
    cases h
    exact ⟨trivial, trivial, trivial⟩
  | named scope name =>
    cases h
    exact ⟨trivial, trivial, trivial⟩
  | binary op left right =>
    obtain ⟨l, hl, h⟩ := bind_eq_ok h
    obtain ⟨r, hr, h⟩ := bind_eq_ok h
    refine compiled_call h ?_
    simp only [List.forall_mem_cons, List.not_mem_nil, false_implies, implies_true, and_true]
    exact ⟨compiled_compile left hl, compiled_compile right hr⟩
  | unary op operand =>
    obtain ⟨o, ho, h⟩ := bind_eq_ok h
    cases hname : op.functionName? with
    | none =>
      rw [hname] at h
      cases h
      exact compiled_compile operand ho
    | some name =>
      rw [hname] at h
      refine compiled_call h ?_
      simp only [List.forall_mem_cons, List.not_mem_nil, false_implies, implies_true, and_true]
      exact compiled_compile operand ho
  | conditional condition yes no =>
    obtain ⟨x, hx, h⟩ := bind_eq_ok h
    obtain ⟨y, hy, h⟩ := bind_eq_ok h
    obtain ⟨z, hz, h⟩ := bind_eq_ok h
    refine compiled_call h ?_
    simp only [List.forall_mem_cons, List.not_mem_nil, false_implies, implies_true, and_true]
    exact ⟨compiled_compile condition hx, compiled_compile yes hy, compiled_compile no hz⟩
  | call name args =>
    obtain ⟨es, hes, h⟩ := bind_eq_ok h
    exact compiled_call h (compiled_compileAll args hes)
  | grouped inner =>
    obtain ⟨x, hx, h⟩ := bind_eq_ok h
    cases h
    exact Expr.compiled_group (compiled_compile inner hx)

theorem compiled_compileAll (Fs : List Formula) {es : List Expr} (h : c.compileAll Fs = .ok es) :
    ∀ e ∈ es, e.Every (Expr.Compiled c.functions) := by
  cases Fs with
  | nil =>
    cases h
    exact List.forall_mem_nil _
  | cons F Fs =>
    obtain ⟨e, he, h⟩ := bind_eq_ok h
    obtain ⟨es, hes, h⟩ := bind_eq_ok h
    cases h
    exact List.forall_mem_cons.2 ⟨Expr.compiled_group (compiled_compile F he), compiled_compileAll Fs hes⟩

end

theorem fresh_compile (F : Formula) {e : Expr} (h : c.compile F = .ok e) : e.Every Expr.Fresh :=
  (compiled_compile F h).imp fun _ he => he.fresh

end Compiler

namespace Expr

variable {c : Context} {e : Expr} {es : List Expr} {f : Function} {ring : Ring (Option Cell)}
  {grouped : Bool} {P Q : Expr → Prop} {s : Scope} {v : Value}

/-! Resolving -/

/-- A tree with its names bound. -/
def bind (s : Scope) (e : Expr) : Expr := (e.resolve s).1

theorem resolveAll_fst (s : Scope) (es : List Expr) : (resolveAll s es).1 = es.map (bind s) := by
  induction es with
  | nil => rfl
  | cons e es ih => rw [resolveAll, List.map_cons, ← ih, bind]

/-- A counter that is resolved stays a call, bound or not, or it is known to be missing. -/
theorem resolveCounter_cases (s : Scope) (kind : CounterKind) (f : Function) (es : List Expr)
    (ring : Ring (Option Cell)) (grouped : Bool) :
    (∃ v, resolveCounter s kind f es ring grouped = constant v false) ∨
    (∃ name src, counterSource? s kind name = some src ∧
      resolveCounter s kind f es ring grouped =
        call f es (.fill (some (.borrowed src))) grouped) ∨
    resolveCounter s kind f es ring grouped = call f es ring grouped := by
  unfold resolveCounter
  dsimp only
  split
  · split
    · rename_i src hsrc
      exact .inr (.inl ⟨none, src, hsrc, rfl⟩)
    · exact .inl ⟨_, rfl⟩
  · split
    · rename_i name _
      split
      · rename_i src hsrc
        exact .inr (.inl ⟨some name, src, hsrc, rfl⟩)
      · exact .inl ⟨_, rfl⟩
    · exact .inr (.inr rfl)
  · exact .inr (.inr rfl)

/-- A call that is bound reads a counter of the scope. -/
theorem bind_call_cases (s : Scope) (f : Function) (es : List Expr) (ring : Ring (Option Cell))
    (grouped : Bool) :
    (counter? f).isSome ∧ (∃ v, bind s (call f es ring grouped) = constant v false) ∨
    (counter? f).isSome ∧ (∃ kind name src, counterSource? s kind name = some src ∧
      bind s (call f es ring grouped) =
        call f (es.map (bind s)) (.fill (some (.borrowed src))) grouped) ∨
    bind s (call f es ring grouped) = call f (es.map (bind s)) ring grouped := by
  rw [← resolveAll_fst]
  unfold bind resolve
  dsimp only
  rw [resolveAll_fst]
  cases hk : counter? f with
  | none => exact .inr (.inr rfl)
  | some kind =>
    rcases resolveCounter_cases s kind f (es.map (bind s)) ring grouped with h | h | h
    · exact .inl ⟨rfl, h⟩
    · exact .inr (.inl ⟨rfl, kind, h⟩)
    · exact .inr (.inr h)

/-- What resolving does to each node, it does to a tree. -/
theorem every_bind (hconst : ∀ v g, Q (constant v g))
    (href : ∀ r t t' g, P (reference r t g) → Q (reference r t' g))
    (hcall : ∀ f es ring g, P (call f es ring g) → Q (call f (es.map (bind s)) ring g))
    (hbound : ∀ f es ring src g, (counter? f).isSome → P (call f es ring g) →
      Q (call f (es.map (bind s)) (.fill (some (.borrowed src))) g))
    (h : e.Every P) : (bind s e).Every Q := by
  induction e using tree_induction with
  | constant v g => exact hconst v g
  | reference r t g => exact href r t _ g h
  | call f es ring g ih =>
    have hops : ∀ e ∈ es.map (bind s), e.Every Q :=
      List.forall_mem_map.2 fun e he => ih e he (h.operand he)
    rcases bind_call_cases s f es ring g with ⟨-, v, heq⟩ | ⟨hk, -, -, src, -, heq⟩ | heq
    · rw [heq]
      exact hconst v false
    · rw [heq]
      exact every_call.2 ⟨hbound f es ring src g hk h.node, hops⟩
    · rw [heq]
      exact every_call.2 ⟨hcall f es ring g h.node, hops⟩

theorem volatile_of_counter (hk : f.FromTable) (hc : (counter? f).isSome) :
    f.traits.volatileCall = true := by
  have htable : ∀ e ∈ Entry.all, (counter? (.builtin e)).isSome → e.traits.volatileCall = true := by
    decide
  cases f with
  | builtin e => exact htable e hk hc
  | user u => cases hc

theorem callsSame_bind (h : callsSame f (bind s e) = true) :
    callsSame f e = true ∧ (bind s e).isGrouped = e.isGrouped := by
  cases e with
  | constant => cases h
  | reference => cases h
  | call g es ring grouped =>
    rcases bind_call_cases s g es ring grouped with ⟨-, v, heq⟩ | ⟨-, -, -, src, -, heq⟩ | heq
    · rw [heq] at h
      cases h
    · rw [heq] at h ⊢
      exact ⟨h, rfl⟩
    · rw [heq] at h ⊢
      exact ⟨h, rfl⟩

theorem every_join (hes : ∀ x ∈ es, x.Every P) (he : e.Every P) :
    ∀ x ∈ join f es e, x.Every P := by
  have hlast {e : Expr} {before : List Expr} (hb : ∀ x ∈ before, x.Every P) (he : e.Every P) :
      ∀ x ∈ before ++ [e], x.Every P := by
    intro x hx
    rcases List.mem_append.1 hx with hx | hx
    · exact hb x hx
    · rw [List.mem_singleton.1 hx]
      exact he
  induction e using tree_induction generalizing es with
  | constant v g =>
    rw [join_constant]
    exact hlast hes he
  | reference r t g =>
    rw [join_reference]
    exact hlast hes he
  | call g operands ring grouped ih =>
    by_cases hj : (g.sameAs f && joins f es.isEmpty grouped) = true
    · rw [join_call_of_joins hj]
      exact joinAll_of_join (P := fun es => ∀ x ∈ es, x.Every P)
        (fun e hm before hb => ih e hm hb (he.operand hm)) hes
    · rw [join_call_of_not_joins hj]
      exact hlast hes he

/-- A property of nodes that does not look at operands, and that constants have, is kept. -/
theorem every_simplify (hconst : ∀ v g, P (constant v g))
    (hcall : ∀ f es es' ring g, P (call f es ring g) → P (call f es' ring g)) (h : e.Every P) :
    (e.simplify c).Every P := by
  induction e using tree_induction with
  | constant => exact h
  | reference => exact h
  | call f es ring g ih =>
    rw [simplify_call]
    have hflat : ∀ x ∈ flat f (es.map (simplify c)), x.Every P := by
      refine joinAll_of_join (P := fun es => ∀ x ∈ es, x.Every P) (fun e hm before hb => ?_)
        (List.forall_mem_nil _)
      obtain ⟨e, he, rfl⟩ := List.mem_map.1 hm
      exact every_join hb (ih e he (h.operand he))
    rcases simplifyCall_cases c f (es.map (simplify c)) ring g with ⟨-, heq⟩ | heq
    · rw [heq]
      exact hconst _ _
    · rw [heq]
      refine every_call.2 ⟨hcall f es _ ring g h.node, fun x hx => ?_⟩
      rcases mem_gather hx with hx | ⟨v, rfl⟩
      · exact hflat x hx
      · exact hconst _ _

end Expr
end Reporting
