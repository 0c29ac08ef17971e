import Reporting.Proofs.Expr.Again
import Reporting.Proofs.Expr.Optimized
/-!
What is gathered from the nodes of a tree from left to right, a call before its operands. Simplifying
keeps it, as far as constants and calls that are not bound to a counter have no share in it.
-/
namespace Reporting.Expr

variable {α : Type} {own : Expr → List α} {P : Expr → Prop} {c : Context} {e : Expr}
  {es before : List Expr} {f g : Function} {ring : Ring (Option Cell)} {grouped : Bool}

mutual

/-- What is gathered from a tree, given the share of each node. -/
def collect (own : Expr → List α) : Expr → List α
  | call f operands ring g => own (call f operands ring g) ++ collectAll own operands
  | e => own e

def collectAll (own : Expr → List α) : List Expr → List α
  | [] => []
  | e :: es => e.collect own ++ collectAll own es

end

theorem collectAll_eq_flatMap (own : Expr → List α) (es : List Expr) :
    collectAll own es = es.flatMap (collect own) := by
  induction es with
  | nil => rfl
  | cons e es ih => rw [collectAll, ih, List.flatMap_cons]

theorem collect_call (own : Expr → List α) (f : Function) (es : List Expr)
    (ring : Ring (Option Cell)) (grouped : Bool) :
    (call f es ring grouped).collect own =
      own (call f es ring grouped) ++ es.flatMap (collect own) := by
  rw [collect, collectAll_eq_flatMap]

/-- A call of a function that the table has, which is bound only if it reads a counter. -/
def BindsCounters : Expr → Prop
  | call f _ ring _ => f.FromTable ∧ ((boundTo? ring).isSome → (counter? f).isSome)
  | _ => True

theorem counter?_of_sameAs (h : g.sameAs f = true) : counter? g = counter? f := by
  cases g with
  | user u => cases f with
    | user w => rfl
    | builtin b => cases h
  | builtin a => cases f with
    | user w => cases h
    | builtin b =>
      have hab : a.builtin = b.builtin := beq_iff_eq.1 h
      simp only [counter?, Function.builtin?, hab]

/-- A call of a function that is not volatile is not bound, nor is one that is joined to it. -/
theorem boundTo?_of_not_volatile (hf : f.FromTable) (hv : f.traits.volatileCall = false)
    (hg : g.sameAs f = true) (h : (call g es ring grouped).BindsCounters) : boundTo? ring = none := by
  rw [← Option.not_isSome_iff_eq_none]
  intro hbound
  have hcounter := h.2 hbound
  rw [counter?_of_sameAs hg] at hcounter
  have := volatile_of_counter hf hcounter
  rw [hv] at this
  cases this

/-- The shares of nodes do not change when trees with a property are simplified: constants and
calls that are not bound have none, and those of bound calls look at nothing but the ring and the name
of the counter. -/
structure Collects (P : Expr → Prop) (own : Expr → List α) : Prop where
  constant : ∀ v g, own (.constant v g) = []
  unbound : ∀ f es ring g, boundTo? ring = none → own (call f es ring g) = []
  bound : ∀ f es es' ring g, P (call f es ring g) →
    (∀ name, counterName? es = some name → counterName? es' = some name) →
    own (call f es' ring g) = own (call f es ring g)
  binds : ∀ e, P e → e.BindsCounters
  kept : ∀ (c : Context) (e : Expr), e.Every P → (e.simplify c).Every P

namespace Collects

variable (hown : Collects P own)
include hown

theorem join (hf : f.FromTable) (hv : f.traits.volatileCall = false) (h : e.Every P)
    (before : List Expr) :
    (Expr.join f before e).flatMap (collect own) =
      before.flatMap (collect own) ++ e.collect own := by
  have hlast (e : Expr) (before : List Expr) :
      (before ++ [e]).flatMap (collect own) = before.flatMap (collect own) ++ e.collect own := by
    rw [List.flatMap_append, List.flatMap_singleton]
  induction e using tree_induction generalizing before with
  | constant => rw [join_constant, hlast]
  | reference => rw [join_reference, hlast]
  | call g operands ring grouped ih =>
    by_cases hj : (g.sameAs f && joins f before.isEmpty grouped) = true
    · have hbound :=
        boundTo?_of_not_volatile hf hv (Bool.and_eq_true_iff.1 hj).1 (hown.binds _ h.node)
      rw [join_call_of_joins hj, collect_call, hown.unbound _ _ _ _ hbound, List.nil_append]
      have hoperands := (every_call.1 h).2
      clear hj h
      induction operands generalizing before with
      | nil => rw [joinAll_nil, List.flatMap_nil, List.append_nil]
      | cons e es ihs =>
        obtain ⟨he, hes⟩ := List.forall_mem_cons.1 hoperands
        rw [joinAll_cons, ihs (fun e he => ih e (List.mem_cons_of_mem _ he)) _ hes,
          ih e List.mem_cons_self he, List.flatMap_cons, List.append_assoc]
    · rw [join_call_of_not_joins hj, hlast]

theorem flat (hf : f.FromTable) (h : ∀ e ∈ es, e.Every P) :
    (Expr.flat f es).flatMap (collect own) = es.flatMap (collect own) := by
  cases hv : f.traits.volatileCall with
  | true => rw [flat_of_not_joins fun first grouped => by rw [joins, hv]; rfl]
  | false =>
    have hall (before : List Expr) : (joinAll f before es).flatMap (collect own) =
        before.flatMap (collect own) ++ es.flatMap (collect own) := by
      induction es generalizing before with
      | nil => rw [joinAll_nil, List.flatMap_nil, List.append_nil]
      | cons e es ih =>
        obtain ⟨he, hes⟩ := List.forall_mem_cons.1 h
        rw [joinAll_cons, ih hes, hown.join hf hv he, List.flatMap_cons, List.append_assoc]
    exact hall []

theorem replaceConstants (v : Value) (found : Bool) (es : List Expr) :
    (Expr.replaceConstants v found es).flatMap (collect own) = es.flatMap (collect own) := by
  have hconstant (v : Value) (g : Bool) : (Expr.constant v g).collect own = [] := hown.constant v g
  induction es generalizing found with
  | nil => rfl
  | cons e es ih =>
    cases e with
    | constant w g =>
      rw [List.flatMap_cons, hconstant, List.nil_append, ← ih true]
      cases found with
      | true => rfl
      | false =>
        change (Expr.constant v false :: Expr.replaceConstants v true es).flatMap _ = _
        rw [List.flatMap_cons, hconstant, List.nil_append]
    | reference r t g => exact congrArg ((reference r t g).collect own ++ ·) (ih found)
    | call f es ring g => exact congrArg ((call f es ring g).collect own ++ ·) (ih found)

theorem gather (c : Context) (f : Function) (es : List Expr) :
    (Expr.gather c f es).flatMap (collect own) = es.flatMap (collect own) := by
  rcases gather_cases c f es with h | ⟨-, -, -, -, h⟩
  · rw [h]
  · rw [h, hown.replaceConstants]

theorem constants (h : es.all isConstant = true) : es.flatMap (collect own) = [] := by
  rw [List.flatMap_eq_nil_iff]
  intro e he
  have hconstant := List.all_eq_true.1 h e he
  cases e with
  | constant v g => exact hown.constant v g
  | reference => cases hconstant
  | call => cases hconstant

/-- Simplifying keeps what is gathered, in its order. -/
theorem collect_simplify (c : Context) (h : e.Every P) :
    (e.simplify c).collect own = e.collect own := by
  induction e using tree_induction with
  | constant => rfl
  | reference => rfl
  | call f es ring g ih =>
    have hbinds := hown.binds _ h.node
    have hops : ∀ e ∈ es.map (Expr.simplify c), e.Every P :=
      List.forall_mem_map.2 fun e he => hown.kept c e (h.operand he)
    have hsame : (es.map (Expr.simplify c)).flatMap (collect own) = es.flatMap (collect own) := by
      rw [List.flatMap_map]
      exact List.flatMap_congr fun e he => ih e he (h.operand he)
    have hflat : (Expr.flat f (es.map (Expr.simplify c))).flatMap (collect own) =
        es.flatMap (collect own) := (hown.flat hbinds.1 hops).trans hsame
    rw [simplify_call, collect_call]
    rcases simplifyCall_cases c f (es.map (Expr.simplify c)) ring g with ⟨hfolds, heq⟩ | heq
    · simp only [folds, Bool.and_eq_true, Bool.not_eq_true'] at hfolds
      have hself : f.sameAs f = true := by cases f <;> exact beq_self_eq_true _
      have hbound := boundTo?_of_not_volatile hbinds.1 hfolds.1.1 hself hbinds
      rw [heq, hown.unbound _ _ _ _ hbound, ← hflat, hown.constants hfolds.2]
      exact hown.constant _ _
    · have hnames (name : Option String) (hname : counterName? es = some name) :
          counterName? (Expr.gather c f (Expr.flat f (es.map (Expr.simplify c)))) = some name :=
        counterName?_gather (counterName?_map (F := Expr.simplify c) (fun _ _ => rfl) hname) c
      rw [heq, collect_call, hown.gather, hflat, hown.bound f es _ ring g h.node hnames]

end Collects

theorem bindsCounters_simplify (h : e.Every BindsCounters) : (e.simplify c).Every BindsCounters :=
  every_simplify (fun _ _ => trivial) (fun _ _ _ _ _ h => h) h

end Reporting.Expr
