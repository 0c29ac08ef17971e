import Reporting.Proofs.Expr.Collecting
/-!
The form in which optimizing leaves a tree: nothing is left to join, to compute in advance or to put
together. On the way there nodes only disappear, and the places that are read stay in their order.
-/
namespace Reporting.Expr

variable {c : Context} {e : Expr} {es before : List Expr} {f g : Function} {first : Bool}
  {ring : Ring (Option Cell)} {grouped : Bool} {v : Value}

/-! Nodes -/

theorem nodesAll_append (xs ys : List Expr) : nodesAll (xs ++ ys) = nodesAll xs + nodesAll ys := by
  induction xs with
  | nil => rw [List.nil_append, nodesAll, Nat.zero_add]
  | cons e xs ih => rw [List.cons_append, nodesAll, nodesAll, ih, Nat.add_assoc]

theorem nodesAll_singleton (e : Expr) : nodesAll [e] = e.nodes := by
  rw [nodesAll, nodesAll, Nat.add_zero]

theorem one_le_nodes (e : Expr) : 1 ≤ e.nodes := by
  cases e with
  | constant => exact Nat.le_refl 1
  | reference => exact Nat.le_refl 1
  | call f es ring g => exact Nat.le_add_right 1 (nodesAll es)

/-! Joining one level at a time -/

/-- The operands that take the place of an operand when its call is dissolved, but not the calls in
it. -/
def lifted (f : Function) (first : Bool) : Expr → List Expr
  | call g operands ring grouped =>
    if g.sameAs f && joins f first grouped then operands else [call g operands ring grouped]
  | e => [e]

/-- Dissolves the calls of the function among operands; `first` tells whether the first operand of the
call is among them. -/
def pullFrom (f : Function) (first : Bool) : List Expr → List Expr
  | [] => []
  | e :: es => lifted f first e ++ pullFrom f false es

/-- One pass over the operands of a call. -/
def pull (f : Function) (es : List Expr) : List Expr := pullFrom f true es

/-- An operand that is dissolved in a later place is dissolved in every place. -/
theorem joins_of_later (h : joins f false grouped = true) (first : Bool) :
    joins f first grouped = true := by
  unfold joins at h ⊢
  revert h
  generalize f.traits.volatileCall = volatileCall
  generalize f.traits.isCommAssoc = free
  generalize f.traits.leftAssociative = left
  cases volatileCall <;> cases free <;> cases left <;> cases first <;> cases grouped <;> decide

theorem lifted_cases (f : Function) (first : Bool) (e : Expr) :
    (lifted f first e = [e] ∧ (callsSame f e = true → joins f first e.isGrouped = false)) ∨
      ∃ g operands ring grouped, e = call g operands ring grouped ∧ g.sameAs f = true ∧
        joins f first grouped = true ∧ lifted f first e = operands := by
  cases e with
  | constant => exact .inl ⟨rfl, nofun⟩
  | reference => exact .inl ⟨rfl, nofun⟩
  | call g operands ring grouped =>
    rw [lifted]
    split
    · rename_i h
      obtain ⟨hsame, hjoins⟩ := Bool.and_eq_true_iff.1 h
      exact .inr ⟨g, operands, ring, grouped, rfl, hsame, hjoins, rfl⟩
    · rename_i h
      refine .inl ⟨rfl, fun hsame => Bool.eq_false_iff.2 fun hjoins => h ?_⟩
      have hsame : g.sameAs f = true := hsame
      rw [hsame, Bool.true_and]
      exact hjoins

theorem nodesAll_lifted_le (f : Function) (first : Bool) (e : Expr) :
    nodesAll (lifted f first e) ≤ e.nodes := by
  rcases lifted_cases f first e with ⟨h, -⟩ | ⟨g, operands, ring, grouped, rfl, -, -, h⟩
  · rw [h, nodesAll_singleton]
  · rw [h, nodes]
    exact Nat.le_add_left _ _

theorem nodesAll_pullFrom_le (f : Function) (first : Bool) (es : List Expr) :
    nodesAll (pullFrom f first es) ≤ nodesAll es := by
  induction es generalizing first with
  | nil => exact Nat.le_refl 0
  | cons e es ih =>
    rw [pullFrom, nodesAll_append, nodesAll]
    exact Nat.add_le_add (nodesAll_lifted_le f first e) (ih false)

/-- A pass that dissolves a call leaves fewer nodes; otherwise nothing is to be joined. -/
theorem pullFrom_cons_cases (f : Function) (first : Bool) (e : Expr) (es : List Expr) :
    nodesAll (pullFrom f first (e :: es)) < nodesAll (e :: es) ∨
      (callsSame f e = true → joins f first e.isGrouped = false) ∧
        pullFrom f first (e :: es) = e :: pullFrom f false es := by
  rcases lifted_cases f first e with ⟨h, hapart⟩ | ⟨g, operands, ring, grouped, rfl, -, -, h⟩
  · refine .inr ⟨hapart, ?_⟩
    rw [pullFrom, h, List.singleton_append]
  · refine .inl ?_
    have hrest := nodesAll_pullFrom_le f false es
    rw [pullFrom, h, nodesAll_append, nodesAll, nodes]
    omega

/-- No operand calls the function where its call would be dissolved. -/
def Apart (f : Function) (es : List Expr) : Prop :=
  (∀ e ∈ es.head?, callsSame f e = true → joins f true e.isGrouped = false) ∧
    ∀ e ∈ es, callsSame f e = true → joins f false e.isGrouped = false

theorem pullFrom_cases (f : Function) (first : Bool) (es : List Expr) :
    nodesAll (pullFrom f first es) < nodesAll es ∨ pullFrom f first es = es ∧
      (∀ e ∈ es.head?, callsSame f e = true → joins f first e.isGrouped = false) ∧
      ∀ e ∈ es, callsSame f e = true → joins f false e.isGrouped = false := by
  induction es generalizing first with
  | nil => exact .inr ⟨rfl, nofun, nofun⟩
  | cons e es ih =>
    rcases pullFrom_cons_cases f first e es with h | ⟨hapart, heq⟩
    · exact .inl h
    · rcases ih false with h | ⟨hrest, -, hlater⟩
      · refine .inl ?_
        rw [heq, nodesAll, nodesAll]
        exact Nat.add_lt_add_left h _
      · refine .inr ⟨by rw [heq, hrest], ?_, ?_⟩
        · rintro _ ⟨⟩
          exact hapart
        · refine List.forall_mem_cons.2 ⟨fun hsame => ?_, hlater⟩
          rw [Bool.eq_false_iff]
          intro hjoins
          have := joins_of_later hjoins first
          rw [hapart hsame] at this
          cases this

/-- Operands that may not be joined stay as they are. -/
theorem joinAll_of_apart
    (hhead : ∀ e ∈ es.head?, callsSame f e = true → joins f before.isEmpty e.isGrouped = false)
    (hlater : ∀ e ∈ es, callsSame f e = true → joins f false e.isGrouped = false) :
    joinAll f before es = before ++ es := by
  induction es generalizing before with
  | nil => rw [joinAll_nil, List.append_nil]
  | cons e es ih =>
    have hjoin : join f before e = before ++ [e] := by
      cases hsame : callsSame f e with
      | false => exact join_other hsame before
      | true =>
        cases e with
        | constant => cases hsame
        | reference => cases hsame
        | call g operands ring grouped =>
          apply join_call_of_not_joins
          have hjoins : joins f before.isEmpty grouped = false := hhead _ rfl hsame
          rw [hjoins, Bool.and_false]
          exact Bool.false_ne_true
    have hrest := List.forall_mem_cons.1 hlater
    have hempty : (before ++ [e]).isEmpty = false :=
      List.isEmpty_eq_false_iff.2 (List.append_ne_nil_of_right_ne_nil _ (List.cons_ne_nil e []))
    rw [joinAll_cons, hjoin, ih, List.append_assoc, List.singleton_append]
    · rw [hempty]
      exact fun e he => hrest.2 e (List.mem_of_mem_head? he)
    · exact hrest.2

theorem flat_of_apart (h : Apart f es) : flat f es = es := joinAll_of_apart h.1 h.2

/-- A pass changes nothing in what is joined in the end. -/
theorem joinAll_pullFrom (h : first = true → before = []) :
    joinAll f before (pullFrom f first es) = joinAll f before es := by
  induction es generalizing before first with
  | nil => rfl
  | cons e es ih =>
    have hjoin : joinAll f before (lifted f first e) = join f before e := by
      rcases lifted_cases f first e with ⟨heq, -⟩ | ⟨g, operands, ring, grouped, rfl, hs, hj, heq⟩
      · rw [heq, joinAll_singleton]
      · have hj' : joins f before.isEmpty grouped = true := by
          cases first with
          | true =>
            rw [h rfl]
            exact hj
          | false => exact joins_of_later hj _
        rw [heq, join_call_of_joins (by rw [hs, hj', Bool.true_and])]
    rw [pullFrom, joinAll_append, hjoin, joinAll_cons]
    exact ih nofun

/-- Passing over the operands until nothing changes joins all that is to be joined, and takes no more
passes than there are nodes. -/
theorem exists_pull_eq_flat (f : Function) (es : List Expr) :
    ∃ n ≤ nodesAll es, (pull f)^[n] es = flat f es ∧ pull f (flat f es) = flat f es := by
  induction hn : nodesAll es using Nat.strong_induction_on generalizing es with
  | _ n ih =>
    subst hn
    rcases pullFrom_cases f true es with hless | ⟨hstays, hhead, hlater⟩
    · obtain ⟨n, hn, hpull, hfixed⟩ := ih _ hless (pull f es) rfl
      have hflat : flat f (pull f es) = flat f es := joinAll_pullFrom fun _ => rfl
      rw [hflat] at hpull hfixed
      exact ⟨n + 1, Nat.lt_of_le_of_lt hn hless, hpull, hfixed⟩
    · rw [flat_of_apart ⟨hhead, hlater⟩]
      exact ⟨0, Nat.zero_le _, rfl, hstays⟩

theorem apart_of_flat (h : flat f es = es) : Apart f es := by
  obtain ⟨n, -, -, hfixed⟩ := exists_pull_eq_flat f es
  rw [h] at hfixed
  rcases pullFrom_cases f true es with hless | ⟨-, hapart⟩
  · rw [pull] at hfixed
    rw [hfixed] at hless
    exact absurd hless (Nat.lt_irrefl _)
  · exact hapart

theorem nodesAll_flat_le (f : Function) (es : List Expr) : nodesAll (flat f es) ≤ nodesAll es := by
  have hpasses (n : Nat) (es : List Expr) : nodesAll ((pull f)^[n] es) ≤ nodesAll es := by
    induction n generalizing es with
    | zero => exact Nat.le_refl _
    | succ n ih => exact (ih (pull f es)).trans (nodesAll_pullFrom_le f true es)
  obtain ⟨n, -, hpull, -⟩ := exists_pull_eq_flat f es
  rw [← hpull]
  exact hpasses n es

/-! Putting constants together -/

theorem nodesAll_replaceConstants_le (v : Value) (found : Bool) (es : List Expr) :
    nodesAll (replaceConstants v found es) ≤ nodesAll es := by
  induction es generalizing found with
  | nil => exact Nat.le_refl 0
  | cons e es ih =>
    cases e with
    | constant k g =>
      cases found with
      | true => exact (ih true).trans (Nat.le_add_left _ _)
      | false => exact Nat.add_le_add_left (ih true) 1
    | reference => exact Nat.add_le_add_left (ih found) _
    | call => exact Nat.add_le_add_left (ih found) _

theorem nodesAll_gather_le (c : Context) (f : Function) (es : List Expr) :
    nodesAll (gather c f es) ≤ nodesAll es := by
  rcases gather_cases c f es with h | ⟨-, -, -, -, h⟩
  · rw [h]
  · rw [h]
    exact nodesAll_replaceConstants_le _ _ es

/-- Simplifying does not add nodes. -/
theorem nodes_simplify_le (c : Context) (e : Expr) : (e.simplify c).nodes ≤ e.nodes := by
  induction e using tree_induction with
  | constant => exact Nat.le_refl 1
  | reference => exact Nat.le_refl 1
  | call f es ring g ih =>
    have hops : nodesAll (es.map (simplify c)) ≤ nodesAll es := by
      clear ring g
      induction es with
      | nil => exact Nat.le_refl 0
      | cons e es ihs =>
        rw [List.map_cons, nodesAll, nodesAll]
        exact Nat.add_le_add (ih e List.mem_cons_self) (ihs fun e he => ih e (List.mem_cons_of_mem _ he))
    rw [simplify_call]
    rcases simplifyCall_cases c f (es.map (simplify c)) ring g with ⟨-, heq⟩ | heq
    · rw [heq]
      exact one_le_nodes _
    · rw [heq, nodes, nodes]
      exact Nat.add_le_add_left
        (((nodesAll_gather_le c f _).trans (nodesAll_flat_le f _)).trans hops) 1

/-! Places that are read -/

/-- The place that a node reads. -/
def place (e : Expr) : List Source := e.source?.toList

theorem sources_eq_collect (e : Expr) : e.sources = e.collect place := by
  induction e using tree_induction with
  | constant => rfl
  | reference => rfl
  | call f es ring g ih =>
    rw [sources, sourcesAll_eq_flatMap, collect_call]
    exact congrArg _ (List.flatMap_congr ih)

theorem collects_place : Collects BindsCounters place where
  constant _ _ := rfl
  unbound f es ring g h := by rw [place, source?_call, h, Option.toList_none]
  bound _ _ _ _ _ _ _ := rfl
  binds _ h := h
  kept _ _ h := bindsCounters_simplify h

/-- Simplifying keeps the places that are read, in their order. -/
theorem sources_simplify (c : Context) (h : e.Every BindsCounters) :
    (e.simplify c).sources = e.sources := by
  rw [sources_eq_collect, sources_eq_collect, collects_place.collect_simplify c h]

/-! The form of the result -/

/-- A call that cannot be simplified, in terms of its operands: unless it is volatile, they are not all
constants; a sum, product or the like has none of its own kind; and a difference, quotient or the like
has none that comes first or is not grouped. -/
def Normal : Expr → Prop
  | call f operands _ _ => f.traits.volatileCall = false →
    (operands ≠ [] → ∃ e ∈ operands, e.isConstant = false) ∧
    (f.traits.isCommAssoc = true → ∀ e ∈ operands, callsSame f e = false) ∧
    (f.traits.leftAssociative = true → (∀ e ∈ operands.head?, callsSame f e = false) ∧
      ∀ e ∈ operands, callsSame f e = true → e.isGrouped = true)
  | _ => True

theorem normal_of_simplified (h : e.Simplified c) : e.Normal := by
  cases e with
  | constant => trivial
  | reference => trivial
  | call f operands ring grouped =>
    intro hv
    obtain ⟨hflat, hfolds, -⟩ := h
    obtain ⟨hhead, hlater⟩ := apart_of_flat hflat
    refine ⟨fun hne => ?_, fun hfree e he => ?_, fun hleft => ⟨fun e he => ?_, fun e he hsame => ?_⟩⟩
    · have hall : operands.all isConstant = false := by
        rw [folds, hv, Bool.not_false, Bool.true_and, List.isEmpty_eq_false_iff.2 hne,
          Bool.not_false, Bool.true_and] at hfolds
        exact hfolds
      obtain ⟨e, he, hconstant⟩ := List.all_eq_false.1 hall
      exact ⟨e, he, Bool.eq_false_iff.2 hconstant⟩
    · rw [Bool.eq_false_iff]
      intro hsame
      have := hlater e he hsame
      rw [joins, hv, hfree] at this
      cases this
    · rw [Bool.eq_false_iff]
      intro hsame
      have := hhead e he hsame
      rw [joins, hv, hleft, Bool.true_or, Bool.and_true, Bool.or_true] at this
      cases this
    · have := hlater e he hsame
      rw [joins, hv, hleft, Bool.false_or, Bool.not_false, Bool.true_and, Bool.true_and,
        Bool.or_eq_false_iff, Bool.not_eq_false'] at this
      exact this.2

theorem simplify_simplify (c : Context) (e : Expr) : (e.simplify c).simplify c = e.simplify c :=
  simplify_of_simplified (simplified_simplify c e)

theorem bindsCounters_of_fresh (h : e.Fresh) : e.BindsCounters := by
  cases e with
  | constant => trivial
  | reference => trivial
  | call f es ring g =>
    refine ⟨h.2, fun hbound => ?_⟩
    rw [h.1] at hbound
    cases hbound

end Reporting.Expr

namespace Reporting.Computation
open Reporting.Expr

variable {x : Computation}

/-- The expressions that there can be: they are compiled, and then bound, optimized and evaluated in
any order. -/
inductive Reachable : Computation → Prop
  | compileText {x : Computation} {c : Compiler} {text : String} :
      c.compileText text = .ok x → Reachable x
  | withInitial {x : Computation} (initial : Option Value) (startsWithInitial : Bool) :
      Reachable x → Reachable { x with initial, startsWithInitial }
  | resolve {x : Computation} (s : Scope) : Reachable x → Reachable (x.resolve s).1
  | optimize {x : Computation} (p : Precision) (order : DateOrder) :
      Reachable x → Reachable (x.optimize p order)
  | evaluate {x : Computation} (c : Context) : Reachable x → Reachable (x.evaluate c).1
  | restart {x : Computation} : Reachable x → Reachable x.restart

theorem bindsCounters_bind {e : Expr} (s : Scope) (h : e.Every BindsCounters) :
    (bind s e).Every BindsCounters :=
  every_bind (fun _ _ => trivial) (fun _ _ _ _ _ => trivial) (fun _ _ _ _ h => h)
    (fun _ _ _ _ _ hcounter h => ⟨h.1, fun _ => hcounter⟩) h

theorem bindsCounters_evaluate (c : Context) (h : x.root.Every BindsCounters) :
    (x.evaluate c).1.root.Every BindsCounters := by
  unfold evaluate
  split
  · cases hroot : x.root with
    | constant => trivial
    | reference => trivial
    | call f es ring g =>
      rw [hroot] at h
      refine every_call.2 ⟨⟨h.node.1, fun hbound => ?_⟩, fun e he => h.operand he⟩
      cases hs : c.slot with
      | current =>
        rw [hs] at hbound
        cases hbound
      | previous =>
        rw [hs] at hbound
        exact h.node.2 hbound
      | precalculated =>
        rw [hs] at hbound
        exact h.node.2 hbound
  · refine every_of_forget (fun f es ring g => ?_) (Expr.forget_evaluate c _ x.root).symm h
    simp only [BindsCounters, boundTo?_forgetRing]

theorem Reachable.bindsCounters (h : x.Reachable) : x.root.Every BindsCounters := by
  induction h with
  | @compileText x c text h =>
    unfold Compiler.compileText at h
    split at h
    · cases h
    · obtain ⟨e, he, h⟩ := Compiler.bind_eq_ok h
      cases h
      exact (Compiler.fresh_compile _ he).imp fun e => bindsCounters_of_fresh
  | withInitial _ _ _ ih => exact ih
  | resolve s _ ih => exact bindsCounters_bind s ih
  | optimize p order _ ih => exact bindsCounters_simplify ih
  | evaluate c _ ih => exact bindsCounters_evaluate c ih
  | restart _ ih => exact ih

/-- Optimizing ends, and after no more passes over the operands of a call than they have nodes. It adds
no nodes, keeps the places that are read and their order, and leaves a tree in which nothing is to be
joined or computed in advance, so that optimizing once more changes nothing. -/
theorem optimize_normal (hx : x.Reachable) (p : Precision) (order : DateOrder) :
    (∀ f es, ∃ n ≤ nodesAll es, (pull f)^[n] es = flat f es ∧ pull f (flat f es) = flat f es) ∧
      (x.optimize p order).nodes ≤ x.nodes ∧
      (x.optimize p order).sources = x.sources ∧
      (x.optimize p order).isIterative = x.isIterative ∧
      (x.optimize p order).isDelayed = x.isDelayed ∧
      (x.optimize p order).optimize p order = x.optimize p order ∧
      ((x.optimize p order).optimize p order).root.render = (x.optimize p order).root.render ∧
      (x.optimize p order).root.Every Normal := by
  have hsources : (x.optimize p order).sources = x.sources :=
    sources_simplify (foldContext p order) hx.bindsCounters
  have hagain : (x.optimize p order).optimize p order = x.optimize p order :=
    congrArg (fun root => { x with root }) (simplify_simplify (foldContext p order) x.root)
  refine ⟨exists_pull_eq_flat, nodes_simplify_le _ x.root, hsources, ?_, ?_, hagain, ?_, ?_⟩
  · rw [isIterative, hsources, isIterative]
  · rw [isDelayed, hsources, isDelayed]
  · rw [hagain]
  · exact (simplified_simplify _ x.root).imp fun e => normal_of_simplified

set_option maxRecDepth 8000 in
/-- In `1 + m.x + 2` the inner sum goes and its constants become one, and that is all there is to do. -/
theorem optimize_normal_of_sum :
    let x : Computation := { root := sumTree none, source := "1 + m.x + 2" }
    let y := (x.resolve {}).1.optimize sumContext.precision sumContext.dateOrder
    (sampleCompiler sumContext.precision).compileText x.source = .ok x ∧
      x.root.render = "add(add(1,m.'x'),2)" ∧ y.root.render = "add(3,m.'x')" ∧
      y.optimize sumContext.precision sumContext.dateOrder = y := by
  intro x y
  have hparse : Formula.parse "1 + m.x + 2" = .ok sumFormula := by cbv
  have hcompile : (sampleCompiler sumContext.precision).compileText "1 + m.x + 2" = .ok x := by
    simp only [Compiler.compileText, hparse, compile_sumFormula]
    rfl
  have hreachable : (x.resolve {}).1.Reachable := .resolve {} (.compileText hcompile)
  obtain ⟨-, -, -, -, -, hagain, -, -⟩ :=
    optimize_normal hreachable sumContext.precision sumContext.dateOrder
  exact ⟨hcompile, by decide +kernel, by decide +kernel, hagain⟩

end Reporting.Computation
