import Reporting.Expr.Evaluate
/-!
What an expression is worth on a row, whatever it was evaluated to before. Apart from `prevval` an
evaluation depends on the tree and its context alone: it leaves the tree as it was but for the values
that its calls hold, and these are not read again.
-/
namespace Reporting

theorem Ring.get_push_self {α : Type} (r : Ring α) (s : Slot) (a : α) : (r.push s a).get s = a :=
  get_set_self _ _ _

theorem Ring.get_fill {α : Type} (a : α) (s : Slot) : (Ring.fill a).get s = a := by
  cases s <;> rfl

namespace Expr

variable {c : Context} {self : Option Value} {e e' : Expr} {es : List Expr} {f : Function}
  {ring : Ring (Option Cell)} {g : Bool} {P Q : Expr → Prop} {src : Source}

/-- Induction over a tree, where a call comes with the claim for each of its operands. -/
@[elab_as_elim]
theorem tree_induction {motive : Expr → Prop}
    (constant : ∀ v g, motive (.constant v g))
    (reference : ∀ r t g, motive (.reference r t g))
    (call : ∀ f operands ring g, (∀ e ∈ operands, motive e) → motive (.call f operands ring g))
    (e : Expr) : motive e := by
  refine Expr.rec (motive_1 := motive) (motive_2 := fun es => ∀ e ∈ es, motive e)
    constant reference (fun f es ring g ih => call f es ring g ih) ?_ ?_ e
  · intro e he
    cases he
  · intro e es he hes e' hm
    rcases List.mem_cons.1 hm with rfl | hm
    · exact he
    · exact hes e' hm

@[simp] theorem evaluateAll_eq_map (c : Context) (self : Option Value) (es : List Expr) :
    evaluateAll c self es = es.map (evaluate c self) := by
  induction es with
  | nil => rfl
  | cons e es ih => rw [evaluateAll, ih, List.map_cons]

mutual

/-- Whether an expression and all expressions in it have a property. -/
def Every (P : Expr → Prop) : Expr → Prop
  | call f operands ring g => P (call f operands ring g) ∧ EveryAll P operands
  | e => P e

def EveryAll (P : Expr → Prop) : List Expr → Prop
  | [] => True
  | e :: es => Every P e ∧ EveryAll P es

end

theorem everyAll_iff : EveryAll P es ↔ ∀ e ∈ es, Every P e := by
  induction es with
  | nil => simp only [EveryAll, List.not_mem_nil, false_implies, implies_true]
  | cons e es ih => simp only [EveryAll, ih, List.forall_mem_cons]

theorem every_call : Every P (call f es ring g) ↔
    P (call f es ring g) ∧ ∀ e ∈ es, Every P e := by
  rw [Every, everyAll_iff]

theorem Every.node (h : Every P e) : P e := by
  cases e with
  | constant => exact h
  | reference => exact h
  | call => exact h.1

theorem Every.operand (h : Every P (call f es ring g)) (he : e ∈ es) : Every P e :=
  (every_call.1 h).2 e he

theorem Every.imp (h : Every P e) (hPQ : ∀ e, P e → Q e) : Every Q e := by
  induction e using tree_induction with
  | constant => exact hPQ _ h
  | reference => exact hPQ _ h
  | call f es ring g ih =>
    have h' := every_call.1 h
    exact every_call.2 ⟨hPQ _ h'.1, fun e he => ih e he (h'.2 e he)⟩

theorem Every.and (hP : Every P e) (hQ : Every Q e) : Every (fun e => P e ∧ Q e) e := by
  induction e using tree_induction with
  | constant => exact ⟨hP, hQ⟩
  | reference => exact ⟨hP, hQ⟩
  | call f es ring g ih =>
    have hP' := every_call.1 hP
    have hQ' := every_call.1 hQ
    exact every_call.2 ⟨⟨hP'.1, hQ'.1⟩, fun e he => ih e he (hP'.2 e he) (hQ'.2 e he)⟩

/-! The value of a tree -/

/-- The source that a call reads instead of being computed. -/
def boundTo? (ring : Ring (Option Cell)) : Option Source :=
  match ring.current with
  | some (.borrowed s) => some s
  | _ => none

theorem source?_call (f : Function) (es : List Expr) (ring : Ring (Option Cell)) (g : Bool) :
    (call f es ring g).source? = boundTo? ring := rfl

mutual

/-- What an expression is worth in a context, whatever it was evaluated to before. -/
def meaning (c : Context) (self : Option Value) : Expr → Value
  | call f operands ring _ =>
    match boundTo? ring with
    | some s => (readSource c.scope self c.slot s).getD (.error "invalid identifier ''")
    | none => f.apply (meaningAll c self operands) c
  | e => e.value c.scope self c.slot

def meaningAll (c : Context) (self : Option Value) : List Expr → List Value
  | [] => []
  | e :: es => meaning c self e :: meaningAll c self es

end

@[simp] theorem meaningAll_eq_map (c : Context) (self : Option Value) (es : List Expr) :
    meaningAll c self es = es.map (meaning c self) := by
  induction es with
  | nil => rfl
  | cons e es ih => rw [meaningAll, ih, List.map_cons]

theorem meaning_bound (h : boundTo? ring = some src) :
    (call f es ring g).meaning c self =
      (readSource c.scope self c.slot src).getD (.error "invalid identifier ''") := by
  simp only [meaning, h]

theorem meaning_call (h : boundTo? ring = none) :
    (call f es ring g).meaning c self = f.apply (es.map (meaning c self)) c := by
  simp only [meaning, h, meaningAll_eq_map]

/-- A bound call reads its source in every slot. -/
def BoundWhole : Expr → Prop
  | call _ _ ring _ => ∀ s, boundTo? ring = some s → ring = .fill (some (.borrowed s))
  | _ => True

/-- Calls of functions that have a property. -/
def Calls (P : Function → Prop) : Expr → Prop
  | call f _ _ _ => P f
  | _ => True

theorem evaluate_bound (h : boundTo? ring = some src) :
    (call f es ring g).evaluate c self = call f es ring g := by
  obtain ⟨current, previous, precalculated⟩ := ring
  cases current with
  | none => cases h
  | some cell =>
    cases cell with
    | owned v => cases h
    | borrowed s => simp only [evaluate]

theorem evaluate_call (h : boundTo? ring = none) :
    (call f es ring g).evaluate c self =
      call f (es.map (evaluate c self))
        (ring.push c.slot (some (.owned (callValue c self f (es.map (evaluate c self)))))) g := by
  obtain ⟨current, previous, precalculated⟩ := ring
  cases current with
  | none => simp only [evaluate, evaluateAll_eq_map]
  | some cell =>
    cases cell with
    | owned v => simp only [evaluate, evaluateAll_eq_map]
    | borrowed s => cases h

/-- An evaluation yields what the tree is worth. -/
theorem value_evaluate (hf : e.Every (Calls fun f => f.builtin? ≠ some .prevval))
    (hw : e.Every BoundWhole) :
    (e.evaluate c self).value c.scope self c.slot = e.meaning c self := by
  induction e using tree_induction with
  | constant => rfl
  | reference => rfl
  | call f es ring g ih =>
    cases hb : boundTo? ring with
    | some s =>
      have hring : ring = .fill (some (.borrowed s)) := hw.node s hb
      rw [evaluate_bound hb, meaning_bound hb, value, hring, Ring.get_fill]
    | none =>
      have hne : f.builtin? ≠ some .prevval := hf.node
      have hops : (es.map (evaluate c self)).map (fun e => e.value c.scope self c.slot) =
          es.map (meaning c self) := by
        rw [List.map_map]
        exact List.map_congr_left fun e he => ih e he (hf.operand he) (hw.operand he)
      rw [evaluate_call hb, meaning_call hb, value, Ring.get_push_self]
      simp only [callValue, if_neg hne, hops]

/-! What an evaluation leaves of a tree -/

/-- A ring without the values that were computed for it. -/
def forgetRing (ring : Ring (Option Cell)) : Ring (Option Cell) :=
  if (boundTo? ring).isSome then ring else .fill none

mutual

/-- An expression without the values that its calls hold. -/
def forget : Expr → Expr
  | call f operands ring g => call f (forgetAll operands) (forgetRing ring) g
  | e => e

def forgetAll : List Expr → List Expr
  | [] => []
  | e :: es => forget e :: forgetAll es

end

@[simp] theorem forgetAll_eq_map (es : List Expr) : forgetAll es = es.map forget := by
  induction es with
  | nil => rfl
  | cons e es ih => rw [forgetAll, ih, List.map_cons]

@[simp] theorem forget_call : (call f es ring g).forget =
    call f (es.map forget) (forgetRing ring) g := by
  rw [forget, forgetAll_eq_map]

@[simp] theorem boundTo?_forgetRing (ring : Ring (Option Cell)) :
    boundTo? (forgetRing ring) = boundTo? ring := by
  unfold forgetRing
  split
  · rfl
  · rename_i h
    rw [Option.not_isSome_iff_eq_none.1 h]
    rfl

theorem boundTo?_push (h : boundTo? ring = none) (slot : Slot) (v : Value) :
    boundTo? (ring.push slot (some (.owned v))) = none := by
  cases slot with
  | current => rfl
  | previous => exact h
  | precalculated => exact h

theorem forgetRing_of_unbound (h : boundTo? ring = none) : forgetRing ring = .fill none := by
  simp only [forgetRing, h, Option.isSome_none, Bool.false_eq_true, if_false]

/-- An evaluation changes nothing but the values that calls hold. -/
theorem forget_evaluate (c : Context) (self : Option Value) (e : Expr) :
    (e.evaluate c self).forget = e.forget := by
  induction e using tree_induction with
  | constant => rfl
  | reference => rfl
  | call f es ring g ih =>
    cases hb : boundTo? ring with
    | some s => rw [evaluate_bound hb]
    | none =>
      rw [evaluate_call hb, forget_call, forget_call, List.map_map,
        forgetRing_of_unbound hb, forgetRing_of_unbound (boundTo?_push hb _ _)]
      congr 1
      exact List.map_congr_left fun e he => ih e he

theorem meaning_forget (c : Context) (self : Option Value) (e : Expr) :
    e.forget.meaning c self = e.meaning c self := by
  induction e using tree_induction with
  | constant => rfl
  | reference => rfl
  | call f es ring g ih =>
    rw [forget_call]
    cases hb : boundTo? ring with
    | some s => rw [meaning_bound hb, meaning_bound ((boundTo?_forgetRing ring).trans hb)]
    | none =>
      rw [meaning_call hb, meaning_call ((boundTo?_forgetRing ring).trans hb), List.map_map]
      congr 1
      exact List.map_congr_left fun e he => ih e he

/-- Trees that differ in the values of their calls only are worth the same. -/
theorem meaning_eq_of_forget (h : e.forget = e'.forget) : e.meaning c self = e'.meaning c self := by
  rw [← meaning_forget c self e, h, meaning_forget]

/-- A property that does not look at the values of calls is kept when they are forgotten. -/
theorem every_forget (hP : ∀ f es ring g,
    P (call f (es.map forget) (forgetRing ring) g) ↔ P (call f es ring g)) (e : Expr) :
    Every P e.forget ↔ Every P e := by
  induction e using tree_induction with
  | constant => exact Iff.rfl
  | reference => exact Iff.rfl
  | call f es ring g ih =>
    rw [forget_call, every_call, every_call, hP]
    apply and_congr_right'
    rw [List.forall_mem_map]
    exact forall₂_congr ih

theorem every_of_forget (hP : ∀ f es ring g,
    P (call f (es.map forget) (forgetRing ring) g) ↔ P (call f es ring g))
    (h : e.forget = e'.forget) (he : Every P e) : Every P e' := by
  rw [← every_forget hP, ← h, every_forget hP]
  exact he

/-- A tree whose root is not bound to a counter. -/
def unbind : Expr → Expr
  | call f operands _ g => call f operands (.fill none) g
  | e => e

theorem boundWhole_of_forget (h : e.forget = e'.forget) (he : e.Every BoundWhole) :
    e'.Every BoundWhole := by
  apply every_of_forget ?_ h he
  intro f es ring g
  simp only [BoundWhole, boundTo?_forgetRing]
  cases hb : boundTo? ring with
  | some s => simp only [forgetRing, hb, Option.isSome_some, if_true]
  | none => simp only [reduceCtorEq, false_implies, implies_true]

end Expr

namespace Computation

variable {x y : Computation} {c : Context}

/-- An expression without what it remembers of evaluations. An initial value that was stored may have
taken the place of the counter that the root reads. -/
def forget (x : Computation) : Computation :=
  { x with
    root := if x.startsWithInitial then x.root.forget.unbind else x.root.forget
    evaluated := false }

theorem forget_evaluate (x : Computation) (c : Context) :
    (x.evaluate c).1.forget = x.forget := by
  obtain ⟨root, source, initial, starts, evaluated⟩ := x
  unfold evaluate
  cases starts with
  | false => simp only [Bool.and_false, Bool.false_eq_true, if_false, forget, Expr.forget_evaluate]
  | true =>
    cases evaluated with
    | false =>
      simp only [Bool.not_false, Bool.and_self, if_true, forget]
      cases root with
      | constant => rfl
      | reference => rfl
      | call f es ring g => simp only [store, Expr.forget_call, Expr.unbind]
    | true =>
      simp only [Bool.not_true, Bool.false_and, Bool.false_eq_true, if_false, if_true, forget,
        Expr.forget_evaluate]

theorem evaluated_evaluate (x : Computation) (c : Context) : (x.evaluate c).1.evaluated = true := by
  unfold evaluate
  split <;> rfl

/-- What `r.self` is worth when an expression is evaluated. -/
def before (x : Computation) (c : Context) : Value :=
  if x.evaluated then x.root.value c.scope (some x.initialValue) c.slot else x.initialValue

/-- An evaluation that does not give the initial value itself is computed. -/
theorem value_computed (hs : (!x.evaluated && x.startsWithInitial) = false)
    (hf : x.root.Every (Expr.Calls fun f => f.builtin? ≠ some .prevval))
    (hw : x.root.Every Expr.BoundWhole) :
    (x.evaluate c).2 = x.root.meaning c (some (x.before c)) := by
  have he : (x.evaluate c).2 =
      (x.root.evaluate c (some (x.before c))).value c.scope (some (x.before c)) c.slot := by
    simp only [evaluate, hs, Bool.false_eq_true, if_false, before]
  rw [he, Expr.value_evaluate hf hw]

/-- An expression that does not start with its initial value is computed every time. -/
theorem value_evaluate (hs : x.startsWithInitial = false)
    (hf : x.root.Every (Expr.Calls fun f => f.builtin? ≠ some .prevval))
    (hw : x.root.Every Expr.BoundWhole) :
    (x.evaluate c).2 = x.root.meaning c (some (x.before c)) :=
  value_computed (by rw [hs, Bool.and_false]) hf hw

end Computation
end Reporting
