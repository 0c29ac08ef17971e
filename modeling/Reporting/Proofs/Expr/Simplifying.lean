import Reporting.Proofs.Expr.Joining
/-!
Simplifying keeps what a tree is worth, as long as it is no error: sums and products must not depend
on how their operands are grouped, and a difference or quotient must not stand, ungrouped, behind the
first operand of another one.
-/
namespace Reporting

/-- The built-in functions, with the names and traits they have. -/
def Function.Known : Function → Prop
  | builtin e => e ∈ Entry.all
  | user _ => False

namespace Expr

variable {c c₀ : Context} {self : Option Value} {e : Expr} {es : List Expr} {f : Function}
  {ring : Ring (Option Cell)} {grouped : Bool} {en : Entry} {v : Value}

/-- Only counters read the place they are bound to. -/
def BoundCounter : Expr → Prop
  | call f _ ring _ => (boundTo? ring).isSome → f.traits.volatileCall = true
  | _ => True

/-- Behind its first operand, a difference has no other difference that is not grouped, and a quotient
no other quotient. -/
def LaterGrouped : Expr → Prop
  | call f operands _ _ => f.traits.isCommAssoc = false → f.traits.leftAssociative = true →
    ∀ e ∈ operands.tail, callsSame f e = true → e.isGrouped = true
  | _ => True

/-- The operands of a call, and of the calls of its function in the place of operands. -/
def flat (f : Function) (operands : List Expr) : List Expr := joinAll f [] operands

/-- However its operands are regrouped, a product or a sum that is not one of texts alone has the same
value. -/
def SteadyCall (c : Context) (self : Option Value) : Expr → Prop
  | call f operands _ _ => f.builtin? = some .mul ∨ (f.builtin? = some .add ∧
      ∃ v ∈ (flat f operands).map (meaning c self), v.kind ≠ .text) →
    Steady (fun vs => f.apply vs c) ((flat f operands).map (meaning c self))
  | _ => True

/-- What a tree must be like in a context for its value to outlive its simplification. -/
structure Simplifiable (c : Context) (last : Option Value) (e : Expr) : Prop where
  known : e.Every (Calls Function.Known)
  bound : e.Every BoundCounter
  later : e.Every LaterGrouped
  steady : e.Every (SteadyCall c last)

theorem Simplifiable.operand (h : Simplifiable c self (call f es ring grouped)) (he : e ∈ es) :
    Simplifiable c self e where
  known := h.known.operand he
  bound := h.bound.operand he
  later := h.later.operand he
  steady := h.steady.operand he

/-- Contexts in which functions that are not volatile give the same values. -/
structure SameFolding (c₀ c : Context) : Prop where
  precision : c₀.precision = c.precision
  dateOrder : c₀.dateOrder = c.dateOrder

theorem sameAs_self (en : Entry) : (Function.builtin en).sameAs (.builtin en) = true :=
  beq_self_eq_true en.builtin

theorem eq_of_sameAs (he : en ∈ Entry.all)
    (ht : (en.traits.isCommAssoc || en.traits.leftAssociative) = true) (hk : f.Known)
    (h : f.sameAs (.builtin en) = true) : f = .builtin en := by
  cases f with
  | user u => cases hk
  | builtin b =>
    have hb : en.builtin = b.builtin := (beq_iff_eq.1 h).symm
    exact congrArg _ (Entry.eq_of_regrouped en he ht b hk hb)

theorem constants_of_all (h : es.all isConstant = true) :
    es.filterMap constant? = es.map (meaning c self) := by
  induction es with
  | nil => rfl
  | cons e es ih =>
    rw [List.all_cons, Bool.and_eq_true] at h
    cases e with
    | constant v g =>
      rw [List.map_cons, ← ih h.2]
      rfl
    | reference => cases h.1
    | call => cases h.1

/-- What a simplified call is worth: what the function gives for the joined operands, whether it is
computed in advance or not. -/
theorem simplifyCall_cases (c₀ : Context) (f : Function) (es : List Expr)
    (ring : Ring (Option Cell)) (grouped : Bool) :
    (folds f (flat f es) = true ∧ simplifyCall c₀ f es ring grouped =
      constant (f.apply ((flat f es).filterMap constant?) c₀) grouped) ∨
    simplifyCall c₀ f es ring grouped = call f (gather c₀ f (flat f es)) ring grouped := by
  simp only [simplifyCall, flat]
  split
  · rename_i h
    exact .inl ⟨h, rfl⟩
  · exact .inr rfl

theorem meaning_folded (hc : SameFolding c₀ c) (he : en ∈ Entry.all)
    (h : folds (.builtin en) es = true) (grouped : Bool) :
    (constant ((Function.builtin en).apply (es.filterMap constant?) c₀) grouped).meaning c self =
      (Function.builtin en).apply (es.map (meaning c self)) c := by
  simp only [folds, Bool.and_eq_true, Bool.not_eq_true'] at h
  change Function.apply _ _ c₀ = _
  rw [constants_of_all h.2, Function.apply_settings he h.1.1 hc.precision hc.dateOrder]

theorem callsSame_simplify (h : callsSame f (e.simplify c₀) = true) : callsSame f e = true := by
  cases e with
  | constant => exact h
  | reference => exact h
  | call g operands ring grouped =>
    rw [simplify_call] at h
    rcases simplifyCall_cases c₀ g (operands.map (simplify c₀)) ring grouped with ⟨-, heq⟩ | heq
    · rw [heq] at h
      cases h
    · rw [heq] at h
      exact h

theorem isGrouped_simplify (c₀ : Context) (e : Expr) : (e.simplify c₀).isGrouped = e.isGrouped := by
  cases e with
  | constant => rfl
  | reference => rfl
  | call g operands ring grouped =>
    rw [simplify_call]
    rcases simplifyCall_cases c₀ g (operands.map (simplify c₀)) ring grouped with ⟨-, heq⟩ | heq
    · rw [heq]
      rfl
    · rw [heq]
      rfl

theorem flat_of_not_joins (hf : ∀ first grouped, joins f first grouped = false) :
    flat f es = es := by
  rw [flat, joinAll_of_not_joins hf, List.nil_append]

/-! Functions whose operands are regrouped freely -/

theorem unbound (hb : (call f es ring grouped).Every BoundCounter)
    (hv : f.traits.volatileCall = false) : boundTo? ring = none := by
  cases h : boundTo? ring with
  | none => rfl
  | some s =>
    have := hb.node (by rw [h]; rfl)
    rw [hv] at this
    cases this

end Expr
end Reporting
