import Reporting.Proofs.Expr.Normal
/-!
Expressions of constants. A call of constants is computed in advance before its operands could be
regrouped, so that a tree of such calls becomes one constant. This is the value of the tree in every
context with the settings that it was optimized for.
-/
namespace Reporting

theorem Entry.ne_prevval_of_not_volatile :
    ∀ e ∈ all, e.traits.volatileCall = false → e.builtin ≠ .prevval := by
  decide

namespace Expr

variable {c c₀ : Context} {self : Option Value} {e : Expr} {es : List Expr} {f : Function}

/-- A constant, or a call with operands of a built-in function that is not volatile. -/
def Foldable : Expr → Prop
  | constant .. => True
  | reference .. => False
  | call f operands ring _ =>
    f.Known ∧ f.traits.volatileCall = false ∧ operands ≠ [] ∧ boundTo? ring = none

theorem flat_of_constants (h : es.all isConstant = true) : flat f es = es := by
  have hnone (e : Expr) (he : e ∈ es) : callsSame f e = false := by
    cases e with
    | constant => rfl
    | reference => cases List.all_eq_true.1 h _ he
    | call => cases List.all_eq_true.1 h _ he
  refine flat_of_apart ⟨fun e he hsame => ?_, fun e he hsame => ?_⟩
  · rw [hnone e (List.mem_of_mem_head? he)] at hsame
    cases hsame
  · rw [hnone e he] at hsame
    cases hsame

/-- A tree of constants is simplified to what it is worth, whatever the scope, the clock and the slot. -/
theorem simplify_of_foldable (hc : SameFolding c₀ c) (h : e.Every Foldable) :
    e.simplify c₀ = constant (e.meaning c self) e.isGrouped := by
  induction e using tree_induction with
  | constant => rfl
  | reference => cases h
  | call f es ring g ih =>
    obtain ⟨hknown, hvolatile, hne, hb⟩ := h.node
    have hops : es.map (simplify c₀) = es.map fun e => constant (e.meaning c self) e.isGrouped :=
      List.map_congr_left fun e he => ih e he (h.operand he)
    have hall : (es.map (simplify c₀)).all isConstant = true := by
      rw [hops, List.all_map, List.all_eq_true]
      exact fun _ _ => rfl
    have hmeaning : (es.map (simplify c₀)).map (meaning c self) = es.map (meaning c self) := by
      rw [hops, List.map_map]
      rfl
    have hfolds : folds f (es.map (simplify c₀)) = true := by
      rw [folds, hvolatile, hall, List.isEmpty_map, List.isEmpty_eq_false_iff.2 hne]
      rfl
    cases f with
    | user => cases hknown
    | builtin en =>
      have hvalue : (.builtin en : Function).apply ((es.map (simplify c₀)).filterMap constant?) c₀ =
          (call (.builtin en) es ring g).meaning c self := by
        rw [meaning_call hb, ← hmeaning]
        exact meaning_folded hc hknown hfolds g
      have hflat : joinAll (.builtin en) [] (es.map (simplify c₀)) = es.map (simplify c₀) :=
        flat_of_constants hall
      rw [simplify_call]
      simp only [simplifyCall, hflat, hfolds, if_true]
      exact congrArg (constant · g) hvalue

theorem value_evaluate_of_foldable (h : e.Every Foldable) :
    (e.evaluate c self).value c.scope self c.slot = e.meaning c self := by
  apply value_evaluate
  · apply h.imp
    intro e he
    cases e with
    | constant => trivial
    | reference => trivial
    | call f es ring g =>
      cases f with
      | user => cases he.1
      | builtin en => exact fun hb => Entry.ne_prevval_of_not_volatile en he.1 he.2.1 (Option.some.inj hb)
  · apply h.imp
    intro e he
    cases e with
    | constant => trivial
    | reference => trivial
    | call f es ring g =>
      intro s hs
      rw [he.2.2.2] at hs
      cases hs

end Expr

namespace Computation

variable {x : Computation}

/-- An expression of constants is optimized to one constant. It is what evaluating the expression
gives with the same settings, in whatever scope, with whatever clock and previous result, and into
whatever slot. -/
theorem optimize_foldable (hx : x.root.Every Expr.Foldable) (p : Precision) (order : DateOrder) :
    ∃ v, (x.optimize p order).root = .constant v x.root.isGrouped ∧
      ∀ c : Context, c.precision = p → c.dateOrder = order →
        (∀ self, (x.root.evaluate c self).value c.scope self c.slot = v) ∧
        (x.startsWithInitial = false → (x.evaluate c).2 = v) := by
  let c₀ := Expr.foldContext p order
  have hfold {c : Context} (hp : c.precision = p) (ho : c.dateOrder = order) (self : Option Value) :
      (x.optimize p order).root = .constant (x.root.meaning c self) x.root.isGrouped :=
    Expr.simplify_of_foldable ⟨hp.symm, ho.symm⟩ hx
  refine ⟨x.root.meaning c₀ none, hfold rfl rfl none, fun c hp ho => ?_⟩
  have hvalue (self : Option Value) : x.root.meaning c self = x.root.meaning c₀ none := by
    have hsame := (hfold hp ho self).symm.trans (hfold (c := c₀) rfl rfl none)
    exact (Expr.constant.inj hsame).1
  refine ⟨fun self => ?_, fun hs => ?_⟩
  · rw [Expr.value_evaluate_of_foldable hx, hvalue]
  · simp only [evaluate, hs, Bool.and_false, Bool.false_eq_true, if_false]
    rw [Expr.value_evaluate_of_foldable hx, hvalue]

/-- A choice between a sum that could be regrouped and an error, by a null. -/
def chosenSum : Computation where
  root := .ofCall (.builtin ⟨"iif", .iif, .exact 3, .plain⟩)
    [.ofCall (.builtin ⟨"isnull", .isnull, .exact 1, .plain⟩) [.constant (.null .datetime) true],
      .ofCall (.builtin ⟨"add", .add, .variadic, .commAssoc⟩)
        [.constant (.ofInt 1) true,
          .ofCall (.builtin ⟨"add", .add, .variadic, .commAssoc⟩)
            [.constant (.ofInt 2) true, .constant (.ofInt 2) false]],
      .constant (.error "none") false]
  source := ""

theorem optimize_foldable_of_choice :
    let p := Precision.ofBits 64 .nearest
    let scope : Scope := { lookup? := fun _ _ => some (.text "a") }
    let c : Context := ⟨p, .dayFirst, { draw := .zero }, scope, .precalculated⟩
    (chosenSum.optimize p .dayFirst).root = .constant (.ofInt 5) false ∧
      (chosenSum.evaluate c).2 = .ofInt 5 := by
  intro p scope c
  have hknown {e : Entry} (h : e ∈ Entry.all) : (Function.builtin e).Known := h
  have hfoldable : chosenSum.root.Every Expr.Foldable :=
    ⟨⟨hknown (by decide), rfl, nofun, rfl⟩, ⟨⟨hknown (by decide), rfl, nofun, rfl⟩, trivial, trivial⟩,
      ⟨⟨hknown (by decide), rfl, nofun, rfl⟩, trivial,
        ⟨⟨hknown (by decide), rfl, nofun, rfl⟩, trivial, trivial, trivial⟩, trivial⟩, trivial, trivial⟩
  obtain ⟨v, hroot, hvalue⟩ := optimize_foldable hfoldable p .dayFirst
  have hfive : (chosenSum.evaluate c).2 = .ofInt 5 := by decide +kernel
  rw [(hvalue c rfl rfl).2 rfl] at hfive
  exact ⟨hfive ▸ hroot, hfive ▸ (hvalue c rfl rfl).2 rfl⟩

end Computation
end Reporting
