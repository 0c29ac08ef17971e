import Reporting.Proofs.Expr.Alike
/-!
One expression evaluated in two runs, whatever it was evaluated to before the first row and whatever is
drawn by chance: the values are the same as long as chance is not asked and nothing is read from the
evaluation before.
-/
namespace Reporting

theorem map_eq_map_of {α β γ δ : Type} {f : α → γ} {f' : β → γ} {F : α → δ} {F' : β → δ} {l : List α}
    {l' : List β} (h : l.map f = l'.map f') (hF : ∀ a ∈ l, ∀ b ∈ l', f a = f' b → F a = F' b) :
    l.map F = l'.map F' := by
  induction l generalizing l' with
  | nil =>
    cases l' with
    | nil => rfl
    | cons b l' => cases h
  | cons a l ih =>
    cases l' with
    | nil => cases h
    | cons b l' =>
      obtain ⟨hab, hrest⟩ := List.cons.inj h
      rw [List.map_cons, List.map_cons, hF a List.mem_cons_self b List.mem_cons_self hab]
      congr 1
      apply ih hrest
      intro a ha b hb
      exact hF a (List.mem_cons_of_mem _ ha) b (List.mem_cons_of_mem _ hb)

/-! Another draw -/

/-- A clock with another draw. -/
def Clock.redraw (c : Clock) (draw : Decimal) : Clock := { c with draw }

/-- A context in which chance answers otherwise. -/
def Context.redraw (c : Context) (draw : Decimal) : Context := { c with clock := c.clock.redraw draw }

/-- Settings with which chance answers otherwise. -/
def Settings.redraw (s : Settings) (draw : Decimal) : Settings :=
  { s with clock := s.clock.redraw draw }

/-- A function to which it does not matter what is drawn. -/
def Function.Drawless : Function → Prop
  | builtin e => e.builtin ≠ .random
  | user f => ∀ args c draw, f.body args (Context.redraw c draw) = f.body args c

theorem Function.apply_redraw {f : Function} (h : f.Drawless) (args : List Value) (c : Context)
    (draw : Decimal) : f.apply args (c.redraw draw) = f.apply args c := by
  unfold Function.apply
  split
  · cases f with
    | builtin e =>
      obtain ⟨name, b, arity, traits⟩ := e
      dsimp only
      congr 1
      cases b <;> first | rfl | exact (h rfl).elim
    | user u => exact h args c draw
  · rfl

variable {c : Context} {self : Option Value} {s : Scope} {draw : Decimal}

namespace Expr

variable {e e' : Expr} {es : List Expr} {f : Function} {ring : Ring (Option Cell)} {g : Bool}
  {slot : Slot}

theorem evaluate_redraw (h : e.Every (Calls Function.Drawless)) (c : Context) (self : Option Value)
    (draw : Decimal) : e.evaluate (c.redraw draw) self = e.evaluate c self := by
  induction e using tree_induction with
  | constant => rfl
  | reference => rfl
  | call f es ring g ih =>
    cases hb : boundTo? ring with
    | some source => rw [evaluate_bound hb, evaluate_bound hb]
    | none =>
      have hops : es.map (evaluate (c.redraw draw) self) = es.map (evaluate c self) :=
        List.map_congr_left fun e he => ih e he (h.operand he)
      have hvalue (es : List Expr) : callValue (c.redraw draw) self f es = callValue c self f es := by
        unfold callValue
        rw [Function.apply_redraw h.node]
        rfl
      rw [evaluate_call hb, evaluate_call hb, hops, hvalue]
      rfl

/-- A call that draws nothing, and reads nothing that was computed in the evaluation before. -/
def Repeats : Expr → Prop
  | call f operands _ _ => f.Drawless ∧
      (f.builtin? = some .prevval → ∀ e ∈ operands, e.isComputed = false)
  | _ => True

theorem repeats_of_forget (h : e.forget = e'.forget) (he : e.Every Repeats) : e'.Every Repeats := by
  apply every_of_forget ?_ h he
  intro f es ring g
  simp only [Repeats, List.forall_mem_map, isComputed_forget]

/-- What is not computed has the same value in each slot, whatever was evaluated before. -/
theorem value_of_not_computed (hf : e.forget = e'.forget) (hw : e.BoundWhole) (hw' : e'.BoundWhole)
    (h : e.isComputed = false) (slot : Slot) :
    e.value s self slot = e'.value s self slot ∧ e.hasValue slot = e'.hasValue slot := by
  have hcell := cell_of_not_computed hf hw hw' h slot
  cases e with
  | constant =>
    cases e' <;> cases hf
    exact ⟨rfl, rfl⟩
  | reference =>
    cases e' <;> cases hf
    exact ⟨rfl, rfl⟩
  | call f es ring g =>
    cases e' with
    | constant => cases hf
    | reference => cases hf
    | call f' es' ring' g' =>
      have hring : ring.get slot = ring'.get slot := hcell
      rw [value, value, hasValue, hasValue, hring]
      exact ⟨rfl, rfl⟩

theorem value_push (f : Function) (es : List Expr) (ring : Ring (Option Cell)) (g : Bool) (v : Value)
    (s : Scope) (self : Option Value) (slot : Slot) :
    (call f es (ring.push slot (some (.owned v))) g).value s self slot = v := by
  rw [value, Ring.get_push_self]

/-- Trees that differ in what was evaluated before only are evaluated to the same. -/
theorem value_evaluate_of_forget (hf : e.forget = e'.forget) (hw : e.Every BoundWhole)
    (hr : e.Every Repeats) (c : Context) (self : Option Value) (draw : Decimal) :
    (e.evaluate c self).value c.scope self c.slot =
      (e'.evaluate (c.redraw draw) self).value c.scope self c.slot := by
  induction e using tree_induction generalizing e' with
  | constant =>
    cases e' <;> cases hf
    rfl
  | reference =>
    cases e' <;> cases hf
    rfl
  | call f es ring g ih =>
    cases e' with
    | constant => cases hf
    | reference => cases hf
    | call f' es' ring' g' =>
      have hw' := boundWhole_of_forget hf hw
      simp only [forget_call, call.injEq] at hf
      obtain ⟨rfl, hops, hrings, rfl⟩ := hf
      have hbound : boundTo? ring = boundTo? ring' := by
        rw [← boundTo?_forgetRing, hrings, boundTo?_forgetRing]
      cases hb : boundTo? ring with
      | some source =>
        have hb' := hbound.symm.trans hb
        rw [evaluate_bound hb, evaluate_bound hb', value, value, hw.node source hb,
          hw'.node source hb']
      | none =>
        have hb' := hbound.symm.trans hb
        rw [evaluate_call hb, evaluate_call hb']
        apply (value_push ..).trans
        apply Eq.trans ?_ (value_push ..).symm
        unfold callValue
        split
        · rename_i hprevval
          -- the operand is not computed, and evaluating it does nothing
          have hfixed := hr.node.2 hprevval
          cases es with
          | nil =>
            obtain rfl := List.map_eq_nil_iff.1 hops.symm
            rfl
          | cons e es =>
            obtain ⟨e', es', rfl, he, hrest⟩ := List.map_eq_cons_iff.1 hops.symm
            cases es with
            | nil =>
              obtain rfl := List.map_eq_nil_iff.1 hrest
              have hcomputed := hfixed e List.mem_cons_self
              have hcomputed' : e'.isComputed = false := by
                rw [← isComputed_forget, he, isComputed_forget, hcomputed]
              obtain ⟨hvalue, hhas⟩ :
                  e.value c.scope self .previous = e'.value c.scope self .previous ∧
                    e.hasValue .previous = e'.hasValue .previous :=
                value_of_not_computed he.symm (hw.operand List.mem_cons_self).node
                  (hw'.operand List.mem_cons_self).node hcomputed .previous
              rw [List.map_singleton, List.map_singleton, evaluate_of_not_computed hcomputed,
                evaluate_of_not_computed hcomputed', previousValue, previousValue, hvalue, hhas]
              rfl
            | cons =>
              obtain ⟨_, _, rfl, -, -⟩ := List.map_eq_cons_iff.1 hrest
              rfl
        · rw [Function.apply_redraw hr.node.1, List.map_map, List.map_map]
          congr 1
          apply map_eq_map_of hops
          intro e he e' he' hee'
          exact ih e he hee' (hw.operand he) (hr.operand he)

end Expr

theorem Expr.readsOnly_anything (e : Expr) : e.ReadsOnly fun _ => True := by
  cases e with
  | constant => trivial
  | reference => exact fun _ _ => trivial
  | call => exact fun _ _ => trivial

theorem Scope.Agree.refl (s : Scope) : s.Agree (fun _ => True) s :=
  ⟨fun _ _ _ => rfl, rfl, rfl, fun _ _ _ => trivial, fun _ _ _ => trivial⟩

namespace Computation

variable {x y : Computation}

/-- Two states of one expression that hold the same if they were evaluated. -/
structure Twin (x y : Computation) : Prop where
  computed : x.startsWithInitial = false
  whole : x.root.Every Expr.BoundWhole
  repeats : x.root.Every Expr.Repeats
  forget : x.forget = y.forget
  evaluated : x.evaluated = y.evaluated
  held : x.evaluated = true → x.root.cell .current = y.root.cell .current

theorem evaluate_redraw (h : x.root.Every (Expr.Calls Function.Drawless)) (c : Context)
    (draw : Decimal) : x.evaluate (c.redraw draw) = x.evaluate c := by
  have hroot (self : Option Value) :
      x.root.evaluate (c.redraw draw) self = x.root.evaluate c self :=
    Expr.evaluate_redraw h c self draw
  unfold evaluate
  dsimp only
  rw [hroot]
  rfl

namespace Twin

theorem restart (h : Twin x y) : Twin x.restart y.restart :=
  ⟨h.computed, h.whole, h.repeats, h.forget, rfl, nofun⟩

theorem computed' (h : Twin x y) : y.startsWithInitial = false :=
  (root_of_forget h.forget.symm h.computed).1

theorem root (h : Twin x y) : x.root.forget = y.root.forget :=
  (root_of_forget h.forget h.computed').2

theorem initial (h : Twin x y) : x.initial = y.initial := by
  change x.forget.initial = y.forget.initial
  rw [h.forget]

theorem isComputed (h : Twin x y) : x.root.isComputed = y.root.isComputed := by
  rw [← Expr.isComputed_forget, h.root, Expr.isComputed_forget]

theorem value_current (h : Twin x y) (he : x.evaluated = true) (s : Scope) (self : Option Value) :
    x.root.value s self .current = y.root.value s self .current := by
  exact Expr.value_congr (.refl s) (fun _ => rfl) h.root (h.held he) (Expr.readsOnly_anything _)
    fun _ _ => trivial

/-- The value that was evaluated last. -/
theorem result (h : Twin x y) (he : x.evaluated = true) (s : Scope) :
    x.result s .current = y.result s .current := by
  rw [Computation.result, Computation.result, h.initial]
  exact h.value_current he s _

variable (h : Twin x y) (hc : c.slot = .current)
include h hc

theorem before (draw : Decimal) : x.before c = y.before (c.redraw draw) := by
  have hinit : x.initialValue = y.initialValue := by
    rw [initialValue, h.initial, initialValue]
  unfold Computation.before
  rw [← h.evaluated, ← hinit]
  split
  · rename_i he
    change _ = y.root.value c.scope (some x.initialValue) c.slot
    rw [hc]
    exact h.value_current he c.scope _
  · rfl

theorem value_evaluate (draw : Decimal) : (x.evaluate c).2 = (y.evaluate (c.redraw draw)).2 := by
  rw [(evaluate_eq h.computed c).2, (evaluate_eq h.computed' _).2, h.before hc draw]
  exact Expr.value_evaluate_of_forget h.root h.whole h.repeats c _ draw

/-- The root holds the same in both runs, and if this was not the first evaluation, it holds the same
of the one before. -/
theorem cells (draw : Decimal) :
    (x.evaluate c).1.root.cell .current = (y.evaluate (c.redraw draw)).1.root.cell .current ∧
      (x.evaluated = true →
        (x.evaluate c).1.root.cell .previous =
          (y.evaluate (c.redraw draw)).1.root.cell .previous) := by
  have hc' : (c.redraw draw).slot = .current := hc
  obtain ⟨hroot, hresult⟩ := evaluate_eq h.computed c
  obtain ⟨hroot', hresult'⟩ := evaluate_eq h.computed' (c.redraw draw)
  rw [hroot, hroot']
  cases hk : x.root.isComputed with
  | true =>
    have hk' := h.isComputed.symm.trans hk
    obtain ⟨hcurrent, hprevious⟩ := Expr.cell_evaluate (some (x.before c)) hc hk
    obtain ⟨hcurrent', hprevious'⟩ :=
      Expr.cell_evaluate (some (y.before (c.redraw draw))) hc' hk'
    constructor
    · rw [hcurrent, hcurrent', ← hresult, ← hresult', h.value_evaluate hc draw]
    · intro he
      rw [hprevious, hprevious', h.held he]
  | false =>
    have hk' := h.isComputed.symm.trans hk
    have hw' := (Expr.boundWhole_of_forget h.root h.whole).node
    rw [Expr.evaluate_of_not_computed hk, Expr.evaluate_of_not_computed hk']
    have hcells := Expr.cell_of_not_computed h.root h.whole.node hw' hk
    exact ⟨hcells .current, fun _ => hcells .previous⟩

/-- An expression is evaluated to the same in both runs. -/
theorem evaluate (draw : Decimal) : Twin (x.evaluate c).1 (y.evaluate (c.redraw draw)).1 := by
  have hx := forget_evaluate x c
  have hy := forget_evaluate y (c.redraw draw)
  obtain ⟨hcomputed, hforget⟩ := root_of_forget hx h.computed
  constructor
  · exact hcomputed
  · exact Expr.boundWhole_of_forget hforget.symm h.whole
  · exact Expr.repeats_of_forget hforget.symm h.repeats
  · rw [hx, hy, h.forget]
  · rw [evaluated_evaluate, evaluated_evaluate]
  · exact fun _ => (h.cells hc draw).1

/-- After an evaluation that was not the first one, the values of the row before are the same, too. -/
theorem previous (he : x.evaluated = true) (draw : Decimal) (s : Scope) :
    (x.evaluate c).1.result s .previous = (y.evaluate (c.redraw draw)).1.result s .previous := by
  have h' := h.evaluate hc draw
  rw [Computation.result, Computation.result, h'.initial]
  exact Expr.value_congr (.refl s) (fun _ => rfl) h'.root ((h.cells hc draw).2 he)
    (Expr.readsOnly_anything _) fun _ _ => trivial

end Twin
end Computation
end Reporting
