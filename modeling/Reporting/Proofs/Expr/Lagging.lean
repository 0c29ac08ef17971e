import Reporting.Proofs.Expr.History
/-!
What the previous value of a call is: its value one evaluation before, at any depth of an expression
and however often its iteration starts over.
-/
namespace Reporting

namespace Expr

variable {c : Context} {self : Option Value} {e x : Expr} {es : List Expr} {f f' : Function}
  {ring ring' : Ring (Option Cell)} {g g' : Bool} {path : List Nat} {P : Expr → Prop} {s : Scope}

/-- The part of an expression at a path, which tells the number of an operand at each step. -/
def at? : List Nat → Expr → Option Expr
  | [], e => some e
  | i :: path, call _ operands _ _ => operands[i]?.bind (at? path)
  | _ :: _, _ => none

theorem at?_concat (path : List Nat) (i : Nat) (e : Expr) :
    e.at? (path ++ [i]) = (e.at? path).bind (at? [i]) := by
  induction path generalizing e with
  | nil => rfl
  | cons j path ih =>
    cases e with
    | constant => rfl
    | reference => rfl
    | call f es ring g =>
      rw [List.cons_append, at?, at?, Option.bind_assoc]
      exact congrArg _ (funext ih)

theorem Every.part (h : e.Every P) (hat : e.at? path = some x) : x.Every P := by
  induction path generalizing e with
  | nil =>
    cases hat
    exact h
  | cons i path ih =>
    cases e with
    | constant => cases hat
    | reference => cases hat
    | call f es ring g =>
      obtain ⟨y, hy, hat⟩ := Option.bind_eq_some_iff.1 hat
      exact ih (h.operand (List.mem_of_getElem? hy)) hat

/-- Calls that are bound to a counter have no calls as operands. -/
theorem Named.unbound (h : (call f es ring g).Named) {ops : List Expr}
    (hmem : call f' ops ring' g' ∈ es) : boundTo? ring = none := by
  by_contra hb
  obtain ⟨-, hname⟩ := h (Option.isSome_iff_ne_none.2 hb)
  match es with
  | [] => cases hmem
  | [e] =>
    cases List.mem_singleton.1 hmem
    cases hname
  | _ :: _ :: _ => cases hname

theorem exists_call_of_at? {ops : List Expr} (hat : e.at? path = some (call f ops ring g)) :
    ∃ f ops ring g, e = call f ops ring g := by
  cases e with
  | constant => cases path <;> cases hat
  | reference => cases path <;> cases hat
  | call f es ring g => exact ⟨f, es, ring, g, rfl⟩

/-- An evaluation evaluates each call in the expression, in its place. -/
theorem at?_evaluate (h : e.Every Named) (hat : e.at? path = some (call f es ring g)) :
    (e.evaluate c self).at? path = some ((call f es ring g).evaluate c self) := by
  induction path generalizing e with
  | nil =>
    cases hat
    rfl
  | cons i path ih =>
    obtain ⟨f', ops, ring', g', rfl⟩ := exists_call_of_at? hat
    obtain ⟨y, hy, hat⟩ := Option.bind_eq_some_iff.1 hat
    have hmem := List.mem_of_getElem? hy
    obtain ⟨f'', ops', ring'', g'', rfl⟩ := exists_call_of_at? hat
    rw [evaluate_call (h.node.unbound hmem), at?, List.getElem?_map, hy]
    exact ih (h.operand hmem) hat

/-! Values that calls hold -/

/-- What a call holds of its last evaluation. -/
def held? : Expr → Option Value
  | call _ _ ring _ => match ring.current with
    | some (.owned v) => some v
    | _ => none
  | _ => none

/-- A call that holds no value of an evaluation. -/
def Unheld (e : Expr) : Prop := e.held? = none

theorem unheld_of_fresh (h : e.Fresh) : e.Unheld := by
  cases e with
  | constant => rfl
  | reference => rfl
  | call f es ring g =>
    rw [Unheld, held?, h.1]
    rfl

theorem unheld_bind (h : e.Every Unheld) : (bind s e).Every Unheld :=
  every_bind (fun _ _ => rfl) (fun _ _ _ _ _ => rfl) (fun _ _ _ _ h => h)
    (fun _ _ _ _ _ _ _ => rfl) h

theorem unheld_simplify (h : e.Every Unheld) : (e.simplify c).Every Unheld :=
  every_simplify (fun _ _ => rfl) (fun _ _ _ _ _ h => h) h

def noPrevious : Value := .error "Subexpression has no previous result"

/-- An evaluation into the current slot leaves its value in the call. -/
theorem held?_evaluate (hb : boundTo? ring = none) (hs : c.slot = .current) :
    ((call f es ring g).evaluate c self).held? =
      some (((call f es ring g).evaluate c self).value c.scope self c.slot) := by
  rw [evaluate_call hb, hs]
  rfl

/-- The operand is evaluated before its previous value is read, which is what it held before. -/
theorem previousValue_evaluate (hb : boundTo? ring = none) (hs : c.slot = .current) :
    previousValue c self [(call f es ring g).evaluate c self] =
      (call f es ring g).held?.getD noPrevious := by
  rw [evaluate_call hb, hs]
  obtain ⟨current, previous, precalculated⟩ := ring
  cases current with
  | none => rfl
  | some cell =>
    cases cell with
    | owned v => rfl
    | borrowed source => cases hb

theorem value_prevval {ops : List Expr} (hf : f.builtin? = some .prevval)
    (hb : boundTo? ring = none) (hb' : boundTo? ring' = none) (hs : c.slot = .current) :
    ((call f [call f' ops ring' g'] ring g).evaluate c self).value c.scope self c.slot =
      (call f' ops ring' g').held?.getD noPrevious := by
  rw [evaluate_call hb, value, Ring.get_push_self, List.map_singleton]
  change callValue c self f _ = _
  rw [callValue, if_pos hf]
  exact previousValue_evaluate hb' hs

end Expr

namespace Computation
open Reporting.Expr

variable {x : Computation} {c : Context} {path : List Nat}

/-- The values of a part of an expression, one for each evaluation. -/
def valuesAt (path : List Nat) (x : Computation) : List Use → List (Option Value)
  | [] => []
  | .restart :: history => valuesAt path x.restart history
  | .evaluate c :: history =>
    ((x.evaluate c).1.root.at? path).map (·.value c.scope (some (x.before c)) c.slot) ::
      valuesAt path (x.evaluate c).1 history

/-- The expressions that were not evaluated yet: they are compiled, and then bound and optimized in
any order, and none is told to start with an initial value. -/
inductive Unused : Computation → Prop
  | compileText {x : Computation} {c : Compiler} {text : String} :
      c.compileText text = .ok x → Unused x
  | withInitial {x : Computation} (initial : Option Value) : Unused x → Unused { x with initial }
  | resolve {x : Computation} (s : Scope) : Unused x → Unused (x.resolve s).1
  | optimize {x : Computation} (p : Precision) (order : DateOrder) :
      Unused x → Unused (x.optimize p order)

/-- An expression that is computed each time, and in which only counters with known names are
bound. -/
structure Steady (x : Computation) : Prop where
  computed : x.startsWithInitial = false
  named : x.root.Every Named

theorem Unused.steady (h : x.Unused) : x.Steady ∧ x.root.Every Unheld := by
  induction h with
  | @compileText x c text h =>
    unfold Compiler.compileText at h
    split at h
    · cases h
    · obtain ⟨e, he, h⟩ := Compiler.bind_eq_ok h
      cases h
      have hfresh := Compiler.fresh_compile _ he
      exact ⟨⟨rfl, hfresh.imp fun _ => named_of_fresh⟩, hfresh.imp fun _ => unheld_of_fresh⟩
  | withInitial _ _ ih => exact ⟨⟨ih.1.computed, ih.1.named⟩, ih.2⟩
  | resolve s _ ih => exact ⟨⟨ih.1.computed, named_bind ih.1.named⟩, unheld_bind ih.2⟩
  | optimize p order _ ih =>
    exact ⟨⟨ih.1.computed, named_simplify ih.1.named⟩, unheld_simplify ih.2⟩

theorem Steady.root_evaluate (h : x.Steady) (c : Context) :
    (x.evaluate c).1.root = x.root.evaluate c (some (x.before c)) := by
  simp only [evaluate, h.computed, Bool.and_false, Bool.false_eq_true, if_false, before]

theorem Steady.evaluate (h : x.Steady) (c : Context) : (x.evaluate c).1.Steady := by
  constructor
  · unfold Computation.evaluate
    split <;> exact h.computed
  · rw [h.root_evaluate]
    exact named_of_forget (Expr.forget_evaluate c _ x.root).symm h.named

/-- The values of the whole expression are the results of its evaluations. -/
theorem Steady.valuesAt_root (h : x.Steady) (c : Context) :
    x.valuesAt [] [.evaluate c] = [some (x.evaluate c).2] := by
  have hresult : (x.evaluate c).2 =
      (x.evaluate c).1.root.value c.scope (some (x.before c)) c.slot := by
    simp only [Computation.evaluate, h.computed, Bool.and_false, Bool.false_eq_true, if_false, before]
  rw [hresult]
  rfl

/-- An expression that asks at a path for the previous value of a call, which holds a value or none. -/
structure Asks (path : List Nat) (held : Option Value) (x : Computation) : Prop extends Steady x where
  part : ∃ f f' ops ring ring' g g',
    x.root.at? path = some (call f [call f' ops ring' g'] ring g) ∧
      f.builtin? = some .prevval ∧ boundTo? ring' = none ∧ (call f' ops ring' g').held? = held

/-- One evaluation gives what the operand held, and leaves in the operand what it is now. -/
theorem Asks.evaluate {held : Option Value} (h : x.Asks path held) (hs : c.slot = .current) :
    ∃ v, x.valuesAt path [.evaluate c] = [some (held.getD noPrevious)] ∧
      x.valuesAt (path ++ [0]) [.evaluate c] = [some v] ∧ (x.evaluate c).1.Asks path (some v) := by
  obtain ⟨f, f', ops, ring, ring', g, g', hat, hf, hb', hheld⟩ := h.part
  have hb : boundTo? ring = none :=
    (h.named.part hat).node.unbound (List.mem_singleton_self (call f' ops ring' g'))
  have hroot := h.root_evaluate c
  have hafter : (x.root.evaluate c (some (x.before c))).at? path =
      some ((call f [call f' ops ring' g'] ring g).evaluate c (some (x.before c))) :=
    at?_evaluate h.named hat
  have hoperand : ((x.evaluate c).1.root.at? (path ++ [0])) =
      some ((call f' ops ring' g').evaluate c (some (x.before c))) := by
    rw [at?_concat, hroot, hafter, evaluate_call hb]
    rfl
  refine ⟨((call f' ops ring' g').evaluate c (some (x.before c))).value c.scope
    (some (x.before c)) c.slot, ?_, ?_, h.toSteady.evaluate c, ?_⟩
  · rw [valuesAt, hroot, hafter, Option.map_some, value_prevval hf hb hb' hs, hheld]
    rfl
  · rw [valuesAt, hoperand]
    rfl
  · have hheld' : ((call f' ops ring' g').evaluate c (some (x.before c))).held? =
        some (((call f' ops ring' g').evaluate c (some (x.before c))).value c.scope
          (some (x.before c)) c.slot) := held?_evaluate hb' hs
    rw [hroot, hafter, evaluate_call hb, List.map_singleton]
    rw [evaluate_call hb'] at hheld' ⊢
    exact ⟨f, f', _, _, _, g, g', rfl, hf, boundTo?_push hb' _ _, hheld'⟩

theorem Asks.restart {held : Option Value} (h : x.Asks path held) : x.restart.Asks path held :=
  ⟨⟨h.computed, h.named⟩, h.part⟩

/-- The previous values of a call are its values behind the one that it held. -/
theorem Asks.valuesAt {held : Option Value} (h : x.Asks path held) (history : List Use)
    (hslot : ∀ c, .evaluate c ∈ history → c.slot = .current) :
    x.valuesAt path history =
      (some (held.getD noPrevious) :: x.valuesAt (path ++ [0]) history).dropLast := by
  induction history generalizing x held with
  | nil => rfl
  | cons u history ih =>
    have hslot' : ∀ c, .evaluate c ∈ history → c.slot = .current :=
      fun c hc => hslot c (List.mem_cons_of_mem _ hc)
    cases u with
    | restart => exact ih h.restart hslot'
    | evaluate c =>
      obtain ⟨v, hvalue, hoperand, hnext⟩ := h.evaluate (hslot c List.mem_cons_self)
      rw [Computation.valuesAt, Computation.valuesAt, List.dropLast_cons_cons,
        (List.cons.inj hvalue).1, (List.cons.inj hoperand).1, ih hnext hslot']
      rfl

/-- The previous value of a call is one evaluation behind: at the first evaluation there is none, and
at each later one it is the value that the call had at the evaluation before, whatever the call asks
for itself and however often the iteration of the expression starts over. -/
theorem valuesAt_prevval (hx : x.Unused) {f f' : Function} {ops : List Expr}
    {ring ring' : Ring (Option Cell)} {g g' : Bool}
    (hat : x.root.at? path = some (call f [call f' ops ring' g'] ring g))
    (hf : f.builtin? = some .prevval) (hb : boundTo? ring' = none) (history : List Use)
    (hslot : ∀ c, .evaluate c ∈ history → c.slot = .current) :
    x.valuesAt path history =
      (some (.error "Subexpression has no previous result") ::
        x.valuesAt (path ++ [0]) history).dropLast := by
  obtain ⟨hsteady, hunheld⟩ := hx.steady
  have hheld : (call f' ops ring' g').held? = none :=
    ((hunheld.part hat).operand List.mem_cons_self).node
  exact Asks.valuesAt ⟨hsteady, f, f', ops, ring, ring', g, g', hat, hf, hb, hheld⟩ history hslot

def previously (e : Expr) : Expr := .ofCall (.builtin ⟨"prevval", .prevval, .exact 1, .volatile⟩) [e.group]

/-- The value of `-k` two evaluations before. -/
def twiceBefore : Computation where
  root := previously (previously (.ofCall (.builtin ⟨"uminus", .uminus, .exact 1, .plain⟩)
    [.reference (.column (.plain "k")) none false]))
  source := "prevval(prevval(-k))"

set_option maxRecDepth 8000 in
theorem compileText_twiceBefore :
    (sampleCompiler countedSettings.precision).compileText "prevval(prevval(-k))" =
      .ok twiceBefore := by
  have hparse : Formula.parse "prevval(prevval(-k))" = .ok (.call "prevval"
      [.call "prevval" [.unary .negate (.column (.plain "k"))]]) := by cbv
  rw [Compiler.compileText, hparse]
  rfl

set_option maxRecDepth 20000 in
/-- Four rows, with an iteration that starts over after two of them. -/
theorem valuesAt_prevval_of_rows :
    let x := (twiceBefore.resolve (countedScope ⟨0⟩ 1)).1
    let row (k : Int) : Use := .evaluate (countedSettings.context (countedScope ⟨0⟩ k) .current)
    let history := [row 1, row 2, .restart, row 3, row 4]
    x.valuesAt [] history =
        [some noPrevious, some noPrevious, some (.ofInt (-1)), some (.ofInt (-2))] ∧
      x.valuesAt [0, 0] history =
        [some (.ofInt (-1)), some (.ofInt (-2)), some (.ofInt (-3)), some (.ofInt (-4))] := by
  intro x row history
  have hx : x.Unused := .resolve _ (.compileText compileText_twiceBefore)
  have hslot : ∀ c, .evaluate c ∈ history → c.slot = .current := by
    intro c hc
    simp only [history, row, List.mem_cons, Use.evaluate.injEq, reduceCtorEq, false_or,
      List.not_mem_nil, or_false] at hc
    rcases hc with rfl | rfl | rfl | rfl <;> rfl
  have hvalues : x.valuesAt [0, 0] history =
      [some (.ofInt (-1)), some (.ofInt (-2)), some (.ofInt (-3)), some (.ofInt (-4))] := by
    decide +kernel
  have hinner : x.valuesAt [0] history = (some noPrevious :: x.valuesAt [0, 0] history).dropLast :=
    valuesAt_prevval hx rfl rfl rfl history hslot
  have houter : x.valuesAt [] history = (some noPrevious :: x.valuesAt [0] history).dropLast :=
    valuesAt_prevval hx rfl rfl rfl history hslot
  rw [houter, hinner, hvalues]
  exact ⟨rfl, rfl⟩

end Computation
end Reporting
