import Reporting.Proofs.Expr.History
/-!
Expressions that read their own previous result. A call keeps its result in its own ring, and there
the next evaluation into the same slot finds it. So the results of a run of evaluations are the
iterates of what the tree is worth, from the initial value on.
-/
namespace Reporting.Computation
open Reporting.Expr

variable {x y : Computation} {c : Context} {cs : List Context} {slot : Slot} {v : Value}
  {f : Context → Value → Value}

/-- The root is a call that keeps its own results, and whatever counters are bound are bound in all slots. -/
structure KeepsResult (x : Computation) : Prop where
  root : ∃ f es ring g, x.root = .call f es ring g ∧ boundTo? ring = none
  whole : x.root.Every BoundWhole

/-- The results of evaluating an expression in one context after the other. -/
def results (x : Computation) : List Context → List Value
  | [] => []
  | c :: cs => (x.evaluate c).2 :: results (x.evaluate c).1 cs

/-- What a function gives when it is applied again and again to what it gave before. -/
def iterates (f : Context → Value → Value) (before : Value) : List Context → List Value
  | [] => []
  | c :: cs => f c before :: iterates f (f c before) cs

theorem iterates_of_forget (hroot : y.root.forget = x.root.forget) (v : Value) (cs : List Context) :
    iterates (fun c s => y.root.meaning c (some s)) v cs =
      iterates (fun c s => x.root.meaning c (some s)) v cs := by
  have hmeaning (c : Context) (s : Value) : y.root.meaning c (some s) = x.root.meaning c (some s) :=
    meaning_eq_of_forget hroot
  simp only [hmeaning]

theorem KeepsResult.of_forget (h : x.KeepsResult) (hroot : y.root.forget = x.root.forget) :
    y.KeepsResult := by
  refine ⟨?_, boundWhole_of_forget hroot.symm h.whole⟩
  obtain ⟨f, es, ring, g, hx, hb⟩ := h.root
  rw [hx, forget_call] at hroot
  cases hy : y.root with
  | constant => rw [hy] at hroot; cases hroot
  | reference => rw [hy] at hroot; cases hroot
  | call f' es' ring' g' =>
    rw [hy, forget_call] at hroot
    injection hroot with _ _ hring _
    exact ⟨f', es', ring', g', rfl, by rw [← boundTo?_forgetRing, hring, boundTo?_forgetRing, hb]⟩

/-- An evaluation of a call changes nothing but the values that calls hold, and its result is kept. -/
theorem KeepsResult.evaluate (h : x.KeepsResult) (c : Context) :
    (x.evaluate c).1.root.forget = x.root.forget ∧
      ∀ s self, (x.evaluate c).1.root.value s self c.slot = (x.evaluate c).2 := by
  obtain ⟨f, es, ring, g, hx, hb⟩ := h.root
  unfold Computation.evaluate
  split
  · simp only [hx, store, forget_call, forgetRing_of_unbound hb, forgetRing_of_unbound (boundTo?_push hb _ _),
      value, Ring.get_push_self, true_and, implies_true]
  · refine ⟨Expr.forget_evaluate _ _ _, fun s self => ?_⟩
    simp only [hx, evaluate_call hb, value, Ring.get_push_self]

theorem noPrevval_of_forget (hroot : y.root.forget = x.root.forget)
    (h : x.root.Every (Calls fun f => f.builtin? ≠ some .prevval)) :
    y.root.Every (Calls fun f => f.builtin? ≠ some .prevval) :=
  every_of_forget (fun _ _ _ _ => Iff.rfl) hroot.symm h

/-- After an evaluation, each further result is made of the one before it. -/
theorem results_of_evaluated (hx : x.KeepsResult)
    (hf : x.root.Every (Calls fun f => f.builtin? ≠ some .prevval)) (he : x.evaluated = true)
    (hslot : ∀ c ∈ cs, c.slot = slot) (hv : ∀ s self, x.root.value s self slot = v) :
    x.results cs = iterates (fun c s => x.root.meaning c (some s)) v cs := by
  induction cs generalizing x v with
  | nil => rfl
  | cons c cs ih =>
    obtain ⟨hc, hcs⟩ := List.forall_mem_cons.1 hslot
    obtain ⟨hroot, hkept⟩ := hx.evaluate c
    have hbefore : x.before c = v := by
      rw [before, if_pos he, hc]
      exact hv _ _
    have hvalue : (x.evaluate c).2 = x.root.meaning c (some v) := by
      rw [value_computed (by rw [he]; rfl) hf hx.whole, hbefore]
    have hrest := ih (hx.of_forget hroot) (noPrevval_of_forget hroot hf) (x.evaluated_evaluate c) hcs
      (fun s self => hc ▸ hkept s self)
    rw [results, iterates, hrest, iterates_of_forget hroot, hvalue]

/-- The results of a run that starts over, by what the tree is worth: the first is the initial value if the
expression starts with it, or else made of it, and each further result is made of the one before it. -/
def course (x : Computation) : List Context → List Value
  | [] => []
  | c :: cs =>
    let first := if x.startsWithInitial then x.initialValue else x.root.meaning c (some x.initialValue)
    first :: iterates (fun c s => x.root.meaning c (some s)) first cs

theorem course_of_forget (hroot : y.root.forget = x.root.forget) (hinitial : y.initial = x.initial)
    (hstarts : y.startsWithInitial = x.startsWithInitial) (cs : List Context) :
    y.course cs = x.course cs := by
  cases cs with
  | nil => rfl
  | cons c cs =>
    simp only [course, initialValue, hinitial, hstarts, meaning_eq_of_forget hroot]

theorem results_of_restarted (hx : x.KeepsResult)
    (hf : x.root.Every (Calls fun f => f.builtin? ≠ some .prevval)) (he : x.evaluated = false)
    (hslot : ∀ c ∈ cs, c.slot = slot) : x.results cs = x.course cs := by
  cases cs with
  | nil => rfl
  | cons c cs =>
    obtain ⟨hc, hcs⟩ := List.forall_mem_cons.1 hslot
    obtain ⟨hroot, hkept⟩ := hx.evaluate c
    have hfirst : (x.evaluate c).2 =
        if x.startsWithInitial then x.initialValue else x.root.meaning c (some x.initialValue) := by
      split
      · rename_i hs
        simp only [Computation.evaluate, he, hs, Bool.not_false, Bool.and_self, if_true]
      · rename_i hs
        have hbefore : x.before c = x.initialValue := by
          simp only [before, he, Bool.false_eq_true, if_false]
        rw [value_computed (by rw [Bool.eq_false_iff.2 hs, Bool.and_false]) hf hx.whole, hbefore]
    have hrest := results_of_evaluated (hx.of_forget hroot) (noPrevval_of_forget hroot hf)
      (x.evaluated_evaluate c) hcs (fun s self => hc ▸ hkept s self)
    rw [results, course, hrest, iterates_of_forget hroot, hfirst]

/-! Which expressions keep their results -/

theorem forget_unbind (e : Expr) : e.unbind.forget = e.forget.unbind := by
  cases e with
  | constant => rfl
  | reference => rfl
  | call f es ring g =>
    rw [unbind, forget_call, forget_call, unbind]
    rfl

theorem unbind_store (s : Slot) (v : Value) (e : Expr) : (store s v e).unbind = e.unbind := by
  cases e <;> rfl

theorem unbind_simplify (c : Context) (e : Expr) : (e.simplify c).unbind = e.unbind.simplify c := by
  cases e with
  | constant => rfl
  | reference => rfl
  | call f es ring g =>
    rw [unbind, simplify_call, simplify_call]
    unfold simplifyCall
    dsimp only
    split <;> rfl

theorem boundWhole_unbind {e : Expr} (h : e.Every BoundWhole) : e.unbind.Every BoundWhole := by
  cases e with
  | constant => trivial
  | reference => trivial
  | call f es ring g => exact every_call.2 ⟨nofun, fun e he => h.operand he⟩

theorem boundWhole_unbind_bind (s : Scope) {e : Expr} (h : e.unbind.Every BoundWhole) :
    (bind s e).unbind.Every BoundWhole := by
  cases e with
  | constant => trivial
  | reference => trivial
  | call f es ring g =>
    have hops : ∀ e ∈ es.map (bind s), e.Every BoundWhole :=
      List.forall_mem_map.2 fun e he => boundWhole_bind (h.operand he)
    rcases bind_call_cases s f es ring g with ⟨-, v, heq⟩ | ⟨-, -, -, src, -, heq⟩ | heq
    · rw [heq]
      trivial
    · rw [heq]
      exact every_call.2 ⟨nofun, hops⟩
    · rw [heq]
      exact every_call.2 ⟨nofun, hops⟩

/-- Below the root counters are bound in all slots. At the root itself an initial value may have
taken the place of the counter. -/
theorem Reachable.unbind_whole (h : x.Reachable) : x.root.unbind.Every BoundWhole := by
  induction h with
  | compileText h => exact boundWhole_unbind (Computed.compileText h).whole.2
  | withInitial _ _ _ ih => exact ih
  | resolve s _ ih => exact boundWhole_unbind_bind s ih
  | @optimize x p order _ ih =>
    rw [Computation.optimize, Expr.optimize, unbind_simplify]
    exact every_simplify (fun _ _ => trivial) (fun _ _ _ _ _ h => h) ih
  | @evaluate x c _ ih =>
    unfold Computation.evaluate
    split
    · rw [unbind_store]
      exact ih
    · refine boundWhole_of_forget ?_ ih
      rw [forget_unbind, forget_unbind, Expr.forget_evaluate]
  | restart _ ih => exact ih

/-- A call of anything but a row counter keeps its results. -/
theorem Reachable.keepsResult {f : Function} {es : List Expr} {ring : Ring (Option Cell)} {g : Bool}
    (h : x.Reachable) (hroot : x.root = .call f es ring g) (hf : counter? f = none) : x.KeepsResult := by
  have hbinds := h.bindsCounters
  have hwhole := h.unbind_whole
  rw [hroot] at hbinds hwhole
  have hb : boundTo? ring = none := by
    rw [← Option.not_isSome_iff_eq_none]
    intro hbound
    have hcounter := hbinds.node.2 hbound
    rw [hf] at hcounter
    cases hcounter
  refine ⟨⟨f, es, ring, g, hroot, hb⟩, ?_⟩
  rw [hroot]
  refine every_call.2 ⟨fun s hs => ?_, fun e he => hwhole.operand he⟩
  rw [hb] at hs
  cases hs

theorem KeepsResult.after (h : x.KeepsResult) (history : List Use) :
    (x.after history).root.forget = x.root.forget := by
  induction history generalizing x with
  | nil => rfl
  | cons u history ih =>
    cases u with
    | evaluate c =>
      have hroot := (h.evaluate c).1
      exact (ih (h.of_forget hroot)).trans hroot
    | restart => exact ih (x := x.restart) ⟨h.root, h.whole⟩

/-- What an expression gives that reads its own previous result. Its root is a call, of anything but
a row counter, and it does not ask for the evaluation before otherwise. Evaluated in one slot again
and again, with whatever rows, it gives first what the tree is worth with the initial value for
`r.self`, or the initial value itself if it starts with it, and then what the tree is worth with the
result before. When it starts over it does so again, whatever it was evaluated to until then. -/
theorem results_iterate {f : Function} {es : List Expr} {ring : Ring (Option Cell)} {g : Bool}
    (hx : x.Reachable) (hroot : x.root = .call f es ring g) (hcounter : counter? f = none)
    (hf : x.root.Every (Calls fun f => f.builtin? ≠ some .prevval)) (hslot : ∀ c ∈ cs, c.slot = slot) :
    (x.evaluated = false → x.results cs = x.course cs) ∧
      ∀ history, (x.after history).restart.results cs = x.course cs := by
  have hkeeps := hx.keepsResult hroot hcounter
  refine ⟨fun he => results_of_restarted hkeeps hf he hslot, fun history => ?_⟩
  have hafter := hkeeps.after history
  have hforget := x.forget_after history
  have hinitial : (x.after history).forget.initial = x.forget.initial := by rw [hforget]
  have hstarts : (x.after history).forget.startsWithInitial = x.forget.startsWithInitial := by rw [hforget]
  rw [← course_of_forget hafter hinitial hstarts]
  exact results_of_restarted (x := (x.after history).restart) (hkeeps.of_forget hafter)
    (noPrevval_of_forget hafter hf) rfl hslot

/-- A number that grows by a column. -/
def growing : Computation where
  root := .ofCall (.builtin ⟨"add", .add, .variadic, .commAssoc⟩)
    [.reference (.named .row "self") none false, .reference (.column (.plain "k")) none false]
  source := "r.self + k"

set_option maxRecDepth 20000 in
theorem compileText_growing :
    (sampleCompiler countedSettings.precision).compileText "r.self + k" = .ok growing := by
  have hparse : Formula.parse "r.self + k" =
      .ok (.binary .add (.named .row "self") (.column (.plain "k"))) := by cbv
  rw [Compiler.compileText, hparse]
  rfl

/-- Rows in which the column is 2, 4 and 1: from 5 on the number is 7, 11 and 12, or, if it starts with the 5
itself, 5, 9 and 10. Before that it was evaluated with other rows and into another slot. -/
theorem results_iterate_of_growing :
    let x := (growing.resolve (countedScope ⟨0⟩ 2)).1
    let row (k : Int) := countedSettings.context (countedScope ⟨0⟩ k) .current
    let history : List Use := [.evaluate (row 8), .restart, .evaluate (row 3), .evaluate (row 3),
      .evaluate (countedSettings.context (countedScope ⟨0⟩ 9) .precalculated)]
    let plain : Computation := { x with initial := some (.ofInt 5), startsWithInitial := false }
    let starting : Computation := { x with initial := some (.ofInt 5), startsWithInitial := true }
    plain.results [row 2, row 4, row 1] = [.ofInt 7, .ofInt 11, .ofInt 12] ∧
      (plain.after history).restart.results [row 2, row 4, row 1] = [.ofInt 7, .ofInt 11, .ofInt 12] ∧
      (starting.after history).restart.results [row 2, row 4, row 1] = [.ofInt 5, .ofInt 9, .ofInt 10] := by
  intro x row history plain starting
  have hreachable (starts : Bool) :
      ({ x with initial := some (.ofInt 5), startsWithInitial := starts } : Computation).Reachable :=
    .withInitial _ _ (.resolve _ (.compileText compileText_growing))
  have hnone : x.root.Every (Calls fun f => f.builtin? ≠ some .prevval) := ⟨nofun, trivial, trivial, trivial⟩
  have hslot : ∀ c ∈ [row 2, row 4, row 1], c.slot = Slot.current := by
    rintro c (_ | ⟨_, _ | ⟨_, _ | ⟨_, ⟨⟩⟩⟩⟩) <;> rfl
  obtain ⟨hplain, hagain⟩ := results_iterate (hreachable false) rfl rfl hnone hslot
  obtain ⟨-, hstarting⟩ := results_iterate (hreachable true) rfl rfl hnone hslot
  refine ⟨(hplain rfl).trans ?_, (hagain history).trans ?_, (hstarting history).trans ?_⟩ <;> decide +kernel

end Reporting.Computation
