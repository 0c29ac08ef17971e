import Reporting.Proofs.Expr.Twin
import Reporting.Proofs.Query.Alike
/-!
Where the conditions of queries do not ask chance, it does not matter for their rows what is drawn.
-/
namespace Reporting

/-- An expression to which it does not matter what is drawn. -/
structure Computation.Drawless (x : Computation) : Prop where
  computed : x.startsWithInitial = false
  calls : x.root.Every (Expr.Calls Function.Drawless)

theorem Computation.Drawless.of_forget {x y : Computation} (h : x.Drawless)
    (he : x.forget = y.forget) : y.Drawless := by
  obtain ⟨hcomputed, hroot⟩ := root_of_forget he.symm h.computed
  exact ⟨hcomputed, Expr.every_of_forget (fun _ _ _ _ => Iff.rfl) hroot.symm h.calls⟩

namespace QueryStore

variable {s s₀ : QueryStore} {settings : Settings} {draw : Decimal} {id : QueryId} {q : Query}
  {step step' : Stepper}

/-- A store whose conditions do not ask chance. -/
def Drawless (s : QueryStore) : Prop :=
  ∀ id q, s.get? id = some q → ∀ m ∈ q.matched, m.condition.Drawless

theorem Drawless.of_still (h : s₀.Drawless) (hs : s.still = s₀.still) : s.Drawless := by
  intro id q hq m hm
  obtain ⟨q₀, hq₀, m₀, hm₀, he⟩ := exists_matched_of_still hs hq hm
  exact (h id q₀ hq₀ m₀ hm₀).of_forget he

theorem Drawless.finalize (h : s.Drawless) : s.finalize.Drawless := by
  intro id q hq
  rw [get?_finalize] at hq
  exact h id q hq

theorem Drawless.start (h : s.Drawless) (hf : Forest s) (id : QueryId) :
    (s.start id).1.Drawless := by
  unfold QueryStore.start
  dsimp only
  split
  · exact h.finalize.of_still (keeps_rewindFamily hf.finalize id).still
  · exact h.finalize

theorem conditionsHold_redraw {ms : List Matched} (h : ∀ m ∈ ms, m.condition.Drawless) (c : Context)
    (draw : Decimal) : conditionsHold (c.redraw draw) ms = conditionsHold c ms := by
  induction ms with
  | nil => rfl
  | cons m ms ih =>
    obtain ⟨hm, hms⟩ := List.forall_mem_cons.1 h
    rw [conditionsHold, conditionsHold, Computation.evaluate_redraw hm.calls, ih hms]

theorem rowsMatch_redraw (h : s.Drawless) (settings : Settings) (draw : Decimal) (id : QueryId) :
    s.rowsMatch (settings.redraw draw) id = s.rowsMatch settings id := by
  unfold rowsMatch
  cases hq : s.get? id with
  | none => rfl
  | some q =>
    have hcontext : (settings.redraw draw).context (s.scope none (some id)) .current =
        (settings.context (s.scope none (some id)) .current).redraw draw := rfl
    dsimp only
    rw [hcontext, conditionsHold_redraw (h id q hq)]

/-- Steppers that do the same as long as the queries stay those of a store. -/
def Stepper.SameOver (s₀ : QueryStore) (step step' : Stepper) : Prop :=
  ∀ s id, s.still = s₀.still → step' s id = step s id

section

variable (hf : Forest s₀) (hd : s₀.Drawless) (hlocal : step.Local)
  (hstep : Stepper.SameOver s₀ step step')
include hf hlocal hstep

theorem turn_redraw (gs : List QueryId) (hs : s.still = s₀.still) :
    turn step' gs s = turn step gs s := by
  induction gs generalizing s with
  | nil => rfl
  | cons g gs ih =>
    have hstill := (hlocal s g (hf.of_still hs)).still.trans hs
    have hrewound :=
      (keeps_rewindFamily (hf.of_still hstill) g).still.trans hstill
    have hfirst := (hlocal _ g (hf.of_still hrewound)).still.trans hrewound
    rw [turn_cons, turn_cons, hstep s g hs, hstep _ g hrewound, ih hfirst]

theorem stepAll_redraw (gs : List QueryId) (hs : s.still = s₀.still) :
    stepAll step' s gs = stepAll step s gs := by
  induction gs generalizing s with
  | nil => rfl
  | cons g gs ih =>
    have hstill := (hlocal s g (hf.of_still hs)).still.trans hs
    rw [stepAll_cons, stepAll_cons, hstep s g hs, ih hstill]

theorem startAll_redraw (gs : List QueryId) (hs : s.still = s₀.still) :
    startAll step' s gs = startAll step s gs := by
  apply stepAll_redraw hf (local_rewound hlocal) ?_ gs hs
  intro s id hs
  exact hstep _ id ((keeps_rewindFamily (hf.of_still hs) id).still.trans hs)

include hd

theorem findMatch_redraw (id : QueryId) (n : Nat) (hs : s.still = s₀.still) :
    findMatch step' (settings.redraw draw) id n s = findMatch step settings id n s := by
  induction n generalizing s with
  | zero => rfl
  | succ n ih =>
    have hmatched : (s.rowsMatch settings id).1.still = s₀.still :=
      (keeps_rowsMatch settings id).still.trans hs
    have hturned := (keeps_turn hlocal (hf.of_still hmatched)
      ((s.rowsMatch settings id).1.matchedIds id)).still.trans hmatched
    rw [findMatch_succ, findMatch_succ, rowsMatch_redraw (hd.of_still hs), nextMatch_eq, nextMatch_eq,
      turn_redraw hf hlocal hstep _ hmatched, ih hturned]

theorem nextMatch_redraw (id : QueryId) (n : Nat) (hs : s.still = s₀.still) :
    nextMatch step' (settings.redraw draw) id n s = nextMatch step settings id n s := by
  have hturned :=
    (keeps_turn hlocal (hf.of_still hs) (s.matchedIds id)).still.trans hs
  rw [nextMatch_eq, nextMatch_eq, turn_redraw hf hlocal hstep _ hs,
    findMatch_redraw hf hd hlocal hstep id n hturned]

theorem combine_redraw (n : Nat) (id : QueryId) (hs : s.still = s₀.still) :
    combine step' (settings.redraw draw) n s id = combine step settings n s id := by
  have hstarted :=
    (keeps_startAll hlocal (hf.of_still hs) (s.matchedIds id)).still.trans hs
  rw [combine_eq step' (settings.redraw draw) n s id rfl, combine_eq step settings n s id rfl,
    startAll_redraw hf hlocal hstep _ hs, findMatch_redraw hf hd hlocal hstep id n hstarted]

theorem nextRow_redraw (n : Nat) (hq : s.get? id = some q) (hs : s.still = s₀.still) :
    nextRow step' (settings.redraw draw) n s id q = nextRow step settings n s id q := by
  have hread : (s.modify id fun _ => (q.advance settings.coercion).1).still = s₀.still := by
    apply Eq.trans ?_ hs
    apply still_modify
    intro q₀ hq₀
    obtain rfl : q₀ = q := Option.some.inj (hq₀.symm.trans hq)
    exact Query.still_advance q₀ settings.coercion
  have hfollow := (keeps_stepAll hlocal (hf.of_still hread)
    (q.advance settings.coercion).1.followers).still.trans hread
  have hcoercion : (settings.redraw draw).coercion = settings.coercion := rfl
  rw [nextRow_eq, nextRow_eq, hcoercion]
  dsimp only
  rw [stepAll_redraw hf hlocal hstep _ hread, combine_redraw hf hd hlocal hstep n id hfollow]

end

theorem stepWithin_some (settings : Settings) (k : Nat) (hq : s.get? id = some q) :
    stepWithin settings (k + 1) s id =
      if q.combining then
        let o := nextMatch (stepWithin settings k) settings id (s.combinationBound k id) s
        let t := o.1.modify id fun q => { q with combining := false }
        if o.2 then (o.1, true)
        else (t.get? id).elim (t, false)
          (nextRow (stepWithin settings k) settings (s.combinationBound k id) t id)
      else nextRow (stepWithin settings k) settings (s.combinationBound k id) s id q := by
  rw [stepWithin]
  dsimp only
  rw [hq]
  dsimp only
  generalize nextMatch (stepWithin settings k) settings id (s.combinationBound k id) s = o
  obtain ⟨t, found⟩ := o
  split
  · cases found with
    | true => rfl
    | false =>
      dsimp only
      rw [if_neg Bool.false_ne_true]
      cases (t.modify id fun q => { q with combining := false }).get? id <;> rfl
  · rfl

/-- Moving a query does not depend on what is drawn. -/
theorem stepWithin_redraw (hf : Forest s₀) (hd : s₀.Drawless) (settings : Settings) (draw : Decimal)
    (k : Nat) :
    Stepper.SameOver s₀ (stepWithin settings k) (stepWithin (settings.redraw draw) k) := by
  induction k with
  | zero => exact fun _ _ _ => rfl
  | succ k ih =>
    intro s id hs
    have hlocal := stepWithin_local settings k
    cases hq : s.get? id with
    | none => rw [stepWithin, stepWithin, hq]
    | some q =>
      have hmatched := (keeps_nextMatch hlocal (hf.of_still hs) settings id
        (s.combinationBound k id)).still.trans hs
      have hdone (t : QueryStore) (ht : t.still = s₀.still) :
          (t.modify id fun q => { q with combining := false }).still = s₀.still :=
        (still_modify fun q _ => Query.still_combining q false).trans ht
      have hrest (n : Nat) (t : QueryStore) (ht : t.still = s₀.still) :
          (t.get? id).elim (t, false)
              (nextRow (stepWithin (settings.redraw draw) k) (settings.redraw draw) n t id) =
            (t.get? id).elim (t, false) (nextRow (stepWithin settings k) settings n t id) := by
        cases hq₁ : t.get? id with
        | none => rw [Option.elim_none, Option.elim_none]
        | some q₁ =>
          rw [Option.elim_some, Option.elim_some, nextRow_redraw hf hd hlocal ih _ hq₁ ht]
      rw [stepWithin_some _ k hq, stepWithin_some _ k hq]
      dsimp only
      rw [nextMatch_redraw hf hd hlocal ih id _ hs, nextRow_redraw hf hd hlocal ih _ hq hs,
        hrest _ _ (hdone _ hmatched)]

/-- The rows of a query do not depend on what is drawn. -/
theorem next_redraw (hf : Forest s) (hd : s.Drawless) (settings : Settings) (draw : Decimal)
    (id : QueryId) : s.next (settings.redraw draw) id = s.next settings id := by
  cases hq : s.get? id with
  | none =>
    have hunknown (settings : Settings) : s.next settings id = .error (.unknownQueryId id) := by
      simp only [next, require, hq]
      rfl
    rw [hunknown, hunknown]
  | some q => rw [next_eq _ hq, next_eq _ hq, stepWithin_redraw hf hd settings draw _ s id rfl]

end QueryStore
end Reporting
