import Reporting.Proofs.Expr.Reading
import Reporting.Settings
/-!
Two evaluations of one expression, row by row: as long as its sources agree, so do its values, even
where it reads its own previous value.
-/
namespace Reporting

/-- Scopes that give the same values to the sources in `P`, and find the same counters. -/
structure Scope.Agree (P : Source → Prop) (s s' : Scope) : Prop where
  lookup : ∀ source, P source → ∀ slot, s.lookup? source slot = s'.lookup? source slot
  rowNumber : s.rowNumber? = s'.rowNumber?
  breakRowNumber : s.breakRowNumber? = s'.breakRowNumber?
  ofRowNumber : ∀ name source, s.rowNumber? name = some source → P source
  ofBreakRowNumber : ∀ name source, s.breakRowNumber? name = some source → P source

variable {P : Source → Prop} {s s' : Scope} {self self' : Option Value} {settings : Settings}

theorem Scope.Agree.context (h : s.Agree P s') (settings : Settings) (slot : Slot) :
    Context.Agree P True (settings.context s slot) (settings.context s' slot) where
  precision := rfl
  dateOrder := rfl
  clock := rfl
  lookup source hs := h.lookup source hs slot
  rowNumber _ := h.rowNumber
  breakRowNumber _ := h.breakRowNumber
  ofRowNumber _ := h.ofRowNumber
  ofBreakRowNumber _ := h.ofBreakRowNumber

namespace Expr

variable {c : Context} {e e' : Expr} {es : List Expr} {f : Function} {ring : Ring (Option Cell)}
  {g : Bool} {slot : Slot}

/-- What the root of an expression holds in a slot. -/
def cell (slot : Slot) : Expr → Option Cell
  | call _ _ ring _ => ring.get slot
  | _ => none

theorem readSource_agree (h : s.Agree P s') (hself : P .self → self = self') {source : Source}
    (hs : P source) : readSource s self slot source = readSource s' self' slot source := by
  cases source with
  | self => rw [readSource, readSource, hself hs]
  | _ => exact h.lookup _ hs slot

/-- Roots that hold the same have the same value. -/
theorem value_congr (h : s.Agree P s') (hself : P .self → self = self')
    (hf : e.forget = e'.forget) (hcell : e.cell slot = e'.cell slot) (hr : e.ReadsOnly P)
    (hborrowed : ∀ source, e.cell slot = some (.borrowed source) → P source) :
    e.value s self slot = e'.value s' self' slot := by
  cases e with
  | constant v g =>
    cases e' <;> cases hf
    rfl
  | reference r t g =>
    cases e' <;> cases hf
    cases t with
    | none => rfl
    | some source => simp only [value, readSource_agree h hself (hr source rfl)]
  | call f es ring g =>
    cases e' with
    | constant => cases hf
    | reference => cases hf
    | call f' es' ring' g' =>
      have hring : ring.get slot = ring'.get slot := hcell
      simp only [value, ← hring]
      split
      · rfl
      · rename_i source hsource
        rw [readSource_agree h hself (hborrowed source hsource)]
      · rfl

/-- A call that is not bound to a counter is computed when it is evaluated. -/
def isComputed : Expr → Bool
  | call _ _ ring _ => (boundTo? ring).isNone
  | _ => false

theorem isComputed_forget (e : Expr) : e.forget.isComputed = e.isComputed := by
  cases e with
  | constant => rfl
  | reference => rfl
  | call f es ring g => rw [forget_call, isComputed, isComputed, boundTo?_forgetRing]

theorem evaluate_of_not_computed (h : e.isComputed = false) : e.evaluate c self = e := by
  cases e with
  | constant => rfl
  | reference => rfl
  | call f es ring g =>
    obtain ⟨source, hb⟩ := Option.isSome_iff_exists.1 (Option.isNone_eq_false_iff.1 h)
    exact evaluate_bound hb

theorem cell_of_not_computed (hf : e.forget = e'.forget) (hw : e.BoundWhole) (hw' : e'.BoundWhole)
    (h : e.isComputed = false) (slot : Slot) : e.cell slot = e'.cell slot := by
  cases e with
  | constant =>
    cases e' <;> cases hf
    rfl
  | reference =>
    cases e' <;> cases hf
    rfl
  | call f es ring g =>
    cases e' with
    | constant => cases hf
    | reference => cases hf
    | call f' es' ring' g' =>
      obtain ⟨source, hb⟩ := Option.isSome_iff_exists.1 (Option.isNone_eq_false_iff.1 h)
      have hrings : forgetRing ring = forgetRing ring' := by
        simp only [forget_call, call.injEq] at hf
        exact hf.2.2.1
      have hb' : boundTo? ring' = some source := by
        rw [← boundTo?_forgetRing, ← hrings, boundTo?_forgetRing, hb]
      rw [cell, cell, hw source hb, hw' source hb']

/-- A call that is computed puts its value before the one that it held. -/
theorem cell_evaluate (self : Option Value) (hc : c.slot = .current) (h : e.isComputed = true) :
    (e.evaluate c self).cell .current =
        some (.owned ((e.evaluate c self).value c.scope self c.slot)) ∧
      (e.evaluate c self).cell .previous = e.cell .current := by
  cases e with
  | constant => cases h
  | reference => cases h
  | call f es ring g =>
    rw [evaluate_call (Option.isNone_iff_eq_none.1 h), hc]
    exact ⟨rfl, rfl⟩

/-- The source of a call is only held where the call is bound to it. -/
theorem reads_of_cell (hr : e.ReadsOnly P) {source : Source}
    (h : e.cell .current = some (.borrowed source)) : P source := by
  cases e with
  | constant => cases h
  | reference => cases h
  | call f es ring g =>
    have hcur : ring.current = some (.borrowed source) := h
    exact hr source (by rw [boundTo?, hcur])

theorem reads_of_bound (hr : e.ReadsOnly P) (hw : e.BoundWhole) (h : e.isComputed = false)
    {source : Source} (hs : e.cell slot = some (.borrowed source)) : P source := by
  cases e with
  | constant => cases hs
  | reference => cases hs
  | call f es ring g =>
    obtain ⟨source', hb⟩ := Option.isSome_iff_exists.1 (Option.isNone_eq_false_iff.1 h)
    rw [cell, hw source' hb, Ring.get_fill] at hs
    cases hs
    exact hr source hb

end Expr

namespace Computation

variable {x y : Computation} {slot : Slot}

/-- Two states of one expression that were evaluated to the same. -/
structure Alike (P : Source → Prop) (x y : Computation) : Prop where
  reads : x.Reads P True
  forget : x.forget = y.forget
  evaluated : x.evaluated = y.evaluated
  held : x.evaluated = true → x.root.cell .current = y.root.cell .current

theorem evaluate_eq (hx : x.startsWithInitial = false) (c : Context) :
    (x.evaluate c).1.root = x.root.evaluate c (some (x.before c)) ∧
      (x.evaluate c).2 = (x.root.evaluate c (some (x.before c))).value c.scope (some (x.before c))
        c.slot := by
  simp only [evaluate, hx, Bool.and_false, Bool.false_eq_true, if_false, before, and_self]

namespace Alike

theorem symm (h : Alike P x y) : Alike P y x :=
  ⟨h.reads.of_forget h.forget.symm, h.forget.symm, h.evaluated.symm,
    fun he => (h.held (h.evaluated.trans he)).symm⟩

theorem restart (h : Alike P x y) : Alike P x.restart y.restart :=
  ⟨⟨h.reads.computed, h.reads.pure, h.reads.whole, h.reads.reads, h.reads.bound⟩, h.forget, rfl,
    fun he => Bool.noConfusion he⟩

theorem initial (h : Alike P x y) : x.initial = y.initial := by
  change x.forget.initial = y.forget.initial
  rw [h.forget]

theorem root (h : Alike P x y) : x.root.forget = y.root.forget :=
  (root_of_forget h.forget (h.reads.of_forget h.forget.symm).computed).2

/-- The values that were computed last are the same. -/
theorem value_current (h : Alike P x y) (hev : x.evaluated = true) (ha : s.Agree P s')
    (hself : P .self → self = self') :
    x.root.value s self .current = y.root.value s' self' .current := by
  exact Expr.value_congr ha hself h.root (h.held hev) h.reads.reads.node fun _ hs =>
    Expr.reads_of_cell h.reads.reads.node hs

theorem before (h : Alike P x y) (ha : s.Agree P s') :
    x.before (settings.context s .current) = y.before (settings.context s' .current) := by
  have hinit : x.initialValue = y.initialValue := by rw [initialValue, h.initial, initialValue]
  unfold Computation.before
  rw [← h.evaluated, ← hinit]
  split
  · rename_i hev
    exact h.value_current hev ha fun _ => rfl
  · rfl

theorem value_evaluate (h : Alike P x y) (ha : s.Agree P s') (settings : Settings) :
    (x.evaluate (settings.context s .current)).2 = (y.evaluate (settings.context s' .current)).2 :=
  (h.reads.of_forget h.forget.symm).value_congr h.forget (ha.context settings .current)
    fun _ => h.before ha

/-- An expression is evaluated to the same in scopes that agree on its sources. -/
theorem evaluate (h : Alike P x y) (ha : s.Agree P s') (settings : Settings) :
    Alike P (x.evaluate (settings.context s .current)).1
      (y.evaluate (settings.context s' .current)).1 := by
  have hv := h.value_evaluate ha settings
  have hy := h.reads.of_forget h.forget.symm
  have hx' := forget_evaluate x (settings.context s .current)
  have hy' := forget_evaluate y (settings.context s' .current)
  refine ⟨h.reads.of_forget hx', ?_, ?_, ?_⟩
  · rw [hx', hy', h.forget]
  · rw [evaluated_evaluate, evaluated_evaluate]
  · intro _
    obtain ⟨hroot, hvalue⟩ := evaluate_eq h.reads.computed (settings.context s .current)
    obtain ⟨hroot', hvalue'⟩ := evaluate_eq hy.computed (settings.context s' .current)
    have hsame : x.root.isComputed = y.root.isComputed := by
      rw [← Expr.isComputed_forget, h.root, Expr.isComputed_forget]
    rw [hroot, hroot']
    cases hcomputed : x.root.isComputed with
    | true =>
      rw [(Expr.cell_evaluate _ rfl hcomputed).1, (Expr.cell_evaluate _ rfl (hsame ▸ hcomputed)).1,
        ← hvalue, ← hvalue', hv]
    | false =>
      rw [Expr.evaluate_of_not_computed hcomputed,
        Expr.evaluate_of_not_computed (hsame ▸ hcomputed)]
      exact Expr.cell_of_not_computed h.root h.reads.whole.node hy.whole.node hcomputed .current

/-- After an evaluation the values of this row and of the row before are the same. -/
theorem result (h : Alike P x y) (hev : x.evaluated = true) (ha : s.Agree P s')
    (settings : Settings) :
    (x.evaluate (settings.context s .current)).1.result s .current =
        (y.evaluate (settings.context s' .current)).1.result s' .current ∧
      (x.evaluate (settings.context s .current)).1.result s .previous =
        (y.evaluate (settings.context s' .current)).1.result s' .previous := by
  have h' := h.evaluate ha settings
  have hy := h.reads.of_forget h.forget.symm
  have hy' := h'.reads.of_forget h'.forget.symm
  have hinit := h'.initial
  refine ⟨h'.value_current (evaluated_evaluate _ _) ha fun _ => hinit, ?_⟩
  obtain ⟨hroot, -⟩ := evaluate_eq h.reads.computed (settings.context s .current)
  obtain ⟨hroot', -⟩ := evaluate_eq hy.computed (settings.context s' .current)
  have hsame : x.root.isComputed = y.root.isComputed := by
    rw [← Expr.isComputed_forget, h.root, Expr.isComputed_forget]
  cases hcomputed : x.root.isComputed with
  | true =>
    have hprev := (Expr.cell_evaluate (some (x.before (settings.context s .current)))
      (rfl : (settings.context s .current).slot = .current) hcomputed).2
    have hprev' := (Expr.cell_evaluate (some (y.before (settings.context s' .current)))
      (rfl : (settings.context s' .current).slot = .current) (hsame ▸ hcomputed)).2
    rw [← hroot] at hprev
    rw [← hroot'] at hprev'
    refine Expr.value_congr ha (fun _ => hinit) h'.root ?_ h'.reads.reads.node ?_
    · rw [hprev, hprev', h.held hev]
    · intro source hsource
      rw [hprev] at hsource
      exact Expr.reads_of_cell h.reads.reads.node hsource
  | false =>
    rw [Expr.evaluate_of_not_computed hcomputed] at hroot
    refine Expr.value_congr ha (fun _ => hinit) h'.root ?_ h'.reads.reads.node ?_
    · exact Expr.cell_of_not_computed h'.root h'.reads.whole.node hy'.whole.node (hroot ▸ hcomputed)
        .previous
    · intro source hsource
      exact Expr.reads_of_bound h'.reads.reads.node h'.reads.whole.node (hroot ▸ hcomputed) hsource

end Alike
end Computation
end Reporting
