import Reporting.Function.Apply
import Reporting.Proofs.Temporal.Sound
/-!
The dates and times that come from read ones by moving them, and the functions that move them. A function
that stops early gives an error or a null, and neither is a date.
-/
namespace Reporting
open Operands

namespace Temporal

/-- A move from `t` to `r` that leaves no carry on another day. -/
def Settles (t r : Temporal) : Prop := t.carry = 0 ∨ r.asDate = t.asDate

/-- The dates and times that come from read ones by adding numbers and intervals and by replacing their
parts. In `steady` ones, a number is only added where no carry is pending, or where it leaves the day. -/
inductive Reached (steady : Prop) : Temporal → Prop
  | read {s : String} {order : DateOrder} {t : Temporal} (h : parse? s order = some t)
    (hmoment : t.interval = false) : Reached steady t
  | number {t r : Temporal} {n : Int} (ht : Reached steady t) (h : t.addNumber n = some r)
    (hsteady : steady → t.Settles r) : Reached steady r
  | interval {t i r : Temporal} (ht : Reached steady t) (hi : i.interval = true)
    (h : t.addInterval i = some r) : Reached steady r
  | dateOnly {t : Temporal} (ht : Reached steady t) : Reached steady t.dateOnly
  | withDateOf {t d : Temporal} (ht : Reached steady t) (hd : Reached steady d) :
    Reached steady (Dates.withDateOf t d)
  | withTimeOf {t d : Temporal} (ht : Reached steady t) (hd : Reached steady d) :
    Reached steady (Dates.withTimeOf t d)
  | withSeconds {t : Temporal} {n : Int} (ht : Reached steady t) (hlow : 0 ≤ n) (hhigh : n < 86400) :
    Reached steady (t.withSeconds n)

/-! Intervals stay intervals -/

theorem interval_carryTime {t r : Temporal} (h : t.carryTime = some r) : r.interval = t.interval := by
  obtain ⟨day, hour, minute, second, rfl⟩ := carryTime_of_some h
  rfl

theorem interval_normalize {t r : Temporal} (ht : t.interval = true) (h : t.normalize = some r) :
    r.interval = true := by
  obtain ⟨year, month, rfl⟩ := normalize_of_interval ht h
  exact ht

theorem interval_addNumber {t r : Temporal} {n : Int} (ht : t.interval = true) (h : t.addNumber n = some r) :
    r.interval = true := by
  rw [addNumber, if_pos ht] at h
  obtain ⟨_, -, h⟩ := Option.bind_eq_some_iff.1 h
  obtain ⟨moved, hmoved, h⟩ := Option.bind_eq_some_iff.1 h
  exact interval_normalize ((interval_carryTime hmoved).trans ht) h

theorem interval_addInterval {t i r : Temporal} (ht : t.interval = true) (h : t.addInterval i = some r) :
    r.interval = true := by
  rw [addInterval, if_pos ht] at h
  simp only [addFields, Option.bind_eq_bind, Option.bind_eq_some_iff, Option.pure_def,
    Option.some.injEq] at h
  obtain ⟨_, ⟨_, -, _, -, _, -, _, -, _, -, _, -, rfl⟩, moved, hmoved, whole, hwhole, rfl⟩ := h
  have hinterval := interval_normalize ((interval_carryTime hmoved).trans ht) hwhole
  exact hinterval

theorem interval_negated {t r : Temporal} (h : t.negated = some r) : r.interval = t.interval := by
  simp only [negated, Option.bind_eq_bind, Option.bind_eq_some_iff, Option.pure_def,
    Option.some.injEq] at h
  obtain ⟨_, -, _, -, _, -, _, -, _, -, _, -, rfl⟩ := h
  rfl

/-- An interval, or a date or time that was reached. -/
def Moved (steady : Prop) (t : Temporal) : Prop := t.interval = true ∨ t.Reached steady

namespace Moved

variable {steady : Prop} {t d i r : Temporal} {n : Int}

theorem addNumber (ht : t.Moved steady) (h : t.addNumber n = some r)
    (hsteady : steady → t.interval = false → t.Settles r) : r.Moved steady := by
  cases hinterval : t.interval with
  | true => exact .inl (interval_addNumber hinterval h)
  | false =>
    obtain ht | ht := ht
    · rw [hinterval] at ht
      cases ht
    · exact .inr (.number ht h fun hs => hsteady hs hinterval)

theorem addInterval (ht : t.Moved steady) (hi : i.interval = true) (h : t.addInterval i = some r) :
    r.Moved steady := by
  obtain ht | ht := ht
  · exact .inl (interval_addInterval ht h)
  · exact .inr (.interval ht hi h)

/-- The difference of two dates is an interval. -/
theorem sub (ht : t.Moved steady) (h : t.sub d = some r) : r.Moved steady := by
  rw [Temporal.sub] at h
  split at h
  · rename_i hd
    obtain ⟨i, hi, h⟩ := Option.bind_eq_some_iff.1 h
    exact ht.addInterval ((interval_negated hi).trans hd) h
  · split at h
    · cases h
    · simp only [Option.bind_eq_bind, Option.bind_eq_some_iff] at h
      obtain ⟨_, -, _, -, _, -, _, -, _, -, _, -, moved, hmoved, h⟩ := h
      exact .inl (interval_normalize (interval_carryTime hmoved) h)

theorem reached (ht : t.Moved steady) (hmoment : t.interval = false) : t.Reached steady := by
  obtain ht | ht := ht
  · rw [hmoment] at ht
    cases ht
  · exact ht

end Moved

end Temporal

/-- A value that holds no date or time, or one that was reached. -/
def Value.Moved (steady : Prop) (v : Value) : Prop := ∀ t, v.datetime? = some t → t.Moved steady

/-! Outcomes -/

/-- An outcome with a property, or an early one that holds no date. -/
def Gives {α : Type} (x : Except Value α) (Q : α → Prop) : Prop :=
  (∀ a, x = .ok a → Q a) ∧ ∀ v, x = .error v → v.datetime? = none

namespace Gives

variable {α β : Type} {x : Except Value α} {f : α → Except Value β} {Q : α → Prop} {R : β → Prop} {a : α}

theorem ok (h : Q a) : Gives (.ok a : Except Value α) Q := by
  constructor
  · rintro _ ⟨⟩
    exact h
  · rintro _ ⟨⟩

theorem error {v : Value} (h : v.datetime? = none) : Gives (.error v : Except Value α) Q := by
  constructor
  · rintro _ ⟨⟩
  · rintro _ ⟨⟩
    exact h

theorem bind (hx : Gives x Q) (hf : ∀ a, Q a → Gives (f a) R) : Gives (x >>= f) R := by
  cases x with
  | error v => exact error (hx.2 v rfl)
  | ok a => exact hf a (hx.1 a rfl)

theorem imp {Q' : α → Prop} (hx : Gives x Q) (h : ∀ a, x = .ok a → Q a → Q' a) : Gives x Q' :=
  ⟨fun a ha => h a ha (hx.1 a ha), hx.2⟩

theorem invalid : Gives (Operands.invalid : Except Value α) Q := error rfl

theorem orInvalid (o : Option α) : Gives (Operands.orInvalid o) (o = some ·) := by
  cases o with
  | none => exact invalid
  | some a => exact ok rfl

theorem orOutOfRange (o : Option α) : Gives (Arithmetic.orOutOfRange o) (o = some ·) := by
  cases o with
  | none => exact error rfl
  | some a => exact ok rfl

theorem value {steady : Prop} {o : Outcome} (h : Gives o (Value.Moved steady)) : o.value.Moved steady := by
  cases o with
  | ok v => exact h.1 v rfl
  | error v =>
    intro t ht
    rw [Outcome.value, h.2 v rfl] at ht
    cases ht

theorem surfaceErrors (args : List Value) : Gives (Operands.surfaceErrors args) fun _ => True := by
  unfold Operands.surfaceErrors
  split
  · exact error rfl
  · exact ok trivial

theorem atLeast (args : List Value) (n : Nat) : Gives (Operands.atLeast args n) fun _ => True := by
  unfold Operands.atLeast
  split
  · exact invalid
  · exact ok trivial

theorem requireKind (args : List Value) (k : Kind) : Gives (Operands.requireKind args k) fun _ => True := by
  unfold Operands.requireKind
  split
  · exact ok trivial
  · exact invalid

theorem nullIfAny (args : List Value) (k : Kind) :
    Gives (Operands.nullIfAny args k) fun _ => ∀ v ∈ args, v.isNull = false := by
  unfold Operands.nullIfAny
  split
  · exact error rfl
  · rename_i hnull
    exact ok fun v hv => by simpa using fun h => hnull (List.any_eq_true.2 ⟨v, hv, h⟩)

theorem check (args : List Value) (k r : Kind) :
    Gives (Operands.check args k r) fun _ => ∀ v ∈ args, v.isNull = false :=
  (surfaceErrors args).bind fun _ _ => (requireKind args k).bind fun _ _ => nullIfAny args r

theorem operand (v : Value) : Gives (Dates.operand v) (v.temporal? = some ·) := orInvalid v.temporal?

theorem calendarOperand (v : Value) :
    Gives (Dates.calendarOperand v) fun t => v.temporal? = some t ∧ t.interval = false := by
  apply (operand v).bind
  intro t ht
  cases hinterval : t.interval with
  | true => exact invalid
  | false => exact ok ⟨ht, hinterval⟩

end Gives

namespace Value.Moved

variable {steady : Prop} {v : Value} {t : Temporal}

theorem of_none (h : v.datetime? = none) : v.Moved steady := by
  intro t ht
  rw [h] at ht
  cases ht

theorem number (n : Decimal) : (Value.number n).Moved steady := by
  unfold Value.number
  split
  · exact of_none rfl
  · exact of_none rfl

theorem datetime (h : t.Moved steady) : (Value.datetime t).Moved steady := fun _ ht => Option.some.inj ht ▸ h

theorem of_temporal? (h : v.Moved steady) (hnull : v.isNull = false) (ht : v.temporal? = some t) :
    t.Moved steady :=
  h t (by rw [Value.datetime?, hnull]; exact ht)

end Value.Moved

/-! Sums and differences -/

namespace Arithmetic

variable {steady : Prop} {a b : Term} {step : Term → Term → Except Value Term} {args : List Value}
  {p : Precision}

/-- A running number, or a date or time that was reached. -/
def Term.Moved (steady : Prop) : Term → Prop
  | .number _ => True
  | .datetime t => t.Moved steady

/-- A step in which a number leaves no carry on another day. -/
def Term.Settles : (a b r : Term) → Prop
  | .datetime t, .number _, .datetime r => t.interval = false → t.Settles r
  | .number _, .datetime t, .datetime r => t.interval = false → t.Settles r
  | _, _, _ => True

/-- Operands that are combined in such steps alone. -/
def SettlesFrom (step : Term → Term → Except Value Term) : Term → List Value → Prop
  | _, [] => True
  | a, v :: vs => ∀ b r, Term.ofValue v = .ok b → step a b = .ok r → a.Settles b r ∧ SettlesFrom step r vs

def SettlesFold (step : Term → Term → Except Value Term) (args : List Value) : Prop :=
  ∀ v vs a, args = v :: vs → Term.ofValue v = .ok a → SettlesFrom step a vs

theorem gives_ofValue {v : Value} (hv : v.Moved steady) :
    Gives (Term.ofValue v) fun a => Term.ofValue v = .ok a ∧ a.Moved steady := by
  have hmoved : Gives (Term.ofValue v) (Term.Moved steady) := by
    unfold Term.ofValue
    split
    · exact .ok trivial
    · exact .ok (hv _ ‹_›)
    · exact .invalid
  exact hmoved.imp fun a ha hm => ⟨ha, hm⟩

theorem moved_value (ha : a.Moved steady) : a.value.Moved steady := by
  cases a with
  | number n => exact .number n
  | datetime t => exact .datetime ha

theorem bind_ok {α β : Type} {x : Except Value α} {f : α → Except Value β} {y : α} (hx : x = .ok y) :
    x >>= f = f y := by
  rw [hx]
  rfl

theorem whole_eq {n : Decimal} {k : Int} (h : n.trunc.toInt64? = some k) : whole n = .ok k := by
  rw [whole, h]
  rfl

theorem orOutOfRange_eq {α : Type} {o : Option α} {x : α} (h : o = some x) : orOutOfRange o = .ok x := by
  rw [h]
  rfl

theorem gives_addWhole {t : Temporal} {n : Decimal} (ht : t.Moved steady)
    (hsteady : steady → ∀ r, (do return .datetime (← orOutOfRange (t.addNumber (← whole n)))) =
      (.ok (.datetime r) : Except Value Term) → t.interval = false → t.Settles r) :
    Gives (do return .datetime (← orOutOfRange (t.addNumber (← whole n)))) (Term.Moved steady) := by
  apply (Gives.orInvalid _).bind
  intro k hk
  apply (Gives.orOutOfRange _).bind
  intro r hr
  have hstep : (do return .datetime (← orOutOfRange (t.addNumber (← whole n)))) =
      (.ok (.datetime r) : Except Value Term) := by
    rw [whole_eq hk]
    exact bind_ok (orOutOfRange_eq hr)
  exact .ok (Temporal.Moved.addNumber ht hr fun hs => hsteady hs r hstep)

theorem gives_addTerms (ha : a.Moved steady) (hb : b.Moved steady)
    (hsteady : steady → ∀ r, addTerms p a b = .ok r → a.Settles b r) :
    Gives (addTerms p a b) (Term.Moved steady) := by
  cases a with
  | number m =>
    cases b with
    | number n => exact .ok trivial
    | datetime t => exact gives_addWhole hb fun hs r hstep => hsteady hs _ hstep
  | datetime t =>
    cases b with
    | number n => exact gives_addWhole ha fun hs r hstep => hsteady hs _ hstep
    | datetime d =>
      rw [addTerms]
      cases hinterval : t.interval <;> cases hinterval' : d.interval
      · exact .invalid
      · exact (Gives.orOutOfRange _).bind fun r hr => .ok (Temporal.Moved.addInterval ha hinterval' hr)
      · exact (Gives.orOutOfRange _).bind fun r hr => .ok (Temporal.Moved.addInterval hb hinterval hr)
      · exact (Gives.orOutOfRange _).bind fun r hr => .ok (Temporal.Moved.addInterval ha hinterval' hr)

theorem gives_subTerms (ha : a.Moved steady)
    (hsteady : steady → ∀ r, subTerms p a b = .ok r → a.Settles b r) :
    Gives (subTerms p a b) (Term.Moved steady) := by
  cases a with
  | number m =>
    cases b with
    | number n => exact .ok trivial
    | datetime t => exact .invalid
  | datetime t =>
    cases b with
    | number n =>
      apply (Gives.orInvalid _).bind
      intro k hk
      by_cases hfits : Decimal.fits64 (-k) = true
      · rw [if_pos hfits]
        apply (Gives.orOutOfRange _).bind
        intro r hr
        have hstep : subTerms p (.datetime t) (.number n) = .ok (.datetime r) :=
          (bind_ok (whole_eq hk)).trans ((if_pos hfits).trans (bind_ok (orOutOfRange_eq hr)))
        exact .ok (Temporal.Moved.addNumber ha hr fun hs => hsteady hs _ hstep)
      · rw [if_neg hfits]
        exact .error rfl
    | datetime d =>
      rw [subTerms]
      split
      · exact .invalid
      · exact (Gives.orOutOfRange _).bind fun r hr => .ok (Temporal.Moved.sub ha hr)

/-- Steps that keep running values reached, as long as numbers leave no carry on another day. -/
def KeepsMoved (steady : Prop) (step : Term → Term → Except Value Term) : Prop :=
  ∀ a b, a.Moved steady → b.Moved steady → (steady → ∀ r, step a b = .ok r → a.Settles b r) →
    Gives (step a b) (Term.Moved steady)

theorem gives_foldTerms (hstep : KeepsMoved steady step) (hargs : ∀ v ∈ args, v.Moved steady)
    (hsteady : steady → SettlesFold step args) : Gives (foldTerms step args) (Value.Moved steady) := by
  cases args with
  | nil => exact .invalid
  | cons v vs =>
    have hrun (a : Term) (ha : a.Moved steady) (hvs : ∀ v ∈ vs, v.Moved steady)
        (hs : steady → SettlesFrom step a vs) :
        Gives (vs.foldlM (fun acc v => do step acc (← Term.ofValue v)) a) (Term.Moved steady) := by
      clear hargs hsteady
      induction vs generalizing a with
      | nil => exact .ok ha
      | cons w vs ih =>
        rw [List.foldlM_cons]
        apply Gives.bind (Q := fun r => r.Moved steady ∧ (steady → SettlesFrom step r vs))
        · apply (gives_ofValue (hvs w List.mem_cons_self)).bind
          intro b hb
          apply (hstep a b ha hb.2 fun h r hr => (hs h b r hb.1 hr).1).imp
          exact fun r hr hmoved => ⟨hmoved, fun h => (hs h b r hb.1 hr).2⟩
        · exact fun r hr => ih r hr.1 (fun v hv => hvs v (List.mem_cons_of_mem w hv)) hr.2
    apply (gives_ofValue (hargs v List.mem_cons_self)).bind
    intro a ha
    apply (hrun a ha.2 (fun w hw => hargs w (List.mem_cons_of_mem v hw))
      fun hs => hsteady hs v vs a rfl ha.1).bind
    intro r hr
    exact .ok (moved_value hr)

theorem gives_foldNumbers (f : Decimal → Decimal → Decimal) (args : List Value) :
    Gives (foldNumbers f args) (Value.Moved steady) := by
  apply (Gives.check args .number .number).bind
  intro _ _
  split
  · exact .ok (.number _)
  · exact .invalid

theorem gives_foldMixed (hstep : KeepsMoved steady step) (hargs : ∀ v ∈ args, v.Moved steady)
    (hsteady : steady → SettlesFold step args) : Gives (foldMixed step args) (Value.Moved steady) := by
  unfold foldMixed
  split
  · exact .invalid
  · exact (Gives.nullIfAny args .datetime).bind fun _ _ => gives_foldTerms hstep hargs hsteady

theorem gives_add (hargs : ∀ v ∈ args, v.Moved steady) (hsteady : steady → SettlesFold (addTerms p) args) :
    Gives (add args p) (Value.Moved steady) := by
  apply (Gives.atLeast args 2).bind
  intro _ _
  apply (Gives.surfaceErrors args).bind
  intro _ _
  split
  · exact gives_foldNumbers _ args
  · split
    · exact (Gives.check args .text .text).bind fun _ _ => .ok (.of_none rfl)
    · exact gives_foldMixed (fun _ _ => gives_addTerms) hargs hsteady

theorem gives_sub (hargs : ∀ v ∈ args, v.Moved steady) (hsteady : steady → SettlesFold (subTerms p) args) :
    Gives (sub args p) (Value.Moved steady) := by
  apply (Gives.atLeast args 2).bind
  intro _ _
  apply (Gives.surfaceErrors args).bind
  intro _ _
  split
  · exact gives_foldNumbers _ args
  · exact gives_foldMixed (fun _ _ ha _ => gives_subTerms ha) hargs hsteady

/-- A first operand that a number moves without leaving a carry on another day. -/
def SettlesStep (n : Int) (args : List Value) : Prop :=
  ∀ v ∈ args.head?, ∀ t r, v.datetime? = some t → t.addNumber n = some r → t.interval = false → t.Settles r

theorem gives_step {n : Int} (hargs : ∀ v ∈ args, v.Moved steady) (hsteady : steady → SettlesStep n args) :
    Gives (Arithmetic.step args n p) (Value.Moved steady) := by
  apply (Gives.surfaceErrors args).bind
  intro _ _
  cases args with
  | nil => exact .invalid
  | cons v vs =>
    dsimp only
    split
    · split
      · exact .ok (.number _)
      · exact .error rfl
    · split
      · rename_i t ht
        apply (Gives.orOutOfRange _).bind
        intro r hr
        exact .ok (.datetime ((hargs v List.mem_cons_self t ht).addNumber hr
          fun hs => hsteady hs v rfl t r ht hr))
      · exact .error rfl
    · exact .invalid

end Arithmetic

/-! Reading, and replacing parts -/

namespace Dates

variable {steady : Prop} {args : List Value} {p : Precision}

theorem gives_withOne {f : Value → Outcome} (hf : ∀ v ∈ args, Gives (f v) (Value.Moved steady)) :
    Gives (withOne args f) (Value.Moved steady) := by
  apply (Gives.surfaceErrors args).bind
  intro _ _
  cases args with
  | nil => exact .invalid
  | cons v vs => exact hf v List.mem_cons_self

theorem gives_withTwo {f : Value → Value → Outcome}
    (hf : ∀ v ∈ args, ∀ w ∈ args, Gives (f v w) (Value.Moved steady)) :
    Gives (withTwo args f) (Value.Moved steady) := by
  apply (Gives.surfaceErrors args).bind
  intro _ _
  split
  · exact hf _ List.mem_cons_self _ (List.mem_cons_of_mem _ List.mem_cons_self)
  · exact .invalid

theorem gives_ofText (hargs : ∀ v ∈ args, v.Moved steady) (order : DateOrder) :
    Gives (ofText args order) (Value.Moved steady) := by
  apply gives_withOne
  intro v hv
  split
  · split
    · exact .error rfl
    · exact .ok (hargs v hv)
  · split
    · exact .error rfl
    · apply (Gives.orInvalid _).bind
      intro t ht
      cases hmoment : t.interval with
      | true => exact .ok (.datetime (.inl hmoment))
      | false => exact .ok (.datetime (.inr (.read ht hmoment)))
  · exact .invalid

theorem gives_dateOf (hargs : ∀ v ∈ args, v.Moved steady) : Gives (dateOf args) (Value.Moved steady) := by
  apply gives_withOne
  intro v hv
  apply (Gives.operand v).bind
  intro t ht
  split
  · exact .error rfl
  · rename_i hnull
    rw [Bool.or_eq_true, not_or, Bool.not_eq_true] at hnull
    obtain ht' | ht' := (hargs v hv).of_temporal? hnull.1 ht
    · exact .ok (.datetime (.inl ht'))
    · exact .ok (.datetime (.inr ht'.dateOnly))

/-- A part of a date or time that was reached comes from another one. -/
theorem gives_replacePart {f : Temporal → Temporal → Temporal}
    (hf : ∀ {t d : Temporal}, t.Reached steady → d.Reached steady → (f t d).Reached steady)
    (hargs : ∀ v ∈ args, v.Moved steady) : Gives (replacePart args f) (Value.Moved steady) := by
  apply gives_withTwo
  intro v hv w hw
  apply (Gives.calendarOperand v).bind
  intro t ht
  apply (Gives.calendarOperand w).bind
  intro d hd
  apply (Gives.nullIfAny [v, w] .datetime).bind
  intro _ hnull
  have ht' := (hargs v hv).of_temporal? (hnull v List.mem_cons_self) ht.1
  have hd' := (hargs w hw).of_temporal? (hnull w (List.mem_cons_of_mem v List.mem_cons_self)) hd.1
  dsimp only
  split
  · exact .error rfl
  · exact .ok (.datetime (.inr (hf (ht'.reached ht.2) (hd'.reached hd.2))))

theorem gives_withSeconds (hargs : ∀ v ∈ args, v.Moved steady) :
    Gives (withSeconds args p) (Value.Moved steady) := by
  apply gives_withTwo
  intro v hv w _
  apply (Gives.calendarOperand v).bind
  intro t ht
  apply (Gives.requireKind [w] .number).bind
  intro _ _
  apply (Gives.nullIfAny [v, w] .datetime).bind
  intro _ hnull
  apply (Gives.orInvalid _).bind
  intro n _
  have ht' := (hargs v hv).of_temporal? (hnull v List.mem_cons_self) ht.1
  split
  · rename_i hn
    exact .ok (.datetime (.inr ((ht'.reached ht.2).withSeconds hn.1 hn.2)))
  · exact .invalid

end Dates

/-- The functions that read dates and times, or move them. -/
def Builtin.movers : List Builtin :=
  [stodt, add, sub, inc, dec, dateof, chgdateof, chgtimeof, settimeinsecs]

/-- A call in which numbers leave no carry on another day. -/
def Builtin.Settles (f : Builtin) (args : List Value) (c : Context) : Prop :=
  match f with
  | add => Arithmetic.SettlesFold (Arithmetic.addTerms c.precision) args
  | sub => Arithmetic.SettlesFold (Arithmetic.subTerms c.precision) args
  | inc => Arithmetic.SettlesStep 1 args
  | dec => Arithmetic.SettlesStep (-1) args
  | _ => True

/-- What a function makes of dates and times that were reached is reached, too. -/
theorem Builtin.moved_apply {steady : Prop} {f : Builtin} (hf : f ∈ movers) {args : List Value}
    {c : Context} (hargs : ∀ v ∈ args, v.Moved steady) (hsteady : steady → f.Settles args c) :
    (f.apply args c).value.Moved steady := by
  apply Gives.value
  simp only [movers, List.mem_cons, List.not_mem_nil, or_false] at hf
  obtain rfl | rfl | rfl | rfl | rfl | rfl | rfl | rfl | rfl := hf
  · exact Dates.gives_ofText hargs _
  · exact Arithmetic.gives_add hargs hsteady
  · exact Arithmetic.gives_sub hargs hsteady
  · exact Arithmetic.gives_step hargs hsteady
  · exact Arithmetic.gives_step hargs hsteady
  · exact Dates.gives_dateOf hargs
  · exact Dates.gives_replacePart .withDateOf hargs
  · exact Dates.gives_replacePart .withTimeOf hargs
  · exact Dates.gives_withSeconds hargs

end Reporting
