import Reporting.Proofs.Decimal.Order
import Reporting.Proofs.Function.Strict
/-!
The six comparisons agree with each other. Two values of one kind stand in exactly one of three orders, unless
they are dates and times that have no part in common. Among values that have the same parts the order is
transitive.
-/
namespace Reporting
open Compare Operands

/-- What values have in common that are all ordered among themselves. -/
inductive Scale
  | number | text | interval | date | time | dateTime
  deriving DecidableEq, Repr

namespace Temporal

/-- Whether both are intervals, both have a date, or both have a time. -/
def SharesPart (s t : Temporal) : Prop :=
  (s.interval = true ∧ t.interval = true) ∨ (s.hasDate = true ∧ t.hasDate = true) ∨
    (s.hasTime = true ∧ t.hasTime = true)

/-- That of the intervals, or else the parts that there are. -/
def scale? (t : Temporal) : Option Scale :=
  if t.interval then some .interval
  else match t.hasDate, t.hasTime with
    | true, true => some .dateTime
    | true, false => some .date
    | false, true => some .time
    | false, false => none

end Temporal

namespace Payload

def scale? : Payload → Option Scale
  | number _ => some .number
  | text _ => some .text
  | datetime t => t.scale?
  | error _ => none

/-- The number that a payload holds. -/
def asNumber : Payload → Decimal
  | number n => n
  | _ => .zero

/-- The text that a payload holds. -/
def asText : Payload → String
  | text s => s
  | _ => ""

/-- The date, time or interval that a payload holds. -/
def asTemporal : Payload → Temporal
  | datetime t => t
  | _ => {}

end Payload

def Scale.kind : Scale → Kind
  | number => .number
  | text => .text
  | interval | date | time | dateTime => .datetime

/-- The order of what is on a scale. -/
def Scale.compare : Scale → Payload → Payload → Ordering
  | number, a, b => a.asNumber.compare b.asNumber
  | text, a, b => compareTexts a.asText b.asText
  | date, a, b => a.asTemporal.compareDates b.asTemporal
  | time, a, b => a.asTemporal.compareTimes b.asTemporal
  | interval, a, b | dateTime, a, b => a.asTemporal.compare b.asTemporal

namespace Value

/-- The scale of a value that is not null. -/
def scale? (v : Value) : Option Scale := if v.isNull then none else v.payload.scale?

/-- Dates and times that have no part in common. -/
def Apart (v w : Value) : Prop :=
  ∃ s t, v.payload = .datetime s ∧ w.payload = .datetime t ∧ ¬ s.SharesPart t

end Value

variable {s t : Temporal} {a b d : Payload} {u v w : Value} {k : Scale} {o : Option Ordering}

/-! Orders by fields -/

theorem Decimal.compare_swap (x y : Decimal) : x.compare y = (y.compare x).swap := by
  cases h : x.compare y with
  | lt => rw [compare_eq_gt.2 (compare_eq_lt.1 h), Ordering.swap_gt]
  | gt => rw [compare_eq_lt.2 (compare_eq_gt.1 h), Ordering.swap_lt]
  | eq =>
    cases hback : y.compare x with
    | lt => rw [compare_eq_gt.2 (compare_eq_lt.1 hback)] at h; cases h
    | gt => rw [compare_eq_lt.2 (compare_eq_gt.1 hback)] at h; cases h
    | eq => rfl

instance : Std.TransCmp Decimal.compare where
  eq_swap := Decimal.compare_swap _ _
  isLE_trans := by
    simp only [Ordering.isLE_iff_ne_gt, Decimal.compare_eq_gt, not_lt]
    exact le_trans

instance : Std.TransCmp compareTexts :=
  inferInstanceAs (Std.TransCmp (Ord.compare : String → String → Ordering))

instance : Std.TransCmp Temporal.compare :=
  inferInstanceAs (Std.TransCmp (compareLex (compareOn Temporal.year) <|
    compareLex (compareOn Temporal.month) <| compareLex (compareOn Temporal.day) <|
    compareLex (compareOn Temporal.hour) <| compareLex (compareOn Temporal.minute) <|
    compareOn Temporal.second))

instance : Std.TransCmp Temporal.compareDates :=
  inferInstanceAs (Std.TransCmp (compareLex (compareOn Temporal.year) <|
    compareLex (compareOn Temporal.month) (compareOn Temporal.day)))

instance : Std.TransCmp Temporal.compareTimes :=
  inferInstanceAs (Std.TransCmp (compareLex (compareOn Temporal.hour) <|
    compareLex (compareOn Temporal.minute) (compareOn Temporal.second)))

/-- An order of what values hold is one of the values. -/
theorem transCmp_comp {α β : Type} (cmp : β → β → Ordering) [Std.TransCmp cmp] (f : α → β) :
    Std.TransCmp fun x y => cmp (f x) (f y) where
  eq_swap := Std.OrientedCmp.eq_swap
  isLE_trans := Std.TransCmp.isLE_trans

instance (k : Scale) : Std.TransCmp k.compare := by
  cases k with
  | number => exact transCmp_comp Decimal.compare Payload.asNumber
  | text => exact transCmp_comp compareTexts Payload.asText
  | date => exact transCmp_comp Temporal.compareDates Payload.asTemporal
  | time => exact transCmp_comp Temporal.compareTimes Payload.asTemporal
  | interval => exact transCmp_comp Temporal.compare Payload.asTemporal
  | dateTime => exact transCmp_comp Temporal.compare Payload.asTemporal

/-! Orders of values -/

theorem compareTemporals_eq_none : compareTemporals s t = none ↔ ¬ s.SharesPart t := by
  unfold compareTemporals Temporal.SharesPart
  grind

theorem compareTemporals_swap (s t : Temporal) :
    (compareTemporals s t).map Ordering.swap = compareTemporals t s := by
  have hfull : t.compare s = (s.compare t).swap := Std.OrientedCmp.eq_swap
  have hdates : t.compareDates s = (s.compareDates t).swap := Std.OrientedCmp.eq_swap
  have htimes : t.compareTimes s = (s.compareTimes t).swap := Std.OrientedCmp.eq_swap
  unfold compareTemporals
  grind

theorem comparePayloads_swap (a b : Payload) :
    (comparePayloads a b).map Ordering.swap = comparePayloads b a := by
  have htexts (s t : String) : (compareTexts s t).swap = compareTexts t s := Std.OrientedCmp.eq_swap.symm
  have hnumbers (x y : Decimal) : (x.compare y).swap = y.compare x := Std.OrientedCmp.eq_swap.symm
  cases a <;> cases b <;> try rfl
  · exact congrArg some (htexts _ _)
  · exact congrArg some (hnumbers _ _)
  · exact compareTemporals_swap _ _

theorem compareTemporals_of_scale (hs : s.scale? = some k) (ht : t.scale? = some k) :
    compareTemporals s t = some (k.compare (.datetime s) (.datetime t)) := by
  unfold Temporal.scale? at hs ht
  unfold compareTemporals
  cases k <;> grind [Scale.compare, Payload.asTemporal]

theorem scale?_ne (t : Temporal) : t.scale? ≠ some .number ∧ t.scale? ≠ some .text := by
  unfold Temporal.scale?
  grind

theorem comparePayloads_of_scale (ha : a.scale? = some k) (hb : b.scale? = some k) :
    comparePayloads a b = some (k.compare a b) := by
  cases a with
  | error m => cases ha
  | number x =>
    obtain rfl := Option.some.inj ha
    cases b with
    | number y => rfl
    | datetime t => exact absurd hb (scale?_ne t).1
    | text s => cases hb
    | error m => cases hb
  | text r =>
    obtain rfl := Option.some.inj ha
    cases b with
    | text s => rfl
    | datetime t => exact absurd hb (scale?_ne t).2
    | number y => cases hb
    | error m => cases hb
  | datetime s =>
    cases b with
    | datetime t => exact compareTemporals_of_scale ha hb
    | number y => exact absurd (ha.trans hb.symm) (scale?_ne s).1
    | text r => exact absurd (ha.trans hb.symm) (scale?_ne s).2
    | error m => cases hb

/-! The comparisons -/

theorem compareOperands_eq (hv : v.isNull = false) (hw : w.isNull = false) (he : v.isError = false)
    (hk : v.kind = w.kind) : compareOperands [v, w] = .ok (comparePayloads v.payload w.payload) := by
  have herrors : surfaceErrors [v, w] = .ok () := by
    apply surfaceErrors_eq_ok
    intro x hx
    obtain rfl | hx := List.mem_cons.1 hx
    · exact he
    · rwa [List.mem_singleton.1 hx, Value.isError, ← hk]
  have hnulls : nullIfAny [v, w] .number = .ok () := by
    rw [nullIfAny, List.any_cons, List.any_cons, hv, hw]
    rfl
  rw [compareOperands, herrors]
  dsimp only [bind, Except.bind]
  rw [if_neg (not_not.2 hk), hnulls]
  rfl

/-- Payloads of one kind are ordered, unless they are dates and times. -/
theorem exists_temporals (h : comparePayloads a b = none) (he : a.kind ≠ .error) (hk : a.kind = b.kind) :
    ∃ s t, a = .datetime s ∧ b = .datetime t := by
  cases a with
  | error m => exact absurd rfl he
  | number x => cases b <;> simp [comparePayloads, Payload.kind] at h hk
  | text r => cases b <;> simp [comparePayloads, Payload.kind] at h hk
  | datetime s => cases b <;> simp [Payload.kind] at hk ⊢

theorem isApart_iff (he : v.isError = false) (hk : v.kind = w.kind) :
    v.Apart w ↔ comparePayloads v.payload w.payload = none := by
  constructor
  · rintro ⟨s, t, hs, ht, h⟩
    rw [hs, ht]
    exact compareTemporals_eq_none.2 h
  · intro h
    obtain ⟨s, t, hs, ht⟩ := exists_temporals h (beq_eq_false_iff_ne.1 he) hk
    rw [hs, ht] at h
    exact ⟨s, t, hs, ht, compareTemporals_eq_none.1 h⟩

/-- What the six comparisons say of two values, given the orders that they stand in. -/
structure Verdicts (c : Context) (v w : Value) (below equal above : Bool) : Prop where
  lt : Builtin.lt.apply [v, w] c = .ok (.ofBool below)
  eq : Builtin.eq.apply [v, w] c = .ok (.ofBool equal)
  gt : Builtin.gt.apply [v, w] c = .ok (.ofBool above)
  le : Builtin.le.apply [v, w] c = .ok (.ofBool (below || equal))
  ge : Builtin.ge.apply [v, w] c = .ok (.ofBool (above || equal))
  ne : Builtin.ne.apply [v, w] c = .ok (.ofBool !equal)

theorem verdicts (h : compareOperands [v, w] = .ok o) (c : Context) :
    Verdicts c v w (o == some .lt) (o == some .eq) (o == some .gt) := by
  have hequality (wanted : Bool) : equality [v, w] wanted = .ok (.ofBool ((o == some .eq) == wanted)) := by
    rw [equality, h]
    rfl
  have horder (accept : Ordering → Bool) : order [v, w] accept = .ok (.ofBool (o.any accept)) := by
    rw [order, h]
    rfl
  exact {
    lt := (horder (·.isLT)).trans (by obtain _ | _ | _ | _ := o <;> rfl)
    eq := (hequality true).trans (by obtain _ | _ | _ | _ := o <;> rfl)
    gt := (horder (·.isGT)).trans (by obtain _ | _ | _ | _ := o <;> rfl)
    le := (horder (·.isLE)).trans (by obtain _ | _ | _ | _ := o <;> rfl)
    ge := (horder (·.isGE)).trans (by obtain _ | _ | _ | _ := o <;> rfl)
    ne := (hequality false).trans (by obtain _ | _ | _ | _ := o <;> rfl) }

/-! Values of one scale -/

theorem kind_of_scale (h : a.scale? = some k) : a.kind = k.kind := by
  cases a with
  | error m => cases h
  | number x => cases h; rfl
  | text s => cases h; rfl
  | datetime t =>
    cases k with
    | number => exact absurd h (scale?_ne t).1
    | text => exact absurd h (scale?_ne t).2
    | interval | date | time | dateTime => rfl

theorem compareOperands_of_scale (hv : v.scale? = some k) (hw : w.scale? = some k) :
    compareOperands [v, w] = .ok (some (k.compare v.payload w.payload)) := by
  simp only [Value.scale?, Option.ite_none_left_eq_some, Bool.not_eq_true] at hv hw
  have hkind := kind_of_scale hv.2
  have herror : v.isError = false := by
    rw [Value.isError, Value.kind, hkind]
    cases k <;> rfl
  rw [compareOperands_eq hv.1 hw.1 herror (hkind.trans (kind_of_scale hw.2).symm),
    comparePayloads_of_scale hv.2 hw.2]

/-- A comparison that says yes. -/
def Builtin.Holds (f : Builtin) (v w : Value) (c : Context) : Prop := f.apply [v, w] c = .ok (.ofBool true)

theorem ofBool_eq_true {b : Bool} : (.ok (.ofBool b) : Outcome) = .ok (.ofBool true) ↔ b = true := by
  cases b <;> decide +kernel

theorem holds_lt (hv : v.scale? = some k) (hw : w.scale? = some k) (c : Context) :
    Builtin.lt.Holds v w c ↔ k.compare v.payload w.payload = .lt := by
  rw [Builtin.Holds, (verdicts (compareOperands_of_scale hv hw) c).lt, ofBool_eq_true, beq_iff_eq,
    Option.some.injEq]

theorem holds_eq (hv : v.scale? = some k) (hw : w.scale? = some k) (c : Context) :
    Builtin.eq.Holds v w c ↔ k.compare v.payload w.payload = .eq := by
  rw [Builtin.Holds, (verdicts (compareOperands_of_scale hv hw) c).eq, ofBool_eq_true, beq_iff_eq,
    Option.some.injEq]

/-- The six comparisons of any two values of one kind, neither null nor errors, are coherent: they come from
one of three orders, which turn around with the operands, and from none of them just for dates and times that
have no part in common. Among numbers, among texts, among intervals, and among dates and times that have the
same parts, the order is transitive and equality is an equivalence. -/
theorem comparisons_coherent (c : Context) :
    (∀ v w : Value, v.isNull = false → w.isNull = false → v.isError = false → v.kind = w.kind →
      ∃ below equal above, Verdicts c v w below equal above ∧ Verdicts c w v above equal below ∧
        (v.Apart w → below = false ∧ equal = false ∧ above = false) ∧
        (¬ v.Apart w → [below, equal, above].count true = 1)) ∧
    (∀ k, ∀ u v w : Value, u.scale? = some k → v.scale? = some k → w.scale? = some k →
      (Builtin.lt.Holds u v c → Builtin.lt.Holds v w c → Builtin.lt.Holds u w c) ∧
      Builtin.eq.Holds u u c ∧ (Builtin.eq.Holds u v c → Builtin.eq.Holds v u c) ∧
      (Builtin.eq.Holds u v c → Builtin.eq.Holds v w c → Builtin.eq.Holds u w c)) := by
  constructor
  · intro v w hv hw he hk
    have hforth := verdicts (compareOperands_eq hv hw he hk) c
    have hback := verdicts (compareOperands_eq hw hv (by rwa [Value.isError, ← hk]) hk.symm) c
    rw [← comparePayloads_swap] at hback
    rw [isApart_iff he hk]
    generalize comparePayloads v.payload w.payload = o at hforth hback
    refine ⟨_, _, _, hforth, ?_, ?_, ?_⟩
    · obtain _ | _ | _ | _ := o <;> exact hback
    · rintro rfl
      exact ⟨rfl, rfl, rfl⟩
    · obtain _ | _ | _ | _ := o
      · exact fun h => absurd rfl h
      all_goals exact fun _ => rfl
  · intro k u v w hu hv hw
    simp only [holds_lt hu hv, holds_lt hv hw, holds_lt hu hw, holds_eq hu hu, holds_eq hu hv, holds_eq hv hu,
      holds_eq hv hw, holds_eq hu hw]
    exact ⟨Std.TransCmp.lt_trans, Std.ReflCmp.compare_self, Std.OrientedCmp.eq_symm, Std.TransCmp.eq_trans⟩

/-- A date with a time and a date, which are compared by the date; a time and a date, which have no order;
three forms of the number one; and texts of which one begins with another. -/
theorem comparisons_coherent_of_parts :
    let c : Context := ⟨.ofBits 128 .nearest, .dayFirst, {}, .empty, .current⟩
    let full := Value.datetime (.ofDateTime 2023 1 1 10 0 0)
    let day := Value.datetime (.ofDate 2023 1 1)
    let clock := Value.datetime (.ofTime 10 0 0)
    let one (zeros : Nat) : Value := ⟨.number, false, .number ⟨10 ^ zeros, zeros⟩⟩
    (∃ below equal above, Verdicts c full day below equal above ∧ Verdicts c day full above equal below ∧
      [below, equal, above].count true = 1) ∧
    Verdicts c clock day false false false ∧ Builtin.eq.Holds (one 1) (one 3) c ∧
    Builtin.lt.Holds (.text "a") (.text "b") c := by
  intro c full day clock one
  obtain ⟨hpair, hscale⟩ := comparisons_coherent c
  obtain ⟨below, equal, above, hforth, hback, -, hone⟩ := hpair full day rfl rfl rfl rfl
  obtain ⟨_, _, _, hverdicts, -, hapart, -⟩ := hpair clock day rfl rfl rfl rfl
  refine ⟨⟨below, equal, above, hforth, hback, hone ?_⟩, ?_, ?_, ?_⟩
  · rintro ⟨s, t, hs, ht, h⟩
    cases hs
    cases ht
    exact h (.inr (.inl ⟨rfl, rfl⟩))
  · have hparts : ¬ (Temporal.ofTime 10 0 0).SharesPart (.ofDate 2023 1 1) := by
      simp [Temporal.SharesPart, Temporal.ofTime, Temporal.ofDate]
    obtain ⟨rfl, rfl, rfl⟩ := hapart ⟨_, _, rfl, rfl, hparts⟩
    exact hverdicts
  · obtain ⟨-, -, -, htrans⟩ := hscale .number (one 1) (one 2) (one 3) rfl rfl rfl
    exact htrans ((holds_eq rfl rfl c).2 (by decide +kernel)) ((holds_eq rfl rfl c).2 (by decide +kernel))
  · obtain ⟨htrans, -⟩ := hscale .text (.text "a") (.text "ab") (.text "b") rfl rfl rfl
    exact htrans ((holds_lt rfl rfl c).2 (by decide +kernel)) ((holds_lt rfl rfl c).2 (by decide +kernel))

end Reporting
