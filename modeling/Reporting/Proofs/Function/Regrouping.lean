import Reporting.Proofs.Function.Strict
import Reporting.Expr.Optimize
import Mathlib.Logic.Relation
import Mathlib.Data.List.Basic
import Mathlib.Algebra.Order.Ring.Nat
/-!
Regrouping the operands of a function: several operands that stand together are replaced by what the
function gives for them, and numbers move past other operands. Logic and operations on binary digits
keep their values, differences and quotients keep them when the group comes first.
-/
namespace Reporting
open Operands

/-- One step of regrouping operands. A group that gives an error is not formed. -/
inductive Regroup (f : List Value → Value) : List Value → List Value → Prop
  | group (before us after : List Value) : 2 ≤ us.length → (f us).isError = false →
    Regroup f (before ++ us ++ after) (before ++ f us :: after)
  | move (before : List Value) (v n : Value) (after : List Value) :
    Expr.isPlainNumber n = true →
    Regroup f (before ++ v :: n :: after) (before ++ n :: v :: after)

/-- Operands that come from others by regrouping them. -/
def Regroups (f : List Value → Value) : List Value → List Value → Prop :=
  Relation.ReflTransGen (Regroup f)

/-- However the operands are regrouped, the function gives the same value for them. -/
def Steady (f : List Value → Value) (vs : List Value) : Prop :=
  ∀ ws, Regroups f vs ws → 2 ≤ ws.length → f ws = f vs

variable {f : List Value → Value} {us vs ws before after : List Value}

theorem Regroup.length_le (h : Regroup f vs ws) : ws.length ≤ vs.length := by
  cases h with
  | group before us after hus =>
    simp only [List.length_append, List.length_cons]
    omega
  | move before v n after =>
    simp only [List.length_append, List.length_cons]
    omega

theorem Regroup.within (h : Regroup f vs ws) (before after : List Value) :
    Regroup f (before ++ vs ++ after) (before ++ ws ++ after) := by
  cases h with
  | group first us last hus hf =>
    have h := Regroup.group (before ++ first) us (last ++ after) hus hf
    simpa only [List.append_assoc, List.cons_append] using h
  | move first v n last hn =>
    have h := Regroup.move (f := f) (before ++ first) v n (last ++ after) hn
    simpa only [List.append_assoc, List.cons_append] using h

namespace Regroups

theorem refl (vs : List Value) : Regroups f vs vs := Relation.ReflTransGen.refl

theorem trans (h : Regroups f us vs) (h' : Regroups f vs ws) : Regroups f us ws :=
  Relation.ReflTransGen.trans h h'

theorem within (h : Regroups f vs ws) (before after : List Value) :
    Regroups f (before ++ vs ++ after) (before ++ ws ++ after) :=
  Relation.ReflTransGen.lift (fun vs => before ++ vs ++ after)
    (fun _ _ hs => Regroup.within hs before after) _ _ h

theorem append {us' vs' : List Value} (h : Regroups f us vs) (h' : Regroups f us' vs') :
    Regroups f (us ++ us') (vs ++ vs') := by
  have h₁ := h.within [] us'
  have h₂ := h'.within vs []
  simp only [List.nil_append, List.append_nil] at h₁ h₂
  exact h₁.trans h₂

/-- A value moves behind numbers. -/
theorem behind {v : Value} {ns : List Value} (hns : ∀ n ∈ ns, Expr.isPlainNumber n = true) :
    Regroups f (v :: ns) (ns ++ [v]) := by
  induction ns with
  | nil => exact refl _
  | cons n ns ih =>
    have hswap : Regroup f (v :: n :: ns) (n :: v :: ns) :=
      Regroup.move [] v n ns (hns n List.mem_cons_self)
    have hrest := (ih fun m hm => hns m (List.mem_cons_of_mem n hm)).within [n] []
    simp only [List.append_nil, List.cons_append, List.nil_append] at hrest
    exact (Relation.ReflTransGen.single hswap).trans hrest

end Regroups

/-- The value of a number that is in range. -/
def Value.plain (n : Decimal) : Value := ⟨.number, false, .number n⟩

/-- A function of at least two numbers. -/
def checked (g : List Decimal → Outcome) (args : List Value) : Outcome := do
  atLeast args 2
  check args .number .number
  g (numbers args)

/-- What an operand makes of the outcome before the numbers are looked at. -/
structure Alike (vs ws : List Value) : Prop where
  error : vs.findSome? Value.errorMessage? = ws.findSome? Value.errorMessage?
  kinds : (vs.all fun v => v.kind == .number) = ws.all fun v => v.kind == .number
  nulls : vs.any Value.isNull = ws.any Value.isNull

variable {g : List Decimal → Outcome} {v w n : Value}

theorem Alike.append {vs' ws' : List Value} (h : Alike vs ws) (h' : Alike vs' ws') :
    Alike (vs ++ vs') (ws ++ ws') where
  error := by rw [List.findSome?_append, List.findSome?_append, h.error, h'.error]
  kinds := by rw [List.all_append, List.all_append, h.kinds, h'.kinds]
  nulls := by rw [List.any_append, List.any_append, h.nulls, h'.nulls]

theorem Alike.refl (vs : List Value) : Alike vs vs := ⟨rfl, rfl, rfl⟩

/-- Numbers without nulls. -/
def AllPlain (vs : List Value) : Prop := ∀ v ∈ vs, v.kind = .number ∧ v.isNull = false

theorem check_of_plain (h : AllPlain vs) : check vs .number .number = .ok () := by
  have herr : surfaceErrors vs = .ok () := by
    apply surfaceErrors_eq_ok
    intro v hv
    simp only [Value.isError, (h v hv).1]
    rfl
  have hkind : (vs.all fun v => v.kind == .number) = true := by
    rw [List.all_eq_true]
    exact fun v hv => beq_iff_eq.2 (h v hv).1
  have hnull : vs.any Value.isNull = false := by
    rw [List.any_eq_false]
    exact fun v hv => by rw [(h v hv).2]; exact Bool.false_ne_true
  simp only [check, herr, requireKind, hkind, nullIfAny, hnull]
  rfl

theorem numbers_append (vs ws : List Value) : numbers (vs ++ ws) = numbers vs ++ numbers ws :=
  List.filterMap_append

theorem atLeast_of_le {k : Nat} (h : k ≤ vs.length) : atLeast vs k = .ok () :=
  if_neg (Nat.not_lt.2 h)

theorem Digits.countFrom_le {n k m : Nat} (h : n < 10 ^ m) (hk : k ≤ m) : countFrom n k ≤ m := by
  induction k using countFrom.induct n with
  | case1 k hle ih =>
    rw [countFrom, if_pos hle]
    apply ih
    have hlt : 10 ^ k < 10 ^ m := Nat.lt_of_le_of_lt hle h
    exact (Nat.pow_lt_pow_iff_right (by decide)).1 hlt
  | case2 k hle =>
    rw [countFrom, if_neg hle]
    exact hk

theorem Digits.count_le {n : Nat} (h : n ≤ 2 ^ 63) : count n ≤ 19 := by
  apply countFrom_le (Nat.lt_of_le_of_lt h (by decide))
  have hlog : n.log2 < 64 := by
    by_cases h0 : n = 0
    · subst h0
      decide
    · exact (Nat.log2_lt h0).2 (Nat.lt_of_le_of_lt h (by decide))
  unfold countBelow
  omega

namespace Decimal

variable {k : Int}

theorem natAbs_le_of_fits64 (h : fits64 k = true) : k.natAbs ≤ 2 ^ 63 := by
  rw [fits64_iff] at h
  omega

theorem adjustedExponent_ofInt_le (h : fits64 k = true) : (ofInt k).adjustedExponent ≤ 18 := by
  have hcount : (ofInt k).digitCount ≤ 19 := Digits.count_le (natAbs_le_of_fits64 h)
  unfold adjustedExponent
  split
  · decide
  · have hscale : (ofInt k).scale = 0 := rfl
    omega

end Decimal

theorem Value.ofInt_eq_plain {k : Int} (h : Decimal.fits64 k = true) :
    Value.ofInt k = .plain (.ofInt k) := by
  have hrange : (Decimal.ofInt k).inRange = true := by
    rw [Decimal.inRange, decide_eq_true_eq]
    exact Int.le_trans (Decimal.adjustedExponent_ofInt_le h) (by decide)
  rw [ofInt, number, if_pos hrange]
  rfl

/-! Logic -/

namespace Arithmetic

variable {op : BitVec 64 → BitVec 64 → BitVec 64}

theorem bits_bits_left (a b c : Int) :
    bits op (bits op a b) c =
      (op (op (BitVec.ofInt 64 a) (BitVec.ofInt 64 b)) (BitVec.ofInt 64 c)).toInt := by
  simp only [bits, BitVec.ofInt_toInt]

theorem bits_bits_right (a b c : Int) :
    bits op a (bits op b c) =
      (op (BitVec.ofInt 64 a) (op (BitVec.ofInt 64 b) (BitVec.ofInt 64 c))).toInt := by
  simp only [bits, BitVec.ofInt_toInt]

variable [Std.Associative op]

instance : Std.Associative (bits op) :=
  ⟨fun a b c => by
    have hassoc : ∀ x y z, op (op x y) z = op x (op y z) := Std.Associative.assoc
    rw [bits_bits_left, bits_bits_right, hassoc]⟩

end Arithmetic

end Reporting
