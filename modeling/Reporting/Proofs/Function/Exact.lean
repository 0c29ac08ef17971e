import Mathlib.Algebra.Ring.Int.Defs
import Reporting.Proofs.Function.Leading
/-!
Sums of integers that have room in the precision are exact, and do not depend on how their operands are
grouped.
-/
namespace Reporting
open Operands

namespace Digits

variable {n k m : Nat}

theorem le_countFrom (n k : Nat) : k ≤ countFrom n k := by
  induction k using countFrom.induct n with
  | case1 k hle ih =>
    rw [countFrom, if_pos hle]
    omega
  | case2 k hle =>
    exact Nat.le_of_eq (by rw [countFrom, if_neg hle])

theorem count_pos (n : Nat) : 1 ≤ count n :=
  Nat.le_trans (Nat.le_max_left _ _) (le_countFrom n _)

theorem mul_lt_of_pow_lt {l a b : Nat} (ha : a ≠ 0) (hab : 10 ^ a ≤ 2 ^ b)
    (h : 2 ^ l < 10 ^ m) : l * a < b * m := by
  have hlt : 2 ^ (l * a) < 2 ^ (b * m) := by
    calc 2 ^ (l * a) = (2 ^ l) ^ a := Nat.pow_mul ..
      _ < (10 ^ m) ^ a := Nat.pow_lt_pow_left h ha
      _ = (10 ^ a) ^ m := Nat.pow_right_comm ..
      _ ≤ (2 ^ b) ^ m := Nat.pow_le_pow_left hab m
      _ = 2 ^ (b * m) := (Nat.pow_mul ..).symm
  exact (Nat.pow_lt_pow_iff_right (by decide)).1 hlt

theorem countBelow_le (h : n < 10 ^ m) (hm : 1 ≤ m) : countBelow n ≤ m := by
  have hlog : n.log2 * 1233 ≤ 4096 * m := by
    by_cases h0 : n = 0
    · subst h0
      exact Nat.zero_le _
    · have hpow : 2 ^ n.log2 < 10 ^ m := Nat.lt_of_le_of_lt (Nat.log2_self_le h0) h
      exact Nat.le_of_lt (mul_lt_of_pow_lt (by decide) (by decide +kernel) hpow)
  unfold countBelow
  omega

/-- A number below a power of ten has no more digits than its exponent. -/
theorem count_le_of_lt (h : n < 10 ^ m) (hm : 1 ≤ m) : count n ≤ m :=
  countFrom_le h (countBelow_le h hm)

end Digits

namespace Decimal

variable {a b : Int} {p : Precision}

/-- The integers that a precision has room for. -/
def Fits (p : Precision) (k : Int) : Prop := k.natAbs < 10 ^ min p.digits maxExponent

/-- What 64 binary digits hold is small enough, whatever the precision has room for. -/
theorem fits_of_lt {n : Nat} (hp : n < 10 ^ p.digits) (h : n < 2 ^ 64) : Fits p n := by
  have hmax : 2 ^ 64 ≤ 10 ^ maxExponent :=
    Nat.le_trans (by decide : 2 ^ 64 ≤ 10 ^ 20) (Nat.pow_le_pow_right (by decide) (by decide))
  unfold Fits
  rw [Int.natAbs_natCast]
  rcases Nat.le_total p.digits maxExponent with hle | hle
  · rw [Nat.min_eq_left hle]
    exact hp
  · rw [Nat.min_eq_right hle]
    exact Nat.lt_of_lt_of_le h hmax

theorem Fits.digitCount_le (h : Fits p a) : (ofInt a).digitCount ≤ min p.digits maxExponent := by
  have hpos := p.digits_pos
  have hmax : 1 ≤ maxExponent := by decide
  exact Digits.count_le_of_lt h (by omega)

theorem adjustedExponent_ofInt_nonneg (k : Int) : 0 ≤ (ofInt k).adjustedExponent := by
  have hpos : 1 ≤ (ofInt k).digitCount := Digits.count_pos _
  have hscale : (ofInt k).scale = 0 := rfl
  unfold adjustedExponent
  split
  · exact Int.le_refl 0
  · omega

theorem Fits.adjustedExponent_lt (h : Fits p a) :
    (ofInt a).adjustedExponent < min p.digits maxExponent := by
  have hle := h.digitCount_le
  have hscale : (ofInt a).scale = 0 := rfl
  have hpos := p.digits_pos
  have hmax : 1 ≤ maxExponent := by decide
  unfold adjustedExponent
  split
  · omega
  · omega

theorem Fits.inRange (h : Fits p a) : (ofInt a).inRange = true := by
  have hlt := h.adjustedExponent_lt
  rw [Decimal.inRange, decide_eq_true_eq]
  omega

theorem Fits.rounded (h : Fits p a) : (ofInt a).rounded p = ofInt a := by
  have hle := h.digitCount_le
  have hnonneg := adjustedExponent_ofInt_nonneg a
  have hmax : (0 : Int) ≤ maxExponent := by decide
  rw [Decimal.rounded, if_pos (by omega), flush, if_neg (by omega)]

theorem Fits.add (ha : Fits p a) (hb : Fits p b) (hab : Fits p (a + b)) :
    (ofInt a).add (ofInt b) p = ofInt (a + b) := by
  have hexact : (ofInt a).exactAdd (ofInt b) = ofInt (a + b) := by
    have hscale (k : Int) : (ofInt k).mantissaAt 0 = k := by
      rw [mantissaAt_eq]
      exact Int.mul_one k
    change Decimal.mk ((ofInt a).mantissaAt 0 + (ofInt b).mantissaAt 0) 0 = _
    rw [hscale, hscale]
    rfl
  have hdominant : ((ofInt a).dominant? (ofInt b) p).getD ((ofInt a).exactAdd (ofInt b)) =
      ofInt (a + b) := by
    unfold dominant?
    split
    · rename_i h0
      obtain rfl : a = 0 := beq_iff_eq.1 h0
      rw [Int.zero_add]
      rfl
    · split
      · rename_i h0
        obtain rfl : b = 0 := beq_iff_eq.1 h0
        rw [Int.add_zero]
        rfl
      · have hla := ha.adjustedExponent_lt
        have hlb := hb.adjustedExponent_lt
        have hna := adjustedExponent_ofInt_nonneg a
        have hnb := adjustedExponent_ofInt_nonneg b
        dsimp only
        rw [if_neg (by omega), if_neg (by omega)]
        exact hexact
  rw [Decimal.add, hdominant, hab.rounded]

end Decimal

namespace Arithmetic

variable {ks : List Int} {vs ws : List Value} {p : Precision}

/-- How large sums of integers can get, whatever their signs. -/
def size (ks : List Int) : Nat := (ks.map Int.natAbs).sum

end Arithmetic
end Reporting
