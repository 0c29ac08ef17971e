import Mathlib.Algebra.Order.Ring.Abs
import Mathlib.Tactic.Ring
import Reporting.Decimal.Arithmetic
import Reporting.Proofs.Decimal.Order
import Reporting.Proofs.Function.Exact
/-!
Decimal numbers that are integers, whatever forms they have. Sums and products of such numbers are
exact as long as the precision has room for them.
-/
namespace Reporting

namespace Digits

variable {n m : Nat}

theorem lt_countFrom (n k : Nat) : n < 10 ^ countFrom n k := by
  induction k using countFrom.induct n with
  | case1 k hle ih =>
    rw [countFrom, if_pos hle]
    exact ih
  | case2 k hle =>
    rw [countFrom, if_neg hle]
    exact Nat.lt_of_not_le hle

theorem lt_pow_count (n : Nat) : n < 10 ^ count n := lt_countFrom n _

theorem pow_count_le (hn : n ≠ 0) : 10 ^ (count n - 1) ≤ n := by
  by_contra h
  have hlt : n < 10 ^ (count n - 1) := Nat.lt_of_not_le h
  by_cases hone : count n = 1
  · rw [hone, Nat.pow_zero] at hlt
    omega
  · have hpos := count_pos n
    have := count_le_of_lt hlt (by omega)
    omega

end Digits

namespace Decimal

variable {x y : Decimal} {a b k : Int} {p : Precision}

theorem ten_pos : (0 : ℚ) < 10 := by norm_num

theorem ten_ne_zero : (10 : ℚ) ≠ 0 := by norm_num

theorem toRat_ofInt (k : Int) : (ofInt k).toRat = k := by
  simp [toRat, ofInt]

theorem toRat_neg (x : Decimal) : x.neg.toRat = -x.toRat := by
  simp [toRat, neg]

theorem toRat_eq_zero (h : x.mantissa = 0) : x.toRat = 0 := by
  rw [toRat, h, Int.cast_zero, zero_mul]

theorem mantissa_eq_zero (h : x.toRat = 0) : x.mantissa = 0 := by
  rw [toRat, mul_eq_zero] at h
  obtain h | h := h
  · exact_mod_cast h
  · exact absurd h (zpow_ne_zero _ ten_ne_zero)

/-- The digits behind the point of an integer are zeros. -/
theorem mantissa_eq_mul (hx : x.toRat = k) (hscale : 0 ≤ x.scale) : x.mantissa = k * 10 ^ x.scale.toNat := by
  have hcast : (x.mantissa : ℚ) = k * 10 ^ x.scale.toNat := by
    rw [← hx, toRat, mul_assoc, ← zpow_natCast, Int.toNat_of_nonneg hscale, ← zpow_add₀ ten_ne_zero,
      neg_add_cancel, zpow_zero, mul_one]
  exact_mod_cast hcast

theorem toRat_exactAdd (x y : Decimal) : (x.exactAdd y).toRat = x.toRat + y.toRat := by
  have hx := mantissaAt_cast (Int.le_max_left x.scale y.scale)
  have hy := mantissaAt_cast (Int.le_max_right x.scale y.scale)
  rw [toRat, exactAdd]
  dsimp only
  rw [Int.cast_add, hx, hy, ← add_mul, mul_assoc, ← zpow_add₀ ten_ne_zero, add_neg_cancel, zpow_zero,
    mul_one]

theorem stripZeros_mantissa (k : Nat) (m : Int) :
    (stripZeros k m).2 * 10 ^ (stripZeros k m).1 = m := by
  induction k generalizing m with
  | zero => rw [stripZeros, pow_zero, mul_one]
  | succ k ih =>
    rw [stripZeros]
    split
    · rename_i h
      have hm : m.tdiv 10 * 10 = m := Int.tdiv_mul_cancel (Int.dvd_of_tmod_eq_zero h)
      show (stripZeros k (m.tdiv 10)).2 * 10 ^ ((stripZeros k (m.tdiv 10)).1 + 1) = m
      rw [pow_succ, ← mul_assoc, ih, hm]
    · rw [pow_zero, mul_one]

theorem toRat_normalized (x : Decimal) : x.normalized.toRat = x.toRat := by
  rw [normalized]
  split
  · rename_i h
    rw [toRat_eq_zero (beq_iff_eq.1 h)]
    exact toRat_eq_zero rfl
  · have hm := stripZeros_mantissa x.digitCount x.mantissa
    generalize stripZeros x.digitCount x.mantissa = q at hm
    show (q.2 : ℚ) * 10 ^ (-(x.scale - q.1)) = x.mantissa * 10 ^ (-x.scale)
    have hcast : (x.mantissa : ℚ) = q.2 * 10 ^ (q.1 : Int) := by
      rw [← hm, zpow_natCast]
      push_cast
      rfl
    rw [hcast, mul_assoc, ← zpow_add₀ ten_ne_zero]
    congr 2
    ring

theorem toRat_exactMul (x y : Decimal) : (x.exactMul y).toRat = x.toRat * y.toRat := by
  have hone : one.toRat = 1 := by rw [one, toRat_ofInt, Int.cast_one]
  rw [exactMul]
  split
  · rename_i h
    rw [h, hone, one_mul, toRat_normalized]
  · split
    · rename_i h
      rw [h, hone, mul_one, toRat_normalized]
    · rw [toRat, toRat, toRat, Int.cast_mul, neg_add, zpow_add₀ ten_ne_zero]
      ring

/-! The leading digit -/

/-- The exponent of the leading digit bounds a number on both sides. -/
theorem adjustedExponent_bounds (h : x.toRat ≠ 0) :
    (10 : ℚ) ^ x.adjustedExponent ≤ |x.toRat| ∧ |x.toRat| < (10 : ℚ) ^ (x.adjustedExponent + 1) := by
  have hm : x.mantissa ≠ 0 := fun hm => h (toRat_eq_zero hm)
  have hzero : x.isZero = false := beq_eq_false_iff_ne.2 hm
  have hpos : 0 < (10 : ℚ) ^ (-x.scale) := zpow_pos ten_pos _
  have habs : |x.toRat| = x.mantissa.natAbs * 10 ^ (-x.scale) := by
    rw [toRat, abs_mul, abs_of_pos hpos, Nat.cast_natAbs, Int.cast_abs]
  have hlow : (10 : ℚ) ^ ((x.digitCount : Int) - 1) ≤ x.mantissa.natAbs := by
    have hle := Digits.pow_count_le (Int.natAbs_ne_zero.2 hm)
    have hcount : 1 ≤ x.digitCount := Digits.count_pos _
    have hsub : ((x.digitCount : Int) - 1) = ((x.digitCount - 1 : Nat) : Int) := by omega
    rw [hsub, zpow_natCast]
    exact_mod_cast hle
  have hhigh : (x.mantissa.natAbs : ℚ) < 10 ^ (x.digitCount : Int) := by
    rw [zpow_natCast]
    exact_mod_cast Digits.lt_pow_count x.mantissa.natAbs
  rw [adjustedExponent, hzero, habs]
  constructor
  · have hsum : (x.digitCount : Int) - x.scale - 1 = (x.digitCount - 1) + -x.scale := by ring
    rw [if_neg Bool.false_ne_true, hsum, zpow_add₀ ten_ne_zero]
    exact mul_le_mul_of_nonneg_right hlow hpos.le
  · have hsum : (x.digitCount : Int) - x.scale - 1 + 1 = x.digitCount + -x.scale := by ring
    rw [if_neg Bool.false_ne_true, hsum, zpow_add₀ ten_ne_zero]
    exact mul_lt_mul_of_pos_right hhigh hpos

/-- The leading digit of an integer stands before the point, and within the digits that it has. -/
theorem adjustedExponent_whole {d : Nat} (hx : x.toRat = k) (hk : k.natAbs < 10 ^ d) (hd : 1 ≤ d) :
    0 ≤ x.adjustedExponent ∧ x.adjustedExponent < d := by
  by_cases hzero : x.toRat = 0
  · have hz : x.isZero = true := beq_iff_eq.2 (mantissa_eq_zero hzero)
    rw [adjustedExponent, hz, if_pos rfl]
    omega
  · obtain ⟨hlow, hhigh⟩ := adjustedExponent_bounds hzero
    have habs : |x.toRat| = (k.natAbs : ℚ) := by
      rw [hx, ← Int.cast_abs, Nat.cast_natAbs]
    have hk0 : k ≠ 0 := by
      rintro rfl
      exact hzero hx
    constructor
    · have hone : (10 : ℚ) ^ (0 : Int) ≤ |x.toRat| := by
        rw [zpow_zero, habs]
        exact_mod_cast Int.natAbs_pos.2 hk0
      have := (zpow_lt_zpow_iff_right₀ (by norm_num : (1 : ℚ) < 10)).1 (hone.trans_lt hhigh)
      omega
    · have hpow : |x.toRat| < (10 : ℚ) ^ (d : Int) := by
        rw [habs, zpow_natCast]
        exact_mod_cast hk
      exact (zpow_lt_zpow_iff_right₀ (by norm_num : (1 : ℚ) < 10)).1 (hlow.trans_lt hpow)

theorem inRange_of_whole (hx : x.toRat = k) (hk : Fits p k) : x.inRange = true := by
  have hlt : k.natAbs < 10 ^ maxExponent :=
    Nat.lt_of_lt_of_le hk (Nat.pow_le_pow_right (by decide) (Nat.min_le_right _ _))
  have hadj := adjustedExponent_whole hx hlt (by decide)
  rw [inRange, decide_eq_true_eq]
  omega

/-! Rounding -/

theorem flush_of_whole (hx : x.toRat = k) (hk : Fits p k) : flush x = x := by
  have hlt : k.natAbs < 10 ^ maxExponent :=
    Nat.lt_of_lt_of_le hk (Nat.pow_le_pow_right (by decide) (Nat.min_le_right _ _))
  have hadj := adjustedExponent_whole hx hlt (by decide)
  rw [flush, if_neg]
  omega

theorem divide_of_dvd (mode : Rounding) {n d : Int} (h : d ∣ n) : mode.divide n d = n.tdiv d := by
  rw [Rounding.divide, if_pos (Int.tmod_eq_zero_of_dvd h)]

/-- Dropping digits of an integer that are all zeros keeps it. -/
theorem toRat_dropDigits {d : Nat} (hx : x.toRat = k) (hd : (d : Int) ≤ x.scale) (mode : Rounding) :
    (x.dropDigits d mode).toRat = k := by
  have hm := mantissa_eq_mul hx (by omega)
  have hsplit : x.mantissa = k * 10 ^ (x.scale.toNat - d) * (Nat.pow 10 d : Nat) := by
    rw [hm, mul_assoc]
    congr 1
    have hsum : x.scale.toNat = (x.scale.toNat - d) + d := by omega
    conv_lhs => rw [hsum, pow_add]
    simp
  have hpos : ((Nat.pow 10 d : Nat) : Int) ≠ 0 := by
    exact_mod_cast Nat.ne_of_gt (Nat.pow_pos (by decide))
  rw [dropDigits, divide_of_dvd mode ⟨_, hsplit.trans (mul_comm _ _)⟩, hsplit,
    Int.mul_tdiv_cancel _ hpos, toRat]
  have hexp : -(x.scale - (d : Int)) = -((x.scale.toNat - d : Nat) : Int) := by omega
  dsimp only
  rw [hexp, Int.cast_mul, Int.cast_pow, Int.cast_ofNat, ← zpow_natCast, mul_assoc,
    ← zpow_add₀ ten_ne_zero, add_neg_cancel, zpow_zero, mul_one]

/-- An integer that a precision has room for is not changed by rounding. -/
theorem toRat_rounded (hx : x.toRat = k) (hk : Fits p k) : (x.rounded p).toRat = k := by
  have hlt : k.natAbs < 10 ^ p.digits :=
    Nat.lt_of_lt_of_le hk (Nat.pow_le_pow_right (by decide) (Nat.min_le_left _ _))
  rw [rounded]
  split
  · rw [flush_of_whole hx hk, hx]
  · rename_i hcount
    have hadj := adjustedExponent_whole hx hlt p.digits_pos
    have hdrop : (x.dropDigits (x.digitCount - p.digits) p.rounding).toRat = k := by
      have hz : ¬ x.isZero = true := by
        intro hz
        have hone : x.digitCount ≤ 1 := by
          rw [digitCount, beq_iff_eq.1 hz]
          exact Digits.count_le_of_lt (by decide) (Nat.le_refl 1)
        have := p.digits_pos
        omega
      apply toRat_dropDigits hx
      rw [adjustedExponent, if_neg hz] at hadj
      omega
    rw [flush_of_whole hdrop hk, hdrop]

/-! Sums and products -/

theorem toRat_add (hx : x.toRat = a) (hy : y.toRat = b) (ha : Fits p a) (hb : Fits p b)
    (hab : Fits p (a + b)) : (x.add y p).toRat = ((a + b : Int) : ℚ) := by
  have hexact : ((x.dominant? y p).getD (x.exactAdd y)).toRat = ((a + b : Int) : ℚ) := by
    have hsum : (x.exactAdd y).toRat = ((a + b : Int) : ℚ) := by
      rw [toRat_exactAdd, hx, hy, Int.cast_add]
    unfold dominant?
    split
    · rename_i hz
      rw [Option.getD_some, ← hsum, toRat_exactAdd, toRat_eq_zero (beq_iff_eq.1 hz), zero_add]
    · split
      · rename_i hz
        rw [Option.getD_some, ← hsum, toRat_exactAdd, toRat_eq_zero (beq_iff_eq.1 hz), add_zero]
      · have hle : 10 ^ min p.digits maxExponent ≤ 10 ^ p.digits :=
          Nat.pow_le_pow_right (by decide) (Nat.min_le_left _ _)
        have hadjx := adjustedExponent_whole hx (Nat.lt_of_lt_of_le ha hle) p.digits_pos
        have hadjy := adjustedExponent_whole hy (Nat.lt_of_lt_of_le hb hle) p.digits_pos
        dsimp only
        rw [if_neg (by omega), if_neg (by omega)]
        exact hsum
  rw [add]
  exact toRat_rounded hexact hab

theorem toRat_mul (hx : x.toRat = a) (hy : y.toRat = b) (hab : Fits p (a * b)) :
    (x.mul y p).toRat = ((a * b : Int) : ℚ) := by
  have hexact : (x.exactMul y).toRat = ((a * b : Int) : ℚ) := by
    rw [toRat_exactMul, hx, hy, Int.cast_mul]
  exact toRat_rounded hexact hab

theorem toRat_sub (hx : x.toRat = a) (hy : y.toRat = b) (ha : Fits p a) (hb : Fits p b)
    (hab : Fits p (a - b)) : (x.sub y p).toRat = ((a - b : Int) : ℚ) := by
  have hneg : y.neg.toRat = ((-b : Int) : ℚ) := by
    rw [toRat_neg, hy, Int.cast_neg]
  have hb' : Fits p (-b) := by
    rw [Fits, Int.natAbs_neg]
    exact hb
  rw [sub, sub_eq_add_neg]
  exact toRat_add hx hneg ha hb' (by rwa [← sub_eq_add_neg])

end Decimal
end Reporting
