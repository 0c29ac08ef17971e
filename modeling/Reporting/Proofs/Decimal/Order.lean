import Mathlib.Algebra.Order.Field.Basic
import Mathlib.Data.Rat.Cast.Order
import Mathlib.Tactic.NormNum
import Reporting.Decimal.Basic
/-!
The order of decimal numbers is that of the rational numbers that they stand for.
-/
namespace Reporting.Decimal

variable {x y : Decimal} {s : Int}

/-- The rational number that a decimal number stands for. -/
def toRat (x : Decimal) : ℚ := x.mantissa * (10 : ℚ) ^ (-x.scale)

theorem mantissaAt_cast (h : x.scale ≤ s) : (x.mantissaAt s : ℚ) = x.toRat * (10 : ℚ) ^ s := by
  have hs : (((s - x.scale).toNat : Nat) : Int) = s - x.scale := Int.toNat_of_nonneg (by omega)
  have hpow : ((10 ^ (s - x.scale).toNat : Nat) : ℚ) = (10 : ℚ) ^ (s - x.scale) := by
    rw [Nat.cast_pow, Nat.cast_ofNat, ← zpow_natCast, hs]
  rw [mantissaAt_eq, toRat, mul_assoc, ← zpow_add₀ (by norm_num), neg_add_eq_sub, ← hpow]
  exact_mod_cast rfl

theorem mantissaAt_zero_cast (h : x.scale ≤ 0) : (x.mantissaAt 0 : ℚ) = x.toRat := by
  rw [mantissaAt_cast h, zpow_zero, mul_one]

theorem compare_cases (x y : Decimal) :
    ∃ a b : Int, x.compare y = Ord.compare a b ∧ (a < b ↔ x.toRat < y.toRat) ∧
      (b < a ↔ y.toRat < x.toRat) := by
  have hten (n : Int) : (0 : ℚ) < 10 ^ n := zpow_pos (by norm_num) n
  unfold compare
  split
  · rename_i h
    refine ⟨_, _, rfl, ?_⟩
    have hpos (z : Decimal) : 0 < z.mantissa ↔ 0 < z.toRat := by
      rw [toRat, mul_pos_iff_of_pos_right (hten _), Int.cast_pos]
    have hneg (z : Decimal) : z.mantissa < 0 ↔ z.toRat < 0 := by
      rw [toRat, ← not_le, ← not_le, mul_nonneg_iff_of_pos_right (hten _), Int.cast_nonneg_iff]
    have hzero {z : Decimal} (hz : z.mantissa = 0) : z.toRat = 0 := by
      rw [toRat, hz, Int.cast_zero, zero_mul]
    rcases h with h | h
    · rw [h, hzero h]
      exact ⟨hpos y, hneg y⟩
    · rw [h, hzero h]
      exact ⟨hneg x, hpos x⟩
  · refine ⟨_, _, rfl, ?_⟩
    have hx := mantissaAt_cast (x := x) (Int.le_max_left x.scale y.scale)
    have hy := mantissaAt_cast (x := y) (Int.le_max_right x.scale y.scale)
    have hpos := hten (max x.scale y.scale)
    constructor
    · rw [← Int.cast_lt (R := ℚ), hx, hy, mul_lt_mul_iff_left₀ hpos]
    · rw [← Int.cast_lt (R := ℚ), hx, hy, mul_lt_mul_iff_left₀ hpos]

theorem compare_eq_lt : x.compare y = .lt ↔ x.toRat < y.toRat := by
  obtain ⟨a, b, h, hlt, -⟩ := compare_cases x y
  rw [h, compare_lt_iff_lt, hlt]

theorem compare_eq_gt : x.compare y = .gt ↔ y.toRat < x.toRat := by
  obtain ⟨a, b, h, -, hgt⟩ := compare_cases x y
  rw [h, compare_gt_iff_gt]
  exact hgt

end Reporting.Decimal
