import Mathlib.Algebra.Order.Round
import Reporting.Proofs.Decimal.Fixed
/-!
The integers among the decimal numbers, and the ones with 64 binary digits that numbers are cut off or rounded to.
What counts of digits decide beforehand is what the digits themselves would decide.
-/
namespace Reporting

variable {mode : Rounding} {v : ℚ} {z : Int} {n : Nat}

/-! Rounding to an integer -/

/-- The nearest integer, of two that are equally near the even one. -/
def halfEven (v : ℚ) : Int := if Int.fract v = 1 / 2 then 2 * (⌈v⌉ / 2) else round v

theorem halfEven_intCast (z : Int) : halfEven z = z := by
  rw [halfEven, Int.fract_intCast, if_neg (by norm_num), round_intCast]

theorem Rounding.RoundsTo.eq_halfEven (h : nearest.RoundsTo v z) : z = halfEven v := by
  obtain rfl | ⟨hne, hbelow, habove, heven⟩ := h
  · exact (halfEven_intCast z).symm
  · have hceil : ⌈v⌉ = ⌊v⌋ + 1 := by
      rw [Int.ceil_eq_floor_add_one_iff_notMem]
      rintro ⟨k, hk⟩
      exact hne k hk.symm
    have hcast : (⌈v⌉ : ℚ) = ⌊v⌋ + 1 := by exact_mod_cast hceil
    have hfract := Int.self_sub_floor v
    rw [hcast] at hbelow habove heven
    rw [halfEven, round]
    obtain hlt | heq | hgt := lt_trichotomy (Int.fract v) (1 / 2)
    · rw [if_neg hlt.ne, if_pos (by linarith)]
      exact_mod_cast hbelow (by linarith)
    · obtain ⟨hside, k, hk⟩ := heven (by linarith)
      rw [add_sub_cancel_left, mul_one] at hk
      have hside : z = ⌊v⌋ ∨ z = ⌊v⌋ + 1 := by exact_mod_cast hside
      have hk : z = 2 * k := by exact_mod_cast hk
      rw [if_pos heq, hceil]
      omega
    · rw [if_neg hgt.ne', if_neg (by linarith), hceil]
      exact_mod_cast habove (by linarith)

/-- The integer that a mode makes of a number, as a function of the number. -/
def Rounding.toInteger : Rounding → ℚ → Int
  | nearest, v => halfEven v
  | towardZero, v => truncate v
  | up, v => ⌈v⌉
  | down, v => ⌊v⌋
  | awayFromZero, v => outward v

theorem Rounding.RoundsTo.eq_toInteger (h : mode.RoundsTo v z) : z = mode.toInteger v := by
  cases mode with
  | nearest => exact h.eq_halfEven
  | towardZero => exact h.eq_truncate
  | up => exact h.eq_ceil
  | down => exact h.eq_floor
  | awayFromZero => exact h.eq_outward

theorem Rounding.toInteger_intCast (mode : Rounding) (z : Int) : mode.toInteger z = z :=
  (RoundsTo.eq_toInteger (.inl rfl)).symm

theorem le_natAbs_truncate (h : (n : ℚ) ≤ |v|) : n ≤ (truncate v).natAbs := by
  have hlt : (n : Int) < |truncate v| + 1 := by exact_mod_cast h.trans_lt (abs_lt_truncate v)
  rw [Int.abs_eq_natAbs] at hlt
  omega

namespace Decimal

variable {x : Decimal}

/-! Integers -/

/-- An integer has only zeros behind its point. -/
theorem exists_toRat_iff (hscale : 0 ≤ x.scale) :
    (∃ k : Int, x.toRat = k) ↔ 10 ^ x.scale.toNat ∣ x.mantissa.natAbs := by
  rw [← Int.natCast_dvd, Nat.cast_pow, Nat.cast_ofNat]
  constructor
  · rintro ⟨k, hk⟩
    exact ⟨k, (mantissa_eq_mul hk hscale).trans (mul_comm _ _)⟩
  · rintro ⟨k, hk⟩
    have hcast : (x.mantissa : ℚ) = k * 10 ^ x.scale := by
      rw [hk, ← Int.toNat_of_nonneg hscale, zpow_natCast, Int.toNat_natCast, mul_comm]
      push_cast
      rfl
    exact ⟨k, by rw [toRat, hcast, mul_pow_ten_cancel]⟩

theorem isInteger_iff : x.isInteger = true ↔ ∃ k : Int, x.toRat = k := by
  unfold isInteger
  split
  · rename_i h
    refine iff_of_true rfl ?_
    obtain hscale | hm := h
    · exact ⟨_, (mantissaAt_zero_cast hscale).symm⟩
    · exact ⟨0, by rw [toRat_eq_zero hm, Int.cast_zero]⟩
  · rename_i h
    obtain ⟨hscale, hm⟩ := not_or.1 h
    rw [exists_toRat_iff (not_le.1 hscale).le]
    split
    · -- all digits are behind the point, and they are not all zeros
      rename_i hcount
      refine iff_of_false Bool.false_ne_true (Nat.not_dvd_of_pos_of_lt (Int.natAbs_pos.2 hm) ?_)
      exact (Digits.lt_pow_count _).trans_le (Nat.pow_le_pow_right (by decide) hcount)
    · rw [beq_iff_eq]
      exact Nat.dvd_iff_mod_eq_zero.symm

/-! Integers of 64 binary digits -/

theorem mantissaAt_trunc (x : Decimal) : x.trunc.mantissaAt 0 = truncate x.toRat := by
  have hcast := mantissaAt_zero_cast (x.scale_roundPlaces_le 0 .towardZero)
  exact_mod_cast hcast.trans x.toRat_trunc

/-- A number with more than nineteen digits before its point is too large. -/
theorem not_fits64_truncate (h : 18 < x.adjustedExponent) : ¬ fits64 (truncate x.toRat) = true := by
  have hx : x.toRat ≠ 0 := by
    intro hzero
    have hz : x.isZero = true := beq_iff_eq.2 (mantissa_eq_zero hzero)
    rw [adjustedExponent, if_pos hz] at h
    omega
  have hlarge : ((10 ^ 19 : Nat) : ℚ) ≤ |x.toRat| := by
    rw [natCast_pow_ten]
    exact (zpow_le_zpow_right₀ (by norm_num) (by omega)).trans (adjustedExponent_bounds hx).1
  have hle := le_natAbs_truncate hlarge
  rw [fits64_iff]
  omega

theorem toInt64?_eq (x : Decimal) :
    x.toInt64? = if fits64 (truncate x.toRat) then some (truncate x.toRat) else none := by
  rw [toInt64?]
  split
  · rename_i h
    rw [if_neg (not_fits64_truncate h)]
  · rw [mantissaAt_trunc]

theorem toInt64Rounded?_eq (x : Decimal) (p : Precision) : x.toInt64Rounded? p =
    if fits64 (p.rounding.toInteger x.toRat) then some (p.rounding.toInteger x.toRat) else none := by
  obtain ⟨z, hz, hround⟩ := x.exists_roundsTo_zero p.rounding
  rw [toInt64Rounded?, toInt64?_eq, rint, hz, truncate_intCast, hround.eq_toInteger]

/-- The least integer of 64 binary digits and more behind its point, and half a unit above the greatest one. -/
example : toInt64? ⟨-92233720368547758089, 1⟩ = some (-9223372036854775808) ∧
    toInt64Rounded? ⟨92233720368547758075, 1⟩ { digits := 3, rounding := .nearest } = none ∧
    toInt64Rounded? ⟨92233720368547758075, 1⟩ { digits := 3, rounding := .down } =
      some 9223372036854775807 := by decide +kernel

end Decimal
end Reporting
