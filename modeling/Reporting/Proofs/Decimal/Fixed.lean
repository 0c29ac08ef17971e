import Mathlib.Algebra.Order.Floor.Semifield
import Reporting.Proofs.Decimal.Canonical
import Reporting.Proofs.Decimal.Remainder
/-!
Rounding to decimal places is correct rounding to the multiples of a power of ten, whatever the magnitude of
the number. So the integer parts are the ones of mathematics, and the text with a fixed number of decimals
writes such a multiple.
-/
namespace Reporting

variable {mode : Rounding} {u v r : ℚ} {e z : Int} {n k : Nat}

/-! Multiples of a power of ten -/

/-- `r` is `v` correctly rounded to a multiple of a power of ten: `v` itself where it is one, and otherwise
that of the multiples around it that the mode prescribes. -/
structure RoundsTens (mode : Rounding) (e : Int) (v r : ℚ) : Prop where
  exact : Tens e v → r = v
  between : ¬ Tens e v → ∃ lo hi, IsGreatest {s | Tens e s ∧ s ≤ v} lo ∧
    IsLeast {s | Tens e s ∧ v ≤ s} hi ∧ mode.Prescribes v lo hi r

theorem Tens.mul_iff : Tens e (u * 10 ^ e) ↔ ∃ k : Int, u = k := by
  simp only [Tens, mul_left_inj' (pow_ten_pos e).ne']

theorem Rounding.RoundsTo.tens (h : mode.RoundsTo u z) (e : Int) :
    RoundsTens mode e (u * 10 ^ e) (z * 10 ^ e) := by
  have hpos := pow_ten_pos e
  constructor
  · intro htens
    obtain ⟨k, hk⟩ := Tens.mul_iff.1 htens
    obtain hz | ⟨hne, -⟩ := h
    · rw [hz]
    · exact absurd hk (hne k)
  · intro htens
    obtain hz | ⟨-, hchoice⟩ := h
    · exact absurd (Tens.mul_iff.2 ⟨z, hz⟩) htens
    · refine ⟨_, _, ⟨⟨⟨_, rfl⟩, mul_le_mul_of_nonneg_right (Int.floor_le u) hpos.le⟩, ?_⟩,
        ⟨⟨⟨_, rfl⟩, mul_le_mul_of_nonneg_right (Int.le_ceil u) hpos.le⟩, ?_⟩, hchoice.mul hpos⟩
      · rintro s ⟨⟨k, rfl⟩, hle⟩
        have hk : k ≤ ⌊u⌋ := Int.le_floor.2 (le_of_mul_le_mul_right hle hpos)
        exact mul_le_mul_of_nonneg_right (by exact_mod_cast hk) hpos.le
      · rintro s ⟨⟨k, rfl⟩, hle⟩
        have hk : ⌈u⌉ ≤ k := Int.ceil_le.2 (le_of_mul_le_mul_right hle hpos)
        exact mul_le_mul_of_nonneg_right (by exact_mod_cast hk) hpos.le

/-! Integer parts -/

theorem Rounding.RoundsTo.eq_floor (h : down.RoundsTo v z) : z = ⌊v⌋ := by
  obtain rfl | ⟨-, h⟩ := h
  · exact (Int.floor_intCast z).symm
  · rw [Prescribes] at h
    exact_mod_cast h

theorem Rounding.RoundsTo.eq_ceil (h : up.RoundsTo v z) : z = ⌈v⌉ := by
  obtain rfl | ⟨-, h⟩ := h
  · exact (Int.ceil_intCast z).symm
  · rw [Prescribes] at h
    exact_mod_cast h

/-- The integer next to a number on the side away from zero. -/
def outward (v : ℚ) : Int := if 0 ≤ v then ⌈v⌉ else ⌊v⌋

theorem outward_intCast (z : Int) : outward z = z := by
  rw [outward, Int.ceil_intCast, Int.floor_intCast, ite_self]

theorem Rounding.RoundsTo.eq_outward (h : awayFromZero.RoundsTo v z) : z = outward v := by
  obtain rfl | ⟨-, h⟩ := h
  · exact (outward_intCast z).symm
  · rw [Prescribes, ← apply_ite] at h
    rw [outward]
    exact_mod_cast h

/-- The nearest integer, of two that are equally near the one away from zero. -/
def halfAway (v : ℚ) : Int := if 0 ≤ v then ⌊v + 1 / 2⌋ else ⌈v - 1 / 2⌉

theorem truncate_neg (v : ℚ) : truncate (-v) = -truncate v := by
  obtain hv | rfl | hv := lt_trichotomy v 0
  · rw [truncate, truncate, if_pos (neg_nonneg.2 hv.le), if_neg hv.not_ge, Int.floor_neg]
  · rw [neg_zero, truncate, if_pos le_rfl, Int.floor_zero]
    rfl
  · rw [truncate, truncate, if_neg (neg_neg_of_pos hv).not_ge, if_pos hv.le, Int.ceil_neg]

/-- The first digit behind the point decides which integer is the nearest one. -/
theorem halfAway_of_nonneg (hv : 0 ≤ v) : halfAway v =
    if 5 ≤ (truncate (v * 10)).natAbs % 10 then ⌈v⌉ else ⌊v⌋ := by
  have hlow := Int.floor_le v
  have hhigh := Int.lt_floor_add_one v
  have hwhole : 0 ≤ ⌊v⌋ := Int.floor_nonneg.2 hv
  have htenths : 10 * ⌊v⌋ ≤ ⌊v * 10⌋ ∧ ⌊v * 10⌋ < 10 * ⌊v⌋ + 10 := by
    rw [Int.le_floor, Int.floor_lt]
    push_cast
    constructor <;> linarith
  have hdigit : 5 ≤ ⌊v * 10⌋.natAbs % 10 ↔ (⌊v⌋ : ℚ) + 1 / 2 ≤ v := by
    have hfive : 5 ≤ ⌊v * 10⌋.natAbs % 10 ↔ 10 * ⌊v⌋ + 5 ≤ ⌊v * 10⌋ := by omega
    rw [hfive, Int.le_floor]
    push_cast
    constructor <;> intro h <;> linarith
  rw [truncate, if_pos (mul_nonneg hv (by norm_num)), halfAway, if_pos hv]
  simp only [hdigit]
  split
  · rename_i hhalf
    have hnext : ⌈v⌉ = ⌊v⌋ + 1 := by
      rw [Int.ceil_eq_iff]
      push_cast
      constructor <;> linarith
    rw [hnext, Int.floor_eq_iff]
    push_cast
    constructor <;> linarith
  · rename_i hhalf
    rw [Int.floor_eq_iff]
    constructor <;> linarith

theorem halfAway_eq (v : ℚ) : halfAway v =
    if 5 ≤ (truncate (v * 10)).natAbs % 10 then outward v else truncate v := by
  -- all of these take a number below zero to the negative of what they take its size to
  obtain hv | hv := le_or_gt 0 v
  · rw [halfAway_of_nonneg hv, outward, if_pos hv, truncate, truncate, if_pos hv]
  · have hback : halfAway v = -halfAway (-v) := by
      rw [halfAway, halfAway, if_neg hv.not_ge, if_pos (neg_nonneg.2 hv.le), ← Int.ceil_neg]
      ring_nf
    rw [hback, halfAway_of_nonneg (neg_nonneg.2 hv.le), neg_mul, truncate_neg, Int.natAbs_neg, outward,
      if_neg hv.not_ge, truncate.eq_def v, if_neg hv.not_ge, Int.ceil_neg, Int.floor_neg]
    split <;> exact neg_neg _

namespace Decimal

variable {x : Decimal}

theorem roundsTens_roundPlaces (x : Decimal) (places : Int) (mode : Rounding) :
    RoundsTens mode (-places) x.toRat (x.roundPlaces places mode).toRat := by
  obtain ⟨z, hz, hround⟩ := x.exists_roundsTo places mode
  have htens := hround.tens (-places)
  rwa [← hz, mul_pow_ten_cancel] at htens

/-- Rounding to places of which there are none makes the integer that the mode makes. -/
theorem exists_roundsTo_zero (x : Decimal) (mode : Rounding) :
    ∃ z : Int, (x.roundPlaces 0 mode).toRat = z ∧ mode.RoundsTo x.toRat z := by
  obtain ⟨z, hz, hround⟩ := x.exists_roundsTo 0 mode
  rw [neg_zero, zpow_zero, mul_one] at hz
  rw [zpow_zero, mul_one] at hround
  exact ⟨z, hz, hround⟩

theorem toRat_floor (x : Decimal) : x.floor.toRat = ⌊x.toRat⌋ := by
  obtain ⟨z, hz, hround⟩ := x.exists_roundsTo_zero .down
  rw [floor, hz, hround.eq_floor]

theorem toRat_ceil (x : Decimal) : x.ceil.toRat = ⌈x.toRat⌉ := by
  obtain ⟨z, hz, hround⟩ := x.exists_roundsTo_zero .up
  rw [ceil, hz, hround.eq_ceil]

theorem toRat_round (x : Decimal) : x.round.toRat = halfAway x.toRat := by
  rw [round]
  split
  · rename_i hscale
    rw [← mantissaAt_zero_cast hscale, halfAway_eq, outward_intCast, truncate_intCast, ite_self]
  · obtain ⟨z, hz, hround⟩ := x.exists_roundsTo 1 .towardZero
    obtain ⟨w, hw, haway⟩ := x.exists_roundsTo_zero .awayFromZero
    have hdigits : (x.roundPlaces 1 .towardZero).mantissaAt 1 = truncate (x.toRat * 10) := by
      have hcast := mantissaAt_cast (x.scale_roundPlaces_le 1 .towardZero)
      rw [hz, mul_pow_ten_neg_cancel] at hcast
      rw [zpow_one] at hround
      rw [← hround.eq_truncate]
      exact_mod_cast hcast
    rw [halfAway_eq, hdigits]
    split
    · rw [hw, haway.eq_outward]
    · exact toRat_trunc x

/-! Texts -/

theorem count_div_pow (n k : Nat) : Digits.count (n / 10 ^ k) = max (Digits.count n) (k + 1) - k := by
  have hpos : 0 < 10 ^ k := Nat.pow_pos (by decide)
  have hlt := Digits.lt_pow_count n
  have hcount := Digits.count_pos (n / 10 ^ k)
  apply le_antisymm
  · apply Digits.count_le_of_lt _ (by omega)
    rw [Nat.div_lt_iff_lt_mul hpos, ← Nat.pow_add]
    exact hlt.trans_le (Nat.pow_le_pow_right (by decide) (by omega))
  · by_contra hless
    have hsmall : n < 10 ^ (Digits.count (n / 10 ^ k) + k) := by
      rw [Nat.pow_add, ← Nat.div_lt_iff_lt_mul hpos]
      exact Digits.lt_pow_count _
    have := Digits.count_le_of_lt hsmall (by omega)
    omega

theorem wholeDigits_eq (n places : Nat) : wholeDigits n places = Digits.ofNat (n / 10 ^ places) := by
  rw [wholeDigits, Digits.ofNat, count_div_pow]

theorem toList_renderFixed (x : Decimal) (mode : Rounding) (hn : n ≤ maxExponent)
    (hr : (x.roundPlaces n mode).toRat = r) : ∃ fraction,
      (x.renderFixed n mode).toList = plainText (decide (r < 0)) (Digits.ofNat ⌊|r|⌋₊) fraction ∧
      fraction.length = n ∧ fraction.all Char.isDigit = true ∧
      r = withSign (decide (r < 0)) (Digits.value (Digits.ofNat ⌊|r|⌋₊ ++ fraction)) * 10 ^ (-(n : Int)) := by
  have hcast := mantissaAt_cast (x.scale_roundPlaces_le n mode)
  have hplaces : min n maxExponent = n := Nat.min_eq_left hn
  rw [renderFixed, hplaces, String.toList_ofList, renderAt_eq, wholeDigits_eq]
  generalize (x.roundPlaces n mode).mantissaAt n = m at hcast
  have hvalue : r = m * 10 ^ (-(n : Int)) := by
    rw [hcast, hr, mul_pow_ten_cancel]
  have hsign : r < 0 ↔ m < 0 := by
    rw [hvalue, ← not_le, ← not_le, mul_nonneg_iff_of_pos_right (pow_ten_pos _), Int.cast_nonneg_iff]
  have hwhole : ⌊|r|⌋₊ = m.natAbs / 10 ^ n := by
    have habs : |r| = (m.natAbs : ℚ) / ((10 ^ n : Nat) : ℚ) := by
      rw [hvalue, abs_mul, abs_of_pos (pow_ten_pos _), abs_intCast, natCast_pow_ten, zpow_neg, div_eq_mul_inv]
    rw [habs, Nat.floor_div_natCast, Nat.floor_natCast]
  refine ⟨Digits.last n m.natAbs, ?_, Digits.length_last _ _, Digits.all_isDigit_last _ _, ?_⟩
  · rw [decide_eq_decide.2 hsign, hwhole]
  · rw [decide_eq_decide.2 hsign, hwhole, ← wholeDigits_eq, value_wholeDigits, value_withSign]
    exact hvalue

/-- Every number is rounded correctly to any number of decimal places, to the left of the point as well as to
the right of it. The integer parts are floor, ceiling and the part before the point, and the nearest integer
with halves away from zero. The text with a fixed number of decimals writes the rounded number with all of
them, and with a sign only where that is below zero. -/
theorem roundPlaces_correct (x : Decimal) :
    (∀ places mode, RoundsTens mode (-places) x.toRat (x.roundPlaces places mode).toRat) ∧
    x.floor.toRat = ⌊x.toRat⌋ ∧ x.ceil.toRat = ⌈x.toRat⌉ ∧ x.trunc.toRat = truncate x.toRat ∧
    x.round.toRat = halfAway x.toRat ∧
    ∀ n ≤ maxExponent, ∀ mode, ∃ r fraction, (x.roundPlaces n mode).toRat = r ∧
      (x.renderFixed n mode).toList = plainText (decide (r < 0)) (Digits.ofNat ⌊|r|⌋₊) fraction ∧
      fraction.length = n ∧ fraction.all Char.isDigit = true ∧
      r = withSign (decide (r < 0)) (Digits.value (Digits.ofNat ⌊|r|⌋₊ ++ fraction)) * 10 ^ (-(n : Int)) := by
  refine ⟨x.roundsTens_roundPlaces, x.toRat_floor, x.toRat_ceil, x.toRat_trunc, x.toRat_round,
    fun n hn mode => ?_⟩
  obtain ⟨fraction, htext⟩ := x.toList_renderFixed mode hn rfl
  exact ⟨_, fraction, rfl, htext⟩

/-- A number with fewer digits than are dropped, which loses its sign, and one half way between integers. -/
theorem roundPlaces_correct_of_small :
    let x : Decimal := ⟨-4, 5⟩
    x.floor.toRat = -1 ∧ x.ceil.toRat = 0 ∧ (⟨-25, 1⟩ : Decimal).round.toRat = -3 ∧
      x.renderFixed 2 .nearest = "0.00" ∧ x.renderFixed 2 .down = "-0.01" ∧
      ∃ r fraction, (x.roundPlaces 2 .down).toRat = r ∧ (x.renderFixed 2 .down).toList =
        plainText (decide (r < 0)) (Digits.ofNat ⌊|r|⌋₊) fraction ∧ fraction.length = 2 := by
  intro x
  obtain ⟨-, hfloor, hceil, -, -, htext⟩ := roundPlaces_correct x
  obtain ⟨-, -, -, -, hround, -⟩ := roundPlaces_correct ⟨-25, 1⟩
  have hx : x.toRat = -(1 / 25000) := by norm_num [x, toRat]
  have hhalf : (⟨-25, 1⟩ : Decimal).toRat = -(5 / 2) := by norm_num [toRat]
  rw [hx] at hfloor hceil
  rw [hhalf] at hround
  obtain ⟨r, fraction, hr, hlist, hlength, -⟩ := htext 2 (by decide) .down
  refine ⟨?_, ?_, ?_, by decide +kernel, by decide +kernel, r, fraction, hr, hlist, hlength⟩
  · rw [hfloor]
    norm_num
  · rw [hceil]
    norm_num
  · rw [hround]
    norm_num [halfAway]

end Decimal
end Reporting
