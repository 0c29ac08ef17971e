import Reporting.Proofs.Decimal.Rounded
/-!
Rounding to decimal places rounds the number to an integer in units of the last place, also where more digits
are dropped than the mantissa has.
-/
namespace Reporting

variable {mode : Rounding} {u v lo hi r : ℚ} {z : Int}

/-- A mode only looks at the sign of a number and at which of the neighbours is nearer. -/
theorem Rounding.Prescribes.congr (h : mode.Prescribes u lo hi r) (hsign : 0 ≤ u ↔ 0 ≤ v)
    (hbelow : u - lo < hi - u ↔ v - lo < hi - v) (habove : hi - u < u - lo ↔ hi - v < v - lo) :
    mode.Prescribes v lo hi r := by
  cases mode with
  | nearest =>
    refine ⟨fun hlt => h.1 (hbelow.2 hlt), fun hlt => h.2.1 (habove.2 hlt), fun heq => h.2.2 ?_⟩
    exact le_antisymm (not_lt.1 (habove.not.2 heq.not_gt)) (not_lt.1 (hbelow.not.2 heq.not_lt))
  | towardZero => simpa only [Prescribes, hsign] using h
  | up => exact h
  | down => exact h
  | awayFromZero => simpa only [Prescribes, hsign] using h

/-- Numbers of one sign that are nearer to zero than half way to one are rounded to the same integer. -/
theorem Rounding.Prescribes.of_small (h : mode.Prescribes u ⌊u⌋ ⌈u⌉ z) (hu : |u| < 1 / 2) (hv : |v| < 1 / 2)
    (hsign : 0 < u ∧ 0 < v ∨ u < 0 ∧ v < 0) : mode.Prescribes v ⌊v⌋ ⌈v⌉ z := by
  obtain ⟨hulow, huhigh⟩ := abs_lt.1 hu
  obtain ⟨hvlow, hvhigh⟩ := abs_lt.1 hv
  obtain ⟨hupos, hvpos⟩ | ⟨huneg, hvneg⟩ := hsign
  · have hround (w : ℚ) (hpos : 0 < w) (hhigh : w < 1 / 2) : ⌊w⌋ = 0 ∧ ⌈w⌉ = 1 :=
      ⟨Int.floor_eq_iff.2 (by push_cast; constructor <;> linarith),
        Int.ceil_eq_iff.2 (by push_cast; constructor <;> linarith)⟩
    rw [(hround u hupos huhigh).1, (hround u hupos huhigh).2] at h
    rw [(hround v hvpos hvhigh).1, (hround v hvpos hvhigh).2]
    push_cast at h ⊢
    exact h.congr (iff_of_true hupos.le hvpos.le) (iff_of_true (by linarith) (by linarith))
      (iff_of_false (by linarith) (by linarith))
  · have hround (w : ℚ) (hlow : -(1 / 2) < w) (hneg : w < 0) : ⌊w⌋ = -1 ∧ ⌈w⌉ = 0 :=
      ⟨Int.floor_eq_iff.2 (by push_cast; constructor <;> linarith),
        Int.ceil_eq_iff.2 (by push_cast; constructor <;> linarith)⟩
    rw [(hround u hulow huneg).1, (hround u hulow huneg).2] at h
    rw [(hround v hvlow hvneg).1, (hround v hvlow hvneg).2]
    push_cast at h ⊢
    exact h.congr (iff_of_false huneg.not_ge hvneg.not_ge) (iff_of_false (by linarith) (by linarith))
      (iff_of_true (by linarith) (by linarith))

/-- The integer that a mode makes of a number. -/
def Rounding.RoundsTo (mode : Rounding) (v : ℚ) (z : Int) : Prop :=
  v = z ∨ (∀ k : Int, v ≠ k) ∧ mode.Prescribes v ⌊v⌋ ⌈v⌉ z

theorem Rounding.RoundsTo.of_small (h : mode.RoundsTo u z) (hu : |u| < 1 / 2) (hv : |v| < 1 / 2)
    (hsign : 0 < u ∧ 0 < v ∨ u < 0 ∧ v < 0) : mode.RoundsTo v z := by
  have hint (w : ℚ) (hsmall : |w| < 1 / 2) (hne : w ≠ 0) (k : Int) : w ≠ k := by
    rintro rfl
    have hone : 1 ≤ |k| := Int.one_le_abs fun hk => hne (by rw [hk, Int.cast_zero])
    have hcast : (1 : ℚ) ≤ |(k : ℚ)| := by exact_mod_cast hone
    linarith
  obtain ⟨hune, hvne⟩ : u ≠ 0 ∧ v ≠ 0 := by
    obtain ⟨hu, hv⟩ | ⟨hu, hv⟩ := hsign
    · exact ⟨hu.ne', hv.ne'⟩
    · exact ⟨hu.ne, hv.ne⟩
  obtain h | ⟨-, h⟩ := h
  · exact absurd h (hint u hu hune z)
  · exact .inr ⟨hint v hv hvne, h.of_small hu hv hsign⟩

/-- The integer part. -/
def truncate (v : ℚ) : Int := if 0 ≤ v then ⌊v⌋ else ⌈v⌉

theorem truncate_intCast (z : Int) : truncate z = z := by
  unfold truncate
  split
  · exact Int.floor_intCast z
  · exact Int.ceil_intCast z

theorem Rounding.RoundsTo.eq_truncate (h : towardZero.RoundsTo v z) : z = truncate v := by
  obtain rfl | ⟨-, h⟩ := h
  · exact (truncate_intCast z).symm
  · rw [Prescribes] at h
    unfold truncate
    split
    · rename_i hv
      rw [if_pos hv] at h
      exact_mod_cast h
    · rename_i hv
      rw [if_neg hv] at h
      exact_mod_cast h

theorem truncate_div {n d : Int} (hd : d ≠ 0) : truncate (n / d) = n.tdiv d := by
  have hdivide : Rounding.towardZero.divide n d = n.tdiv d := by
    unfold Rounding.divide
    dsimp only
    rw [ite_self]
  have hrounds : Rounding.towardZero.RoundsTo (n / d) (Rounding.towardZero.divide n d) :=
    Rounding.divide_cases _ hd
  rw [← hrounds.eq_truncate, hdivide]

namespace Decimal

variable {x : Decimal} {places : Int}

theorem scale_roundPlaces_le (x : Decimal) (places : Int) (mode : Rounding) :
    (x.roundPlaces places mode).scale ≤ places := by
  unfold roundPlaces
  split
  · assumption
  · exact le_rfl

/-- Rounding to decimal places rounds to an integer in units of the last place. -/
theorem roundPlaces_spec (h : places < x.scale) (mode : Rounding) :
    ∃ z : Int, x.roundPlaces places mode = ⟨z, places⟩ ∧ mode.RoundsTo (x.toRat * 10 ^ places) z := by
  obtain ⟨k, hk⟩ : ∃ k : Nat, x.scale = places + k := ⟨(x.scale - places).toNat, by omega⟩
  have hvalue : x.toRat * 10 ^ places = x.mantissa * 10 ^ (-(k : Int)) := by
    have hexp : -x.scale + places = -(k : Int) := by omega
    rw [toRat, mul_assoc, ← pow_ten_add, hexp]
  have hdrop : (x.scale - places).toNat = k := by omega
  have hround (n : Nat) :
      mode.RoundsTo (x.mantissa * 10 ^ (-(n : Int))) (mode.divide x.mantissa (Nat.pow 10 n)) := by
    rw [← intCast_div_pow_ten]
    exact Rounding.divide_cases mode (by exact_mod_cast (Nat.pow_pos (by decide)).ne')
  rw [roundPlaces, if_neg (by omega), hdrop, hvalue]
  refine ⟨_, rfl, ?_⟩
  obtain hle | hlt := le_or_gt k (x.digitCount + 1)
  · rw [Nat.min_eq_left hle]
    exact hround k
  · rw [Nat.min_eq_right hlt.le]
    by_cases hm : x.mantissa = 0
    · have hzero := hround (x.digitCount + 1)
      rw [hm, Int.cast_zero, zero_mul] at hzero ⊢
      exact hzero
    · have hsmall (n : Nat) (hn : x.digitCount < n) : |(x.mantissa : ℚ) * 10 ^ (-(n : Int))| < 1 / 2 := by
        have hlt : |(x.mantissa : ℚ)| < 10 ^ (x.digitCount : Int) := by
          rw [abs_intCast, zpow_natCast]
          exact_mod_cast Digits.lt_pow_count x.mantissa.natAbs
        have hle : (10 : ℚ) ^ (x.digitCount : Int) * 10 ^ (-(n : Int)) ≤ 10 ^ (-1 : Int) := by
          rw [← pow_ten_add]
          exact zpow_le_zpow_right₀ (by norm_num) (by omega)
        rw [abs_mul, abs_of_pos (pow_ten_pos _)]
        calc |(x.mantissa : ℚ)| * 10 ^ (-(n : Int))
            < 10 ^ (x.digitCount : Int) * 10 ^ (-(n : Int)) := mul_lt_mul_of_pos_right hlt (pow_ten_pos _)
          _ ≤ 10 ^ (-1 : Int) := hle
          _ < 1 / 2 := by norm_num
      refine (hround _).of_small (hsmall _ (Nat.lt_succ_self _)) (hsmall k (by omega)) ?_
      obtain hneg | hpos := lt_or_gt_of_ne hm
      · have hcast : (x.mantissa : ℚ) < 0 := by exact_mod_cast hneg
        exact .inr ⟨mul_neg_of_neg_of_pos hcast (pow_ten_pos _), mul_neg_of_neg_of_pos hcast (pow_ten_pos _)⟩
      · have hcast : (0 : ℚ) < x.mantissa := by exact_mod_cast hpos
        exact .inl ⟨mul_pos hcast (pow_ten_pos _), mul_pos hcast (pow_ten_pos _)⟩

/-- What has no more places is a multiple already, and is left as it is. -/
theorem exists_roundsTo (x : Decimal) (places : Int) (mode : Rounding) :
    ∃ z : Int, (x.roundPlaces places mode).toRat = z * 10 ^ (-places) ∧
      mode.RoundsTo (x.toRat * 10 ^ places) z := by
  obtain hscale | hscale := le_or_gt x.scale places
  · have hvalue := mantissaAt_cast hscale
    refine ⟨x.mantissaAt places, ?_, .inl hvalue.symm⟩
    rw [roundPlaces, if_pos hscale, hvalue, mul_pow_ten_cancel]
  · obtain ⟨z, hz, hround⟩ := roundPlaces_spec hscale mode
    exact ⟨z, by rw [hz, toRat], hround⟩

theorem toRat_trunc (x : Decimal) : x.trunc.toRat = truncate x.toRat := by
  obtain ⟨z, hz, hround⟩ := x.exists_roundsTo 0 .towardZero
  rw [zpow_zero, mul_one] at hround
  rw [trunc, hz, neg_zero, zpow_zero, mul_one, hround.eq_truncate]

end Decimal
end Reporting
