import Reporting.Proofs.Decimal.Significant
import Reporting.Proofs.Decimal.Whole
/-!
Rounding to the digits of a precision is correct rounding, up to numbers that are too small to be told
from zero.
-/
namespace Reporting

variable {p : Nat} {mode : Rounding} {n d : Int}

/-! Rounded quotients of integers -/

namespace Rounding

/-- The exact quotient lies on one side of the truncated one, as its sign tells, by the remainder. -/
theorem quotient_cases (hd : d ≠ 0) (h : ¬ d ∣ n) :
    ∃ t : ℚ, t = (n.tmod d).natAbs / d.natAbs ∧ 0 < t ∧ t < 1 ∧
      (((n < 0) != (d < 0) : Bool) = false ∧ 0 < (n / d : ℚ) ∧ (n / d : ℚ) = n.tdiv d + t ∨
        ((n < 0) != (d < 0) : Bool) = true ∧ (n / d : ℚ) < 0 ∧ (n / d : ℚ) = n.tdiv d - t) := by
  have hr : n.tmod d ≠ 0 := fun hr => h (Int.dvd_of_tmod_eq_zero hr)
  have hlt : (n.tmod d).natAbs < d.natAbs := by
    rw [Int.natAbs_tmod]
    exact Nat.mod_lt _ (Int.natAbs_pos.2 hd)
  have hpos : 0 < (d.natAbs : ℚ) := by exact_mod_cast Int.natAbs_pos.2 hd
  have hrpos : 0 < ((n.tmod d).natAbs : ℚ) := by exact_mod_cast Int.natAbs_pos.2 hr
  have hd' : (d : ℚ) ≠ 0 := by exact_mod_cast hd
  have hquot : (n / d : ℚ) = n.tdiv d + n.tmod d / d := by
    have hsum : ((n.tdiv d * d + n.tmod d : Int) : ℚ) = n := by rw [Int.tdiv_mul_add_tmod]
    rw [← hsum]
    push_cast
    field_simp
  have hn : n ≠ 0 := by
    rintro rfl
    exact h (Int.dvd_zero d)
  refine ⟨_, rfl, div_pos hrpos hpos, (div_lt_one hpos).2 (by exact_mod_cast hlt), ?_⟩
  rw [hquot, Nat.cast_natAbs, Nat.cast_natAbs, Int.cast_abs, Int.cast_abs, ← hquot]
  obtain hn | hn := lt_or_gt_of_ne hn
  · have hn' : (n : ℚ) < 0 := by exact_mod_cast hn
    have hneg := Int.tmod_nonneg d (a := -n) (by omega)
    rw [Int.neg_tmod] at hneg
    have hr' : ((n.tmod d : Int) : ℚ) ≤ 0 := by exact_mod_cast (by omega : n.tmod d ≤ 0)
    rw [abs_of_nonpos hr']
    obtain hd | hd := lt_or_gt_of_ne hd
    · have hdneg : (d : ℚ) < 0 := by exact_mod_cast hd
      rw [abs_of_neg hdneg, neg_div_neg_eq]
      exact .inl ⟨by simp [hn, hd], div_pos_of_neg_of_neg hn' hdneg, hquot⟩
    · have hdpos : (0 : ℚ) < d := by exact_mod_cast hd
      rw [abs_of_pos hdpos, neg_div, sub_neg_eq_add]
      exact .inr ⟨by simp [hn, hd.not_gt], div_neg_of_neg_of_pos hn' hdpos, hquot⟩
  · have hn' : (0 : ℚ) < n := by exact_mod_cast hn
    have hr' : 0 ≤ ((n.tmod d : Int) : ℚ) := by exact_mod_cast Int.tmod_nonneg d hn.le
    rw [abs_of_nonneg hr']
    obtain hd | hd := lt_or_gt_of_ne hd
    · have hdneg : (d : ℚ) < 0 := by exact_mod_cast hd
      rw [abs_of_neg hdneg, div_neg, sub_neg_eq_add]
      exact .inr ⟨by simp [hn.not_gt, hd], div_neg_of_pos_of_neg hn' hdneg, hquot⟩
    · have hdpos : (0 : ℚ) < d := by exact_mod_cast hd
      rw [abs_of_pos hdpos]
      exact .inl ⟨by simp [hn.not_gt, hd.not_gt], div_pos hn' hdpos, hquot⟩

/-- The choice between the truncated quotient and the integer on its other side, as it is made: by
the doubled remainder, and then by what is even. -/
theorem prescribes_nearest {x t : ℚ} {q away lo hi : Int} (hlo : lo + 1 = hi)
    (hside : q = lo ∧ away = hi ∧ x = q + t ∨ q = hi ∧ away = lo ∧ x = q - t) :
    nearest.Prescribes x lo hi
      ((if 2 * t < 1 then q else if 1 < 2 * t then away else if q % 2 = 0 then q else away : Int) : ℚ) := by
  have hhi : (hi : ℚ) = lo + 1 := by exact_mod_cast hlo.symm
  have heven {z : Int} (hz : z % 2 = 0) : ∃ k : Int, (z : ℚ) = 2 * k * (hi - lo) := by
    refine ⟨z / 2, ?_⟩
    have hdouble : z = 2 * (z / 2) := by omega
    rw [hhi, add_sub_cancel_left, mul_one]
    exact_mod_cast hdouble
  obtain ⟨rfl, rfl, rfl⟩ | ⟨rfl, rfl, rfl⟩ := hside
  · refine ⟨fun h => ?_, fun h => ?_, fun h => ?_⟩
    · rw [if_pos (by linarith)]
    · rw [if_neg (by linarith), if_pos (by linarith)]
    · rw [if_neg (by linarith), if_neg (by linarith)]
      split
      · exact ⟨.inl rfl, heven ‹_›⟩
      · exact ⟨.inr rfl, heven (by omega)⟩
  · refine ⟨fun h => ?_, fun h => ?_, fun h => ?_⟩
    · rw [if_neg (by linarith), if_pos (by linarith)]
    · rw [if_pos (by linarith)]
    · rw [if_neg (by linarith), if_neg (by linarith)]
      split
      · exact ⟨.inr rfl, heven ‹_›⟩
      · exact ⟨.inl rfl, heven (by omega)⟩

theorem prescribes_divide (mode : Rounding) (hd : d ≠ 0) (h : ¬ d ∣ n) :
    mode.Prescribes (n / d : ℚ) ⌊(n / d : ℚ)⌋ ⌈(n / d : ℚ)⌉ (mode.divide n d) := by
  have hr : n.tmod d ≠ 0 := fun hr => h (Int.dvd_of_tmod_eq_zero hr)
  have hpos : 0 < (d.natAbs : ℚ) := by exact_mod_cast Int.natAbs_pos.2 hd
  obtain ⟨t, ht, htpos, htlt, hcase⟩ := quotient_cases hd h
  have hbelow : 2 * (n.tmod d).natAbs < d.natAbs ↔ 2 * t < 1 := by
    rw [ht, ← mul_div_assoc, div_lt_one hpos]
    exact_mod_cast Iff.rfl
  have habove : d.natAbs < 2 * (n.tmod d).natAbs ↔ 1 < 2 * t := by
    rw [ht, ← mul_div_assoc, one_lt_div hpos]
    exact_mod_cast Iff.rfl
  unfold divide
  rw [if_neg hr]
  simp only [hbelow, habove]
  obtain ⟨hneg, hsign, hquot⟩ | ⟨hneg, hsign, hquot⟩ := hcase
  · have hfloor : ⌊(n / d : ℚ)⌋ = n.tdiv d := by
      rw [hquot, Int.floor_eq_iff]
      constructor <;> linarith
    have hceil : ⌈(n / d : ℚ)⌉ = n.tdiv d + 1 := by
      rw [hquot, Int.ceil_eq_iff]
      push_cast
      constructor <;> linarith
    rw [hfloor, hceil, hneg]
    cases mode with
    | nearest => exact prescribes_nearest rfl (.inl ⟨rfl, rfl, hquot⟩)
    | towardZero => exact (if_pos hsign.le).symm
    | up => rfl
    | down => rfl
    | awayFromZero => exact (if_pos hsign.le).symm
  · have hfloor : ⌊(n / d : ℚ)⌋ = n.tdiv d - 1 := by
      rw [hquot, Int.floor_eq_iff]
      push_cast
      constructor <;> linarith
    have hceil : ⌈(n / d : ℚ)⌉ = n.tdiv d := by
      rw [hquot, Int.ceil_eq_iff]
      constructor <;> linarith
    rw [hfloor, hceil, hneg]
    cases mode with
    | nearest => exact prescribes_nearest (by omega) (.inr ⟨rfl, rfl, hquot⟩)
    | towardZero => exact (if_neg hsign.not_ge).symm
    | up => rfl
    | down => rfl
    | awayFromZero => exact (if_neg hsign.not_ge).symm

/-- Rounding a quotient to an integer: an integer stays, and for all others the mode decides. -/
theorem divide_cases (mode : Rounding) (hd : d ≠ 0) :
    (n / d : ℚ) = mode.divide n d ∨ (∀ k : Int, (n / d : ℚ) ≠ k) ∧
      mode.Prescribes (n / d : ℚ) ⌊(n / d : ℚ)⌋ ⌈(n / d : ℚ)⌉ (mode.divide n d) := by
  have hd' : (d : ℚ) ≠ 0 := by exact_mod_cast hd
  by_cases h : d ∣ n
  · obtain ⟨k, rfl⟩ := h
    rw [Decimal.divide_of_dvd mode (Int.dvd_mul_right d k), Int.mul_tdiv_cancel_left _ hd, Int.cast_mul]
    exact .inl (mul_div_cancel_left₀ _ hd')
  · refine .inr ⟨fun k hk => h ⟨k, ?_⟩, prescribes_divide mode hd h⟩
    rw [div_eq_iff hd'] at hk
    rw [mul_comm]
    exact_mod_cast hk

/-- A quotient with `p` digits before its point is rounded to `p` digits by rounding it to an integer. -/
theorem rounds_divide (mode : Rounding) (hp : 1 ≤ p) (hd : d ≠ 0)
    (hlow : (10 : ℚ) ^ ((p : Int) - 1) ≤ |(n / d : ℚ)|) (hhigh : |(n / d : ℚ)| < 10 ^ (p : Int)) :
    Rounds mode p (n / d) (mode.divide n d) := by
  obtain h | ⟨h, hchoice⟩ := divide_cases (n := n) mode hd
  · rw [h] at hhigh ⊢
    apply Rounds.self
    refine ⟨mode.divide n d, 0, ?_, by rw [zpow_zero, mul_one]⟩
    rw [← natCast_pow_ten, abs_intCast] at hhigh
    exact_mod_cast hhigh
  · apply Rounds.of_neighbours _ (Neighbours.of_decade hp hlow hhigh) hchoice
    intro hsig
    obtain ⟨k, hk⟩ := hsig.exists_int hlow
    exact h k hk

end Rounding

namespace Decimal

variable {x y : Decimal} {p : Precision}

/-- The smallest magnitude that is not taken as zero. -/
def smallest : ℚ := 10 ^ (-(maxExponent : Int))

theorem significant_smallest (hp : 1 ≤ p.digits) : Significant p.digits smallest :=
  ⟨1, _, Nat.one_lt_pow (by omega) (by decide), by rw [Int.cast_one, one_mul]; rfl⟩

theorem significant_toRat (h : x.digitCount ≤ p.digits) : Significant p.digits x.toRat :=
  ⟨_, _, (Digits.lt_pow_count _).trans_le (Nat.pow_le_pow_right (by decide) h), rfl⟩

theorem rounds_dropDigits (h : p.digits < x.digitCount) (mode : Rounding) :
    Rounds mode p.digits x.toRat (x.dropDigits (x.digitCount - p.digits) mode).toRat := by
  obtain ⟨k, hk⟩ : ∃ k, x.digitCount = p.digits + k := Nat.exists_eq_add_of_le h.le
  have hm : x.mantissa ≠ 0 := by
    intro hm
    have hone : x.digitCount ≤ 1 := by
      rw [digitCount, hm]
      exact Digits.count_le_of_lt (by decide) (Nat.le_refl 1)
    have := p.digits_pos
    omega
  have hquot := intCast_div_pow_ten x.mantissa k
  have hlow : (10 : ℚ) ^ ((p.digits : Int) - 1) ≤ |(x.mantissa : ℚ) * 10 ^ (-(k : Int))| := by
    have hle : ((10 ^ (x.digitCount - 1) : Nat) : ℚ) ≤ x.mantissa.natAbs := by
      exact_mod_cast Digits.pow_count_le (Int.natAbs_ne_zero.2 hm)
    have hexp : (p.digits : Int) - 1 = ((x.digitCount - 1 : Nat) : Int) + -(k : Int) := by omega
    rw [abs_mul, abs_of_pos (pow_ten_pos _), abs_intCast, hexp, pow_ten_add, ← natCast_pow_ten]
    exact mul_le_mul_of_nonneg_right hle (pow_ten_pos _).le
  have hhigh : |(x.mantissa : ℚ) * 10 ^ (-(k : Int))| < 10 ^ (p.digits : Int) := by
    have hlt : (x.mantissa.natAbs : ℚ) < ((10 ^ x.digitCount : Nat) : ℚ) := by
      exact_mod_cast Digits.lt_pow_count x.mantissa.natAbs
    have hexp : (p.digits : Int) = (x.digitCount : Int) + -(k : Int) := by omega
    rw [abs_mul, abs_of_pos (pow_ten_pos _), abs_intCast, hexp, pow_ten_add, ← natCast_pow_ten]
    exact mul_lt_mul_of_pos_right hlt (pow_ten_pos _)
  have hne : ((Nat.pow 10 k : Nat) : Int) ≠ 0 := by
    exact_mod_cast (Nat.pow_pos (by decide)).ne'
  have hdivide := Rounding.rounds_divide mode p.digits_pos hne (hquot ▸ hlow) (hquot ▸ hhigh)
  have hdrop : x.digitCount - p.digits = k := by omega
  have hscale : -(x.scale - (k : Int)) = k + -x.scale := by omega
  rw [hdrop, toRat, toRat, dropDigits, hscale, pow_ten_add, ← mul_assoc]
  rw [hquot] at hdivide
  have hscaled := (hdivide.mul_pow k).mul_pow (-x.scale)
  rwa [mul_pow_ten_neg_cancel] at hscaled

theorem flush_of_small (h : |x.toRat| < smallest) : (flush x).toRat = 0 := by
  by_cases hx : x.toRat = 0
  · have hz : x.isZero = true := beq_iff_eq.2 (mantissa_eq_zero hx)
    rw [flush, adjustedExponent, hz, if_pos rfl, if_neg (by decide), hx]
  · have hlt := pow_ten_lt.1 ((adjustedExponent_bounds hx).1.trans_lt h)
    rw [flush, if_pos hlt]
    exact toRat_eq_zero rfl

theorem flush_of_large (h : smallest ≤ |x.toRat|) : flush x = x := by
  have hx : x.toRat ≠ 0 := abs_pos.1 ((pow_ten_pos _).trans_le h)
  have hlt := pow_ten_lt.1 (h.trans_lt (adjustedExponent_bounds hx).2)
  rw [flush, if_neg (by omega)]

/-- The correctly rounded number, and zero in its place where it is too small. -/
theorem exists_rounds (x : Decimal) (p : Precision) : ∃ r,
    Rounds p.rounding p.digits x.toRat r ∧ (|r| < smallest → (x.rounded p).toRat = 0) ∧
      (smallest ≤ |r| → (x.rounded p).toRat = r) := by
  rw [rounded]
  split
  · rename_i h
    exact ⟨_, .self (significant_toRat h), flush_of_small, fun h => congrArg toRat (flush_of_large h)⟩
  · rename_i h
    exact ⟨_, rounds_dropDigits (not_le.1 h) _, flush_of_small,
      fun h => congrArg toRat (flush_of_large h)⟩

/-- What is zero or not too small is rounded correctly. -/
theorem rounds_rounded (p : Precision) (h : x.toRat = 0 ∨ smallest ≤ |x.toRat|) :
    Rounds p.rounding p.digits x.toRat (x.rounded p).toRat := by
  obtain ⟨r, hr, hsmall, hlarge⟩ := x.exists_rounds p
  obtain hzero | hx := h
  · obtain rfl : r = 0 := (hr.exact (hzero ▸ .zero _)).trans hzero
    rwa [hsmall (by rw [abs_zero]; exact pow_ten_pos _)]
  · rwa [hlarge (hr.le_abs (significant_smallest p.digits_pos) hx)]

theorem toRat_rounded_of_significant (hsig : Significant p.digits x.toRat)
    (hlarge : x.toRat = 0 ∨ smallest ≤ |x.toRat|) : (x.rounded p).toRat = x.toRat :=
  (rounds_rounded p hlarge).exact hsig

end Decimal
end Reporting
