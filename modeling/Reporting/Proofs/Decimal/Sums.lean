import Reporting.Proofs.Decimal.Quotient
/-!
Sums leave an operand out that is too small beside the other one. To the nearest the result is still the
correctly rounded sum. In a direction it lies on the wrong side of the exact sum when the operand that is
left out points that way.
-/
namespace Reporting

variable {p : Nat} {mode : Rounding} {v a r s : ℚ} {e : Int}

/-! Numbers of few digits lie apart -/

/-- A number of few digits is an integer in units of the last digit that its size leaves room for. -/
theorem Significant.exists_units (ha : Significant p a) (hlow : (10 : ℚ) ^ e ≤ |a|) :
    ∃ k : Int, a = k * 10 ^ (e + 1 - p) := by
  have hscaled : (10 : ℚ) ^ ((p : Int) - 1) ≤ |a * 10 ^ ((p : Int) - 1 - e)| := by
    rw [abs_mul, abs_of_pos (pow_ten_pos _)]
    calc (10 : ℚ) ^ ((p : Int) - 1) = 10 ^ e * 10 ^ ((p : Int) - 1 - e) := by
          rw [← pow_ten_add, add_sub_cancel]
      _ ≤ |a| * 10 ^ ((p : Int) - 1 - e) := mul_le_mul_of_nonneg_right hlow (pow_ten_pos _).le
  obtain ⟨k, hk⟩ := (ha.mul_pow _).exists_int hscaled
  have hback : (p : Int) - 1 - e + (e + 1 - p) = 0 := by omega
  exact ⟨k, by rw [← hk, mul_assoc, ← pow_ten_add, hback, zpow_zero, mul_one]⟩

/-- The step from a power of ten down to the next number is ten times smaller than the step up. -/
theorem Significant.gap (hp : 1 ≤ p) (ha : Significant p a) (hs : Significant p s)
    (hlow : (10 : ℚ) ^ e ≤ |a|) (hne : a ≠ s) : (10 : ℚ) ^ (e - p) ≤ |a - s| := by
  have hten : (10 : ℚ) ^ e = 10 * 10 ^ (e - 1) := by
    rw [← zpow_one_add₀ (by norm_num), add_sub_cancel]
  have hpos := pow_ten_pos (e - 1)
  obtain hs' | hs' := le_or_gt ((10 : ℚ) ^ (e - 1)) |s|
  · obtain ⟨k, hk⟩ := ha.exists_units (hlow.trans' (by linarith) : (10 : ℚ) ^ (e - 1) ≤ |a|)
    obtain ⟨j, hj⟩ := hs.exists_units hs'
    rw [sub_add_cancel] at hk hj
    have hkj : k - j ≠ 0 := fun h => hne (by rw [hk, hj, sub_eq_zero.1 h])
    have hone : (1 : ℚ) ≤ |((k - j : Int) : ℚ)| := by exact_mod_cast Int.one_le_abs hkj
    rw [hk, hj, ← sub_mul, ← Int.cast_sub, abs_mul, abs_of_pos (pow_ten_pos _)]
    exact le_mul_of_one_le_left (pow_ten_pos _).le hone
  · have hle : (10 : ℚ) ^ (e - p) ≤ 10 ^ (e - 1) := zpow_le_zpow_right₀ (by norm_num) (by omega)
    have hsub := abs_sub_abs_le_abs_sub a s
    linarith

/-- A number of few digits that is nearer than half a step is the one to which numbers are rounded. -/
theorem Rounds.eq_of_near (hp : 1 ≤ p) (hr : Rounds .nearest p v r) (ha : Significant p a)
    (hlow : (10 : ℚ) ^ e ≤ |a|) (hnear : 2 * |v - a| < 10 ^ (e - p)) : r = a := by
  by_contra hne
  have hgap := ha.gap hp hr.significant hlow (Ne.symm hne)
  have hclosest := hr.closest ha
  have htriangle := abs_sub_le a v r
  rw [abs_sub_comm a v] at htriangle
  linarith

namespace Decimal

variable {x y : Decimal} {p : Precision} {digits : Nat}

/-- Whether `y` is left out of a sum with `x`: its leading digit stands more than two places behind the
digits of `x` that are kept. -/
def Dwarfs (x y : Decimal) (digits : Nat) : Prop :=
  x.mantissa ≠ 0 ∧ y.mantissa ≠ 0 ∧ y.adjustedExponent + digits + 2 < x.adjustedExponent
  deriving Decidable

theorem toRat_ne_zero (h : x.mantissa ≠ 0) : x.toRat ≠ 0 := fun hx => h (mantissa_eq_zero hx)

theorem Dwarfs.near (h : x.Dwarfs y digits) :
    (10 : ℚ) ^ x.adjustedExponent ≤ |x.toRat| ∧ 2 * |y.toRat| < 10 ^ (x.adjustedExponent - digits) := by
  obtain ⟨hx, hy, hgap⟩ := h
  refine ⟨(adjustedExponent_bounds (toRat_ne_zero hx)).1, ?_⟩
  have hlt := (adjustedExponent_bounds (toRat_ne_zero hy)).2
  have hten : (10 : ℚ) ^ (x.adjustedExponent - digits) = 10 * 10 ^ (x.adjustedExponent - digits - 1) := by
    rw [← zpow_one_add₀ (by norm_num), add_sub_cancel]
  have hle : (10 : ℚ) ^ (y.adjustedExponent + 1) ≤ 10 ^ (x.adjustedExponent - digits - 1) :=
    zpow_le_zpow_right₀ (by norm_num) (by omega)
  have hpos := pow_ten_pos (x.adjustedExponent - digits - 1)
  linarith

theorem Dwarfs.abs_lt (h : x.Dwarfs y digits) : |y.toRat| < |x.toRat| := by
  obtain ⟨hlow, hnear⟩ := h.near
  have hle : (10 : ℚ) ^ (x.adjustedExponent - digits) ≤ 10 ^ x.adjustedExponent :=
    zpow_le_zpow_right₀ (by norm_num) (by omega)
  have hpos := abs_nonneg y.toRat
  linarith

/-- What is left out of a sum does not move it away from the other operand, to the nearest. -/
theorem Dwarfs.eq_of_rounds (h : x.Dwarfs y p.digits) (hx : Significant p.digits x.toRat)
    (hr : Rounds .nearest p.digits (x.toRat + y.toRat) r) : r = x.toRat := by
  obtain ⟨hlow, hnear⟩ := h.near
  exact hr.eq_of_near p.digits_pos hx hlow (by rwa [add_sub_cancel_left])

theorem Dwarfs.rounds (h : x.Dwarfs y p.digits) (hx : Significant p.digits x.toRat) :
    Rounds .nearest p.digits (x.toRat + y.toRat) x.toRat := by
  obtain ⟨r, hr, -⟩ := (x.exactAdd y).exists_rounds { p with rounding := .nearest }
  rw [toRat_exactAdd] at hr
  obtain rfl := h.eq_of_rounds hx hr
  exact hr

theorem add_cases (x y : Decimal) (p : Precision) :
    x.Dwarfs y p.digits ∧ x.add y p = x.rounded p ∨ y.Dwarfs x p.digits ∧ x.add y p = y.rounded p ∨
      (¬ x.Dwarfs y p.digits ∧ ¬ y.Dwarfs x p.digits) ∧
        ∃ z : Decimal, z.toRat = x.toRat + y.toRat ∧ x.add y p = z.rounded p := by
  unfold add dominant?
  split
  · rename_i hx
    have hx : x.mantissa = 0 := beq_iff_eq.1 hx
    exact .inr (.inr ⟨⟨fun h => h.1 hx, fun h => h.2.1 hx⟩, y, by rw [toRat_eq_zero hx, zero_add], rfl⟩)
  · rename_i hx
    split
    · rename_i hy
      have hy : y.mantissa = 0 := beq_iff_eq.1 hy
      exact .inr (.inr ⟨⟨fun h => h.2.1 hy, fun h => h.1 hy⟩, x, by rw [toRat_eq_zero hy, add_zero], rfl⟩)
    · rename_i hy
      have hx : x.mantissa ≠ 0 := fun h => hx (beq_iff_eq.2 h)
      have hy : y.mantissa ≠ 0 := fun h => hy (beq_iff_eq.2 h)
      dsimp only
      split
      · exact .inl ⟨⟨hx, hy, by omega⟩, rfl⟩
      · split
        · exact .inr (.inl ⟨⟨hy, hx, by omega⟩, rfl⟩)
        · refine .inr (.inr ⟨⟨fun h => ?_, fun h => ?_⟩, x.exactAdd y, toRat_exactAdd x y, rfl⟩)
          · obtain ⟨-, -, hgap⟩ := h
            omega
          · obtain ⟨-, -, hgap⟩ := h
            omega

/-- The operand that is kept is not too small when the sum is not. -/
theorem Dwarfs.toRat_rounded (h : x.Dwarfs y p.digits) (hx : Significant p.digits x.toRat)
    (hsum : x.toRat + y.toRat = 0 ∨ smallest ≤ |x.toRat + y.toRat|) : (x.rounded p).toRat = x.toRat := by
  apply toRat_rounded_of_significant hx
  have hr := h.rounds hx
  obtain hzero | hsum := hsum
  · rw [hzero] at hr
    exact .inl (hr.exact (.zero _))
  · exact .inr (hr.le_abs (significant_smallest p.digits_pos) hsum)

/-- A sum is one of its operands when that dwarfs the other one, and is otherwise correctly rounded. -/
theorem toRat_add_cases (hx : Significant p.digits x.toRat) (hy : Significant p.digits y.toRat)
    (hsum : x.toRat + y.toRat = 0 ∨ smallest ≤ |x.toRat + y.toRat|) :
    x.Dwarfs y p.digits ∧ (x.add y p).toRat = x.toRat ∨
      y.Dwarfs x p.digits ∧ (x.add y p).toRat = y.toRat ∨
      (¬ x.Dwarfs y p.digits ∧ ¬ y.Dwarfs x p.digits) ∧
        Rounds p.rounding p.digits (x.toRat + y.toRat) (x.add y p).toRat := by
  obtain ⟨h, hadd⟩ | ⟨h, hadd⟩ | ⟨h, z, hz, hadd⟩ := add_cases x y p
  · exact .inl ⟨h, by rw [hadd, h.toRat_rounded hx hsum]⟩
  · rw [add_comm] at hsum
    exact .inr (.inl ⟨h, by rw [hadd, h.toRat_rounded hy hsum]⟩)
  · rw [← hz] at hsum ⊢
    rw [hadd]
    exact .inr (.inr ⟨h, rounds_rounded p hsum⟩)

/-- Whatever is left out of it, a sum is rounded to a neighbour of the exact one. -/
theorem exists_rounds_add (hx : Significant p.digits x.toRat) (hy : Significant p.digits y.toRat)
    (hsum : x.toRat + y.toRat = 0 ∨ smallest ≤ |x.toRat + y.toRat|) :
    ∃ mode, Rounds mode p.digits (x.toRat + y.toRat) (x.add y p).toRat := by
  obtain ⟨h, hadd⟩ | ⟨h, hadd⟩ | ⟨-, hadd⟩ := toRat_add_cases hx hy hsum
  · exact ⟨.nearest, by rw [hadd]; exact h.rounds hx⟩
  · exact ⟨.nearest, by rw [hadd, add_comm]; exact h.rounds hy⟩
  · exact ⟨p.rounding, hadd⟩

/-! To the nearest -/

theorem rounds_add_nearest (hmode : p.rounding = .nearest) (hx : Significant p.digits x.toRat)
    (hy : Significant p.digits y.toRat) (hsum : x.toRat + y.toRat = 0 ∨ smallest ≤ |x.toRat + y.toRat|) :
    Rounds .nearest p.digits (x.toRat + y.toRat) (x.add y p).toRat ∧
      (x.add y p).toRat = ((x.exactAdd y).rounded p).toRat := by
  have hexact : Rounds .nearest p.digits (x.toRat + y.toRat) ((x.exactAdd y).rounded p).toRat := by
    rw [← toRat_exactAdd] at hsum ⊢
    exact hmode ▸ rounds_rounded p hsum
  have hadd : Rounds .nearest p.digits (x.toRat + y.toRat) (x.add y p).toRat := by
    obtain ⟨h, hadd⟩ | ⟨h, hadd⟩ | ⟨-, hadd⟩ := toRat_add_cases hx hy hsum
    · rw [hadd]
      exact h.rounds hx
    · rw [hadd, add_comm]
      exact h.rounds hy
    · exact hmode ▸ hadd
  exact ⟨hadd, hadd.unique hexact⟩

/-- To the nearest, sums and differences are correctly rounded, and are what they are when no operand is left
out. -/
theorem add_nearest (hmode : p.rounding = .nearest) (hx : Significant p.digits x.toRat)
    (hy : Significant p.digits y.toRat) :
    (x.toRat + y.toRat = 0 ∨ smallest ≤ |x.toRat + y.toRat| →
      Rounds .nearest p.digits (x.toRat + y.toRat) (x.add y p).toRat ∧
      (x.add y p).toRat = ((x.exactAdd y).rounded p).toRat) ∧
    (x.toRat - y.toRat = 0 ∨ smallest ≤ |x.toRat - y.toRat| →
      Rounds .nearest p.digits (x.toRat - y.toRat) (x.sub y p).toRat ∧
      (x.sub y p).toRat = ((x.exactAdd y.neg).rounded p).toRat) := by
  refine ⟨rounds_add_nearest hmode hx hy, fun hdiff => ?_⟩
  have hneg : Significant p.digits y.neg.toRat := by
    rw [toRat_neg]
    exact hy.neg
  rw [sub_eq_add_neg, ← toRat_neg] at hdiff ⊢
  exact rounds_add_nearest hmode hx hneg hdiff

/-- A thousand less four ten-thousandths in three digits: the step below a thousand is one, and the difference
is nearer to it than half of that. -/
theorem add_nearest_of_thousand :
    let p : Precision := .ofBits 8 .nearest
    (ofInt 1000).Dwarfs ⟨-4, 4⟩ p.digits ∧ (ofInt 1000).sub ⟨4, 4⟩ p = ⟨100, -1⟩ ∧
      Rounds .nearest p.digits (1000 - 4 / 10000) ((ofInt 1000).sub ⟨4, 4⟩ p).toRat := by
  intro p
  have hone : (ofInt 1000).toRat = 1000 := toRat_ofInt 1000
  have hsmall : (⟨4, 4⟩ : Decimal).toRat = 4 / 10000 := by norm_num [toRat]
  have hlarge : Significant p.digits (ofInt 1000).toRat := by
    rw [hone]
    exact ⟨1, 3, by decide +kernel, by norm_num⟩
  have hle : smallest < 10 ^ (0 : Int) := pow_ten_lt.2 (by decide)
  have hdiff : smallest ≤ |(ofInt 1000).toRat - (⟨4, 4⟩ : Decimal).toRat| := by
    rw [hone, hsmall]
    norm_num at hle ⊢
    linarith
  have hrounds := ((add_nearest rfl hlarge (significant_toRat (by decide +kernel))).2 (.inr hdiff)).1
  rw [hone, hsmall] at hrounds
  exact ⟨by decide +kernel, by decide +kernel, hrounds⟩

/-! In a direction -/

/-- What a sum leaves out. -/
def neglected (x y : Decimal) (digits : Nat) : ℚ :=
  if x.Dwarfs y digits then y.toRat else if y.Dwarfs x digits then x.toRat else 0

end Decimal

/-- The modes that do not lead away from zero from a number of this sign. -/
def Rounding.Inward (mode : Rounding) (v : ℚ) : Prop :=
  mode = towardZero ∨ mode = down ∧ 0 ≤ v ∨ mode = up ∧ v < 0

theorem Rounding.Inward.ne_nearest (h : mode.Inward v) : mode ≠ .nearest := by
  rintro rfl
  obtain h | ⟨h, -⟩ | ⟨h, -⟩ := h <;> contradiction

theorem Rounds.abs_le_abs (h : Rounds mode p v r) (hmode : mode.Inward v) : |r| ≤ |v| := by
  obtain hv | hv := le_or_gt 0 v
  · have hdown : mode.Downward v := by
      obtain rfl | ⟨rfl, -⟩ | ⟨-, hneg⟩ := hmode
      · exact .inr (.inl ⟨rfl, hv⟩)
      · exact .inl rfl
      · exact absurd hneg hv.not_gt
    rw [abs_of_nonneg hv, abs_of_nonneg (h.le_of_ge (.zero p) hv)]
    exact h.le_self hdown
  · have hup : mode.Upward v := by
      obtain rfl | ⟨-, hpos⟩ | ⟨rfl, -⟩ := hmode
      · exact .inr (.inl ⟨rfl, hv⟩)
      · exact absurd hpos hv.not_ge
      · exact .inl rfl
    rw [abs_of_neg hv, abs_of_nonpos (h.le_of_le (.zero p) hv.le)]
    exact neg_le_neg (h.self_le hup)

theorem Rounds.abs_le_abs_self (h : Rounds .awayFromZero p v r) : |v| ≤ |r| := by
  obtain hv | hv := le_or_gt 0 v
  · rw [abs_of_nonneg hv, abs_of_nonneg (h.le_of_ge (.zero p) hv)]
    exact h.self_le (.inr (.inr ⟨rfl, hv⟩))
  · rw [abs_of_neg hv, abs_of_nonpos (h.le_of_le (.zero p) hv.le)]
    exact neg_le_neg (h.le_self (.inr (.inr ⟨rfl, hv⟩)))

/-- The results of the directed modes lie on their sides of `v`, but for those that are on the other side
because `left` is missing. -/
structure Encloses (v left : ℚ) (result : Rounding → ℚ) : Prop where
  down : result .down ≤ v ↔ 0 ≤ left
  up : v ≤ result .up ↔ left ≤ 0
  towardZero : |result .towardZero| ≤ |v| ↔ 0 ≤ v * left
  awayFromZero : |v| ≤ |result .awayFromZero| ↔ v * left ≤ 0

namespace Encloses

variable {left : ℚ} {result : Rounding → ℚ}

/-- Correct rounding leaves nothing out. -/
theorem of_rounds (h : ∀ mode, Rounds mode p v (result mode)) : Encloses v 0 result where
  down := iff_of_true ((h .down).le_self (.inl rfl)) le_rfl
  up := iff_of_true ((h .up).self_le (.inl rfl)) le_rfl
  towardZero := iff_of_true ((h .towardZero).abs_le_abs (.inl rfl)) (mul_zero v).ge
  awayFromZero := iff_of_true (h .awayFromZero).abs_le_abs_self (mul_zero v).le

/-- In place of a sum, its larger summand. -/
theorem of_kept (hlt : |left| < |a|) : Encloses (a + left) left fun _ => a := by
  obtain ⟨hlow, hhigh⟩ := abs_lt.1 hlt
  obtain ha | ha := le_or_gt 0 a
  · rw [abs_of_nonneg ha] at hlow hhigh
    have hsum : 0 < a + left := by linarith
    refine ⟨le_add_iff_nonneg_right a, add_le_iff_nonpos_right a, ?_, ?_⟩
    · rw [abs_of_nonneg ha, abs_of_pos hsum, mul_nonneg_iff_of_pos_left hsum]
      exact le_add_iff_nonneg_right a
    · rw [abs_of_nonneg ha, abs_of_pos hsum, ← neg_nonneg, ← mul_neg, mul_nonneg_iff_of_pos_left hsum,
        neg_nonneg]
      exact add_le_iff_nonpos_right a
  · rw [abs_of_neg ha] at hlow hhigh
    have hsum : a + left < 0 := by linarith
    refine ⟨le_add_iff_nonneg_right a, add_le_iff_nonpos_right a, ?_, ?_⟩
    · rw [abs_of_neg ha, abs_of_neg hsum, neg_le_neg_iff, ← neg_mul_neg,
        mul_nonneg_iff_of_pos_left (neg_pos.2 hsum), neg_nonneg]
      exact add_le_iff_nonpos_right a
    · rw [abs_of_neg ha, abs_of_neg hsum, neg_le_neg_iff, ← neg_nonneg, ← neg_mul,
        mul_nonneg_iff_of_pos_left (neg_pos.2 hsum)]
      exact le_add_iff_nonneg_right a

end Encloses

namespace Decimal

variable {x y : Decimal} {digits : Nat}

theorem Dwarfs.not_symm (h : x.Dwarfs y digits) : ¬ y.Dwarfs x digits := by
  obtain ⟨-, -, hgap⟩ := h
  rintro ⟨-, -, hgap'⟩
  omega

theorem encloses_add (hp : 0 < digits) (hx : Significant digits x.toRat) (hy : Significant digits y.toRat)
    (hsum : x.toRat + y.toRat = 0 ∨ smallest ≤ |x.toRat + y.toRat|) :
    Encloses (x.toRat + y.toRat) (x.neglected y digits) fun mode =>
      (x.add y ⟨digits, mode, hp⟩).toRat := by
  have hcases (mode : Rounding) := toRat_add_cases (p := ⟨digits, mode, hp⟩) hx hy hsum
  unfold neglected
  split
  · rename_i h
    have hkept (mode : Rounding) : (x.add y ⟨digits, mode, hp⟩).toRat = x.toRat := by
      obtain ⟨-, hadd⟩ | ⟨h', -⟩ | ⟨⟨h', -⟩, -⟩ := hcases mode
      · exact hadd
      · exact absurd h' h.not_symm
      · exact absurd h h'
    simp only [hkept]
    exact .of_kept h.abs_lt
  · rename_i hnot
    split
    · rename_i h
      have hkept (mode : Rounding) : (x.add y ⟨digits, mode, hp⟩).toRat = y.toRat := by
        obtain ⟨h', -⟩ | ⟨-, hadd⟩ | ⟨⟨-, h'⟩, -⟩ := hcases mode
        · exact absurd h' hnot
        · exact hadd
        · exact absurd h h'
      simp only [hkept]
      rw [add_comm]
      exact .of_kept h.abs_lt
    · rename_i hnot'
      refine .of_rounds (p := digits) fun mode => ?_
      obtain ⟨h, -⟩ | ⟨h, -⟩ | ⟨-, hadd⟩ := hcases mode
      · exact absurd h hnot
      · exact absurd h hnot'
      · exact hadd

/-- In the directed modes, sums and differences lie on their sides of the exact ones when nothing is left out.
When an operand is, they do just where it does not point to the side that they should be on. -/
theorem directed_encloses (hp : 0 < digits) (hx : Significant digits x.toRat)
    (hy : Significant digits y.toRat) :
    (x.toRat + y.toRat = 0 ∨ smallest ≤ |x.toRat + y.toRat| →
      Encloses (x.toRat + y.toRat) (x.neglected y digits) fun mode =>
        (x.add y ⟨digits, mode, hp⟩).toRat) ∧
    (x.toRat - y.toRat = 0 ∨ smallest ≤ |x.toRat - y.toRat| →
      Encloses (x.toRat - y.toRat) (x.neglected y.neg digits) fun mode =>
        (x.sub y ⟨digits, mode, hp⟩).toRat) := by
  refine ⟨encloses_add hp hx hy, fun hdiff => ?_⟩
  have hneg : Significant digits y.neg.toRat := by
    rw [toRat_neg]
    exact hy.neg
  rw [sub_eq_add_neg, ← toRat_neg] at hdiff ⊢
  exact encloses_add hp hx hneg hdiff

/-- One and a hundredth, where nothing is left out, and one and a millionth, where the millionth is. -/
theorem directed_encloses_of_hundredth :
    let sum (y : Decimal) (mode : Rounding) := ((ofInt 1).add y ⟨1, mode, by decide⟩).toRat
    (sum ⟨1, 2⟩ .down ≤ 1 + 1 / 100 ∧ 1 + 1 / 100 ≤ sum ⟨1, 2⟩ .up ∧
      |sum ⟨1, 2⟩ .towardZero| ≤ |1 + 1 / 100| ∧ |1 + 1 / 100| ≤ |sum ⟨1, 2⟩ .awayFromZero|) ∧
    sum ⟨1, 6⟩ .down ≤ 1 + 1 / 1000000 ∧ ¬ 1 + 1 / 1000000 ≤ sum ⟨1, 6⟩ .up := by
  intro sum
  have hone : (ofInt 1).toRat = 1 := by norm_num [toRat_ofInt]
  have hle : smallest < 10 ^ (0 : Int) := pow_ten_lt.2 (by decide)
  have hundredth : (⟨1, 2⟩ : Decimal).toRat = 1 / 100 := by norm_num [toRat]
  have millionth : (⟨1, 6⟩ : Decimal).toRat = 1 / 1000000 := by norm_num [toRat]
  have hsig : Significant 1 (ofInt 1).toRat := ⟨1, 0, by decide, by norm_num [toRat_ofInt]⟩
  have hsum (y : Decimal) (hy : 0 < y.toRat) : smallest ≤ |(ofInt 1).toRat + y.toRat| := by
    rw [zpow_zero] at hle
    rw [hone, abs_of_pos (by linarith)]
    linarith
  have hnear := (directed_encloses (by decide) hsig ⟨1, -2, by decide, by norm_num [hundredth]⟩).1
    (.inr (hsum ⟨1, 2⟩ (by norm_num [hundredth])))
  have hfar := (directed_encloses (by decide) hsig ⟨1, -6, by decide, by norm_num [millionth]⟩).1
    (.inr (hsum ⟨1, 6⟩ (by norm_num [millionth])))
  rw [neglected, if_neg (by decide +kernel), if_neg (by decide +kernel), hone, hundredth] at hnear
  rw [neglected, if_pos (by decide +kernel), hone, millionth] at hfar
  refine ⟨⟨hnear.down.2 le_rfl, hnear.up.2 le_rfl, hnear.towardZero.2 (mul_zero _).ge,
    hnear.awayFromZero.2 (mul_zero _).le⟩, hfar.down.2 (by norm_num), fun h => ?_⟩
  have := hfar.up.1 h
  norm_num at this

/-- In three digits, one and a millionth are one upward as well, and a millionth less than one is one downward
as well. -/
theorem not_enclosed_of_millionth :
    let p (mode : Rounding) : Precision := .ofBits 8 mode
    let x := ofInt 1
    let y : Decimal := ⟨1, 6⟩
    (∀ mode, Significant (p mode).digits x.toRat ∧ Significant (p mode).digits y.toRat) ∧
      smallest ≤ |x.toRat + y.toRat| ∧ smallest ≤ |x.toRat - y.toRat| ∧
      (x.add y (p .up)).toRat < x.toRat + y.toRat ∧ x.toRat - y.toRat < (x.sub y (p .down)).toRat ∧
      |(x.add y (p .awayFromZero)).toRat| < |x.toRat + y.toRat| ∧
      |x.toRat - y.toRat| < |(x.sub y (p .towardZero)).toRat| := by
  intro p x y
  have hx : x.toRat = 1 := by norm_num [x, toRat_ofInt]
  have hy : y.toRat = 1 / 1000000 := by norm_num [y, toRat]
  have hle : smallest < 10 ^ (-1 : Int) := pow_ten_lt.2 (by decide)
  have hup : x.add y (p .up) = x := by decide +kernel
  have hdown : x.sub y (p .down) = x := by decide +kernel
  have haway : x.add y (p .awayFromZero) = x := by decide +kernel
  have hzero : x.sub y (p .towardZero) = x := by decide +kernel
  have hcount : x.digitCount = 1 ∧ y.digitCount = 1 := by decide +kernel
  rw [hup, hdown, haway, hzero, hx, hy]
  refine ⟨fun mode => ⟨?_, ?_⟩, ?_, ?_, by norm_num, by norm_num, ?_, ?_⟩
  · rw [← hx]
    exact significant_toRat (hcount.1.trans_le (Nat.le_max_left 1 _))
  · rw [← hy]
    exact significant_toRat (hcount.2.trans_le (Nat.le_max_left 1 _))
  · norm_num at hle ⊢
    linarith
  · rw [abs_of_pos (by norm_num)]
    norm_num at hle ⊢
    linarith
  · rw [abs_of_pos (by norm_num), abs_of_pos (by norm_num)]
    norm_num
  · rw [abs_of_pos (by norm_num), abs_of_pos (by norm_num)]
    norm_num

end Decimal
end Reporting
