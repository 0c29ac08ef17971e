import Reporting.Config
import Reporting.Decimal.Printer
import Reporting.Proofs.Decimal.Reading
import Reporting.Proofs.Decimal.Rounded
/-!
The text of a number is the same for all forms of the number, has the decimals that the number needs and
no more, and is read back as the number.
-/
namespace Reporting

namespace Decimal

variable {m n : Int} {s t : Nat} {x y : Decimal} {p : Precision}

/-! Mantissas without zeros behind the point -/

/-- A mantissa with no more decimal places than its number needs. -/
def Lowest (m : Int) (places : Nat) : Prop := places = 0 ∨ ¬ 10 ∣ m

theorem Lowest.unique (hm : Lowest m s) (hn : Lowest n t)
    (h : (m : ℚ) * 10 ^ (-(s : Int)) = n * 10 ^ (-(t : Int))) : m = n ∧ s = t := by
  wlog hst : s ≤ t generalizing m n s t
  · obtain ⟨hm, hs⟩ := this hn hm h.symm (by omega)
    exact ⟨hm.symm, hs.symm⟩
  obtain ⟨k, rfl⟩ := Nat.exists_eq_add_of_le hst
  have hmul : n = m * 10 ^ k := by
    have hcast : (n : ℚ) = m * 10 ^ k := by
      have hexp : -(s : Int) = k + -((s + k : Nat) : Int) := by omega
      rw [hexp, pow_ten_add, ← mul_assoc, zpow_natCast] at h
      exact (mul_right_cancel₀ (pow_ten_pos _).ne' h).symm
    exact_mod_cast hcast
  cases k with
  | zero => exact ⟨by rw [hmul, pow_zero, mul_one], rfl⟩
  | succ k =>
    obtain hn | hn := hn
    · omega
    · exact absurd ⟨m * 10 ^ k, by rw [hmul, pow_succ]; ring⟩ hn

theorem stripZeros_le (k : Nat) (m : Int) : (stripZeros k m).1 ≤ k := by
  induction k generalizing m with
  | zero => exact le_rfl
  | succ k ih =>
    rw [stripZeros]
    split
    · exact Nat.succ_le_succ (ih _)
    · exact Nat.zero_le _

theorem stripZeros_lowest (k : Nat) (m : Int) : Lowest (stripZeros k m).2 (k - (stripZeros k m).1) := by
  induction k generalizing m with
  | zero => exact .inl rfl
  | succ k ih =>
    rw [stripZeros]
    split
    · rw [Lowest, Nat.add_sub_add_right]
      exact ih _
    · rename_i h
      exact .inr fun hdvd => h (Int.tmod_eq_zero_of_dvd hdvd)

/-! Writing -/

/-- The digits before the point. -/
def wholeDigits (n places : Nat) : List Char :=
  Digits.last (max (Digits.count n) (places + 1) - places) (n / 10 ^ places)

theorem wholeDigits_ne_nil (n places : Nat) : wholeDigits n places ≠ [] := by
  intro h
  have hlength := congrArg List.length h
  rw [wholeDigits, Digits.length_last, List.length_nil] at hlength
  omega

theorem all_isDigit_wholeDigits (n places : Nat) : (wholeDigits n places).all Char.isDigit = true :=
  Digits.all_isDigit_last _ _

theorem value_wholeDigits (n places : Nat) :
    Digits.value (wholeDigits n places ++ Digits.last places n) = n := by
  have hlt : n / 10 ^ places < 10 ^ (max (Digits.count n) (places + 1) - places) := by
    rw [Nat.div_lt_iff_lt_mul (Nat.pow_pos (by decide)), ← Nat.pow_add]
    exact (Digits.lt_pow_count n).trans_le (Nat.pow_le_pow_right (by decide) (by omega))
  rw [Digits.value_append, Digits.length_last, Digits.value_last, wholeDigits, Digits.value_last,
    Nat.mod_eq_of_lt hlt]
  exact Nat.div_add_mod' n _

theorem renderAt_eq (m : Int) (s : Nat) : renderAt m s =
    plainText (decide (m < 0)) (wholeDigits m.natAbs s) (Digits.last s m.natAbs) := by
  have hpoint : withPoint m.natAbs s = wholeDigits m.natAbs s ++
      if Digits.last s m.natAbs = [] then [] else '.' :: Digits.last s m.natAbs := by
    cases s with
    | zero =>
      have hcount := Digits.count_pos m.natAbs
      have hwidth : max (Digits.count m.natAbs) (0 + 1) - 0 = Digits.count m.natAbs := by omega
      have hnil : Digits.last 0 m.natAbs = [] := List.length_eq_zero_iff.1 (Digits.length_last _ _)
      rw [withPoint, if_pos rfl, if_pos hnil, List.append_nil, wholeDigits, Nat.pow_zero, Nat.div_one,
        hwidth]
      rfl
    | succ s =>
      have hne : Digits.last (s + 1) m.natAbs ≠ [] := by
        intro h
        have hlength := congrArg List.length h
        rw [Digits.length_last] at hlength
        cases hlength
      rw [withPoint, if_neg (Nat.succ_ne_zero s), if_neg hne]
      rfl
  unfold renderAt
  rw [if_pos (Int.natCast_nonneg s), Int.toNat_natCast, hpoint, plainText]
  by_cases hm : m < 0
  · simp [hm]
  · simp [hm]

theorem renderAt_neg (hm : m ≠ 0) (k : Nat) : renderAt m (-k) = renderAt (m * 10 ^ k) 0 := by
  have hpos : (0 : Int) < 10 ^ k := Int.pow_pos (by decide)
  have habs : (m * 10 ^ k).natAbs = m.natAbs * 10 ^ k := by
    rw [Int.natAbs_mul, Int.natAbs_pow]
    rfl
  have hdigits : (if (0 : Int) ≤ -k then withPoint m.natAbs (-k : Int).toNat
      else Digits.ofNat m.natAbs ++ List.replicate (- -(k : Int)).toNat '0') =
      Digits.ofNat m.natAbs ++ List.replicate k '0' := by
    split
    · have hzero : k = 0 := by omega
      subst hzero
      exact (List.append_nil _).symm
    · rw [neg_neg, Int.toNat_natCast]
  unfold renderAt
  rw [hdigits, ← Digits.ofNat_mul_pow (Int.natAbs_ne_zero.2 hm), if_pos le_rfl, habs]
  simp only [mul_neg_iff, hpos, hpos.not_gt, and_true, and_false, false_or]
  rfl

/-- A number is written from its mantissa without zeros behind the point. -/
theorem toList_render (x : Decimal) : ∃ (m : Int) (s : Nat), Lowest m s ∧
    x.toRat = m * 10 ^ (-(s : Int)) ∧ x.render.toList = renderAt m s := by
  by_cases hx : x.mantissa = 0
  · have hz : x.isZero = true := beq_iff_eq.2 hx
    refine ⟨0, 0, .inl rfl, by rw [toRat_eq_zero hx, Int.cast_zero, zero_mul], ?_⟩
    rw [render, if_pos hz]
    decide +kernel
  · have hz : x.isZero = false := beq_eq_false_iff_ne.2 hx
    have hle := stripZeros_le x.scale.toNat x.mantissa
    have hlow := stripZeros_lowest x.scale.toNat x.mantissa
    have hback := stripZeros_mantissa x.scale.toNat x.mantissa
    have hrender : x.render.toList =
        renderAt (stripZeros x.scale.toNat x.mantissa).2
          (x.scale - (stripZeros x.scale.toNat x.mantissa).1) := by
      rw [render, hz, if_neg Bool.false_ne_true]
      exact String.toList_ofList
    generalize stripZeros x.scale.toNat x.mantissa = q at hle hlow hback hrender
    obtain hneg | hpos := le_or_gt x.scale 0
    · -- nothing is behind the point, and nothing is stripped
      have hstrip : q.1 = 0 := by omega
      have hm : q.2 = x.mantissa := by rw [← hback, hstrip, pow_zero, mul_one]
      have hscale : x.scale = -((-x.scale).toNat : Int) := by omega
      refine ⟨x.mantissa * 10 ^ (-x.scale).toNat, 0, .inl rfl, ?_, ?_⟩
      · rw [toRat, Int.cast_mul, Int.cast_pow, Int.cast_ofNat, ← zpow_natCast,
          Int.toNat_of_nonneg (by omega), Nat.cast_zero, neg_zero, zpow_zero, mul_one]
      · rw [hrender, hm, hstrip, Nat.cast_zero, Int.sub_zero, hscale, renderAt_neg hx, ← hscale]
    · have hs : ((x.scale.toNat - q.1 : Nat) : Int) = x.scale - q.1 := by omega
      refine ⟨q.2, x.scale.toNat - q.1, hlow, ?_, by rw [hrender, hs]⟩
      have hexp : -(x.scale - (q.1 : Int)) = q.1 + -x.scale := by omega
      rw [hs, toRat, ← hback, hexp, pow_ten_add, ← mul_assoc]
      push_cast
      rfl

/-! Reading back -/

theorem value_withSign (m : Int) : withSign (decide (m < 0)) m.natAbs = m := by
  rw [withSign]
  split <;> rename_i h <;> rw [decide_eq_true_eq] at h <;> omega

/-- Numbers in plain notation are told apart by what they write. -/
theorem eq_of_renderAt (h : renderAt m s = renderAt n t) : m = n ∧ s = t := by
  have hread (m : Int) (s : Nat) :
      (integer? true (splitPoint (renderAt m s)).1, (splitPoint (renderAt m s)).2) = (some m, s) := by
    have hwhole := all_isDigit_wholeDigits m.natAbs s
    have hne := List.append_ne_nil_of_left_ne_nil (wholeDigits_ne_nil m.natAbs s) (Digits.last s m.natAbs)
    have hdigits : (wholeDigits m.natAbs s ++ Digits.last s m.natAbs).all Char.isDigit = true := by
      rw [List.all_append, hwhole, Digits.all_isDigit_last]
      rfl
    rw [renderAt_eq, splitPoint_plainText hwhole, integer?_withSign _ hne hdigits, value_wholeDigits,
      value_withSign, Digits.length_last]
  have hpair := (hread m s).symm.trans (h ▸ hread n t)
  rw [Prod.mk.injEq, Option.some.injEq] at hpair
  exact hpair

theorem render_eq_iff : x.render = y.render ↔ x.toRat = y.toRat := by
  obtain ⟨m, s, hm, hx, hwrite⟩ := toList_render x
  obtain ⟨n, t, hn, hy, hwrite'⟩ := toList_render y
  rw [← String.toList_inj, hwrite, hwrite', hx, hy]
  constructor
  · intro h
    obtain ⟨rfl, rfl⟩ := eq_of_renderAt h
    rfl
  · intro h
    obtain ⟨rfl, rfl⟩ := hm.unique hn h
    rfl

/-- The leading digit stands at the same place in all forms of a number. -/
theorem adjustedExponent_congr (h : x.toRat = y.toRat) : x.adjustedExponent = y.adjustedExponent := by
  by_cases hx : x.toRat = 0
  · have hzero (z : Decimal) (hz : z.toRat = 0) : z.adjustedExponent = 0 :=
      if_pos (beq_iff_eq.2 (mantissa_eq_zero hz))
    rw [hzero x hx, hzero y (h ▸ hx)]
  · obtain ⟨hlow, hhigh⟩ := adjustedExponent_bounds hx
    obtain ⟨hlow', hhigh'⟩ := adjustedExponent_bounds (h ▸ hx)
    rw [h] at hlow hhigh
    have hle := pow_ten_lt.1 (hlow.trans_lt hhigh')
    have hge := pow_ten_lt.1 (hlow'.trans_lt hhigh)
    omega

/-- Few digits of a number that is not too small stand behind the point. -/
theorem Lowest.places_lt {d : Nat} (hm : Lowest m s) (hsig : Significant d (m * 10 ^ (-(s : Int))))
    (hlarge : smallest ≤ |(m : ℚ) * 10 ^ (-(s : Int))|) : s ≤ d + maxExponent := by
  obtain hs | hm := hm
  · omega
  · have hlt := hlarge.trans_lt (abs_mul_pow_lt.2 (hsig.natAbs_lt hm))
    have := pow_ten_lt.1 hlt
    omega

theorem parse?_render (hplaces : fits64 (p.digits + maxExponent) = true) (hrange : x.inRange = true)
    (hsig : Significant p.digits x.toRat) (hlarge : x.toRat = 0 ∨ smallest ≤ |x.toRat|) :
    ∃ y, parse? x.render.toList p = some y ∧ y.toRat = x.toRat := by
  obtain ⟨m, s, hm, hx, hwrite⟩ := toList_render x
  have hs : s ≤ p.digits + maxExponent := by
    obtain hzero | hlarge := hlarge
    · obtain hs | hm := hm
      · omega
      · rw [hx, mul_eq_zero] at hzero
        obtain hzero | hzero := hzero
        · rw [Int.cast_eq_zero.1 hzero] at hm
          exact absurd (Int.dvd_zero 10) hm
        · exact absurd hzero (pow_ten_pos _).ne'
    · rw [hx] at hsig hlarge
      exact hm.places_lt hsig hlarge
  have hfits : fits64 (Digits.last s m.natAbs).length = true := by
    rw [Digits.length_last]
    rw [fits64_iff] at hplaces ⊢
    omega
  have hvalue : (Decimal.rounded ⟨m, s⟩ p).toRat = x.toRat := by
    rw [hx] at hsig hlarge ⊢
    exact toRat_rounded_of_significant hsig hlarge
  refine ⟨_, ?_, hvalue⟩
  rw [hwrite, renderAt_eq, parse?_plainText (wholeDigits_ne_nil _ _) (all_isDigit_wholeDigits _ _)
    (Digits.all_isDigit_last _ _) hfits, value_wholeDigits, value_withSign, Digits.length_last]
  have hr : (Decimal.rounded ⟨m, s⟩ p).inRange = true := by
    rw [inRange, adjustedExponent_congr hvalue]
    exact hrange
  exact if_pos hr

/-- The sign stands before numbers below zero, and the decimals end with the last one that is needed. -/
theorem render_plain (x : Decimal) : ∃ whole fraction,
    x.render.toList = plainText (decide (x.toRat < 0)) whole fraction ∧ whole ≠ [] ∧
      (whole ++ fraction).all Char.isDigit = true ∧ fraction.getLast? ≠ some '0' := by
  obtain ⟨m, s, hm, hx, hwrite⟩ := toList_render x
  have hsign : x.toRat < 0 ↔ m < 0 := by
    rw [hx, ← not_le, ← not_le, mul_nonneg_iff_of_pos_right (pow_ten_pos _), Int.cast_nonneg_iff]
  refine ⟨wholeDigits m.natAbs s, Digits.last s m.natAbs, ?_, wholeDigits_ne_nil _ _, ?_, ?_⟩
  · rw [hwrite, renderAt_eq, decide_eq_decide.2 hsign]
  · rw [List.all_append, all_isDigit_wholeDigits, Digits.all_isDigit_last]
    rfl
  · cases s with
    | zero => rw [List.length_eq_zero_iff.1 (Digits.length_last 0 _)]; nofun
    | succ s =>
      have hdigit : ∀ d < 10, d ≠ 0 → Nat.digitChar d ≠ '0' := by decide
      rw [Digits.getLast?_last]
      intro h
      obtain hs | hm := hm
      · cases hs
      · exact hdigit _ (Nat.mod_lt _ (by decide)) (by omega) (Option.some.inj h)

end Decimal

/-! The digits of a precision -/

theorem Rounding.toNat_divide_le (mode : Rounding) (n d : Nat) : (mode.divide n d).toNat ≤ n / d + 1 := by
  have hle : mode.divide n d ≤ (n / d : Nat) + 1 := by
    unfold divide
    rw [← Int.ofNat_tdiv]
    grind
  exact Int.toNat_le.2 hle

namespace Precision

theorem round53_le (n : Nat) : round53 n ≤ 2 * n := by
  have hpow : Nat.pow 2 (n.log2 - 52) ≤ n ∨ n = 0 := by
    by_cases hn : n = 0
    · exact .inr hn
    · exact .inl ((Nat.pow_le_pow_right (by decide) (Nat.sub_le _ _)).trans (Nat.log2_self_le hn))
  obtain hpow | rfl := hpow
  · have hle := Rounding.toNat_divide_le .nearest n (Nat.pow 2 (n.log2 - 52))
    calc round53 n ≤ (n / Nat.pow 2 (n.log2 - 52) + 1) * Nat.pow 2 (n.log2 - 52) :=
          Nat.mul_le_mul_right _ hle
      _ = n / Nat.pow 2 (n.log2 - 52) * Nat.pow 2 (n.log2 - 52) + Nat.pow 2 (n.log2 - 52) := by ring
      _ ≤ 2 * n := by
        have := Nat.div_mul_le_self n (Nat.pow 2 (n.log2 - 52))
        omega
  · decide +kernel

theorem digitsOfBits_le (bits : Nat) : digitsOfBits bits ≤ 2 * bits + 1 := by
  have hround := round53_le (bits * logTwo)
  have hlog : bits * logTwo ≤ bits * logUnit := Nat.mul_le_mul_left _ (by decide)
  have hunit : 0 < logUnit := by decide
  rw [digitsOfBits]
  apply Nat.max_le.2
  refine ⟨by omega, Nat.div_le_of_le_mul ?_⟩
  rw [Nat.mul_add, Nat.mul_one, Nat.mul_left_comm, Nat.mul_comm logUnit bits]
  omega

end Precision

namespace Decimal

/-- In every precision that settings give, the text of a number is read as the number, if the precision has
room for it. Two numbers have one text if and only if they are equal. The text has no exponent, no zero
at the end of its decimals and a minus sign for numbers below zero alone. -/
theorem render_canonical (c : Config) (hc : c.precisionBits < 0x100000000) (x : Decimal) :
    (x.inRange = true → Significant c.precision.digits x.toRat →
      (x.toRat = 0 ∨ smallest ≤ |x.toRat|) →
      ∃ y, parse? x.render.toList c.precision = some y ∧ y.toRat = x.toRat) ∧
    (∀ y : Decimal, x.render = y.render ↔ x.toRat = y.toRat) ∧
    ∃ whole fraction, x.render.toList = plainText (decide (x.toRat < 0)) whole fraction ∧ whole ≠ [] ∧
      (whole ++ fraction).all Char.isDigit = true ∧ fraction.getLast? ≠ some '0' := by
  refine ⟨parse?_render ?_, fun y => render_eq_iff, render_plain x⟩
  have hdigits : c.precision.digits ≤ 2 * c.usedBits + 1 := Precision.digitsOfBits_le _
  rw [Config.usedBits] at hdigits
  have hbound : c.precision.digits ≤ 0x200000001 := by omega
  rw [fits64, maxExponent, Bool.and_eq_true, decide_eq_true_eq, decide_eq_true_eq]
  omega

/-- In three digits, a number below zero with two zeros at the end of its mantissa. -/
theorem render_canonical_of_zeros :
    let c : Config := { precisionBits := 8 }
    render ⟨-1500, 3⟩ = "-1.5" ∧ render ⟨-1500, 3⟩ = render ⟨-15, 1⟩ ∧
      ∃ y, parse? (render ⟨-1500, 3⟩).toList c.precision = some y ∧ y.toRat = -3 / 2 := by
  intro c
  have hdigits : c.precision.digits = 3 := by decide +kernel
  have hvalue : (⟨-1500, 3⟩ : Decimal).toRat = -3 / 2 := by norm_num [toRat]
  have hsame : (⟨-15, 1⟩ : Decimal).toRat = -3 / 2 := by norm_num [toRat]
  obtain ⟨hread, hunique, -⟩ := render_canonical c (by decide) ⟨-1500, 3⟩
  rw [hvalue] at hread
  refine ⟨by decide +kernel, (hunique _).2 (hvalue.trans hsame.symm), hread (by decide +kernel) ?_ (.inr ?_)⟩
  · rw [hdigits]
    exact ⟨-15, -1, by decide, by norm_num⟩
  · have hle : smallest < 10 ^ (0 : Int) := pow_ten_lt.2 (by decide)
    rw [zpow_zero] at hle
    rw [abs_of_neg (by norm_num)]
    linarith

end Decimal
end Reporting
