import Reporting.Proofs.Decimal.Places
import Reporting.Proofs.Decimal.Sums
/-!
Remainders of integers. The remainder is what is left of the dividend when the rounded product of the divisor
and the integer part of the rounded quotient is taken away. This is right just when that product is the
multiple of the divisor that the exact quotient leads to; the last difference adds no error of its own.
-/
namespace Reporting

variable {p : Nat} {mode mode' : Rounding} {u v w q r t m : ℚ} {e f : Int} {a b k : Int}

/-! Multiples of a power of ten -/

/-- The multiples of a power of ten. -/
def Tens (e : Int) (v : ℚ) : Prop := ∃ k : Int, v = k * 10 ^ e

namespace Tens

theorem mono (h : Tens e v) (hle : f ≤ e) : Tens f v := by
  obtain ⟨k, rfl⟩ := h
  obtain ⟨n, hn⟩ : ∃ n : Nat, e = n + f := ⟨(e - f).toNat, by omega⟩
  refine ⟨k * 10 ^ n, ?_⟩
  rw [hn, pow_ten_add, zpow_natCast]
  push_cast
  ring

theorem sub (hv : Tens e v) (hw : Tens e w) : Tens e (v - w) := by
  obtain ⟨k, rfl⟩ := hv
  obtain ⟨j, rfl⟩ := hw
  exact ⟨k - j, by push_cast; ring⟩

theorem int_mul (k : Int) (h : Tens e v) : Tens e (k * v) := by
  obtain ⟨j, rfl⟩ := h
  exact ⟨k * j, by push_cast; ring⟩

theorem abs (h : Tens e v) : Tens e |v| := by
  obtain ⟨k, rfl⟩ := h
  exact ⟨|k|, by rw [abs_mul, abs_of_pos (pow_ten_pos e), Int.cast_abs]⟩

theorem pow_ten (n : Nat) (e : Int) : Tens e (10 ^ ((n : Int) + e)) :=
  ⟨10 ^ n, by rw [pow_ten_add, zpow_natCast]; push_cast; rfl⟩

theorem intCast (k : Int) : Tens 0 (k : ℚ) := ⟨k, by rw [zpow_zero, mul_one]⟩

/-- Multiples are apart by the power of ten. -/
theorem add_le_of_lt (hv : Tens e v) (hw : Tens e w) (hlt : v < w) : v + 10 ^ e ≤ w := by
  obtain ⟨k, hk⟩ := hw.sub hv
  have hpos : 0 < (k : ℚ) * 10 ^ e := by
    rw [← hk]
    exact sub_pos.2 hlt
  have hone : (1 : ℚ) ≤ k := by
    have hk : (0 : ℚ) < k := pos_of_mul_pos_left hpos (pow_ten_pos e).le
    exact_mod_cast hk
  have hle : (10 : ℚ) ^ e ≤ k * 10 ^ e := le_mul_of_one_le_left (pow_ten_pos e).le hone
  linarith

theorem significant (h : Tens e v) (hlt : |v| < 10 ^ ((p : Int) + e)) : Significant p v := by
  obtain ⟨k, rfl⟩ := h
  exact ⟨k, e, abs_mul_pow_lt.1 hlt, rfl⟩

end Tens

namespace Significant

theorem exists_tens (h : Significant p v) : ∃ e : Int, Tens e v ∧ |v| < 10 ^ ((p : Int) + e) := by
  obtain ⟨k, e, hk, rfl⟩ := h
  exact ⟨e, ⟨k, rfl⟩, abs_mul_pow_lt.2 hk⟩

theorem abs (h : Significant p v) : Significant p |v| := by
  obtain h' | h' := abs_choice v
  · rwa [h']
  · rw [h']
    exact h.neg

theorem of_int (h : k.natAbs < 10 ^ p) : Significant p k := ⟨k, 0, h, by rw [zpow_zero, mul_one]⟩

theorem pow_ten (hp : 1 ≤ p) (e : Int) : Significant p (10 ^ e) :=
  ⟨1, e, Nat.one_lt_pow (by omega) (by decide), by rw [Int.cast_one, one_mul]⟩

/-- A quotient below one of numbers of few digits is below one by a unit of the last digit. -/
theorem abs_div_le (hv : Significant p v) (hw : Significant p w) (hlt : |v| < |w|) :
    |v / w| ≤ 1 - 10 ^ (-(p : Int)) := by
  obtain ⟨e, hve, hvlt⟩ := hv.exists_tens
  obtain ⟨f, hwf, hwlt⟩ := hw.exists_tens
  have hpos : 0 < |w| := (abs_nonneg v).trans_lt hlt
  have hpow (d : Int) : (10 : ℚ) ^ ((p : Int) + d) * 10 ^ (-(p : Int)) = 10 ^ d := by
    rw [← pow_ten_add, add_neg_cancel_comm]
  have hstep : |w| * 10 ^ (-(p : Int)) ≤ |w| - |v| := by
    obtain hle | hle := le_total f e
    · have hgap := (hve.mono hle).abs.add_le_of_lt hwf.abs hlt
      have hsmall := mul_le_mul_of_nonneg_right hwlt.le (pow_ten_pos (-(p : Int))).le
      rw [hpow] at hsmall
      linarith
    · -- the dividend has the finer unit, and stays below the next decade by it
      have hgap := hve.abs.add_le_of_lt (hwf.mono hle).abs hlt
      have hroom := hve.abs.add_le_of_lt (Tens.pow_ten p e) hvlt
      have hunit : (10 : ℚ) ^ (-(p : Int)) ≤ 1 := zpow_le_one_of_nonpos₀ (by norm_num) (by omega)
      have hsmall := mul_le_mul_of_nonneg_right hroom (pow_ten_pos (-(p : Int))).le
      rw [hpow] at hsmall
      nlinarith
  rw [abs_div, div_le_iff₀ hpos]
  linarith

end Significant

theorem Rounds.abs_le_of_le (h : Rounds mode p v r) (ht : Significant p t) (hle : |v| ≤ t) : |r| ≤ t :=
  abs_le.2 ⟨h.le_of_ge ht.neg (abs_le.1 hle).1, h.le_of_le ht (abs_le.1 hle).2⟩

/-- Rounding leads to no finer unit. -/
theorem Tens.rounds (hp : 1 ≤ p) (hv : Tens e v) (h : Rounds mode p v r) : Tens e r := by
  obtain hlt | hge := lt_or_ge |v| (10 ^ ((p : Int) + e))
  · rwa [h.exact (hv.significant hlt)]
  · obtain ⟨k, hk⟩ := h.significant.exists_units (h.le_abs (.pow_ten hp _) hge)
    exact Tens.mono ⟨k, hk⟩ (by omega)

theorem Rounds.eq_zero (hp : 1 ≤ p) (h : Rounds mode p v 0) : v = 0 := by
  by_contra hv
  have hlog : (10 : ℚ) ^ Int.log 10 |v| ≤ |v| := by
    exact_mod_cast Int.zpow_log_le_self (by decide) (abs_pos.2 hv)
  have hle := h.le_abs (.pow_ten hp _) hlog
  rw [abs_zero] at hle
  exact hle.not_gt (pow_ten_pos _)

/-! Signs -/

/-- `u` has the sign of `v` or is zero. -/
def Along (u v : ℚ) : Prop := (0 ≤ v → 0 ≤ u) ∧ (v ≤ 0 → u ≤ 0)

namespace Along

theorem trans (huv : Along u v) (hvw : Along v w) : Along u w :=
  ⟨fun h => huv.1 (hvw.1 h), fun h => huv.2 (hvw.2 h)⟩

theorem mul_right (h : Along u v) (c : ℚ) : Along (u * c) (v * c) := by
  obtain hc | rfl | hc := lt_trichotomy c 0
  · refine ⟨fun hv => mul_nonneg_of_nonpos_of_nonpos (h.2 ?_) hc.le,
      fun hv => mul_nonpos_of_nonneg_of_nonpos (h.1 ?_) hc.le⟩
    · exact nonpos_of_mul_nonneg_left hv hc
    · exact nonneg_of_mul_nonpos_left hv hc
  · simp [Along]
  · exact ⟨fun hv => mul_nonneg (h.1 (nonneg_of_mul_nonneg_left hv hc)) hc.le,
      fun hv => mul_nonpos_of_nonpos_of_nonneg (h.2 (nonpos_of_mul_nonpos_left hv hc)) hc.le⟩

theorem abs_sub_le (hu : Along u v) (hdiff : Along (v - u) v) : |v - u| ≤ |v| := by
  obtain hv | hv := le_total 0 v
  · rw [abs_of_nonneg (hdiff.1 hv), abs_of_nonneg hv]
    exact sub_le_self v (hu.1 hv)
  · rw [abs_of_nonpos (hdiff.2 hv), abs_of_nonpos hv, neg_sub]
    linarith [hu.2 hv]

end Along

theorem Rounds.along (h : Rounds mode p v r) : Along r v :=
  ⟨h.le_of_ge (.zero p), h.le_of_le (.zero p)⟩

/-- Rounding loses no sign. -/
theorem Rounds.along_self (hp : 1 ≤ p) (h : Rounds mode p v r) : Along v r := by
  have hzero : r = 0 → v = 0 := fun hr => (hr ▸ h).eq_zero hp
  refine ⟨fun hr => not_lt.1 fun hv => ?_, fun hr => not_lt.1 fun hv => ?_⟩
  · exact hv.ne (hzero (le_antisymm (h.along.2 hv.le) hr))
  · exact hv.ne' (hzero (le_antisymm hr (h.along.1 hv.le)))

theorem along_truncate (v : ℚ) : Along (truncate v) v := by
  unfold truncate
  split
  · rename_i hv
    refine ⟨fun _ => by exact_mod_cast Int.floor_nonneg.2 hv, fun hv' => ?_⟩
    rw [le_antisymm hv' hv, Int.floor_zero, Int.cast_zero]
  · rename_i hv
    exact ⟨fun h => absurd h hv, fun hv' => by exact_mod_cast Int.ceil_le.2 (by exact_mod_cast hv')⟩

/-! Remainders -/

/-- A remainder of integers: smaller than the divisor, zero or of the sign of the dividend, and the dividend
less a multiple of the divisor. -/
structure IsRemainder (a b : Int) (r : ℚ) : Prop where
  small : |r| < |(b : ℚ)|
  sign : r = 0 ∨ 0 < r * a
  multiple : ∃ k : Int, a - r = k * b

theorem cast_sub_tdiv (a b : Int) : (a : ℚ) - a.tdiv b * b = a.tmod b := by
  rw [sub_eq_iff_eq_add']
  exact_mod_cast (Int.tdiv_mul_add_tmod a b).symm

theorem abs_tmod_lt (hb : b ≠ 0) : |((a.tmod b : Int) : ℚ)| < |(b : ℚ)| := by
  have hlt : (a.tmod b).natAbs < b.natAbs := by
    rw [Int.natAbs_tmod]
    exact Nat.mod_lt _ (Int.natAbs_pos.2 hb)
  rw [abs_intCast, abs_intCast]
  exact_mod_cast hlt

theorem abs_tmod_le (a b : Int) : |((a.tmod b : Int) : ℚ)| ≤ |(a : ℚ)| := by
  have hle : (a.tmod b).natAbs ≤ a.natAbs := by
    rw [Int.natAbs_tmod]
    exact Nat.mod_le _ _
  rw [abs_intCast, abs_intCast]
  exact_mod_cast hle

theorem along_tmod (a b : Int) : Along (a.tmod b : Int) a := by
  refine ⟨fun ha => ?_, fun ha => ?_⟩
  · exact_mod_cast Int.tmod_nonneg b (by exact_mod_cast ha)
  · have hneg := Int.tmod_nonneg b (a := -a) (by rw [neg_nonneg]; exact_mod_cast ha)
    rw [Int.neg_tmod, neg_nonneg] at hneg
    exact_mod_cast hneg

/-- Integers have one remainder. -/
theorem isRemainder_iff (hb : b ≠ 0) : IsRemainder a b r ↔ r = (a.tmod b : Int) := by
  constructor
  · rintro ⟨hsmall, hsign, k, hk⟩
    -- both remainders lie on one side of zero, and differ by a multiple of the divisor
    have hdiff : r - (a.tmod b : Int) = (a.tdiv b - k) * b := by
      rw [← cast_sub_tdiv]
      linarith
    have hside := along_tmod a b
    have hlt := abs_tmod_lt (a := a) hb
    have hnear : |r - (a.tmod b : Int)| < |(b : ℚ)| := by
      obtain ⟨hlow, hhigh⟩ := abs_lt.1 hsmall
      obtain ⟨hlow', hhigh'⟩ := abs_lt.1 hlt
      obtain rfl | hpos := hsign
      · rwa [zero_sub, abs_neg]
      · obtain ⟨hr, ha⟩ | ⟨hr, ha⟩ := pos_and_pos_or_neg_and_neg_of_mul_pos hpos
        · have := hside.1 ha.le
          exact abs_lt.2 ⟨by linarith, by linarith⟩
        · have := hside.2 ha.le
          exact abs_lt.2 ⟨by linarith, by linarith⟩
    have hzero : a.tdiv b - k = 0 := by
      by_contra hne
      have hone : (1 : ℚ) ≤ |((a.tdiv b - k : Int) : ℚ)| := by exact_mod_cast Int.one_le_abs hne
      have hle := le_mul_of_one_le_left (abs_nonneg (b : ℚ)) hone
      rw [← abs_mul, Int.cast_sub, ← hdiff] at hle
      exact hle.not_gt hnear
    have hcast : ((a.tdiv b : Int) : ℚ) - k = 0 := by exact_mod_cast hzero
    rw [hcast, zero_mul] at hdiff
    exact sub_eq_zero.1 hdiff
  · rintro rfl
    refine ⟨abs_tmod_lt hb, ?_, a.tdiv b, by rw [← cast_sub_tdiv, sub_sub_cancel]⟩
    obtain ⟨hpos, hneg⟩ := along_tmod a b
    by_cases hzero : ((a.tmod b : Int) : ℚ) = 0
    · exact .inl hzero
    · have ha : (a : ℚ) ≠ 0 := by
        intro ha
        exact hzero (le_antisymm (hneg ha.le) (hpos ha.ge))
      obtain ha | ha := lt_or_gt_of_ne ha
      · exact .inr (mul_pos_of_neg_of_neg (lt_of_le_of_ne (hneg ha.le) hzero) ha)
      · exact .inr (mul_pos (lt_of_le_of_ne (hpos ha.le) (Ne.symm hzero)) ha)

/-- A difference that lies between zero and the dividend, and below the divisor, has no more digits than
they have. -/
theorem Significant.sub_multiple (hu : Significant p u) (hv : |v| < 10 ^ ((p : Int) + e)) (hm : Tens e m)
    (hle : |u - m| ≤ |u|) (hle' : |u - m| ≤ |v|) : Significant p (u - m) := by
  obtain ⟨f, huf, hlt⟩ := hu.exists_tens
  obtain h | h := le_total e f
  · exact ((huf.mono h).sub hm).significant (hle'.trans_lt hv)
  · exact (huf.sub (hm.mono h)).significant (hle.trans_lt hlt)

/-- The difference is the remainder just when the rounded product is the multiple that the exact quotient leads
to: it is never a rounding of another difference. -/
theorem remainder_iff_multiple (hp : 1 ≤ p) (ha : Significant p a) (hb : Significant p b) (hb0 : b ≠ 0)
    (hk : Along k (a / b)) (hm : Rounds mode p (k * b) m) (hr : Rounds mode' p (a - m) r) :
    r = (a.tmod b : Int) ↔ m = a.tdiv b * b := by
  obtain ⟨e, hbe, hlt⟩ := hb.exists_tens
  have hb0' : (b : ℚ) ≠ 0 := by exact_mod_cast hb0
  constructor
  · intro h
    have hmulti : Tens e m := (hbe.int_mul k).rounds hp hm
    have hside : Along m a := by
      have hquot := hk.mul_right b
      rw [div_mul_cancel₀ _ hb0'] at hquot
      exact hm.along.trans hquot
    have hsmall : |a - m| < |(b : ℚ)| := by
      by_contra hge
      have hle := hr.le_abs hb.abs (not_lt.1 hge)
      rw [h] at hle
      exact hle.not_gt (abs_tmod_lt hb0)
    have hdiff : Along (a - m) a := (hr.along_self hp).trans (h ▸ along_tmod a b)
    have hbetween : |a - m| ≤ |(a : ℚ)| := hside.abs_sub_le hdiff
    have hexact := hr.exact (ha.sub_multiple hlt hmulti hbetween hsmall.le)
    have := cast_sub_tdiv a b
    linarith
  · rintro rfl
    rw [cast_sub_tdiv] at hr
    have hsig := ha.sub_multiple hlt (hbe.int_mul (a.tdiv b))
    rw [cast_sub_tdiv] at hsig
    exact hr.exact (hsig (abs_tmod_le a b) (abs_tmod_lt hb0).le)

theorem natAbs_tdiv_mul_le (a b : Int) : (a.tdiv b * b).natAbs ≤ a.natAbs := by
  rw [Int.natAbs_mul, Int.natAbs_tdiv]
  exact Nat.div_mul_le_self _ _

theorem Significant.tdiv_mul (h : a.natAbs < 10 ^ p ∨ a.natAbs < b.natAbs) :
    Significant p (a.tdiv b * b : ℚ) := by
  have hsig : Significant p ((a.tdiv b * b : Int) : ℚ) := by
    obtain hlt | hlt := h
    · exact .of_int ((natAbs_tdiv_mul_le a b).trans_lt hlt)
    · have hzero : a.tdiv b = 0 := by
        rw [← Int.natAbs_eq_zero, Int.natAbs_tdiv]
        exact Nat.div_eq_of_lt hlt
      rw [hzero, Int.zero_mul, Int.cast_zero]
      exact .zero p
  rwa [Int.cast_mul] at hsig

/-- A dividend without more digits than the precision leaves room for the multiple, so that only the quotient
can lead to another one. -/
theorem multiple_iff_quotient (hp : 1 ≤ p) (ha : a.natAbs < 10 ^ p) (hb : b ≠ 0)
    (hm : Rounds mode p (k * b) m) : m = a.tdiv b * b ↔ k = a.tdiv b := by
  have hb0 : (b : ℚ) ≠ 0 := by exact_mod_cast hb
  constructor
  · intro h
    have hlt : (k * b).natAbs < 10 ^ p := by
      by_contra hge
      have hlarge : (10 : ℚ) ^ (p : Int) ≤ |(k : ℚ) * b| := by
        rw [← natCast_pow_ten, ← Int.cast_mul, abs_intCast]
        exact_mod_cast not_lt.1 hge
      have hle := hm.le_abs (.pow_ten hp _) hlarge
      rw [h, ← natCast_pow_ten, ← Int.cast_mul, abs_intCast] at hle
      have hle : 10 ^ p ≤ (a.tdiv b * b).natAbs := by exact_mod_cast hle
      exact hle.not_gt ((natAbs_tdiv_mul_le a b).trans_lt ha)
    have hsig : Significant p ((k * b : Int) : ℚ) := .of_int hlt
    rw [Int.cast_mul] at hsig
    rw [hm.exact hsig] at h
    exact_mod_cast mul_right_cancel₀ hb0 h
  · rintro rfl
    exact hm.exact (.tdiv_mul (.inl ha))

/-! Integer parts of rounded quotients -/

/-- The integer part survives rounding unless the number is rounded away to the next integer. -/
theorem Rounds.truncate_eq (hr : Rounds mode p v r) (hsig : Significant p (truncate v))
    (hlt : |r| < |(truncate v : ℚ)| + 1) : truncate r = truncate v := by
  unfold truncate at hsig hlt ⊢
  obtain hv | hv := le_or_gt 0 v
  · rw [if_pos hv] at hsig hlt ⊢
    have hpos : (0 : ℚ) ≤ ⌊v⌋ := by exact_mod_cast Int.floor_nonneg.2 hv
    have hle := hr.le_of_ge hsig (Int.floor_le v)
    rw [abs_of_nonneg (hpos.trans hle), abs_of_nonneg hpos] at hlt
    rw [if_pos (hpos.trans hle), Int.floor_eq_iff]
    exact ⟨hle, hlt⟩
  · rw [if_neg hv.not_ge] at hsig hlt ⊢
    have hneg : ((⌈v⌉ : Int) : ℚ) ≤ 0 := by exact_mod_cast Int.ceil_le.2 (by exact_mod_cast hv.le)
    have hle := hr.le_of_le hsig (Int.le_ceil v)
    rw [abs_of_nonpos (hle.trans hneg), abs_of_nonpos hneg] at hlt
    split
    · rename_i hr0
      have hzero : r = 0 := le_antisymm (hle.trans hneg) hr0
      have hceil : ((⌈v⌉ : Int) : ℚ) = 0 := le_antisymm hneg (hzero ▸ hle)
      rw [hzero, Int.floor_zero]
      exact_mod_cast hceil.symm
    · rw [Int.ceil_eq_iff]
      exact ⟨by linarith, hle⟩

theorem truncate_eq_zero (hlt : |v| < 1) : truncate v = 0 := by
  obtain ⟨hlow, hhigh⟩ := abs_lt.1 hlt
  unfold truncate
  split
  · rename_i hv
    exact Int.floor_eq_zero_iff.2 ⟨hv, hhigh⟩
  · rename_i hv
    exact Int.ceil_eq_zero_iff.2 ⟨hlow, (not_le.1 hv).le⟩

/-- A number that a precision can tell from the next integer is not rounded to it. -/
theorem Rounds.truncate_eq_of_le (hr : Rounds mode p v r) (hsig : Significant p (truncate v))
    (ht : Significant p t) (hle : |v| ≤ t) (hlt : t < |(truncate v : ℚ)| + 1) : truncate r = truncate v :=
  hr.truncate_eq hsig ((hr.abs_le_of_le ht hle).trans_lt hlt)

theorem abs_lt_truncate (v : ℚ) : |v| < |(truncate v : ℚ)| + 1 := by
  unfold truncate
  split
  · rename_i hv
    have hpos : (0 : ℚ) ≤ ⌊v⌋ := by exact_mod_cast Int.floor_nonneg.2 hv
    rw [abs_of_nonneg hv, abs_of_nonneg hpos]
    exact Int.lt_floor_add_one v
  · rename_i hv
    have hneg : ((⌈v⌉ : Int) : ℚ) ≤ 0 := by exact_mod_cast Int.ceil_le.2 (by exact_mod_cast (not_le.1 hv).le)
    rw [abs_of_neg (not_le.1 hv), abs_of_nonpos hneg]
    linarith [Int.ceil_lt_add_one v]

/-- A dividend that is smaller than its divisor. -/
theorem Rounds.truncate_div_of_lt (hr : Rounds mode p (a / b) r) (ha : Significant p a)
    (hb : Significant p b) (hlt : |(a : ℚ)| < |(b : ℚ)|) : truncate r = truncate (a / b) := by
  have hle := ha.abs_div_le hb hlt
  have hpos := pow_ten_pos (-(p : Int))
  have hzero : truncate ((a : ℚ) / b) = 0 := truncate_eq_zero (by linarith)
  have hsig : Significant p (1 - 10 ^ (-(p : Int))) := by
    have hpow : 1 ≤ 10 ^ p := Nat.pow_pos (by decide)
    refine ⟨(10 ^ p - 1 : Nat), -p, ?_, ?_⟩
    · rw [Int.natAbs_natCast]
      omega
    · rw [Int.cast_natCast, Nat.cast_sub hpow, natCast_pow_ten, Nat.cast_one, sub_mul, ← pow_ten_add,
        add_neg_cancel, zpow_zero, one_mul]
  refine hr.truncate_eq_of_le ?_ hsig hle ?_
  · rw [hzero, Int.cast_zero]
    exact .zero p
  · rw [hzero, Int.cast_zero, abs_zero]
    linarith

/-- A quotient has the digits of its dividend that the divisor does not take. -/
theorem succ_div_mul_le {m n j : Nat} (hm : m < 10 ^ (p - 1)) (hn : 10 ^ j ≤ n) (hle : n ≤ m) :
    (m / n + 1) * 10 ^ (j + 1) ≤ 10 ^ p := by
  have hj : j < p - 1 := (Nat.pow_lt_pow_iff_right (by decide)).1 ((hn.trans hle).trans_lt hm)
  have hsplit : 10 ^ (p - 1) = 10 ^ (p - 1 - j) * 10 ^ j := by rw [← Nat.pow_add, Nat.sub_add_cancel hj.le]
  have hlt : m / n < 10 ^ (p - 1 - j) := by
    rw [Nat.div_lt_iff_lt_mul (Nat.pow_pos (by decide) |>.trans_le hn)]
    exact hm.trans_le (hsplit.trans_le (Nat.mul_le_mul_left _ hn))
  calc (m / n + 1) * 10 ^ (j + 1) ≤ 10 ^ (p - 1 - j) * 10 ^ (j + 1) := Nat.mul_le_mul_right _ hlt
    _ = 10 ^ p := by rw [← Nat.pow_add]; congr 1; omega

/-- There is a number of few digits between a quotient and the next integer: it is as far from the integer as a
unit in the decimal place that the digits of the divisor lead to. -/
theorem exists_below_succ {m n : Nat} (hm : m < 10 ^ (p - 1)) (hn : n ≠ 0) (hle : n ≤ m) :
    ∃ t, Significant p t ∧ (m / n : ℚ) ≤ t ∧ t < (m / n : Nat) + 1 := by
  obtain ⟨j, hj⟩ : ∃ j, Digits.count n = j + 1 := ⟨_, (Nat.sub_add_cancel (Digits.count_pos n)).symm⟩
  have hlow := Digits.pow_count_le hn
  have hhigh := Digits.lt_pow_count n
  rw [hj, Nat.add_sub_cancel] at hlow
  rw [hj] at hhigh
  have hroom := succ_div_mul_le hm hlow hle
  have hone : 1 ≤ (m / n + 1) * 10 ^ (j + 1) := Nat.mul_pos (Nat.succ_pos _) (Nat.pow_pos (by decide))
  have hstep := pow_ten_pos (-((j + 1 : Nat) : Int))
  have hunit : (10 : ℚ) ^ ((j + 1 : Nat) : Int) * 10 ^ (-((j + 1 : Nat) : Int)) = 1 := by
    rw [← pow_ten_add, add_neg_cancel, zpow_zero]
  refine ⟨(m / n : Nat) + 1 - 10 ^ (-((j + 1 : Nat) : Int)), ?_, ?_, sub_lt_self _ hstep⟩
  · refine ⟨((m / n + 1) * 10 ^ (j + 1) - 1 : Nat), -((j + 1 : Nat) : Int), ?_, ?_⟩
    · rw [Int.natAbs_natCast]
      omega
    · rw [Int.cast_natCast, Nat.cast_sub hone, Nat.cast_mul, natCast_pow_ten, sub_mul, mul_assoc, hunit,
        mul_one, Nat.cast_one, one_mul, Nat.cast_add (R := ℚ), Nat.cast_one]
  · have hpos : (0 : ℚ) < n := by exact_mod_cast Nat.pos_of_ne_zero hn
    have hbelow : (n : ℚ) * 10 ^ (-((j + 1 : Nat) : Int)) ≤ 1 := by
      rw [← hunit, ← natCast_pow_ten]
      exact mul_le_mul_of_nonneg_right (by exact_mod_cast hhigh.le) hstep.le
    have hmult : (m : ℚ) + 1 ≤ ((m / n : Nat) + 1) * n := by
      exact_mod_cast Nat.lt_mul_of_div_lt (Nat.lt_succ_self _) (Nat.pos_of_ne_zero hn)
    rw [div_le_iff₀ hpos, sub_mul]
    linarith

theorem significant_truncate_div (hb : b ≠ 0) (ha : a.natAbs < 10 ^ p) :
    Significant p (truncate (a / b : ℚ)) := by
  rw [truncate_div hb]
  refine .of_int (lt_of_le_of_lt ?_ ha)
  rw [Int.natAbs_tdiv]
  exact Nat.div_le_self _ _

/-- A dividend with fewer digits than the precision. -/
theorem Rounds.truncate_div_of_few (hr : Rounds mode p (a / b) r) (ha : a.natAbs < 10 ^ (p - 1)) (hb : b ≠ 0)
    (hle : b.natAbs ≤ a.natAbs) : truncate r = truncate (a / b) := by
  obtain ⟨t, ht, hbelow, hlt⟩ := exists_below_succ ha (Int.natAbs_ne_zero.2 hb) hle
  have hpred : 10 ^ (p - 1) ≤ 10 ^ p := Nat.pow_le_pow_right (by decide) (Nat.sub_le p 1)
  refine hr.truncate_eq_of_le (significant_truncate_div hb (ha.trans_le hpred)) ht ?_ ?_
  · rwa [abs_div, abs_intCast, abs_intCast]
  · rwa [truncate_div hb, abs_intCast, Int.natAbs_tdiv]

/-- Rounding towards zero keeps the integer part. -/
theorem Rounds.truncate_div_of_inward (hr : Rounds mode p (a / b) r) (hmode : mode.Inward (a / b))
    (ha : a.natAbs < 10 ^ p) (hb : b ≠ 0) : truncate r = truncate (a / b) :=
  hr.truncate_eq (significant_truncate_div hb ha) ((hr.abs_le_abs hmode).trans_lt (abs_lt_truncate _))

/-- When rounding the quotient does not lead to another integer part. -/
theorem Rounds.truncate_div (hr : Rounds mode p (a / b) r) (ha : Significant p a) (hb : Significant p b)
    (hb0 : b ≠ 0)
    (h : a.natAbs < 10 ^ (p - 1) ∨ a.natAbs < b.natAbs ∨ a.natAbs < 10 ^ p ∧ mode.Inward (a / b)) :
    truncate r = truncate (a / b) := by
  obtain hlt | hle := lt_or_ge a.natAbs b.natAbs
  · apply hr.truncate_div_of_lt ha hb
    rw [abs_intCast, abs_intCast]
    exact_mod_cast hlt
  · obtain hfew | hlt | ⟨hlt, hmode⟩ := h
    · exact hr.truncate_div_of_few hfew hb0 hle
    · exact absurd hlt hle.not_gt
    · exact hr.truncate_div_of_inward hmode hlt hb0

theorem Neighbours.exists_rounds {lo hi : ℚ} (h : Neighbours p v lo hi) (hr : r = lo ∨ r = hi) :
    ∃ mode, Rounds mode p v r := by
  by_cases hv : Significant p v
  · have hlo : lo = v := le_antisymm h.below.1.2 (h.le_of_le hv le_rfl)
    have hhi : hi = v := le_antisymm (h.le_of_ge hv le_rfl) h.above.1.2
    rw [hlo, hhi, or_self] at hr
    rw [hr]
    exact ⟨.nearest, .self hv⟩
  · obtain rfl | rfl := hr
    · exact ⟨.down, .of_neighbours hv h rfl⟩
    · exact ⟨.up, .of_neighbours hv h rfl⟩

namespace Decimal

variable {x y : Decimal} {p : Precision}

theorem smallest_le_one : smallest ≤ 1 := zpow_le_one_of_nonpos₀ (by norm_num) (by decide)

/-- Integers are not too small. -/
theorem smallest_le_of_int (h : Tens 0 v) : v = 0 ∨ smallest ≤ |v| := by
  obtain ⟨k, rfl⟩ := h
  rw [zpow_zero, mul_one]
  obtain rfl | hk := eq_or_ne k 0
  · exact .inl Int.cast_zero
  · have hone : (1 : ℚ) ≤ |(k : ℚ)| := by exact_mod_cast Int.one_le_abs hk
    exact .inr (smallest_le_one.trans hone)

/-- A quotient is a rounding of the exact one, in the mode of the precision where that is a direction, unless
the exact one is too small. -/
theorem exists_rounds_div (hy : y.mantissa ≠ 0) (p : Precision) : ∃ q, x.div? y p = some q ∧
    (q.toRat = 0 ∧ |x.toRat / y.toRat| < smallest ∨ ∃ mode, (p.rounding ≠ .nearest → mode = p.rounding) ∧
      Rounds mode p.digits (x.toRat / y.toRat) q.toRat) := by
  obtain ⟨r, hr, hsmall, hlarge⟩ := (x.spareQuotient y p).exists_rounds p
  obtain ⟨⟨lo, hi, hn, hmem⟩, hiff⟩ := rounds_spareQuotient hy hr
  refine ⟨_, div?_eq hy, ?_⟩
  obtain hlt | hge := lt_or_ge |r| smallest
  · refine .inl ⟨hsmall hlt, not_le.1 fun hquot => ?_⟩
    exact hlt.not_ge (hn.le_abs hmem (significant_smallest p.digits_pos) hquot)
  · rw [hlarge hge]
    by_cases hmode : p.rounding = .nearest
    · obtain ⟨mode, hrounds⟩ := hn.exists_rounds hmem
      exact .inr ⟨mode, fun h => absurd hmode h, hrounds⟩
    · exact .inr ⟨p.rounding, fun _ => rfl, hiff.2 fun h => absurd h hmode⟩

/-- The remainder of integers is the dividend less a product, rounded once more. -/
theorem exists_rem (hx : x.toRat = a) (hy : y.toRat = b) (hb : b ≠ 0) (ha : Significant p.digits a) :
    ∃ q r, x.div? y p = some q ∧ x.rem? y p = some r ∧ Along (truncate q.toRat) (a / b) ∧
      (q.toRat = 0 ∧ |(a / b : ℚ)| < 1 ∨ ∃ mode, (p.rounding ≠ .nearest → mode = p.rounding) ∧
        Rounds mode p.digits (a / b) q.toRat) ∧
      Rounds p.rounding p.digits (truncate q.toRat * b) (q.trunc.mul y p).toRat ∧
      ∃ mode, Rounds mode p.digits (a - (q.trunc.mul y p).toRat) r.toRat := by
  have hym : y.mantissa ≠ 0 := fun h => hb (by
    have hzero := toRat_eq_zero h
    rw [hy] at hzero
    exact_mod_cast hzero)
  obtain ⟨q, hq, hquot⟩ := exists_rounds_div (x := x) hym p
  rw [hx, hy] at hquot
  have hprod : (q.trunc.exactMul y).toRat = truncate q.toRat * b := by
    rw [toRat_exactMul, toRat_trunc, hy]
  have hint : Tens 0 (truncate q.toRat * b : ℚ) := (Tens.intCast b).int_mul _
  have hmul : Rounds p.rounding p.digits (truncate q.toRat * b) (q.trunc.mul y p).toRat := by
    rw [← hprod]
    exact rounds_rounded p (hprod ▸ smallest_le_of_int hint)
  have hdiff : Tens 0 ((a : ℚ) - (q.trunc.mul y p).toRat) :=
    (Tens.intCast a).sub (hint.rounds p.digits_pos hmul)
  have hsub : ∃ mode, Rounds mode p.digits (a - (q.trunc.mul y p).toRat)
      (x.sub (q.trunc.mul y p) p).toRat := by
    have hsum := smallest_le_of_int hdiff
    rw [sub_eq_add_neg, ← toRat_neg, ← hx] at hsum ⊢
    refine exists_rounds_add (by rwa [hx]) ?_ hsum
    rw [toRat_neg]
    exact hmul.significant.neg
  refine ⟨q, _, hq, by rw [rem?, hq]; rfl, ?_, ?_, hmul, hsub⟩
  · obtain ⟨hzero, -⟩ | ⟨mode, -, hrounds⟩ := hquot
    · rw [hzero, truncate_eq_zero (by rw [abs_zero]; exact one_pos), Int.cast_zero]
      exact ⟨fun _ => le_rfl, fun _ => le_rfl⟩
    · exact (along_truncate _).trans hrounds.along
  · exact hquot.imp_left fun h => ⟨h.1, h.2.trans_le smallest_le_one⟩

/-- The remainder of integers is a remainder just when the product that is taken away is the multiple of the
divisor that the exact quotient leads to, and so when the dividend has fewer digits than the precision or is
smaller than the divisor, or the quotient is not rounded away from zero. -/
theorem rem_isRemainder (hx : x.toRat = a) (hy : y.toRat = b) (hb : b ≠ 0) (ha : Significant p.digits a)
    (hb' : Significant p.digits b) :
    ∃ q r, x.div? y p = some q ∧ x.rem? y p = some r ∧
      (IsRemainder a b r.toRat ↔ (q.trunc.mul y p).toRat = a.tdiv b * b) ∧
      (a.natAbs < 10 ^ p.digits → (IsRemainder a b r.toRat ↔ q.trunc.toRat = a.tdiv b)) ∧
      (a.natAbs < 10 ^ (p.digits - 1) ∨ a.natAbs < b.natAbs ∨
        a.natAbs < 10 ^ p.digits ∧ p.rounding.Inward (a / b) → IsRemainder a b r.toRat) := by
  obtain ⟨q, r, hq, hr, halong, hquot, hmul, mode, hsub⟩ := exists_rem hx hy hb ha
  have hmultiple : IsRemainder a b r.toRat ↔ (q.trunc.mul y p).toRat = a.tdiv b * b := by
    rw [isRemainder_iff hb]
    exact remainder_iff_multiple p.digits_pos ha hb' hb halong hmul hsub
  refine ⟨q, r, hq, hr, hmultiple, fun hlt => ?_, fun h => ?_⟩
  · rw [hmultiple, multiple_iff_quotient p.digits_pos hlt hb hmul, toRat_trunc]
    exact_mod_cast Iff.rfl
  · have htrunc : truncate q.toRat = a.tdiv b := by
      rw [← Reporting.truncate_div hb]
      obtain ⟨hzero, hsmall⟩ | ⟨mode, hmode, hrounds⟩ := hquot
      · rw [hzero, truncate_eq_zero hsmall, truncate_eq_zero (by rw [abs_zero]; exact one_pos)]
      · refine hrounds.truncate_div ha hb' hb (h.imp_right fun h => h.imp_right fun ⟨hlt, hinward⟩ => ⟨hlt, ?_⟩)
        rwa [hmode hinward.ne_nearest]
    have hfits : a.natAbs < 10 ^ p.digits ∨ a.natAbs < b.natAbs := by
      have hpred : 10 ^ (p.digits - 1) ≤ 10 ^ p.digits := Nat.pow_le_pow_right (by decide) (Nat.sub_le _ 1)
      obtain hfew | hlt | ⟨hlt, -⟩ := h
      · exact .inl (hfew.trans_le hpred)
      · exact .inr hlt
      · exact .inl hlt
    rw [htrunc] at hmul
    exact hmultiple.2 (hmul.exact (.tdiv_mul hfits))

/-- 999 by 2 toward zero, where the quotient of 499.5 stays 499, and 98 by 11 to the nearest. -/
theorem rem_isRemainder_of_inward :
    (ofInt 999).rem? (ofInt 2) (.ofBits 8 .towardZero) = some (ofInt 1) ∧ IsRemainder 999 2 1 ∧
      (ofInt (-98)).rem? (ofInt 11) (.ofBits 8 .nearest) = some (ofInt (-10)) ∧ IsRemainder (-98) 11 (-10) := by
  have hcut : (ofInt 999).rem? (ofInt 2) (.ofBits 8 .towardZero) = some (ofInt 1) := by decide +kernel
  have hfew : (ofInt (-98)).rem? (ofInt 11) (.ofBits 8 .nearest) = some (ofInt (-10)) := by decide +kernel
  obtain ⟨q, r, -, hr, -, -, hrem⟩ := rem_isRemainder (p := .ofBits 8 .towardZero) (toRat_ofInt 999)
    (toRat_ofInt 2) (by decide) (.of_int (by decide +kernel)) (.of_int (by decide +kernel))
  obtain ⟨q', r', -, hr', -, -, hrem'⟩ := rem_isRemainder (p := .ofBits 8 .nearest) (toRat_ofInt (-98))
    (toRat_ofInt 11) (by decide) (.of_int (by decide +kernel)) (.of_int (by decide +kernel))
  obtain rfl := Option.some.inj (hcut.symm.trans hr)
  obtain rfl := Option.some.inj (hfew.symm.trans hr')
  have hone := hrem (.inr (.inr ⟨by decide +kernel, .inl rfl⟩))
  have hten := hrem' (.inl (by decide +kernel))
  rw [toRat_ofInt] at hone hten
  exact ⟨hcut, by exact_mod_cast hone, hfew, by exact_mod_cast hten⟩

/-- In three digits, 999 by 2 to the nearest leaves minus one, because the quotient of 499.5 is rounded to 500,
and 1010 by 7 leaves nothing, because 144 times 7 is rounded to 1010. -/
theorem rem_not_isRemainder :
    let p : Precision := .ofBits 8 .nearest
    (Significant p.digits ((999 : Int) : ℚ) ∧ Significant p.digits ((2 : Int) : ℚ) ∧
      (ofInt 999).rem? (ofInt 2) p = some (ofInt (-1)) ∧ ¬ IsRemainder 999 2 (ofInt (-1)).toRat) ∧
    Significant p.digits ((1010 : Int) : ℚ) ∧ Significant p.digits ((7 : Int) : ℚ) ∧
      (ofInt 1010).rem? (ofInt 7) p = some (ofInt 0) ∧ ¬ IsRemainder 1010 7 (ofInt 0).toRat := by
  intro p
  refine ⟨⟨.of_int (by decide +kernel), .of_int (by decide +kernel), by decide +kernel, ?_⟩,
    ⟨101, 1, by decide +kernel, by norm_num⟩, .of_int (by decide +kernel), by decide +kernel, ?_⟩
  · rw [toRat_ofInt, isRemainder_iff (by decide)]
    exact_mod_cast (by decide : ¬ (-1 : Int) = Int.tmod 999 2)
  · rw [toRat_ofInt, isRemainder_iff (by decide)]
    exact_mod_cast (by decide : ¬ (0 : Int) = Int.tmod 1010 7)

end Decimal
end Reporting
