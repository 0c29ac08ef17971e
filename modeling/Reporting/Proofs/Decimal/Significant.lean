import Mathlib.Algebra.Order.Floor.Ring
import Mathlib.Algebra.Order.Ring.Abs
import Mathlib.Data.Rat.Floor
import Mathlib.Order.Bounds.Basic
import Mathlib.Tactic.Linarith
import Mathlib.Tactic.Ring
import Reporting.Decimal.Rounding
/-!
Numbers with a bounded number of significant digits, the neighbours that any number has among them, and
which of the two a rounding mode prescribes. Nothing here depends on how numbers are stored or rounded.
-/
namespace Reporting

variable {p : Nat} {mode : Rounding} {x y lo hi r s c : ℚ}

/-- The numbers that can be written with `p` significant digits. -/
def Significant (p : Nat) (x : ℚ) : Prop := ∃ m e : Int, m.natAbs < 10 ^ p ∧ x = m * (10 : ℚ) ^ e

theorem pow_ten_pos (e : Int) : (0 : ℚ) < 10 ^ e := zpow_pos (by norm_num) e

theorem pow_ten_lt {d e : Int} : (10 : ℚ) ^ d < 10 ^ e ↔ d < e :=
  zpow_lt_zpow_iff_right₀ (by norm_num)

theorem pow_ten_add (d e : Int) : (10 : ℚ) ^ (d + e) = 10 ^ d * 10 ^ e := zpow_add₀ (by norm_num) d e

theorem mul_pow_ten_cancel (v : ℚ) (e : Int) : v * 10 ^ e * 10 ^ (-e) = v := by
  rw [mul_assoc, ← pow_ten_add, add_neg_cancel, zpow_zero, mul_one]

theorem mul_pow_ten_neg_cancel (v : ℚ) (e : Int) : v * 10 ^ (-e) * 10 ^ e = v := by
  rw [mul_assoc, ← pow_ten_add, neg_add_cancel, zpow_zero, mul_one]

theorem natCast_pow_ten (n : Nat) : ((10 ^ n : Nat) : ℚ) = 10 ^ (n : Int) := by
  rw [Nat.cast_pow, Nat.cast_ofNat, zpow_natCast]

theorem intCast_div_pow_ten (m : Int) (n : Nat) :
    (m : ℚ) / ((Nat.pow 10 n : Nat) : Int) = m * 10 ^ (-(n : Int)) := by
  have hpow : ((Nat.pow 10 n : Nat) : ℚ) = 10 ^ (n : Int) := natCast_pow_ten n
  rw [Int.cast_natCast, hpow, zpow_neg, div_eq_mul_inv]

theorem abs_intCast (k : Int) : |(k : ℚ)| = k.natAbs := by
  rw [Nat.cast_natAbs, Int.cast_abs]

theorem abs_mul_pow_lt {k e : Int} : |(k : ℚ) * 10 ^ e| < 10 ^ ((p : Int) + e) ↔ k.natAbs < 10 ^ p := by
  rw [abs_mul, abs_of_pos (pow_ten_pos e), pow_ten_add, mul_lt_mul_iff_left₀ (pow_ten_pos e), abs_intCast,
    ← natCast_pow_ten, Nat.cast_lt]

/-- A mantissa that does not end in zero goes with the largest exponent that its number has. -/
theorem exponent_le {m k d e : Int} (hm : ¬ 10 ∣ m) (h : (m : ℚ) * 10 ^ e = k * 10 ^ d) : d ≤ e := by
  by_contra hlt
  obtain ⟨j, hj⟩ : ∃ j : Nat, d = (j + 1 : Nat) + e := ⟨(d - e - 1).toNat, by omega⟩
  rw [hj, pow_ten_add, ← mul_assoc, zpow_natCast] at h
  have hcast : m = k * 10 ^ (j + 1) := by
    exact_mod_cast mul_right_cancel₀ (pow_ten_pos e).ne' h
  exact hm ⟨k * 10 ^ j, by rw [hcast, pow_succ]; ring⟩

namespace Significant

theorem zero (p : Nat) : Significant p 0 :=
  ⟨0, 0, Nat.pow_pos (by decide), by rw [Int.cast_zero, zero_mul]⟩

theorem neg (h : Significant p x) : Significant p (-x) := by
  obtain ⟨m, e, hm, rfl⟩ := h
  exact ⟨-m, e, by rwa [Int.natAbs_neg], by rw [Int.cast_neg, neg_mul]⟩

theorem neg_iff : Significant p (-x) ↔ Significant p x :=
  ⟨fun h => neg_neg x ▸ h.neg, neg⟩

theorem mul_pow (h : Significant p x) (d : Int) : Significant p (x * 10 ^ d) := by
  obtain ⟨m, e, hm, rfl⟩ := h
  exact ⟨m, e + d, hm, by rw [pow_ten_add, mul_assoc]⟩

/-- A mantissa that does not end in zero has all the digits of its number. -/
theorem natAbs_lt {m e : Int} (h : Significant p (m * 10 ^ e)) (hm : ¬ 10 ∣ m) : m.natAbs < 10 ^ p := by
  obtain ⟨k, d, hk, heq⟩ := h
  have hle := exponent_le hm heq
  have hlt : |(m : ℚ) * 10 ^ e| < 10 ^ ((p : Int) + e) := by
    rw [heq]
    exact (abs_mul_pow_lt.2 hk).trans_le (zpow_le_zpow_right₀ (by norm_num) (by omega))
  exact abs_mul_pow_lt.1 hlt

/-- One more than the largest mantissa is the first one of the next decade. -/
theorem of_natAbs_le {m : Int} (hp : 1 ≤ p) (hm : m.natAbs ≤ 10 ^ p) (e : Int) :
    Significant p (m * 10 ^ e) := by
  obtain hlt | heq := Nat.lt_or_eq_of_le hm
  · exact ⟨m, e, hlt, rfl⟩
  · have hone : m = m.sign * ((10 ^ p : Nat) : Int) := by rw [← heq, Int.sign_mul_natAbs]
    have hsign : m.sign.natAbs < 10 ^ p := by
      have hlarge : 10 ^ 1 ≤ 10 ^ p := Nat.pow_le_pow_right (by decide) hp
      have hsmall : m.sign.natAbs ≤ 1 := by
        rw [Int.natAbs_sign]
        split <;> decide
      omega
    refine ⟨m.sign, p + e, hsign, ?_⟩
    rw [pow_ten_add, ← mul_assoc, zpow_natCast]
    congr 1
    exact_mod_cast hone

/-- A number of few digits that is not smaller than a decade is an integer in units of its last
digit. -/
theorem exists_int (h : Significant p x) (hlow : (10 : ℚ) ^ ((p : Int) - 1) ≤ |x|) : ∃ k : Int, x = k := by
  obtain ⟨m, e, hm, rfl⟩ := h
  have he : 0 ≤ e := by
    by_contra hneg
    have := pow_ten_lt.1 (hlow.trans_lt (abs_mul_pow_lt.2 hm))
    omega
  obtain ⟨n, rfl⟩ := Int.eq_ofNat_of_zero_le he
  exact ⟨m * 10 ^ n, by push_cast; rw [zpow_natCast]⟩

end Significant

/-- The largest number of `p` digits that is not above `x`, and the smallest that is not below it. -/
structure Neighbours (p : Nat) (x lo hi : ℚ) : Prop where
  below : IsGreatest {r | Significant p r ∧ r ≤ x} lo
  above : IsLeast {r | Significant p r ∧ x ≤ r} hi

namespace Neighbours

theorem le_of_le (h : Neighbours p x lo hi) (hs : Significant p s) (hle : s ≤ x) : s ≤ lo :=
  h.below.2 ⟨hs, hle⟩

theorem le_of_ge (h : Neighbours p x lo hi) (hs : Significant p s) (hle : x ≤ s) : hi ≤ s :=
  h.above.2 ⟨hs, hle⟩

theorem lt (h : Neighbours p x lo hi) (hx : ¬ Significant p x) : lo < x ∧ x < hi := by
  refine ⟨lt_of_le_of_ne h.below.1.2 ?_, lt_of_le_of_ne h.above.1.2 ?_⟩
  · rintro rfl
    exact hx h.below.1.1
  · rintro rfl
    exact hx h.above.1.1

theorem unique {lo' hi' : ℚ} (h : Neighbours p x lo hi) (h' : Neighbours p x lo' hi') :
    lo = lo' ∧ hi = hi' :=
  ⟨h.below.unique h'.below, h.above.unique h'.above⟩

theorem neg (h : Neighbours p x lo hi) : Neighbours p (-x) (-hi) (-lo) where
  below := by
    refine ⟨⟨h.above.1.1.neg, neg_le_neg h.above.1.2⟩, ?_⟩
    intro s hs
    exact le_neg.1 (h.le_of_ge hs.1.neg (le_neg.1 hs.2))
  above := by
    refine ⟨⟨h.below.1.1.neg, neg_le_neg h.below.1.2⟩, ?_⟩
    intro s hs
    exact neg_le.1 (h.le_of_le hs.1.neg (neg_le.1 hs.2))

/-- All numbers between two neighbours have the same neighbours. -/
theorem within (h : Neighbours p x lo hi) (hlo : lo ≤ y) (hhi : y ≤ hi) (hy : ¬ Significant p y) :
    Neighbours p y lo hi where
  below := by
    refine ⟨⟨h.below.1.1, hlo⟩, ?_⟩
    intro s hs
    obtain hle | hgt := le_or_gt s x
    · exact h.le_of_le hs.1 hle
    · have heq : y = hi := le_antisymm hhi ((h.le_of_ge hs.1 hgt.le).trans hs.2)
      exact absurd (heq ▸ h.above.1.1) hy
  above := by
    refine ⟨⟨h.above.1.1, hhi⟩, ?_⟩
    intro s hs
    obtain hge | hlt := le_or_gt x s
    · exact h.le_of_ge hs.1 hge
    · have heq : y = lo := le_antisymm (hs.2.trans (h.le_of_le hs.1 hlt.le)) hlo
      exact absurd (heq ▸ h.below.1.1) hy

/-- In units of the last digit of its decade, the neighbours of a number are the integers around it. -/
theorem of_decade (hp : 1 ≤ p) (hlow : (10 : ℚ) ^ ((p : Int) - 1) ≤ |y|) (hhigh : |y| < 10 ^ (p : Int)) :
    Neighbours p y ⌊y⌋ ⌈y⌉ := by
  have hbelow (z : ℚ) (hlow : (10 : ℚ) ^ ((p : Int) - 1) ≤ |z|) (hhigh : |z| < 10 ^ (p : Int)) :
      IsGreatest {r | Significant p r ∧ r ≤ z} (⌊z⌋ : ℚ) := by
    have hbound : ⌊z⌋.natAbs ≤ 10 ^ p := by
      have hten : ((10 ^ p : Nat) : ℚ) = 10 ^ (p : Int) := natCast_pow_ten p
      have hupper : ⌊z⌋ < ((10 ^ p : Nat) : Int) := by
        apply Int.floor_lt.2
        rw [Int.cast_natCast, hten]
        exact (le_abs_self z).trans_lt hhigh
      have hlower : -((10 ^ p : Nat) : Int) ≤ ⌊z⌋ := by
        apply Int.le_floor.2
        rw [Int.cast_neg, Int.cast_natCast, hten]
        exact (abs_lt.1 hhigh).1.le
      omega
    have hsig := Significant.of_natAbs_le hp hbound 0
    rw [zpow_zero, mul_one] at hsig
    refine ⟨⟨hsig, Int.floor_le z⟩, ?_⟩
    rintro s ⟨hs, hle⟩
    -- A number below the decade of `z` is below it on the positive side only.
    obtain hs' | hs' := le_or_gt ((10 : ℚ) ^ ((p : Int) - 1)) |s|
    · obtain ⟨k, rfl⟩ := hs.exists_int hs'
      exact_mod_cast Int.le_floor.2 hle
    · have hpos : 0 ≤ z := by
        by_contra hneg
        rw [abs_of_neg (not_le.1 hneg)] at hlow
        have hsneg := (abs_lt.1 hs').1
        linarith
      rw [abs_of_nonneg hpos] at hlow
      have hcast : ((10 ^ (p - 1) : Nat) : ℚ) = 10 ^ ((p : Int) - 1) := by
        rw [natCast_pow_ten, Nat.cast_sub hp, Nat.cast_one]
      have hfloor : ((10 ^ (p - 1) : Nat) : Int) ≤ ⌊z⌋ := by
        apply Int.le_floor.2
        rwa [Int.cast_natCast, hcast]
      calc s ≤ 10 ^ ((p : Int) - 1) := (le_abs_self s).trans hs'.le
        _ = (((10 ^ (p - 1) : Nat) : Int) : ℚ) := by rw [Int.cast_natCast, hcast]
        _ ≤ ⌊z⌋ := by exact_mod_cast hfloor
  obtain ⟨⟨hsig, -⟩, hleast⟩ := hbelow (-y) (by rwa [abs_neg]) (by rwa [abs_neg])
  rw [Int.floor_neg, Int.cast_neg] at hsig hleast
  refine ⟨hbelow y hlow hhigh, ⟨Significant.neg_iff.1 hsig, Int.le_ceil y⟩, ?_⟩
  rintro s ⟨hs, hle⟩
  exact neg_le_neg_iff.1 (hleast ⟨hs.neg, neg_le_neg hle⟩)

theorem mul_pow (h : Neighbours p x lo hi) (d : Int) :
    Neighbours p (x * 10 ^ d) (lo * 10 ^ d) (hi * 10 ^ d) := by
  have hpos := pow_ten_pos d
  refine ⟨⟨⟨h.below.1.1.mul_pow d, ?_⟩, ?_⟩, ⟨⟨h.above.1.1.mul_pow d, ?_⟩, ?_⟩⟩
  · exact mul_le_mul_of_nonneg_right h.below.1.2 hpos.le
  · rintro s ⟨hs, hle⟩
    rw [← mul_pow_ten_neg_cancel s d] at hle ⊢
    exact mul_le_mul_of_nonneg_right
      (h.le_of_le (hs.mul_pow _) (le_of_mul_le_mul_right hle hpos)) hpos.le
  · exact mul_le_mul_of_nonneg_right h.above.1.2 hpos.le
  · rintro s ⟨hs, hle⟩
    rw [← mul_pow_ten_neg_cancel s d] at hle ⊢
    exact mul_le_mul_of_nonneg_right
      (h.le_of_ge (hs.mul_pow _) (le_of_mul_le_mul_right hle hpos)) hpos.le

end Neighbours

/-- Which of its neighbours a mode prescribes for a number between them: the nearer one, and of two
that are equally near the one that is an even number of steps from zero; or the one in a direction. -/
def Rounding.Prescribes (mode : Rounding) (x lo hi r : ℚ) : Prop :=
  match mode with
  | nearest => (x - lo < hi - x → r = lo) ∧ (hi - x < x - lo → r = hi) ∧
      (x - lo = hi - x → (r = lo ∨ r = hi) ∧ ∃ k : Int, r = 2 * k * (hi - lo))
  | towardZero => r = if 0 ≤ x then lo else hi
  | up => r = hi
  | down => r = lo
  | awayFromZero => r = if 0 ≤ x then hi else lo

namespace Rounding.Prescribes

theorem mem (h : mode.Prescribes x lo hi r) : r = lo ∨ r = hi := by
  cases mode with
  | nearest =>
    obtain ⟨hbelow, habove, heven⟩ := h
    obtain hlt | heq | hgt := lt_trichotomy (x - lo) (hi - x)
    · exact .inl (hbelow hlt)
    · exact (heven heq).1
    · exact .inr (habove hgt)
  | towardZero =>
    simp only [Prescribes] at h
    split at h
    · exact .inl h
    · exact .inr h
  | up => exact .inr h
  | down => exact .inl h
  | awayFromZero =>
    simp only [Prescribes] at h
    split at h
    · exact .inr h
    · exact .inl h

theorem mul (h : mode.Prescribes x lo hi r) (hc : 0 < c) :
    mode.Prescribes (x * c) (lo * c) (hi * c) (r * c) := by
  have hsign : 0 ≤ x * c ↔ 0 ≤ x := mul_nonneg_iff_of_pos_right hc
  cases mode with
  | nearest =>
    obtain ⟨hbelow, habove, heven⟩ := h
    simp only [Prescribes, ← sub_mul, mul_lt_mul_iff_left₀ hc, mul_left_inj' hc.ne']
    refine ⟨hbelow, habove, fun heq => ⟨(heven heq).1, ?_⟩⟩
    obtain ⟨k, hk⟩ := (heven heq).2
    exact ⟨k, by rw [hk, mul_assoc]⟩
  | towardZero =>
    simp only [Prescribes, hsign] at h ⊢
    rw [h, ite_mul]
  | up => exact congrArg (· * c) h
  | down => exact congrArg (· * c) h
  | awayFromZero =>
    simp only [Prescribes, hsign] at h ⊢
    rw [h, ite_mul]

/-- Of two equally near neighbours only one is an even number of steps from zero. -/
theorem not_both_even {j k : Int} (hlt : lo < hi) (hlo : lo = 2 * j * (hi - lo))
    (hhi : hi = 2 * k * (hi - lo)) : False := by
  have hstep : (hi - lo) * (2 * (k - j) - 1) = 0 := by linarith
  obtain h0 | h0 := mul_eq_zero.1 hstep
  · linarith
  · have hodd : 2 * (k - j) - 1 = 0 := by exact_mod_cast h0
    omega

theorem mono (hx : mode.Prescribes x lo hi r) (hy : mode.Prescribes y lo hi s) (hxy : x ≤ y)
    (hsign : 0 ≤ x ↔ 0 ≤ y) (hlt : lo < hi) : r ≤ s := by
  cases mode with
  | nearest =>
    obtain hr | hr := hx.mem
    · obtain hs | hs := hy.mem
      · rw [hr, hs]
      · rw [hr, hs]
        exact hlt.le
    · obtain hs | hs := hy.mem
      · -- `x` is not nearer to `lo`, nor `y` to `hi`, so both are in the middle.
        have hmid : ¬ x - lo < hi - x := fun h => hlt.ne ((hx.1 h).symm.trans hr)
        have hmid' : ¬ hi - y < y - lo := fun h => hlt.ne (hs.symm.trans (hy.2.1 h))
        obtain ⟨-, j, hj⟩ := hx.2.2 (by linarith)
        obtain ⟨-, k, hk⟩ := hy.2.2 (by linarith)
        exact (not_both_even hlt (hs ▸ hk) (hr ▸ hj)).elim
      · rw [hr, hs]
  | towardZero =>
    simp only [Prescribes, hsign] at hx hy
    rw [hx, hy]
  | up => exact (hx.trans hy.symm).le
  | down => exact (hx.trans hy.symm).le
  | awayFromZero =>
    simp only [Prescribes, hsign] at hx hy
    rw [hx, hy]

end Rounding.Prescribes

/-- `r` is `x` correctly rounded to `p` significant digits: `x` itself where it has no more, and
otherwise the neighbour that the mode prescribes. -/
structure Rounds (mode : Rounding) (p : Nat) (x r : ℚ) : Prop where
  exact : Significant p x → r = x
  between : ¬ Significant p x → ∃ lo hi, Neighbours p x lo hi ∧ mode.Prescribes x lo hi r

namespace Rounds

theorem self (hx : Significant p x) : Rounds mode p x x :=
  ⟨fun _ => rfl, fun h => absurd hx h⟩

theorem of_neighbours (hx : ¬ Significant p x) (h : Neighbours p x lo hi)
    (hr : mode.Prescribes x lo hi r) : Rounds mode p x r :=
  ⟨fun h => absurd h hx, fun _ => ⟨lo, hi, h, hr⟩⟩

theorem significant (h : Rounds mode p x r) : Significant p r := by
  by_cases hx : Significant p x
  · exact (h.exact hx).symm ▸ hx
  · obtain ⟨lo, hi, hn, hr⟩ := h.between hx
    obtain rfl | rfl := hr.mem
    · exact hn.below.1.1
    · exact hn.above.1.1

theorem mul_pow (h : Rounds mode p x r) (d : Int) : Rounds mode p (x * 10 ^ d) (r * 10 ^ d) where
  exact hx := by
    have hback := hx.mul_pow (-d)
    rw [mul_pow_ten_cancel] at hback
    rw [h.exact hback]
  between hx := by
    obtain ⟨lo, hi, hn, hr⟩ := h.between fun hs => hx (hs.mul_pow d)
    exact ⟨_, _, hn.mul_pow d, hr.mul (pow_ten_pos d)⟩

/-- Correct rounding does not pass over a number of few digits. -/
theorem le_of_le (h : Rounds mode p x r) (hs : Significant p s) (hle : x ≤ s) : r ≤ s := by
  by_cases hx : Significant p x
  · exact (h.exact hx).trans_le hle
  · obtain ⟨lo, hi, hn, hr⟩ := h.between hx
    obtain rfl | rfl := hr.mem
    · exact hn.below.1.2.trans hle
    · exact hn.le_of_ge hs hle

theorem le_of_ge (h : Rounds mode p x r) (hs : Significant p s) (hle : s ≤ x) : s ≤ r := by
  by_cases hx : Significant p x
  · exact hle.trans_eq (h.exact hx).symm
  · obtain ⟨lo, hi, hn, hr⟩ := h.between hx
    obtain rfl | rfl := hr.mem
    · exact hn.le_of_le hs hle
    · exact hle.trans hn.above.1.2

theorem le_abs (h : Rounds mode p x r) (hs : Significant p s) (hle : s ≤ |x|) : s ≤ |r| := by
  obtain hx | hx := le_total 0 x
  · rw [abs_of_nonneg hx] at hle
    exact (h.le_of_ge hs hle).trans (le_abs_self r)
  · rw [abs_of_nonpos hx] at hle
    exact (le_neg.1 (h.le_of_le hs.neg (le_neg.1 hle))).trans (neg_le_abs r)

theorem mono (hx : Rounds mode p x r) (hy : Rounds mode p y s) (hxy : x ≤ y) : r ≤ s := by
  by_cases hbetween : ∃ t, Significant p t ∧ x ≤ t ∧ t ≤ y
  · obtain ⟨t, ht, hxt, hty⟩ := hbetween
    exact (hx.le_of_le ht hxt).trans (hy.le_of_ge ht hty)
  · have hnone (t : ℚ) (ht : Significant p t) (hxt : x ≤ t) : ¬ t ≤ y := fun hty =>
      hbetween ⟨t, ht, hxt, hty⟩
    have hsx : ¬ Significant p x := fun h => hnone x h le_rfl hxy
    have hsy : ¬ Significant p y := fun h => hnone y h hxy le_rfl
    obtain ⟨lo, hi, hn, hr⟩ := hx.between hsx
    obtain ⟨lo', hi', hn', hs⟩ := hy.between hsy
    have hyhi : y ≤ hi := (not_le.1 (hnone hi hn.above.1.1 hn.above.1.2)).le
    obtain ⟨rfl, rfl⟩ := hn'.unique (hn.within (hn.below.1.2.trans hxy) hyhi hsy)
    have hsign : 0 ≤ x ↔ 0 ≤ y := by
      refine ⟨hxy.trans', fun h => ?_⟩
      by_contra hneg
      exact hnone 0 (.zero p) (not_le.1 hneg).le h
    exact hr.mono hs hxy hsign ((hn.lt hsx).1.trans (hn.lt hsx).2)

theorem unique (h : Rounds mode p x r) (h' : Rounds mode p x s) : r = s :=
  le_antisymm (h.mono h' le_rfl) (h'.mono h le_rfl)

/-- To the nearest means that no number of so few digits is nearer. -/
theorem closest (h : Rounds .nearest p x r) (hs : Significant p s) : |x - r| ≤ |x - s| := by
  by_cases hx : Significant p x
  · rw [h.exact hx, sub_self, abs_zero]
    exact abs_nonneg _
  · obtain ⟨lo, hi, hn, hr⟩ := h.between hx
    obtain ⟨hlo, hhi⟩ := hn.lt hx
    have hnearer : |x - r| ≤ x - lo ∧ |x - r| ≤ hi - x := by
      obtain rfl | rfl := hr.mem
      · rw [abs_of_pos (sub_pos.2 hlo)]
        refine ⟨le_rfl, not_lt.1 fun h => ?_⟩
        exact (hlo.trans hhi).ne (hr.2.1 h)
      · rw [abs_sub_comm, abs_of_pos (sub_pos.2 hhi)]
        refine ⟨not_lt.1 fun h => ?_, le_rfl⟩
        exact (hlo.trans hhi).ne' (hr.1 h)
    obtain hle | hgt := le_or_gt s x
    · calc |x - r| ≤ x - lo := hnearer.1
        _ ≤ x - s := sub_le_sub_left (hn.le_of_le hs hle) x
        _ ≤ |x - s| := le_abs_self _
    · calc |x - r| ≤ hi - x := hnearer.2
        _ ≤ s - x := sub_le_sub_right (hn.le_of_ge hs hgt.le) x
        _ ≤ |x - s| := by
          rw [abs_sub_comm]
          exact le_abs_self _

end Rounds
end Reporting
