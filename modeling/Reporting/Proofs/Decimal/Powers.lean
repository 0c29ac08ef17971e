import Mathlib.Algebra.Order.Ring.Abs
import Mathlib.Data.Nat.Prime.Basic
import Mathlib.RingTheory.Multiplicity
import Reporting.Decimal.Power
import Reporting.Proofs.Decimal.Integers
/-!
Powers with natural exponents. A power has no fewer significant digits than the lower powers of the same
number, since its digits end in no zero where those of the number do not. So repeated squaring is exact in
every step where its result is.
-/
namespace Reporting

variable {p n k N a b : Nat} {v : ℚ} {m e : Int}

/-! Digits of powers -/

theorem ten_dvd_of_dvd_pow (h : (10 : Int) ∣ m ^ n) : 10 ∣ m := by
  rw [← Int.natAbs_dvd_natAbs, Int.natAbs_pow] at h
  have htwo : 2 ∣ m.natAbs := Nat.prime_two.dvd_of_dvd_pow (Nat.dvd_trans (by decide) h)
  have hfive : 5 ∣ m.natAbs := Nat.prime_five.dvd_of_dvd_pow (Nat.dvd_trans (by decide) h)
  omega

theorem exists_not_ten_dvd (hm : m ≠ 0) : ∃ (c : Int) (j : Nat), ¬ 10 ∣ c ∧ m = 10 ^ j * c := by
  have hfinite : FiniteMultiplicity 10 m := Int.finiteMultiplicity_iff.2 ⟨by decide, hm⟩
  obtain ⟨c, hmul, hc⟩ := hfinite.exists_eq_pow_mul_and_not_dvd
  exact ⟨c, _, hc, hmul⟩

/-- The lower powers of a number have no more digits than a higher one. -/
theorem significant_pow_of_le (hp : 1 ≤ p) (h : Significant p ((m * 10 ^ e) ^ n)) (hle : k ≤ n) :
    Significant p ((m * 10 ^ e) ^ k) := by
  obtain rfl | hm := eq_or_ne m 0
  · rw [Int.cast_zero, zero_mul, zero_pow_eq]
    split
    · exact .pow_ten hp 0
    · exact .zero p
  · obtain ⟨c, j, hc, hmul⟩ := exists_not_ten_dvd hm
    have hform (k : Nat) : ((m : ℚ) * 10 ^ e) ^ k = ((c ^ k : Int) : ℚ) * 10 ^ ((j + e) * k) := by
      rw [hmul, zpow_mul, pow_ten_add, zpow_natCast, zpow_natCast]
      push_cast
      rw [← mul_pow]
      congr 1
      ring
    rw [hform] at h ⊢
    have hlt := h.natAbs_lt fun hdvd => hc (ten_dvd_of_dvd_pow hdvd)
    have hpos : 0 < c.natAbs := Int.natAbs_pos.2 fun hzero => hc (hzero ▸ Int.dvd_zero 10)
    have hpow : (c ^ k).natAbs ≤ (c ^ n).natAbs := by
      rw [Int.natAbs_pow, Int.natAbs_pow]
      exact Nat.pow_le_pow_right hpos hle
    exact ⟨_, _, hpow.trans_lt hlt, rfl⟩

namespace Decimal

variable {x y result base : Decimal} {p : Precision}

/-- The numbers that a precision has the digits for and that are not too small to be told from zero. -/
def Representable (p : Precision) (v : ℚ) : Prop := Significant p.digits v ∧ (v = 0 ∨ smallest ≤ |v|)

theorem representable_one (p : Precision) : Representable p 1 :=
  ⟨.pow_ten p.digits_pos 0, .inr (by rw [abs_one]; exact smallest_le_one)⟩

theorem smallest_le_pow_of_le (h : smallest ≤ |v ^ n|) (hle : k ≤ n) : smallest ≤ |v ^ k| := by
  rw [abs_pow] at h ⊢
  obtain hone | hone := le_total |v| 1
  · exact h.trans (pow_le_pow_of_le_one (abs_nonneg v) hone hle)
  · exact smallest_le_one.trans (one_le_pow₀ hone)

theorem Representable.pow_of_le (h : Representable p (x.toRat ^ n)) (hle : k ≤ n) :
    Representable p (x.toRat ^ k) := by
  obtain ⟨hsig, hlarge⟩ := h
  refine ⟨significant_pow_of_le p.digits_pos hsig hle, ?_⟩
  obtain hzero | hlarge := hlarge
  · obtain ⟨hx, -⟩ := pow_eq_zero_iff'.1 hzero
    rw [hx, zero_pow_eq]
    split
    · exact (representable_one p).2
    · exact .inl rfl
  · exact .inr (smallest_le_pow_of_le hlarge hle)

theorem toRat_mul_of_representable (h : Representable p (x.toRat * y.toRat)) :
    (x.mul y p).toRat = x.toRat * y.toRat := by
  rw [← toRat_exactMul] at h ⊢
  exact toRat_rounded_of_significant h.1 h.2

/-! Repeated squaring -/

/-- A product that is refused where it would have to be rounded. -/
def mulUnrounded? (p : Precision) (x y : Decimal) : Option Decimal :=
  if (x.mul y p).toRat = x.toRat * y.toRat then some (x.mul y p) else none

/-- Repeated squaring with a multiplication that may be refused, and then so is the power. -/
def powFrom? (mul : Decimal → Decimal → Option Decimal) (result base : Decimal) (n : Nat) : Option Decimal :=
  if n = 0 then some result
  else
    (if n % 2 = 1 then mul result base else some result).bind fun result =>
      if n / 2 = 0 then some result
      else (mul base base).bind fun square => powFrom? mul result square (n / 2)
termination_by n

/-- Where no multiplication is refused it is the repeated squaring of a precision. -/
theorem powFrom?_mul (p : Precision) (result base : Decimal) (n : Nat) :
    powFrom? (fun x y => some (x.mul y p)) result base n = some (powNatFrom p result base n) := by
  fun_induction powNatFrom p result base n with
  | case1 result base =>
    rw [powFrom?, if_pos rfl]
  | case2 result base n hn product hhalf =>
    rw [powFrom?, if_neg hn, ← apply_ite some, Option.bind_some, if_pos hhalf]
    rfl
  | case3 result base n hn product hhalf ih =>
    rw [powFrom?, if_neg hn, ← apply_ite some, Option.bind_some, if_neg hhalf, Option.bind_some]
    exact ih

/-- The product for the last binary digit of the exponent. -/
theorem mulUnrounded?_odd (hpowers : ∀ k ≤ N, Representable p (v ^ k)) (hresult : result.toRat = v ^ a)
    (hbase : base.toRat = v ^ b) (hle : a + b * (n % 2) ≤ N) :
    (if n % 2 = 1 then mulUnrounded? p result base else some result) =
        some (if n % 2 = 1 then result.mul base p else result) ∧
      (if n % 2 = 1 then result.mul base p else result).toRat = v ^ (a + b * (n % 2)) := by
  split
  · rename_i hodd
    have hproduct : result.toRat * base.toRat = v ^ (a + b * (n % 2)) := by
      rw [hresult, hbase, hodd, mul_one, pow_add]
    have hmul := toRat_mul_of_representable (hproduct ▸ hpowers _ hle)
    exact ⟨if_pos hmul, hmul.trans hproduct⟩
  · rename_i heven
    have hzero : n % 2 = 0 := by omega
    rw [hzero, mul_zero, add_zero]
    exact ⟨rfl, hresult⟩

theorem powFrom?_mulUnrounded (hpowers : ∀ k ≤ N, Representable p (v ^ k)) (hresult : result.toRat = v ^ a)
    (hbase : base.toRat = v ^ b) (hle : a + b * n ≤ N) :
    powFrom? (mulUnrounded? p) result base n = some (powNatFrom p result base n) ∧
      (powNatFrom p result base n).toRat = v ^ (a + b * n) := by
  -- result and base stay powers of the number, and `a + b * n` stays the exponent that is meant
  fun_induction powNatFrom p result base n generalizing a b
  case case1 result base =>
    rw [powFrom?, if_pos rfl]
    exact ⟨rfl, hresult⟩
  case case2 result base n hn product hhalf =>
    have hlast : n % 2 = n := by omega
    obtain ⟨hnext, hvalue⟩ := mulUnrounded?_odd (n := n) hpowers hresult hbase (by rwa [hlast])
    rw [powFrom?, if_neg hn, hnext, Option.bind_some, if_pos hhalf]
    refine ⟨rfl, hvalue.trans ?_⟩
    rw [hlast]
  case case3 result base n hn product hhalf ih =>
    have hodd : b * (n % 2) ≤ b * n := Nat.mul_le_mul_left b (Nat.mod_le n 2)
    have htwice : b * 2 ≤ b * n := Nat.mul_le_mul_left b (by omega)
    have hsplit : a + b * (n % 2) + (b + b) * (n / 2) = a + b * n := by
      conv_rhs => rw [← Nat.div_add_mod n 2]
      ring
    have hsquare : base.toRat * base.toRat = v ^ (b + b) := by rw [hbase, pow_add]
    have hmul := toRat_mul_of_representable (hsquare ▸ hpowers _ (by omega))
    have hsquared : mulUnrounded? p base base = some (base.mul base p) := if_pos hmul
    obtain ⟨hnext, hvalue⟩ := mulUnrounded?_odd (n := n) hpowers hresult hbase (by omega)
    obtain ⟨hrest, hpower⟩ := ih hvalue (hmul.trans hsquare) (by omega)
    rw [powFrom?, if_neg hn, hnext, Option.bind_some, if_neg hhalf, hsquared, Option.bind_some, ← hsplit]
    exact ⟨hrest, hpower⟩

/-! Exponents -/

theorem pow?_eq_powNat (hy : y.toRat = n) (hn : n ≤ maxExactPower) (x : Decimal) (p : Precision) :
    x.pow? y p = some (x.powNat n p) := by
  have hcast : y.toRat = ((n : Int) : ℚ) := by rw [hy, Int.cast_natCast]
  have hfits : fits64 n = true := by
    rw [maxExactPower] at hn
    rw [fits64_iff]
    omega
  rw [pow?, isInteger_iff.2 ⟨n, hcast⟩, if_pos rfl, toInt64?_eq, hcast, truncate_intCast, if_pos hfits]
  dsimp only
  rw [Int.natAbs_natCast, if_pos hn, powInt?, if_neg (by omega), Int.natAbs_natCast]

/-- A power with a natural exponent is exact where the precision has room for it, and it is what the same
repeated squaring gives that refuses every product it would have to round. -/
theorem pow_exact (hy : y.toRat = n) (hn : n ≤ maxExactPower) (h : Representable p (x.toRat ^ n)) :
    ∃ r, x.pow? y p = some r ∧ r.toRat = x.toRat ^ n ∧ powFrom? (mulUnrounded? p) one x n = some r ∧
      powFrom? (fun x y => some (x.mul y p)) one x n = some r := by
  have hone : one.toRat = x.toRat ^ 0 := by rw [one, toRat_ofInt, Int.cast_one, pow_zero]
  obtain ⟨hrun, hvalue⟩ := powFrom?_mulUnrounded (a := 0) (b := 1) (n := n) (fun k hk => h.pow_of_le hk) hone
    (pow_one _).symm (by omega)
  rw [zero_add, one_mul] at hvalue
  exact ⟨x.powNat n p, pow?_eq_powNat hy hn x p, hvalue, hrun, powFrom?_mul p one x n⟩

/-- In three digits, the cube of a negative number whose mantissa ends in zeros, with an exponent that has
places, and what zero to the power of zero is. -/
theorem pow_exact_of_zeros :
    let p : Precision := { digits := 3, rounding := .nearest }
    (∃ r, pow? ⟨-5000, 4⟩ ⟨30, 1⟩ p = some r ∧ r.toRat = -1 / 8 ∧
      powFrom? (mulUnrounded? p) one ⟨-5000, 4⟩ 3 = some r) ∧
      ∃ r, pow? zero zero p = some r ∧ r.toRat = 1 := by
  intro p
  have hx : (⟨-5000, 4⟩ : Decimal).toRat = -1 / 2 := by norm_num [toRat]
  have hy : (⟨30, 1⟩ : Decimal).toRat = (3 : Nat) := by norm_num [toRat]
  have hzero : zero.toRat = (0 : Nat) := by norm_num [zero, toRat_ofInt]
  have hlarge : smallest ≤ |(-1 / 8 : ℚ)| := by
    have hle : smallest ≤ 10 ^ (-1 : Int) := zpow_le_zpow_right₀ (by norm_num) (by decide)
    exact hle.trans (by norm_num [abs_of_neg])
  have hcube : (⟨-5000, 4⟩ : Decimal).toRat ^ 3 = -1 / 8 := by
    rw [hx]
    norm_num
  have hroom : Representable p ((⟨-5000, 4⟩ : Decimal).toRat ^ 3) := by
    rw [hcube]
    exact ⟨⟨-125, -3, by decide, by norm_num⟩, .inr hlarge⟩
  obtain ⟨r, hr, hvalue, hrun, -⟩ := pow_exact hy (by decide) hroom
  have hroom' : Representable p (zero.toRat ^ 0) := by
    rw [pow_zero]
    exact representable_one p
  obtain ⟨s, hs, hone, -⟩ := pow_exact hzero (by decide) hroom'
  exact ⟨⟨r, hr, hvalue.trans hcube, hrun⟩, s, hs, hone.trans (pow_zero _)⟩

end Decimal
end Reporting
