import Mathlib.Data.Int.Log
import Reporting.Proofs.Decimal.Rounded
/-!
Division rounds twice: the quotient is rounded to an integer with digits to spare, and that to the digits
of the precision. In a direction this is correct rounding. To the nearest it is so unless the first
rounding falls on a point half way between two numbers of the precision.
-/
namespace Reporting

variable {p : Nat} {mode : Rounding} {x y lo hi r : ℚ} {z : Int}

/-! Modes that round in a direction -/

namespace Rounding

/-- The modes that do not go up from a number of this sign. -/
def Downward (mode : Rounding) (x : ℚ) : Prop :=
  mode = down ∨ mode = towardZero ∧ 0 ≤ x ∨ mode = awayFromZero ∧ x < 0

/-- The modes that do not go down from a number of this sign. -/
def Upward (mode : Rounding) (x : ℚ) : Prop :=
  mode = up ∨ mode = towardZero ∧ x < 0 ∨ mode = awayFromZero ∧ 0 ≤ x

theorem downward_or_upward (h : mode ≠ nearest) (x : ℚ) : mode.Downward x ∨ mode.Upward x := by
  cases mode with
  | nearest => exact absurd rfl h
  | towardZero =>
    obtain hx | hx := le_or_gt 0 x
    · exact .inl (.inr (.inl ⟨rfl, hx⟩))
    · exact .inr (.inr (.inl ⟨rfl, hx⟩))
  | up => exact .inr (.inl rfl)
  | down => exact .inl (.inl rfl)
  | awayFromZero =>
    obtain hx | hx := le_or_gt 0 x
    · exact .inr (.inr (.inr ⟨rfl, hx⟩))
    · exact .inl (.inr (.inr ⟨rfl, hx⟩))

theorem prescribes_of_downward (h : mode.Downward x) : mode.Prescribes x lo hi r ↔ r = lo := by
  obtain rfl | ⟨rfl, hx⟩ | ⟨rfl, hx⟩ := h
  · exact Iff.rfl
  · simp only [Prescribes, if_pos hx]
  · simp only [Prescribes, if_neg hx.not_ge]

theorem prescribes_of_upward (h : mode.Upward x) : mode.Prescribes x lo hi r ↔ r = hi := by
  obtain rfl | ⟨rfl, hx⟩ | ⟨rfl, hx⟩ := h
  · exact Iff.rfl
  · simp only [Prescribes, if_neg hx.not_ge]
  · simp only [Prescribes, if_pos hx]

theorem Downward.floor (h : mode.Downward x) : mode.Downward (⌊x⌋ : ℚ) := by
  obtain h | ⟨h, hx⟩ | ⟨h, hx⟩ := h
  · exact .inl h
  · exact .inr (.inl ⟨h, by exact_mod_cast Int.floor_nonneg.2 hx⟩)
  · exact .inr (.inr ⟨h, (Int.floor_le x).trans_lt hx⟩)

theorem Upward.ceil (h : mode.Upward x) (hone : 1 ≤ |x|) : mode.Upward (⌈x⌉ : ℚ) := by
  obtain h | ⟨h, hx⟩ | ⟨h, hx⟩ := h
  · exact .inl h
  · have hle : ⌈x⌉ ≤ -1 := by
      rw [abs_of_neg hx] at hone
      exact Int.ceil_le.2 (by push_cast; linarith)
    exact .inr (.inl ⟨h, by exact_mod_cast hle.trans_lt (by decide)⟩)
  · exact .inr (.inr ⟨h, hx.trans (Int.le_ceil x)⟩)

end Rounding

theorem Rounds.le_self (h : Rounds mode p x r) (hd : mode.Downward x) : r ≤ x := by
  by_cases hx : Significant p x
  · exact (h.exact hx).le
  · obtain ⟨lo, hi, hn, hr⟩ := h.between hx
    rw [(Rounding.prescribes_of_downward hd).1 hr]
    exact hn.below.1.2

theorem Rounds.self_le (h : Rounds mode p x r) (hd : mode.Upward x) : x ≤ r := by
  by_cases hx : Significant p x
  · exact (h.exact hx).ge
  · obtain ⟨lo, hi, hn, hr⟩ := h.between hx
    rw [(Rounding.prescribes_of_upward hd).1 hr]
    exact hn.above.1.2

theorem Rounds.mul_pow_iff (d : Int) : Rounds mode p (x * 10 ^ d) (r * 10 ^ d) ↔ Rounds mode p x r := by
  refine ⟨fun h => ?_, fun h => h.mul_pow d⟩
  have hback := h.mul_pow (-d)
  simpa only [mul_pow_ten_cancel] using hback

/-! Points half way -/

/-- Numbers with more digits that are equally far from both of their neighbours. -/
def Halfway (p : Nat) (x : ℚ) : Prop :=
  ¬ Significant p x ∧ ∃ lo hi, Neighbours p x lo hi ∧ x - lo = hi - x

theorem Halfway.mul_pow (h : Halfway p x) (d : Int) : Halfway p (x * 10 ^ d) := by
  obtain ⟨hx, lo, hi, hn, hmid⟩ := h
  refine ⟨fun hs => hx ?_, _, _, hn.mul_pow d, by rw [← sub_mul, ← sub_mul, hmid]⟩
  have hback := hs.mul_pow (-d)
  rwa [mul_pow_ten_cancel] at hback

theorem Halfway.mul_pow_iff (d : Int) : Halfway p (x * 10 ^ d) ↔ Halfway p x := by
  refine ⟨fun h => ?_, fun h => h.mul_pow d⟩
  have hback := h.mul_pow (-d)
  rwa [mul_pow_ten_cancel] at hback

/-- With a digit to spare, the neighbours of a number are even integers. -/
theorem exists_even_neighbours (hp : 1 ≤ p) (h : (10 : ℚ) ^ (p : Int) ≤ |x|) :
    ∃ a b : Int, Neighbours p x (2 * a) (2 * b) := by
  have hpos : 0 < |x| := (pow_ten_pos _).trans_le h
  have hlog : (p : Int) ≤ Int.log 10 |x| := (Int.zpow_le_iff_le_log (by decide) hpos).1 (by exact_mod_cast h)
  obtain ⟨n, hn⟩ : ∃ n : Nat, Int.log 10 |x| + 1 - p = n + 1 := ⟨(Int.log 10 |x| - p).toNat, by omega⟩
  have hscale : |x * 10 ^ (-((n : Int) + 1))| = |x| * 10 ^ (-((n : Int) + 1)) := by
    rw [abs_mul, abs_of_pos (pow_ten_pos _)]
  have hback := mul_pow_ten_neg_cancel x ((n : Int) + 1)
  have hlow : (10 : ℚ) ^ ((p : Int) - 1) ≤ |x * 10 ^ (-((n : Int) + 1))| := by
    have hle : (10 : ℚ) ^ Int.log 10 |x| ≤ |x| := by exact_mod_cast Int.zpow_log_le_self (by decide) hpos
    have hexp : (p : Int) - 1 = Int.log 10 |x| + -((n : Int) + 1) := by omega
    rw [hscale, hexp, pow_ten_add]
    exact mul_le_mul_of_nonneg_right hle (pow_ten_pos _).le
  have hhigh : |x * 10 ^ (-((n : Int) + 1))| < 10 ^ (p : Int) := by
    have hlt : |x| < (10 : ℚ) ^ (Int.log 10 |x| + 1) := by
      exact_mod_cast Int.lt_zpow_succ_log_self (by decide) |x|
    have hexp : (p : Int) = Int.log 10 |x| + 1 + -((n : Int) + 1) := by omega
    rw [hscale, hexp, pow_ten_add]
    exact mul_lt_mul_of_pos_right hlt (pow_ten_pos _)
  have hten (k : Int) : (k : ℚ) * 10 ^ ((n : Int) + 1) = 2 * (k * 5 * 10 ^ n : Int) := by
    rw [pow_ten_add, zpow_natCast, zpow_one]
    push_cast
    ring
  have hn := (Neighbours.of_decade hp hlow hhigh).mul_pow (n + 1)
  rw [hback, hten, hten] at hn
  exact ⟨_, _, hn⟩

/-! Rounding twice -/

theorem Rounding.Prescribes.mem_int (h : mode.Prescribes x ⌊x⌋ ⌈x⌉ z) : ⌊x⌋ ≤ z ∧ z ≤ ⌈x⌉ := by
  have hle : ⌊x⌋ ≤ ⌈x⌉ := Int.floor_le_ceil x
  obtain h | h := h.mem
  · obtain rfl : z = ⌊x⌋ := by exact_mod_cast h
    exact ⟨le_rfl, hle⟩
  · obtain rfl : z = ⌈x⌉ := by exact_mod_cast h
    exact ⟨hle, le_rfl⟩

/-- The integer to which a number is rounded lies on the same side of any other integer. -/
theorem Rounding.Prescribes.lt_iff {M : Int} (h : mode.Prescribes x ⌊x⌋ ⌈x⌉ z) (hM : z ≠ M) :
    x < M ↔ (z : ℚ) < M := by
  obtain ⟨hlow, hhigh⟩ := h.mem_int
  constructor
  · intro hlt
    have hle : ⌈x⌉ ≤ M := Int.ceil_le.2 hlt.le
    exact_mod_cast lt_of_le_of_ne (hhigh.trans hle) hM
  · intro hlt
    have hle : M ≤ ⌊x⌋ → False := fun hle => by
      have : (z : ℚ) < ⌊x⌋ := hlt.trans_le (by exact_mod_cast hle)
      exact absurd hlow (not_le.2 (by exact_mod_cast this))
    exact Int.floor_lt.1 (not_le.1 hle)

/-- A number that is not half way is rounded to the nearest when it and its result lie on the same side
of what is half way. -/
theorem rounds_nearest_iff (hn : Neighbours p x lo hi) (hx : ¬ Significant p x) {M : ℚ}
    (hM : 2 * M = lo + hi) (hne : x ≠ M) (hr : r = lo ∨ r = hi) :
    Rounds .nearest p x r ↔ (x < M ↔ r < M) := by
  obtain ⟨hlo, hhi⟩ := hn.lt hx
  have hside : r < M ↔ r = lo := by
    obtain rfl | rfl := hr
    · exact ⟨fun _ => rfl, fun _ => by linarith⟩
    · exact ⟨fun h => by linarith, fun h => by linarith⟩
  have hnearer : x - lo < hi - x ↔ x < M := by
    constructor <;> intro h <;> linarith
  have hfarther : hi - x < x - lo ↔ ¬ x < M := by
    rw [← hnearer, not_lt, lt_iff_le_and_ne, and_iff_left_iff_imp]
    intro _ h
    exact hne (by linarith)
  have hprescribes : Rounding.nearest.Prescribes x lo hi r ↔ (x < M ↔ r < M) := by
    rw [hside, Rounding.Prescribes, hnearer, hfarther]
    constructor
    · rintro ⟨hbelow, habove, -⟩
      refine ⟨hbelow, fun h => ?_⟩
      by_contra hxM
      linarith [habove hxM]
    · intro h
      refine ⟨h.1, fun hxM => hr.resolve_left fun h' => hxM (h.2 h'), fun h' => ?_⟩
      exact absurd (by linarith) hne
  rw [← hprescribes]
  refine ⟨fun h => ?_, .of_neighbours hx hn⟩
  obtain ⟨lo', hi', hn', hr'⟩ := h.between hx
  obtain ⟨rfl, rfl⟩ := hn'.unique hn
  exact hr'

theorem Neighbours.halfway {m : ℚ} (hn : Neighbours p x lo hi) (hx : ¬ Significant p x)
    (hm : 2 * m = lo + hi) : Halfway p m := by
  obtain ⟨hlo, hhi⟩ := hn.lt hx
  have hsig : ¬ Significant p m := fun h => by
    obtain hle | hle := le_total m x
    · linarith [hn.le_of_le h hle]
    · linarith [hn.le_of_ge h hle]
  exact ⟨hsig, lo, hi, hn.within (by linarith) (by linarith) hsig, by linarith⟩

theorem Halfway.two_mul (h : Halfway p x) (hn : Neighbours p x lo hi) : 2 * x = lo + hi := by
  obtain ⟨-, lo', hi', hn', hmid⟩ := h
  obtain ⟨rfl, rfl⟩ := hn'.unique hn
  linarith

/-- To the nearest, the second rounding only goes wrong where the first one led half way. -/
theorem Rounds.twice_nearest {a b : Int} (hn : Neighbours p x (2 * a) (2 * b)) (hx : ¬ Significant p x)
    (hint : ∀ k : Int, x ≠ k) (hz : Rounding.nearest.Prescribes x ⌊x⌋ ⌈x⌉ z) (hlow : (2 * a : ℚ) ≤ z)
    (hhigh : (z : ℚ) ≤ 2 * b) (hr : Rounds .nearest p z r) (hmem : r = 2 * a ∨ r = 2 * b) :
    Rounds .nearest p x r ↔ (Halfway p z → (x < z ↔ r < z)) := by
  have hM : 2 * ((a + b : Int) : ℚ) = 2 * a + 2 * b := by
    push_cast
    ring
  rw [rounds_nearest_iff hn hx hM (hint _) hmem]
  by_cases hmid : z = a + b
  · rw [← hmid] at hM ⊢
    exact ⟨fun h _ => h, fun h => h (hn.halfway hx hM)⟩
  · have hnot : ¬ Halfway p (z : ℚ) := fun h => by
      have htwo := h.two_mul (hn.within hlow hhigh h.1)
      exact hmid (by exact_mod_cast (by linarith : (z : ℚ) = (a + b : Int)))
    have hzr : (z : ℚ) < (a + b : Int) ↔ r < (a + b : Int) := by
      by_cases hzsig : Significant p (z : ℚ)
      · rw [hr.exact hzsig]
      · exact (rounds_nearest_iff (hn.within hlow hhigh hzsig) hzsig hM (by exact_mod_cast hmid) hmem).1 hr
    exact ⟨fun _ h => absurd h hnot, fun _ => (hz.lt_iff hmid).trans hzr⟩

/-- In a direction, both roundings go the same way. -/
theorem Rounds.twice_directed (hmode : mode ≠ .nearest) (hn : Neighbours p x lo hi)
    (hx : ¬ Significant p x) (hone : 1 ≤ |x|) (hz : mode.Prescribes x ⌊x⌋ ⌈x⌉ z) (hr : Rounds mode p z r)
    (hmem : r = lo ∨ r = hi) : Rounds mode p x r := by
  obtain ⟨hlo, hhi⟩ := hn.lt hx
  obtain hdown | hup := Rounding.downward_or_upward hmode x
  · have hfloor := (Rounding.prescribes_of_downward hdown).1 hz
    have hrz := hr.le_self (hfloor ▸ hdown.floor)
    rw [hfloor] at hrz
    have hrx : r < hi := (hrz.trans (Int.floor_le x)).trans_lt hhi
    have heq : r = lo := hmem.resolve_right hrx.ne
    exact .of_neighbours hx hn ((Rounding.prescribes_of_downward hdown).2 heq)
  · have hceil := (Rounding.prescribes_of_upward hup).1 hz
    have hzr := hr.self_le (hceil ▸ hup.ceil hone)
    rw [hceil] at hzr
    have hrx : lo < r := hlo.trans_le ((Int.le_ceil x).trans hzr)
    have heq : r = hi := hmem.resolve_left hrx.ne'
    exact .of_neighbours hx hn ((Rounding.prescribes_of_upward hup).2 heq)

theorem Rounds.mem_of_within (hn : Neighbours p x lo hi) (hlow : lo ≤ z) (hhigh : (z : ℚ) ≤ hi)
    (hr : Rounds mode p z r) : r = lo ∨ r = hi := by
  obtain h | h := le_total r x
  · exact .inl (le_antisymm (hn.le_of_le hr.significant h) (hr.le_of_ge hn.below.1.1 hlow))
  · exact .inr (le_antisymm (hr.le_of_le hn.above.1.1 hhigh) (hn.le_of_ge hr.significant h))

/-- Rounding to an integer and then to fewer digits gives one of the neighbours. It is the right one
unless the integer is half way and the number is not: then the number has to lie on the side to which
the integer is rounded. -/
theorem Rounds.twice (hp : 1 ≤ p) (hlarge : (10 : ℚ) ^ (p : Int) ≤ |x|)
    (hz : x = z ∨ (∀ k : Int, x ≠ k) ∧ mode.Prescribes x ⌊x⌋ ⌈x⌉ z) (hr : Rounds mode p z r) :
    (∃ lo hi, Neighbours p x lo hi ∧ (r = lo ∨ r = hi)) ∧
    (Rounds mode p x r ↔ (mode = .nearest → Halfway p z → x ≠ z → (x < z ↔ r < z))) := by
  obtain ⟨a, b, hn⟩ := exists_even_neighbours hp hlarge
  obtain rfl | ⟨hint, hchoice⟩ := hz
  · have hmem := hr.mem_of_within hn hn.below.1.2 hn.above.1.2
    exact ⟨⟨_, _, hn, hmem⟩, fun _ _ _ h => absurd rfl h, fun _ => hr⟩
  · have hx : ¬ Significant p x := fun h => by
      have hlow : (10 : ℚ) ^ ((p : Int) - 1) ≤ |x| := (pow_ten_lt.2 (by omega)).le.trans hlarge
      obtain ⟨k, hk⟩ := h.exists_int hlow
      exact hint k hk
    obtain ⟨hzlow, hzhigh⟩ := hchoice.mem_int
    have hlow : (2 * a : ℚ) ≤ z := by
      have : 2 * a ≤ ⌊x⌋ := Int.le_floor.2 (by exact_mod_cast hn.below.1.2)
      exact_mod_cast this.trans hzlow
    have hhigh : (z : ℚ) ≤ 2 * b := by
      have : ⌈x⌉ ≤ 2 * b := Int.ceil_le.2 (by exact_mod_cast hn.above.1.2)
      exact_mod_cast hzhigh.trans this
    have hmem := hr.mem_of_within hn hlow hhigh
    refine ⟨⟨_, _, hn, hmem⟩, ?_⟩
    by_cases hmode : mode = .nearest
    · subst hmode
      rw [twice_nearest hn hx hint hchoice hlow hhigh hr hmem]
      exact ⟨fun h _ hhalf _ => h hhalf, fun h hhalf => h rfl hhalf (hint z)⟩
    · have hone : 1 ≤ |x| := (one_le_zpow₀ (by norm_num) (by omega)).trans hlarge
      exact ⟨fun _ h => absurd h hmode, fun _ => .twice_directed hmode hn hx hone hchoice hr hmem⟩

theorem Rounds.twice_mul_pow (e : Int) (hp : 1 ≤ p) (hlarge : (10 : ℚ) ^ (p : Int) ≤ |x|)
    (hz : x = z ∨ (∀ k : Int, x ≠ k) ∧ mode.Prescribes x ⌊x⌋ ⌈x⌉ z) (hr : Rounds mode p (z * 10 ^ e) r) :
    (∃ lo hi, Neighbours p (x * 10 ^ e) lo hi ∧ (r = lo ∨ r = hi)) ∧
    (Rounds mode p (x * 10 ^ e) r ↔ (mode = .nearest → Halfway p (z * 10 ^ e) →
      x * 10 ^ e ≠ z * 10 ^ e → (x * 10 ^ e < z * 10 ^ e ↔ r < z * 10 ^ e))) := by
  obtain ⟨s, rfl⟩ : ∃ s, r = s * 10 ^ e := ⟨_, (mul_pow_ten_neg_cancel r e).symm⟩
  have hpos := pow_ten_pos e
  obtain ⟨⟨lo, hi, hn, hmem⟩, hiff⟩ := twice hp hlarge hz ((mul_pow_iff e).1 hr)
  refine ⟨⟨_, _, hn.mul_pow e, ?_⟩, ?_⟩
  · rwa [mul_left_inj' hpos.ne', mul_left_inj' hpos.ne']
  · rw [mul_pow_iff, Halfway.mul_pow_iff, Ne, mul_left_inj' hpos.ne', mul_lt_mul_iff_left₀ hpos,
      mul_lt_mul_iff_left₀ hpos]
    exact hiff

theorem Neighbours.le_abs {s : ℚ} (h : Neighbours p x lo hi) (hr : r = lo ∨ r = hi) (hs : Significant p s)
    (hle : s ≤ |x|) : s ≤ |r| := by
  obtain hx | hx := le_total 0 x
  · rw [abs_of_nonneg hx] at hle
    have hlo := h.le_of_le hs hle
    obtain rfl | rfl := hr
    · exact hlo.trans (le_abs_self _)
    · exact (hle.trans h.above.1.2).trans (le_abs_self _)
  · rw [abs_of_nonpos hx] at hle
    have hhi := h.le_of_ge hs.neg (le_neg.1 hle)
    obtain rfl | rfl := hr
    · exact le_abs.2 (.inr (le_neg.1 (h.below.1.2.trans (le_neg.1 hle))))
    · exact le_abs.2 (.inr (le_neg.1 hhi))

namespace Decimal

variable {x y : Decimal} {p : Precision}

/-- The quotient with digits to spare, before it is rounded to the precision. -/
def spareQuotient (x y : Decimal) (p : Precision) : Decimal :=
  let shift := p.digits + 2 + y.digitCount - x.digitCount
  ⟨p.rounding.divide (x.mantissa * Nat.pow 10 shift) y.mantissa, x.scale + shift - y.scale⟩

theorem div?_eq (hy : y.mantissa ≠ 0) : x.div? y p = some ((x.spareQuotient y p).rounded p) := by
  rw [div?, isZero, beq_eq_false_iff_ne.2 hy, if_neg Bool.false_ne_true]
  rfl

theorem toRat_div (x y : Decimal) (shift : Nat) : x.toRat / y.toRat =
    ((x.mantissa * Nat.pow 10 shift : Int) / y.mantissa : ℚ) * 10 ^ (-(x.scale + shift - y.scale)) := by
  have hshift : ((x.mantissa * Nat.pow 10 shift : Int) : ℚ) = x.mantissa * 10 ^ (shift : Int) := by
    have hpow : ((Nat.pow 10 shift : Nat) : ℚ) = 10 ^ (shift : Int) := natCast_pow_ten shift
    rw [Int.cast_mul, Int.cast_natCast, hpow]
  have hexp : -(x.scale + shift - y.scale) = -x.scale + -(shift : Int) + y.scale := by omega
  rw [hshift, hexp, pow_ten_add, pow_ten_add, zpow_neg 10 (shift : Int), toRat, toRat, zpow_neg 10 y.scale]
  have := (pow_ten_pos shift).ne'
  field_simp

theorem spare_digits (hx : x.mantissa ≠ 0) (hy : y.mantissa ≠ 0) {shift : Nat}
    (hshift : p.digits + 2 + y.digitCount ≤ x.digitCount + shift) :
    (10 : ℚ) ^ (p.digits : Int) ≤ |((x.mantissa * Nat.pow 10 shift : Int) / y.mantissa : ℚ)| := by
  have hlow : 10 ^ (x.digitCount - 1 + shift) ≤ (x.mantissa * Nat.pow 10 shift).natAbs := by
    rw [Int.natAbs_mul, pow_add]
    exact Nat.mul_le_mul (Digits.pow_count_le (Int.natAbs_ne_zero.2 hx)) (Nat.le_refl (10 ^ shift))
  have hhigh : y.mantissa.natAbs ≤ 10 ^ y.digitCount := (Digits.lt_pow_count _).le
  have hprod : 10 ^ p.digits * y.mantissa.natAbs ≤ (x.mantissa * Nat.pow 10 shift).natAbs := by
    have hcount : 1 ≤ x.digitCount := Digits.count_pos _
    calc 10 ^ p.digits * y.mantissa.natAbs ≤ 10 ^ p.digits * 10 ^ y.digitCount :=
          Nat.mul_le_mul_left _ hhigh
      _ = 10 ^ (p.digits + y.digitCount) := (pow_add ..).symm
      _ ≤ 10 ^ (x.digitCount - 1 + shift) := Nat.pow_le_pow_right (by decide) (by omega)
      _ ≤ _ := hlow
  have hpos : 0 < (y.mantissa.natAbs : ℚ) := by exact_mod_cast Int.natAbs_pos.2 hy
  rw [abs_div, abs_intCast, abs_intCast, le_div_iff₀ hpos, ← natCast_pow_ten]
  exact_mod_cast hprod

theorem rounds_spareQuotient {r : ℚ} (hy : y.mantissa ≠ 0)
    (hr : Rounds p.rounding p.digits (x.spareQuotient y p).toRat r) :
    (∃ lo hi, Neighbours p.digits (x.toRat / y.toRat) lo hi ∧ (r = lo ∨ r = hi)) ∧
    (Rounds p.rounding p.digits (x.toRat / y.toRat) r ↔
      (p.rounding = .nearest → Halfway p.digits (x.spareQuotient y p).toRat →
        x.toRat / y.toRat ≠ (x.spareQuotient y p).toRat →
        (x.toRat / y.toRat < (x.spareQuotient y p).toRat ↔ r < (x.spareQuotient y p).toRat))) := by
  by_cases hx : x.mantissa = 0
  · have hquot : x.toRat / y.toRat = 0 := by rw [toRat_eq_zero hx, zero_div]
    have hspare : (x.spareQuotient y p).toRat = 0 := by
      apply toRat_eq_zero
      rw [spareQuotient, hx, Int.zero_mul]
      exact divide_of_dvd _ (Int.dvd_zero _) |>.trans (Int.zero_tdiv _)
    rw [hspare] at hr ⊢
    rw [hquot]
    refine ⟨⟨r, r, ?_, .inl rfl⟩, fun _ _ _ h => absurd rfl h, fun _ => hr⟩
    rw [hr.exact (.zero _)]
    exact ⟨⟨⟨.zero _, le_rfl⟩, fun _ h => h.2⟩, ⟨⟨.zero _, le_rfl⟩, fun _ h => h.2⟩⟩
  · rw [toRat_div x y (p.digits + 2 + y.digitCount - x.digitCount)]
    exact Rounds.twice_mul_pow _ p.digits_pos (spare_digits hx hy (by omega))
      (Rounding.divide_cases p.rounding hy) hr

/-- A quotient is one of the two numbers of the precision around the exact one. It is the correctly
rounded one, and so to the nearest a closest one, unless the first quotient is half way between them
without being exact, and the exact one lies on the other side of it than the result. -/
theorem div_rounds (hy : y.toRat ≠ 0) (hrange : x.toRat = 0 ∨ smallest ≤ |x.toRat / y.toRat|) :
    ∃ z, x.div? y p = some z ∧
      (∃ lo hi, Neighbours p.digits (x.toRat / y.toRat) lo hi ∧ (z.toRat = lo ∨ z.toRat = hi)) ∧
      (Rounds p.rounding p.digits (x.toRat / y.toRat) z.toRat ↔
        (p.rounding = .nearest → Halfway p.digits (x.spareQuotient y p).toRat →
          x.toRat / y.toRat ≠ (x.spareQuotient y p).toRat →
          (x.toRat / y.toRat < (x.spareQuotient y p).toRat ↔ z.toRat < (x.spareQuotient y p).toRat))) ∧
      (p.rounding = .nearest → Rounds p.rounding p.digits (x.toRat / y.toRat) z.toRat →
        ∀ s, Significant p.digits s → |x.toRat / y.toRat - z.toRat| ≤ |x.toRat / y.toRat - s|) := by
  have hm : y.mantissa ≠ 0 := fun h => hy (toRat_eq_zero h)
  obtain ⟨r, hr, hsmall, hlarge⟩ := (x.spareQuotient y p).exists_rounds p
  obtain ⟨⟨lo, hi, hn, hmem⟩, hiff⟩ := rounds_spareQuotient hm hr
  have hz : ((x.spareQuotient y p).rounded p).toRat = r := by
    obtain hx | hquot := hrange
    · have hzero : r = 0 := by
        rw [hx, zero_div] at hn
        obtain rfl | rfl := hmem
        · exact le_antisymm hn.below.1.2 (hn.le_of_le (.zero _) le_rfl)
        · exact le_antisymm (hn.le_of_ge (.zero _) le_rfl) hn.above.1.2
      rw [hzero, hsmall]
      rw [hzero, abs_zero]
      exact pow_ten_pos _
    · exact hlarge (hn.le_abs hmem (significant_smallest p.digits_pos) hquot)
  refine ⟨_, div?_eq hm, ?_⟩
  rw [hz]
  refine ⟨⟨lo, hi, hn, hmem⟩, hiff, ?_⟩
  intro hmode h s hs
  rw [hmode] at h
  exact h.closest hs

/-- An eighth in two digits: the exact quotient is half way, and the even digit is taken. -/
theorem div_rounds_of_eighth :
    let p : Precision := .ofBits 6 .nearest
    ∃ z, (ofInt 1).div? (ofInt 8) p = some z ∧ z = ⟨12, 2⟩ ∧ Rounds .nearest p.digits (1 / 8) z.toRat := by
  intro p
  have hquot : (ofInt 1).toRat / (ofInt 8).toRat = 1 / 8 := by norm_num [toRat_ofInt]
  have hspare : ((ofInt 1).spareQuotient (ofInt 8) p).toRat = 1 / 8 := by
    have heq : (ofInt 1).spareQuotient (ofInt 8) p = ⟨1250, 4⟩ := by decide +kernel
    norm_num [heq, toRat]
  have hrange : smallest ≤ |(ofInt 1).toRat / (ofInt 8).toRat| := by
    have hle : smallest < 10 ^ (-1 : Int) := pow_ten_lt.2 (by decide)
    rw [hquot]
    norm_num at hle ⊢
    linarith
  obtain ⟨z, hz, -, hiff, -⟩ := div_rounds (p := p) (by norm_num [toRat_ofInt]) (.inr hrange)
  have hvalue : (ofInt 1).div? (ofInt 8) p = some ⟨12, 2⟩ := by decide +kernel
  refine ⟨z, hz, Option.some.inj (hz.symm.trans hvalue), ?_⟩
  rw [hquot, hspare] at hiff
  exact hiff.2 fun _ _ h => absurd rfl h

/-- The quotient of 1 and 163 in three digits is 0.00613. Its first quotient 0.0061350 is half way, and
is rounded to the even 0.00614. -/
theorem not_rounds_of_163 :
    let p : Precision := .ofBits 8 .nearest
    ∃ z, (ofInt 1).div? (ofInt 163) p = some z ∧ z = ⟨614, 5⟩ ∧
      Significant p.digits (ofInt 1).toRat ∧ Significant p.digits (ofInt 163).toRat ∧
      ¬ Rounds .nearest p.digits ((ofInt 1).toRat / (ofInt 163).toRat) z.toRat := by
  intro p
  have hdigits : p.digits = 3 := by decide +kernel
  have hvalue : (ofInt 1).div? (ofInt 163) p = some ⟨614, 5⟩ := by decide +kernel
  refine ⟨_, hvalue, rfl, significant_toRat (by decide +kernel), significant_toRat (by decide +kernel), ?_⟩
  intro h
  have hnearer : Significant p.digits (613 / 100000) := by
    rw [hdigits]
    exact ⟨613, -5, by decide, by norm_num⟩
  have hle := h.closest hnearer
  have hquot : (ofInt 1).toRat / (ofInt 163).toRat = 1 / 163 := by norm_num [toRat_ofInt]
  have hresult : (⟨614, 5⟩ : Decimal).toRat = 614 / 100000 := by norm_num [toRat]
  rw [hquot, hresult, abs_of_neg (by norm_num), abs_of_pos (by norm_num)] at hle
  norm_num at hle

end Decimal
end Reporting
