import Reporting.Proofs.Decimal.Fixed
import Reporting.Proofs.Decimal.Quotient
/-!
Numbers in plain notation are read the same with blanks around them, a plus sign before them and zeros in
front. A number with a fixed number of decimals has no more digits than the number that was rounded, so it is
read back whatever it is padded with.
-/
namespace Reporting

/-! Digits of rounded numbers -/

variable {mode : Rounding} {u : ℚ} {z : Int} {k : Nat}

/-- A number that is not an integer has fewer digits before its point than it has, so that rounding it to an
integer adds none. -/
theorem Rounding.Prescribes.natAbs_le (h : mode.Prescribes u ⌊u⌋ ⌈u⌉ z) (hu : ∀ k : Int, u ≠ k)
    (hk : 1 ≤ k) (hsig : Significant k u) : z.natAbs ≤ 10 ^ (k - 1) := by
  have hsmall : |u| < ((10 ^ (k - 1) : Nat) : Int) := by
    by_contra hlow
    obtain ⟨w, hw⟩ := hsig.exists_int (by
      have hexp : (k : Int) - 1 = ((k - 1 : Nat) : Int) := by omega
      rw [hexp, ← natCast_pow_ten]
      exact_mod_cast not_lt.1 hlow)
    exact hu w hw
  obtain ⟨hlow, hhigh⟩ := abs_lt.1 hsmall
  obtain ⟨hfloor, hceil⟩ := h.mem_int
  have hupper : ⌈u⌉ ≤ ((10 ^ (k - 1) : Nat) : Int) := Int.ceil_le.2 hhigh.le
  have hlower : -((10 ^ (k - 1) : Nat) : Int) ≤ ⌊u⌋ := Int.le_floor.2 (by push_cast at hlow ⊢; exact hlow.le)
  omega

theorem Rounding.RoundsTo.significant (h : mode.RoundsTo u z) (hk : 1 ≤ k) (hsig : Significant k u) :
    Significant k z := by
  obtain rfl | ⟨hu, h⟩ := h
  · exact hsig
  · have hle := (h.natAbs_le hu hk hsig).trans (Nat.pow_le_pow_right (by decide) (Nat.sub_le k 1))
    have hint := Significant.of_natAbs_le hk hle 0
    rwa [zpow_zero, mul_one] at hint

namespace Decimal

variable {x : Decimal} {p : Precision} {whole fraction : List Char} {negative : Bool} {n : Nat}

theorem significant_roundPlaces (hk : 1 ≤ k) (h : Significant k x.toRat) (places : Int) (mode : Rounding) :
    Significant k (x.roundPlaces places mode).toRat := by
  obtain ⟨z, hz, hround⟩ := x.exists_roundsTo places mode
  rw [hz]
  exact (hround.significant hk (h.mul_pow places)).mul_pow (-places)

theorem smallest_le_roundPlaces (x : Decimal) (hn : n ≤ maxExponent) (mode : Rounding) :
    (x.roundPlaces n mode).toRat = 0 ∨ smallest ≤ |(x.roundPlaces n mode).toRat| := by
  obtain ⟨z, hz, -⟩ := x.exists_roundsTo n mode
  by_cases hzero : z = 0
  · left
    rw [hz, hzero, Int.cast_zero, zero_mul]
  · right
    have hone : (1 : ℚ) ≤ |(z : ℚ)| := by exact_mod_cast Int.one_le_abs hzero
    have hexp : -(maxExponent : Int) ≤ -(n : Int) := by omega
    calc smallest ≤ 10 ^ (-(n : Int)) := zpow_le_zpow_right₀ (by norm_num) hexp
      _ ≤ |(z : ℚ)| * 10 ^ (-(n : Int)) := le_mul_of_one_le_left (pow_ten_pos _).le hone
      _ = |(x.roundPlaces n mode).toRat| := by rw [hz, abs_mul, abs_of_pos (pow_ten_pos _)]

/-- The numbers in range are those below a power of ten. -/
theorem inRange_iff : x.inRange = true ↔ |x.toRat| < 10 ^ ((maxExponent : Int) + 1) := by
  rw [inRange, decide_eq_true_eq]
  by_cases hx : x.toRat = 0
  · have hz : x.isZero = true := beq_iff_eq.2 (mantissa_eq_zero hx)
    rw [adjustedExponent, if_pos hz, hx, abs_zero]
    exact iff_of_true (Nat.cast_nonneg _) (pow_ten_pos _)
  · obtain ⟨hlow, hhigh⟩ := adjustedExponent_bounds hx
    constructor
    · intro hle
      exact hhigh.trans_le (zpow_le_zpow_right₀ (by norm_num) (by omega))
    · intro hlt
      have := pow_ten_lt.1 (hlow.trans_lt hlt)
      omega

/-- A number in range stays so when it is rounded to decimals, as long as it has no more digits than a number in
range can have before its point. -/
theorem abs_roundPlaces_lt (hx : x.inRange = true) (hk : 1 ≤ k) (hle : k ≤ maxExponent + 1)
    (hsig : Significant k x.toRat) (n : Nat) (mode : Rounding) :
    |(x.roundPlaces n mode).toRat| < 10 ^ ((maxExponent : Int) + 1) := by
  obtain ⟨z, hz, hexact | ⟨hne, hround⟩⟩ := x.exists_roundsTo n mode
  · rw [hz, ← hexact, mul_pow_ten_cancel]
    exact inRange_iff.1 hx
  · have hdigits : |(z : ℚ)| ≤ 10 ^ (maxExponent : Int) := by
      have hnat := (hround.natAbs_le hne hk (hsig.mul_pow n)).trans
        (Nat.pow_le_pow_right (by decide) (by omega : k - 1 ≤ maxExponent))
      rw [abs_intCast, ← natCast_pow_ten]
      exact_mod_cast hnat
    have hplaces : (10 : ℚ) ^ (-(n : Int)) ≤ 1 := zpow_le_one_of_nonpos₀ (by norm_num) (by omega)
    calc |(x.roundPlaces n mode).toRat| = |(z : ℚ)| * 10 ^ (-(n : Int)) := by
          rw [hz, abs_mul, abs_of_pos (pow_ten_pos _)]
      _ ≤ |(z : ℚ)| := mul_le_of_le_one_right (abs_nonneg _) hplaces
      _ ≤ 10 ^ (maxExponent : Int) := hdigits
      _ < 10 ^ ((maxExponent : Int) + 1) := pow_ten_lt.2 (by omega)

/-! Reading what is padded -/

/-- A number in plain notation with blanks around it and zeros in front, and on demand with a plus sign where it
has no sign. -/
def padded (before zeros after : Nat) (plus : Bool) (s : List Char) : List Char :=
  let number := match s with
    | '-' :: ds => '-' :: (List.replicate zeros '0' ++ ds)
    | ds => (if plus then ['+'] else []) ++ (List.replicate zeros '0' ++ ds)
  List.replicate before ' ' ++ number ++ List.replicate after ' '

theorem padded_plainText (hne : whole ≠ []) (hw : whole.all Char.isDigit = true)
    (before zeros after : Nat) (plus : Bool) :
    padded before zeros after plus (plainText negative whole fraction) = List.replicate before ' ' ++
      ((if plus && !negative then ['+'] else []) ++
        plainText negative (List.replicate zeros '0' ++ whole) fraction) ++ List.replicate after ' ' := by
  obtain ⟨d, whole, rfl⟩ := List.exists_cons_of_ne_nil hne
  rw [List.all_cons, Bool.and_eq_true] at hw
  have hd : d ≠ '-' := ne_of_isDigit hw.1 rfl
  cases negative with
  | true => simp [padded, plainText]
  | false => simp [padded, plainText, hd]

theorem parse?_replicate {s : List Char} (hs : Text.Trimmed s) (hne : s ≠ []) (before after : Nat) :
    parse? (List.replicate before ' ' ++ s ++ List.replicate after ' ') p = parse? s p := by
  unfold parse?
  rw [Text.trim_replicate hs hne, hs.trim]

theorem trimmed_of_sign (hw : whole.all Char.isDigit = true) (hf : fraction.all Char.isDigit = true)
    (plus : Bool) : Text.Trimmed ((if plus then ['+'] else []) ++ plainText negative whole fraction) := by
  apply Text.trimmed_of_forall
  intro c hc
  obtain hc | hc := List.mem_append.1 hc
  · split at hc
    · rw [List.mem_singleton.1 hc]
      decide
    · cases hc
  · obtain hd | rfl | rfl := mem_plainText hw hf hc
    · exact Text.isBlank_of_isDigit hd
    · decide
    · decide

theorem parse?_plus (hne : whole ≠ []) (hw : whole.all Char.isDigit = true)
    (hf : fraction.all Char.isDigit = true) :
    parse? ('+' :: plainText false whole fraction) p = parse? (plainText false whole fraction) p := by
  obtain ⟨d, t, hd, hcons⟩ := plainText_eq_cons false fraction hne hw
  have hsign : Text.trim ('+' :: plainText false whole fraction) = '+' :: plainText false whole fraction :=
    (trimmed_of_sign hw hf true).trim
  unfold parse?
  rw [hsign, trim_plainText hw hf]
  split
  · rename_i heq
    rw [← (List.cons.inj heq).2]
    split
    · rename_i hplus
      rw [hcons] at hplus
      exact absurd (List.cons.inj hplus).1 (ne_of_isDigit hd rfl)
    · rfl
  · rename_i hplus
    exact absurd rfl (hplus _)

theorem parse?_zeros (hne : whole ≠ []) (hw : whole.all Char.isDigit = true)
    (hf : fraction.all Char.isDigit = true) (hplaces : fits64 fraction.length = true) (zeros : Nat) :
    parse? (plainText negative (List.replicate zeros '0' ++ whole) fraction) p =
      parse? (plainText negative whole fraction) p := by
  have hzeros := Digits.all_isDigit_zeros_append zeros hw
  rw [parse?_plainText (List.append_ne_nil_of_right_ne_nil _ hne) hzeros hf hplaces,
    parse?_plainText hne hw hf hplaces, List.append_assoc, Digits.value_zeros_append]

/-- Padding does not change the number that is read. -/
theorem parse?_padded (hne : whole ≠ []) (hw : whole.all Char.isDigit = true)
    (hf : fraction.all Char.isDigit = true) (hplaces : fits64 fraction.length = true)
    (before zeros after : Nat) (plus : Bool) :
    parse? (padded before zeros after plus (plainText negative whole fraction)) p =
      parse? (plainText negative whole fraction) p := by
  have hzeros := Digits.all_isDigit_zeros_append zeros hw
  have hne' : List.replicate zeros '0' ++ whole ≠ [] := List.append_ne_nil_of_right_ne_nil _ hne
  obtain ⟨d, t, hd, hcons⟩ := plainText_eq_cons negative fraction hne' hzeros
  have hnil : plainText negative (List.replicate zeros '0' ++ whole) fraction ≠ [] := by
    rw [hcons]
    split <;> exact List.cons_ne_nil _ _
  rw [padded_plainText hne hw, parse?_replicate (trimmed_of_sign hzeros hf _)
    (List.append_ne_nil_of_right_ne_nil _ hnil), ← parse?_zeros hne hw hf hplaces zeros]
  split
  · rename_i hsign
    have hnegative : negative = false := by
      rw [Bool.and_eq_true, Bool.not_eq_true'] at hsign
      exact hsign.2
    rw [hnegative]
    exact parse?_plus hne' hzeros hf
  · rfl

/-- A number that is written with a fixed number of decimals is read as the rounded number, whatever it is
padded with, if that is in range. -/
theorem parse?_renderFixed (hn : n ≤ maxExponent) (hsig : Significant p.digits x.toRat) :
    ∃ negative whole fraction, whole ≠ [] ∧ whole.all Char.isDigit = true ∧ fraction.length = n ∧
      (x.renderFixed n p.rounding).toList = plainText negative whole fraction ∧
      ∃ y : Decimal, y.toRat = (x.roundPlaces n p.rounding).toRat ∧ ∀ before zeros after plus,
        parse? (padded before zeros after plus (plainText negative whole fraction)) p =
          if y.inRange then some y else none := by
  obtain ⟨fraction, htext, hlength, hdigits, hvalue⟩ := x.toList_renderFixed p.rounding hn rfl
  have hsignificant := significant_roundPlaces p.digits_pos hsig n p.rounding
  have hlarge := x.smallest_le_roundPlaces hn p.rounding
  generalize (x.roundPlaces n p.rounding).toRat = r at *
  have hwhole := Digits.ofNat_ne_nil ⌊|r|⌋₊
  have hplaces : fits64 fraction.length = true := by
    have hmax : maxExponent < 0x8000000000000000 := by decide
    rw [hlength, fits64_iff]
    omega
  have hwritten : toRat ⟨withSign (decide (r < 0)) (Digits.value (Digits.ofNat ⌊|r|⌋₊ ++ fraction)),
      fraction.length⟩ = r := by
    rw [hlength]
    exact hvalue.symm
  have hround := toRat_rounded_of_significant (p := p) (by rwa [hwritten]) (by rwa [hwritten])
  refine ⟨_, _, fraction, hwhole, Digits.all_isDigit_ofNat _, hlength, htext, _, hround.trans hwritten,
    fun before zeros after plus => ?_⟩
  rw [parse?_padded hwhole (Digits.all_isDigit_ofNat _) hdigits hplaces,
    parse?_plainText hwhole (Digits.all_isDigit_ofNat _) hdigits hplaces]

end Decimal
end Reporting
