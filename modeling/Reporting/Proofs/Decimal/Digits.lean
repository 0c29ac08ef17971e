import Mathlib.Data.List.Induction
import Reporting.Decimal.Digits
import Reporting.Proofs.Decimal.Whole
import Reporting.Proofs.Text.Blank
/-!
Lists of decimal digits and the natural numbers that they write.
-/
namespace Reporting.Digits

variable {ds es : List Char} {n k : Nat}

theorem value_append (ds es : List Char) : value (ds ++ es) = value ds * 10 ^ es.length + value es := by
  induction es using List.reverseRecOn generalizing ds with
  | nil => rw [List.append_nil, List.length_nil, Nat.pow_zero, Nat.mul_one]; rfl
  | append_singleton es c ih =>
    have hlast (ds : List Char) : value (ds ++ [c]) = value ds * 10 + (c.toNat - 48) := by
      rw [value, List.foldl_append]
      rfl
    rw [← List.append_assoc, hlast, hlast, ih, List.length_append, List.length_singleton, Nat.pow_succ]
    ring

theorem value_singleton (c : Char) : value [c] = c.toNat - 48 := Nat.zero_add _

theorem value_lt (hd : ds.all Char.isDigit = true) : value ds < 10 ^ ds.length := by
  induction ds using List.reverseRecOn with
  | nil => exact Nat.one_pos
  | append_singleton ds c ih =>
    rw [List.all_append, Bool.and_eq_true] at hd
    have hc := Text.isDigit_iff.1 (List.all_eq_true.1 hd.2 c List.mem_cons_self)
    have hlt := ih hd.1
    rw [value_append, value_singleton, List.length_append, List.length_singleton, Nat.pow_succ]
    omega

/-- Digits are known by the number that they write and by how many they are. -/
theorem eq_of_value (hd : ds.all Char.isDigit = true) (he : es.all Char.isDigit = true)
    (hlength : ds.length = es.length) (hvalue : value ds = value es) : ds = es := by
  induction ds using List.reverseRecOn generalizing es with
  | nil => exact (List.length_eq_zero_iff.1 hlength.symm).symm
  | append_singleton ds c ih =>
    obtain rfl | ⟨es, e, rfl⟩ := List.eq_nil_or_concat' es
    · simp at hlength
    · rw [List.all_append, Bool.and_eq_true] at hd he
      have hc := Text.isDigit_iff.1 (List.all_eq_true.1 hd.2 c List.mem_cons_self)
      have he' := Text.isDigit_iff.1 (List.all_eq_true.1 he.2 e List.mem_cons_self)
      simp only [value_append, value_singleton, List.length_singleton, Nat.pow_one] at hvalue
      have hrest := ih hd.1 he.1 (by simpa using hlength) (by omega)
      have hlast : c = e := Char.ext (UInt32.toNat_inj.1 (by change c.toNat = e.toNat; omega))
      rw [hrest, hlast]

theorem digitChar_mod (n : Nat) :
    (Nat.digitChar (n % 10)).isDigit = true ∧ (Nat.digitChar (n % 10)).toNat - 48 = n % 10 := by
  have hall : ∀ d < 10, (Nat.digitChar d).isDigit = true ∧ (Nat.digitChar d).toNat - 48 = d := by decide
  exact hall _ (Nat.mod_lt n (by decide))

/-- The last digits of a number: they are digits, as many as asked for, and write the remainder. -/
theorem last_spec (k n : Nat) :
    (last k n).all Char.isDigit = true ∧ (last k n).length = k ∧ value (last k n) = n % 10 ^ k := by
  induction k, n using last.induct with
  | case1 n =>
    rw [last, if_pos rfl, Nat.pow_zero, Nat.mod_one]
    exact ⟨rfl, rfl, rfl⟩
  | case2 n hzero =>
    obtain ⟨hdigit, hvalue⟩ := digitChar_mod n
    rw [last, if_neg (by decide), if_pos rfl, value_singleton, Nat.pow_one]
    exact ⟨by rw [List.all_cons, hdigit]; rfl, rfl, hvalue⟩
  | case3 k n hzero hone ihhigh ihlow =>
    rw [last, if_neg hzero, if_neg hone, List.all_append, List.length_append, value_append]
    refine ⟨by rw [ihhigh.1, ihlow.1]; rfl, by omega, ?_⟩
    have hsplit : 10 ^ k = 10 ^ (k / 2) * 10 ^ (k - k / 2) := by rw [← Nat.pow_add]; congr 1; omega
    rw [ihhigh.2.2, ihlow.2.2, ihlow.2.1, hsplit, Nat.mod_mul]
    change n / 10 ^ (k / 2) % _ * _ + _ = _
    ring

theorem all_isDigit_last (k n : Nat) : (last k n).all Char.isDigit = true := (last_spec k n).1

theorem length_last (k n : Nat) : (last k n).length = k := (last_spec k n).2.1

theorem value_last (k n : Nat) : value (last k n) = n % 10 ^ k := (last_spec k n).2.2

theorem all_isDigit_ofNat (n : Nat) : (ofNat n).all Char.isDigit = true := all_isDigit_last _ n

theorem length_ofNat (n : Nat) : (ofNat n).length = count n := length_last _ n

theorem ofNat_ne_nil (n : Nat) : ofNat n ≠ [] := by
  apply List.ne_nil_of_length_pos
  rw [length_ofNat]
  exact count_pos n

theorem value_ofNat (n : Nat) : value (ofNat n) = n := by
  rw [ofNat, value_last, Nat.mod_eq_of_lt (lt_pow_count n)]

theorem count_mul_pow (hn : n ≠ 0) (k : Nat) : count (n * 10 ^ k) = count n + k := by
  have hcount := count_pos n
  have hle : 10 ^ (count n - 1 + k) ≤ n * 10 ^ k := by
    rw [Nat.pow_add]
    exact Nat.mul_le_mul_right _ (pow_count_le hn)
  have hlt : n * 10 ^ k < 10 ^ (count n + k) := by
    rw [Nat.pow_add]
    exact Nat.mul_lt_mul_of_pos_right (lt_pow_count n) (Nat.pow_pos (by decide))
  have hupper : count (n * 10 ^ k) ≤ count n + k := count_le_of_lt hlt (by omega)
  have hlower : count n - 1 + k < count (n * 10 ^ k) :=
    (Nat.pow_lt_pow_iff_right (by decide)).1 (hle.trans_lt (lt_pow_count _))
  omega

theorem value_replicate_zero (k : Nat) : value (List.replicate k '0') = 0 := by
  induction k with
  | zero => rfl
  | succ k ih =>
    rw [List.replicate_succ', value_append, ih]
    rfl

theorem all_isDigit_replicate_zero (k : Nat) : (List.replicate k '0').all Char.isDigit = true := by
  rw [List.all_replicate]
  exact ite_self true

theorem ofNat_mul_pow (hn : n ≠ 0) (k : Nat) : ofNat (n * 10 ^ k) = ofNat n ++ List.replicate k '0' := by
  apply eq_of_value (all_isDigit_ofNat _)
  · rw [List.all_append, all_isDigit_ofNat, all_isDigit_replicate_zero]
    rfl
  · rw [length_ofNat, count_mul_pow hn, List.length_append, List.length_replicate, length_ofNat]
  · rw [value_append, value_ofNat, value_ofNat, value_replicate_zero, List.length_replicate, Nat.add_zero]

/-- Zeros in front are digits that do not count. -/
theorem value_zeros_append (k : Nat) (ds : List Char) : value (List.replicate k '0' ++ ds) = value ds := by
  rw [value_append, value_replicate_zero, Nat.zero_mul, Nat.zero_add]

theorem all_isDigit_zeros_append (k : Nat) (hd : ds.all Char.isDigit = true) :
    (List.replicate k '0' ++ ds).all Char.isDigit = true := by
  rw [List.all_append, all_isDigit_replicate_zero, hd]
  rfl

theorem getLast?_last (k n : Nat) : (last (k + 1) n).getLast? = some (Nat.digitChar (n % 10)) := by
  have hsplit : last (k + 1) n = last k (n / 10) ++ [Nat.digitChar (n % 10)] := by
    obtain ⟨hdigit, hvalue⟩ := digitChar_mod n
    apply eq_of_value (all_isDigit_last _ _)
    · rw [List.all_append, all_isDigit_last, List.all_cons, hdigit]
      rfl
    · rw [length_last, List.length_append, length_last, List.length_singleton]
    · rw [value_append, value_last, value_last, value_singleton, hvalue, List.length_singleton,
        Nat.pow_one, Nat.pow_succ, Nat.mul_comm (10 ^ k), Nat.mod_mul]
      ring
  rw [hsplit, List.getLast?_concat]

end Reporting.Digits
