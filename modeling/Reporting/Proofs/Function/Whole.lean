import Mathlib.Algebra.BigOperators.Group.List.Lemmas
import Mathlib.Algebra.Order.BigOperators.Group.List
import Reporting.Proofs.Decimal.Whole
import Reporting.Proofs.Function.Traits
/-!
Sums, differences, products and opposites of integers, whatever forms the numbers have. They are exact as long as the
precision has room for their extent, which bounds all that is computed on the way.
-/
namespace Reporting
open Operands

/-- A value is a number that is this integer. -/
def Value.Holds (v : Value) (k : Int) : Prop := ∃ x, v.number? = some x ∧ x.toRat = k

/-- How large an integer is; zero takes as much room as one. -/
def extent (k : Int) : Nat := max 1 k.natAbs

namespace Builtin

/-- What the functions of integers compute. -/
def ofIntegers : Builtin → List Int → Int
  | .add, ks => ks.sum
  | .mul, ks => ks.prod
  | .sub, k :: ks => k - ks.sum
  | .uminus, k :: _ => -k
  | _, _ => 0

/-- What bounds a function of integers, and all that is computed on the way, from bounds of its
operands. -/
def ofExtents : Builtin → List Nat → Nat
  | .mul, ns => ns.prod
  | _, ns => ns.sum

/-- The functions of integers, and how many operands they take. -/
def TakesIntegers (b : Builtin) (n : Nat) : Prop :=
  ((b = .add ∨ b = .sub ∨ b = .mul) ∧ 2 ≤ n) ∨ (b = .uminus ∧ n = 1)

end Builtin

variable {v : Value} {vs : List Value} {k a : Int} {ks : List Int} {x : Decimal} {p : Precision}
  {ns : List Nat} {b : Builtin} {c : Context}

theorem one_le_extent (k : Int) : 1 ≤ extent k := Nat.le_max_left _ _

theorem natAbs_le_extent (k : Int) : k.natAbs ≤ extent k := Nat.le_max_right _ _

theorem extent_mul_le (a b : Int) : extent (a * b) ≤ extent a * extent b := by
  have hone : 1 ≤ extent a * extent b := Nat.mul_le_mul (one_le_extent a) (one_le_extent b)
  have hmul : (a * b).natAbs ≤ extent a * extent b := by
    rw [Int.natAbs_mul]
    exact Nat.mul_le_mul (natAbs_le_extent a) (natAbs_le_extent b)
  exact Nat.max_le.2 ⟨hone, hmul⟩

theorem natAbs_sum_le_extent (ks : List Int) : ks.sum.natAbs ≤ (ks.map extent).sum := by
  induction ks with
  | nil => exact Nat.le_refl 0
  | cons k ks ih =>
    have := natAbs_le_extent k
    rw [List.sum_cons, List.map_cons, List.sum_cons]
    omega

theorem extent_prod_le (ks : List Int) : extent ks.prod ≤ (ks.map extent).prod := by
  induction ks with
  | nil => exact Nat.le_refl 1
  | cons k ks ih =>
    rw [List.prod_cons, List.map_cons, List.prod_cons]
    exact (extent_mul_le k ks.prod).trans (Nat.mul_le_mul_left _ ih)

theorem one_le_prod_extent (ks : List Int) : 1 ≤ (ks.map extent).prod :=
  (one_le_extent _).trans (extent_prod_le ks)

/-! Regrouping -/

namespace Builtin

variable {ms : List Nat}

/-- Sums and products may be grouped anywhere, differences at their start. -/
theorem ofIntegers_group {before ks : List Int} (hb : b = .add ∨ b = .mul ∨ b = .sub ∧ before = [])
    (hks : ks ≠ []) (later : List Int) :
    b.ofIntegers (before ++ ks ++ later) = b.ofIntegers (before ++ b.ofIntegers ks :: later) := by
  obtain rfl | rfl | ⟨rfl, rfl⟩ := hb
  · simp only [ofIntegers, List.sum_append, List.sum_cons, add_assoc]
  · simp only [ofIntegers, List.prod_append, List.prod_cons, mul_assoc]
  · obtain ⟨k, ks, rfl⟩ := List.exists_cons_of_ne_nil hks
    simp only [ofIntegers, List.nil_append, List.cons_append, List.sum_append, sub_sub]

theorem ofExtents_group (b : Builtin) (before ns later : List Nat) :
    b.ofExtents (before ++ ns ++ later) = b.ofExtents (before ++ b.ofExtents ns :: later) := by
  cases b <;>
    simp only [ofExtents, List.prod_append, List.prod_cons, List.sum_append, List.sum_cons, add_assoc,
      mul_assoc]

theorem ofIntegers_perm {ks ls : List Int} (hb : b = .add ∨ b = .mul) (h : ks.Perm ls) :
    b.ofIntegers ks = b.ofIntegers ls := by
  obtain rfl | rfl := hb
  · exact h.sum_eq
  · exact h.prod_eq

theorem ofExtents_perm (h : ns.Perm ms) : b.ofExtents ns = b.ofExtents ms := by
  unfold ofExtents
  split
  · exact h.prod_eq
  · exact h.sum_eq

theorem ofExtents_mono (h : List.Forall₂ (· ≤ ·) ns ms) : b.ofExtents ns ≤ b.ofExtents ms := by
  unfold ofExtents
  split
  · exact h.prod_le_prod'
  · exact h.sum_le_sum

theorem ofExtents_replace {before later : List Nat} {n m : Nat} (h : n ≤ m) :
    b.ofExtents (before ++ n :: later) ≤ b.ofExtents (before ++ m :: later) :=
  ofExtents_mono (List.rel_append (List.forall₂_same.2 fun _ _ => Nat.le_refl _)
    (.cons h (List.forall₂_same.2 fun _ _ => Nat.le_refl _)))

theorem ofExtents_sublist (h : ns.Sublist ms) (hone : ∀ n ∈ ms, 1 ≤ n) :
    b.ofExtents ns ≤ b.ofExtents ms := by
  unfold ofExtents
  split
  · exact h.prod_le_prod' hone
  · exact h.sum_le_sum fun n _ => Nat.zero_le n

theorem ofExtents_singleton (n : Nat) : b.ofExtents [n] = n := by
  unfold ofExtents
  split
  · exact List.prod_singleton
  · exact List.sum_singleton

theorem le_ofExtents {n : Nat} (hn : n ∈ ns) (hone : ∀ n ∈ ns, 1 ≤ n) : n ≤ b.ofExtents ns := by
  have h := ofExtents_sublist (b := b) (List.singleton_sublist.2 hn) hone
  rwa [ofExtents_singleton] at h

end Builtin

/-! Values -/

namespace Value

theorem Holds.number (h : v.Holds k) : v.kind = .number ∧ v.isNull = false := by
  obtain ⟨x, hx, -⟩ := h
  obtain ⟨declared, isNull, payload⟩ := v
  cases payload with
  | number n =>
    cases isNull with
    | false => exact ⟨rfl, rfl⟩
    | true => cases hx
  | error | text | datetime => cases hx

theorem holds_number (hx : x.toRat = k) (hk : Decimal.Fits p k) : (number x).Holds k := by
  rw [Value.number, if_pos (Decimal.inRange_of_whole hx hk)]
  exact ⟨x, rfl, hx⟩

theorem Holds.unique (h : v.Holds k) (h' : v.Holds a) : k = a := by
  obtain ⟨x, hx, hk⟩ := h
  obtain ⟨y, hy, ha⟩ := h'
  cases hx.symm.trans hy
  exact_mod_cast hk.symm.trans ha

end Value

theorem allPlain_of_holds (h : List.Forall₂ Value.Holds vs ks) : AllPlain vs := by
  induction h with
  | nil => exact List.forall_mem_nil _
  | cons h _ ih => exact List.forall_mem_cons.2 ⟨h.number, ih⟩

theorem numbers_of_holds (h : List.Forall₂ Value.Holds vs ks) :
    List.Forall₂ (fun x k => Decimal.toRat x = (k : Int)) (numbers vs) ks := by
  induction h with
  | nil => exact .nil
  | cons h _ ih =>
    obtain ⟨x, hx, hk⟩ := h
    rw [numbers, List.filterMap_cons_some hx]
    exact .cons hk ih

/-! Folds -/

open Decimal

variable {xs : List Decimal}

theorem toRat_foldl_add (hxs : List.Forall₂ (fun x k => Decimal.toRat x = (k : Int)) xs ks)
    (hx : x.toRat = a) (h : a.natAbs + (ks.map extent).sum < 10 ^ min p.digits maxExponent) :
    (xs.foldl (·.add · p) x).toRat = ((a + ks.sum : Int) : ℚ) := by
  induction hxs generalizing x a with
  | nil => rw [List.foldl_nil, List.sum_nil, add_zero, hx]
  | @cons y k ys ks hy _ ih =>
    have hk := natAbs_le_extent k
    rw [List.map_cons, List.sum_cons] at h
    have hadd := toRat_add (p := p) hx hy (show a.natAbs < _ by omega) (show k.natAbs < _ by omega)
      (show (a + k).natAbs < _ by omega)
    rw [List.foldl_cons, ih hadd (by omega), List.sum_cons, add_assoc]

theorem toRat_foldl_sub (hxs : List.Forall₂ (fun x k => Decimal.toRat x = (k : Int)) xs ks)
    (hx : x.toRat = a) (h : a.natAbs + (ks.map extent).sum < 10 ^ min p.digits maxExponent) :
    (xs.foldl (·.sub · p) x).toRat = ((a - ks.sum : Int) : ℚ) := by
  induction hxs generalizing x a with
  | nil => rw [List.foldl_nil, List.sum_nil, sub_zero, hx]
  | @cons y k ys ks hy _ ih =>
    have hk := natAbs_le_extent k
    rw [List.map_cons, List.sum_cons] at h
    have hsub := toRat_sub (p := p) hx hy (show a.natAbs < _ by omega) (show k.natAbs < _ by omega)
      (show (a - k).natAbs < _ by omega)
    rw [List.foldl_cons, ih hsub (by omega), List.sum_cons, sub_sub]

theorem toRat_foldl_mul (hxs : List.Forall₂ (fun x k => Decimal.toRat x = (k : Int)) xs ks)
    (hx : x.toRat = a) (h : extent a * (ks.map extent).prod < 10 ^ min p.digits maxExponent) :
    (xs.foldl (·.mul · p) x).toRat = ((a * ks.prod : Int) : ℚ) := by
  induction hxs generalizing x a with
  | nil => rw [List.foldl_nil, List.prod_nil, mul_one, hx]
  | @cons y k ys ks hy _ ih =>
    rw [List.map_cons, List.prod_cons, ← mul_assoc] at h
    have hfit : extent (a * k) * (ks.map extent).prod < 10 ^ min p.digits maxExponent :=
      Nat.lt_of_le_of_lt (Nat.mul_le_mul_right _ (extent_mul_le a k)) h
    have hone : extent (a * k) ≤ extent (a * k) * (ks.map extent).prod :=
      Nat.le_mul_of_pos_right _ (one_le_prod_extent ks)
    have hmul := toRat_mul (p := p) hx hy
      (Nat.lt_of_le_of_lt (natAbs_le_extent (a * k)) (Nat.lt_of_le_of_lt hone hfit))
    rw [List.foldl_cons, ih hmul hfit, List.prod_cons, mul_assoc]

/-! Functions -/

theorem extent_ofIntegers_le (hb : b.TakesIntegers ks.length) :
    extent (b.ofIntegers ks) ≤ b.ofExtents (ks.map extent) := by
  have hsum (hne : ks ≠ []) (h : (b.ofIntegers ks).natAbs ≤ (ks.map extent).sum) :
      extent (b.ofIntegers ks) ≤ (ks.map extent).sum := by
    refine Nat.max_le.2 ⟨?_, h⟩
    obtain ⟨k, ks, rfl⟩ := List.exists_cons_of_ne_nil hne
    have := one_le_extent k
    rw [List.map_cons, List.sum_cons]
    omega
  obtain ⟨hb, hlen⟩ | ⟨rfl, hlen⟩ := hb
  · have hne : ks ≠ [] := List.ne_nil_of_length_pos (by omega)
    obtain ⟨k, ks, rfl⟩ := List.exists_cons_of_ne_nil hne
    obtain rfl | rfl | rfl := hb
    · exact hsum hne (natAbs_sum_le_extent (k :: ks))
    · refine hsum hne ?_
      have hk := natAbs_le_extent k
      have hks := natAbs_sum_le_extent ks
      rw [List.map_cons, List.sum_cons]
      show (k - ks.sum).natAbs ≤ _
      omega
    · exact extent_prod_le (k :: ks)
  · obtain ⟨k, rfl⟩ := List.length_eq_one_iff.1 hlen
    refine hsum (List.cons_ne_nil _ _) ?_
    show (-k).natAbs ≤ _
    rw [Int.natAbs_neg]
    exact natAbs_le_extent k

theorem foldNumbers_of_holds {y : Decimal} {ys : List Decimal} {f : Decimal → Decimal → Decimal}
    (hvs : List.Forall₂ Value.Holds vs ks) (hnumbers : numbers vs = y :: ys) :
    (Arithmetic.foldNumbers f vs) = .ok (.number (ys.foldl f y)) := by
  rw [Arithmetic.foldNumbers, check_of_plain (allPlain_of_holds hvs), hnumbers]
  rfl

/-- A function of integers with room for their extent is exact. -/
theorem holds_apply (hvs : List.Forall₂ Value.Holds vs ks) (hb : b.TakesIntegers vs.length)
    (h : b.ofExtents (ks.map extent) < 10 ^ min c.precision.digits maxExponent) :
    (b.apply vs c).value.Holds (b.ofIntegers ks) := by
  have hplain := allPlain_of_holds hvs
  have hnum : countKind vs .number = vs.length :=
    countKind_eq_length.2 fun v hv => (hplain v hv).1
  have hsurface : surfaceErrors vs = .ok () :=
    surfaceErrors_eq_ok fun v hv => by rw [Value.isError, (hplain v hv).1]; rfl
  have hfit : Fits c.precision (b.ofIntegers ks) :=
    Nat.lt_of_le_of_lt ((natAbs_le_extent _).trans
      (extent_ofIntegers_le (hvs.length_eq ▸ hb))) h
  have hxs := numbers_of_holds hvs
  cases hks : ks with
  | nil =>
    subst hks
    cases hvs
    obtain ⟨-, hlen⟩ | ⟨-, hlen⟩ := hb <;> cases hlen
  | cons k ls =>
    subst hks
    cases hnumbers : numbers vs with
    | nil =>
      rw [hnumbers] at hxs
      cases hxs
    | cons y ys =>
      rw [hnumbers] at hxs
      cases hxs with
      | cons hy hys =>
        have hk := natAbs_le_extent k
        obtain ⟨rfl | rfl | rfl, hlen⟩ | ⟨rfl, -⟩ := hb
        · have hsum : extent k + (ls.map extent).sum < 10 ^ min c.precision.digits maxExponent := h
          rw [Builtin.apply, Arithmetic.add, atLeast_of_le hlen, hsurface]
          change Outcome.value (if _ then _ else _) |>.Holds _
          rw [if_pos hnum, foldNumbers_of_holds hvs hnumbers]
          exact Value.holds_number (toRat_foldl_add hys hy (by omega)) hfit
        · have hsum : extent k + (ls.map extent).sum < 10 ^ min c.precision.digits maxExponent := h
          rw [Builtin.apply, Arithmetic.sub, atLeast_of_le hlen, hsurface]
          change Outcome.value (if _ then _ else _) |>.Holds _
          rw [if_pos hnum, foldNumbers_of_holds hvs hnumbers]
          exact Value.holds_number (toRat_foldl_sub hys hy (by omega)) hfit
        · have hprod : extent k * (ls.map extent).prod < 10 ^ min c.precision.digits maxExponent := by
            rw [← List.prod_cons]
            exact h
          rw [Builtin.apply, Arithmetic.mul, atLeast_of_le hlen]
          change Outcome.value (Arithmetic.foldNumbers _ _) |>.Holds _
          rw [foldNumbers_of_holds hvs hnumbers]
          exact Value.holds_number (toRat_foldl_mul hys hy hprod) hfit
        · have hneg : y.neg.toRat = ((-k : Int) : ℚ) := by
            rw [toRat_neg, hy, Int.cast_neg]
          rw [Builtin.apply, unary, check_of_plain hplain, hnumbers]
          exact Value.holds_number hneg hfit

end Reporting
