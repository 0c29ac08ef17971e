import Mathlib.Algebra.Order.BigOperators.Group.List
import Mathlib.Algebra.Ring.Int.Defs
import Reporting.Calendar.Basic
/-!
Day numbers of the calendar. Every day number falls into one year, one month of that year and one day of
that month, and dates are moved by days as their day numbers are.
-/
namespace Reporting
open Calendar

namespace Calendar

variable {y z n : Int}

theorem daysBeforeYear_succ (y : Int) :
    daysBeforeYear (y + 1) = daysBeforeYear y + if isLeapYear y then 366 else 365 := by
  simp only [daysBeforeYear, isLeapYear, Bool.or_eq_true, Bool.and_eq_true, beq_iff_eq, bne_iff_ne]
  split <;> omega

theorem daysBeforeYear_mono (h : y ≤ z) : daysBeforeYear y ≤ daysBeforeYear z := by
  simp only [daysBeforeYear]
  omega

theorem daysBeforeYear_bounds (h : firstYear ≤ y ∧ y ≤ lastYear) :
    -95746130 ≤ daysBeforeYear y ∧ daysBeforeYear (y + 1) ≤ 95745399 := by
  have hlow := daysBeforeYear_mono h.1
  have hhigh := daysBeforeYear_mono (Int.add_le_add_right h.2 1)
  have hfirst : daysBeforeYear firstYear = -95746130 := by decide
  have hlast : daysBeforeYear (lastYear + 1) = 95745399 := by decide
  rw [hfirst] at hlow
  rw [hlast] at hhigh
  exact ⟨hlow, hhigh⟩

end Calendar

namespace Date

variable {d : Date} {n y k : Int} {leap : Bool} {ls : List Int}

theorem yearOfNumber_spec (n : Int) :
    daysBeforeYear (yearOfNumber n) ≤ n ∧ n < daysBeforeYear (yearOfNumber n + 1) := by
  have hlow : daysBeforeYear (n * 400 / 146097 + 1 - 1) ≤ n := by
    simp only [daysBeforeYear]
    omega
  have hhigh : n < daysBeforeYear (n * 400 / 146097 + 1 + 1 + 1) := by
    simp only [daysBeforeYear]
    omega
  unfold yearOfNumber
  dsimp only
  split
  · exact ⟨hlow, by rwa [Int.sub_add_cancel]⟩
  · split
    · exact ⟨‹_›, hhigh⟩
    · exact ⟨Int.not_lt.1 ‹_›, Int.not_le.1 ‹_›⟩

theorem yearOfNumber_eq (hlow : daysBeforeYear y ≤ n) (hhigh : n < daysBeforeYear (y + 1)) :
    yearOfNumber n = y := by
  obtain ⟨hlow', hhigh'⟩ := yearOfNumber_spec n
  apply Int.le_antisymm
  · by_contra h
    have := daysBeforeYear_mono (show y + 1 ≤ yearOfNumber n by omega)
    omega
  · by_contra h
    have := daysBeforeYear_mono (show yearOfNumber n + 1 ≤ y by omega)
    omega

/-! Days of a year -/

theorem daysInMonth_eq {month : Int} (hlow : 1 ≤ month) (hhigh : month ≤ 12) :
    daysInMonth y month = ((monthLengths (isLeapYear y))[(month - 1).toNat]?).getD 0 := by
  rw [daysInMonth, Int.emod_eq_of_lt (by omega) (by omega)]

theorem inMonths_spec (ls : List Int) (hlow : 0 ≤ n) (hhigh : n < ls.sum) :
    ∃ j < ls.length, (inMonths k ls n).1 = k + j ∧
      (1 ≤ (inMonths k ls n).2 ∧ (inMonths k ls n).2 ≤ (ls[j]?).getD 0) ∧
      (ls.take j).sum + ((inMonths k ls n).2 - 1) = n := by
  induction ls generalizing k n with
  | nil =>
    rw [List.sum_nil] at hhigh
    omega
  | cons length ls ih =>
    rw [List.sum_cons] at hhigh
    rw [inMonths]
    split
    · exact ⟨0, Nat.zero_lt_succ _, (Int.add_zero k).symm, ⟨by dsimp only; omega, by simp; omega⟩, by simp⟩
    · obtain ⟨j, hj, hmonth, hday, hback⟩ := ih (k := k + 1) (n := n - length) (by omega) (by omega)
      refine ⟨j + 1, Nat.succ_lt_succ hj, ?_, hday, ?_⟩
      · rw [hmonth]
        omega
      · rw [List.take_succ_cons, List.sum_cons]
        omega

/-- A day of a month is found from the days of the months before it. -/
theorem inMonths_take {j : Nat} {day : Int} (hnonneg : ∀ l ∈ ls, 0 ≤ l) (hlow : 1 ≤ day)
    (hhigh : day ≤ (ls[j]?).getD 0) : inMonths k ls ((ls.take j).sum + (day - 1)) = (k + j, day) := by
  induction ls generalizing k j with
  | nil =>
    rw [List.getElem?_nil] at hhigh
    exact absurd (Int.le_trans hlow hhigh) (by decide)
  | cons length ls ih =>
    have hlength := hnonneg length List.mem_cons_self
    have hrest (l : Int) (hl : l ∈ ls) := hnonneg l (List.mem_cons_of_mem length hl)
    cases j with
    | zero =>
      rw [List.getElem?_cons_zero, Option.getD_some] at hhigh
      rw [inMonths, List.take_zero, List.sum_nil, if_pos (by omega)]
      exact Prod.ext (Int.add_zero k).symm (by dsimp only; omega)
    | succ j =>
      have hsum : 0 ≤ (ls.take j).sum := List.sum_nonneg fun l hl => hrest l (List.mem_of_mem_take hl)
      have hback : length + (ls.take j).sum + (day - 1) - length = (ls.take j).sum + (day - 1) := by omega
      rw [inMonths, List.take_succ_cons, List.sum_cons, if_neg (by omega), hback,
        ih hrest (by rwa [List.getElem?_cons_succ] at hhigh)]
      exact Prod.ext (by push_cast; omega) rfl

/-- The days of all months are the days of the year, and those of the first ones are within it. -/
theorem sum_monthLengths (leap : Bool) : (monthLengths leap).sum = if leap then 366 else 365 := by
  cases leap <;> rfl

theorem sum_take_monthLengths (leap : Bool) {j : Nat} (hj : j < 12) :
    0 ≤ ((monthLengths leap).take j).sum ∧
      ((monthLengths leap).take j).sum + ((monthLengths leap)[j]?).getD 0 ≤ (monthLengths leap).sum := by
  have hall : ∀ leap, ∀ j < 12, 0 ≤ ((monthLengths leap).take j).sum ∧
      ((monthLengths leap).take j).sum + ((monthLengths leap)[j]?).getD 0 ≤ (monthLengths leap).sum := by
    decide
  exact hall leap j hj

theorem number_eq (d : Date) : d.number = (⟨d.year, d.month, 1⟩ : Date).number + (d.day - 1) := by
  simp only [number, ordinal]
  omega

/-- A day that its month has, in any year. -/
structure Valid (d : Date) : Prop where
  month : 1 ≤ d.month ∧ d.month ≤ 12
  day : 1 ≤ d.day ∧ d.day ≤ daysInMonth d.year d.month

theorem Valid.ordinal_bounds (h : d.Valid) :
    0 ≤ d.ordinal ∧ d.ordinal < (monthLengths (isLeapYear d.year)).sum := by
  obtain ⟨hmonth, hday⟩ := h
  rw [daysInMonth_eq hmonth.1 hmonth.2] at hday
  have hsum := sum_take_monthLengths (isLeapYear d.year) (j := (d.month - 1).toNat) (by omega)
  change 0 ≤ ((monthLengths (isLeapYear d.year)).take (d.month - 1).toNat).sum + (d.day - 1) ∧
    ((monthLengths (isLeapYear d.year)).take (d.month - 1).toNat).sum + (d.day - 1) < _
  omega

theorem Valid.number_bounds (h : d.Valid) :
    daysBeforeYear d.year ≤ d.number ∧ d.number < daysBeforeYear (d.year + 1) := by
  have hordinal := h.ordinal_bounds
  rw [sum_monthLengths] at hordinal
  rw [number, daysBeforeYear_succ]
  omega

/-- A date is found from its day number. -/
theorem Valid.ofNumber?_number (h : d.Valid) (hyear : firstYear ≤ d.year ∧ d.year ≤ lastYear) :
    ofNumber? d.number = some d := by
  obtain ⟨hlow, hhigh⟩ := h.number_bounds
  obtain ⟨hmonth, hday⟩ := h
  rw [daysInMonth_eq hmonth.1 hmonth.2] at hday
  have hnonneg : ∀ l ∈ monthLengths (isLeapYear d.year), 0 ≤ l := by
    generalize isLeapYear d.year = leap
    revert leap
    decide
  have hmonths := inMonths_take (k := 1) hnonneg hday.1 hday.2
  have hordinal : d.number - daysBeforeYear d.year =
      ((monthLengths (isLeapYear d.year)).take (d.month - 1).toNat).sum + (d.day - 1) :=
    add_sub_cancel_left _ _
  have hback : 1 + (((d.month - 1).toNat : Nat) : Int) = d.month := by omega
  rw [ofNumber?, yearOfNumber_eq hlow hhigh, hordinal, hmonths, hback]
  exact if_pos hyear

/-- What is found from a day number is the date of that number. -/
theorem ofNumber?_spec (h : ofNumber? n = some d) :
    d.Valid ∧ (firstYear ≤ d.year ∧ d.year ≤ lastYear) ∧ d.number = n := by
  obtain ⟨hlow, hhigh⟩ := yearOfNumber_spec n
  rw [daysBeforeYear_succ, ← sum_monthLengths] at hhigh
  obtain ⟨j, hj, hmonth, ⟨hday, hlength⟩, hback⟩ := inMonths_spec (k := 1)
    (monthLengths (isLeapYear (yearOfNumber n))) (n := n - daysBeforeYear (yearOfNumber n))
    (by omega) (by omega)
  change j < 12 at hj
  have hindex : (1 + (j : Int) - 1).toNat = j := by omega
  rw [ofNumber?, Option.ite_none_right_eq_some, Option.some.injEq] at h
  obtain ⟨hyear, rfl⟩ := h
  refine ⟨⟨?_, hday, ?_⟩, hyear, ?_⟩
  · dsimp only
    omega
  · dsimp only
    rwa [hmonth, daysInMonth_eq (by omega) (by omega), hindex]
  · simp only [number, ordinal, daysBeforeMonth, hmonth, hindex]
    rw [← List.sum_eq_foldr, hback]
    omega

theorem ofNumber?_eq_some (h : ofNumber? n = some d) : d.Valid ∧
    (firstYear ≤ d.year ∧ d.year ≤ lastYear) ∧
    daysBeforeYear d.year ≤ n ∧ n < daysBeforeYear (d.year + 1) := by
  obtain ⟨hvalid, hyear, rfl⟩ := ofNumber?_spec h
  exact ⟨hvalid, hyear, hvalid.number_bounds⟩

/-- The calendar has fewer than 200 million days. -/
theorem Valid.addDays?_bounds {e : Date} (h : d.Valid) (hyear : firstYear ≤ d.year ∧ d.year ≤ lastYear)
    (hmoved : d.addDays? n = some e) : -200000000 < n ∧ n < 200000000 := by
  obtain ⟨-, hyear', hlow, hhigh⟩ := ofNumber?_eq_some hmoved
  obtain ⟨hlow', hhigh'⟩ := h.number_bounds
  have hrange := daysBeforeYear_bounds hyear
  have hrange' := daysBeforeYear_bounds hyear'
  omega

end Date
end Reporting
