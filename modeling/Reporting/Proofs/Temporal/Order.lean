import Mathlib.Order.Compare
import Reporting.Proofs.Temporal.Sound
/-!
The order of dates and times by their fields is the order of the day numbers and of the seconds of the day.
-/
namespace Reporting
open Calendar

namespace Date

variable {d e : Date}

theorem take_monthLengths_le : ∀ leap, ∀ j < 12, ∀ k ≤ 12, j < k →
    ((monthLengths leap).take j).sum + ((monthLengths leap)[j]?).getD 0 ≤
      ((monthLengths leap).take k).sum := by
  decide

theorem Valid.number_lt_of_year (hd : d.Valid) (he : e.Valid) (h : d.year < e.year) :
    d.number < e.number := by
  have hmono := daysBeforeYear_mono (show d.year + 1 ≤ e.year from h)
  exact (hd.number_bounds.2.trans_le hmono).trans_le he.number_bounds.1

theorem Valid.number_lt_of_month (hd : d.Valid) (he : e.Valid) (hyear : d.year = e.year)
    (h : d.month < e.month) : d.number < e.number := by
  obtain ⟨hmonth, hday⟩ := hd
  obtain ⟨hmonth', hday'⟩ := he
  rw [daysInMonth_eq hmonth.1 hmonth.2] at hday
  have hmonths := take_monthLengths_le (isLeapYear d.year) (d.month - 1).toNat (by omega)
    (e.month - 1).toNat (by omega) (by omega)
  simp only [number, ordinal, daysBeforeMonth, ← hyear]
  rw [← List.sum_eq_foldr, ← List.sum_eq_foldr]
  omega

theorem number_sub_of_month (hyear : d.year = e.year) (hmonth : d.month = e.month) :
    d.number - e.number = d.day - e.day := by
  simp only [number, ordinal, hyear, hmonth]
  omega

/-- A day of the calendar is known by its number. -/
theorem Valid.eq_of_number (hd : d.Valid) (he : e.Valid) (h : d.number = e.number) : d = e := by
  have hyear : d.year = e.year := by
    rcases Int.lt_trichotomy d.year e.year with hlt | heq | hgt
    · exact absurd h (hd.number_lt_of_year he hlt).ne
    · exact heq
    · exact absurd h (he.number_lt_of_year hd hgt).ne'
  have hmonth : d.month = e.month := by
    rcases Int.lt_trichotomy d.month e.month with hlt | heq | hgt
    · exact absurd h (hd.number_lt_of_month he hyear hlt).ne
    · exact heq
    · exact absurd h (he.number_lt_of_month hd hyear.symm hgt).ne'
  have hday := number_sub_of_month hyear hmonth
  obtain ⟨year, month, day⟩ := d
  obtain ⟨year', month', day'⟩ := e
  simp only [mk.injEq]
  dsimp only at hyear hmonth hday
  omega

end Date

namespace Temporal

variable {s t : Temporal} {a b x y : Int} {o : Ordering}

/-- The leading parts decide the order of two numbers, and only equal ones leave it to the other parts. -/
theorem compare_then (hlt : a < b → x < y) (hgt : b < a → y < x)
    (heq : a = b → o = Ord.compare x y) : (Ord.compare a b).then o = Ord.compare x y := by
  rcases Int.lt_trichotomy a b with h | h | h
  · rw [Int.compare_eq_lt.2 h, Int.compare_eq_lt.2 (hlt h)]
    rfl
  · rw [Int.compare_eq_eq.2 h, heq h]
    rfl
  · rw [Int.compare_eq_gt.2 h, Int.compare_eq_gt.2 (hgt h)]
    rfl

theorem compare_of_sub (h : a - b = x - y) : Ord.compare a b = Ord.compare x y := by
  have hparts := compare_then (o := .eq) (show a < b → x < y by omega) (show b < a → y < x by omega)
    fun _ => (Int.compare_eq_eq.2 (by omega)).symm
  rwa [Ordering.then_eq] at hparts

/-- Days of the calendar are in the order of their numbers. -/
theorem compareDates_eq (hs : s.asDate.Valid) (ht : t.asDate.Valid) :
    s.compareDates t = Ord.compare s.asDate.number t.asDate.number := by
  refine compare_then (hs.number_lt_of_year ht) (ht.number_lt_of_year hs) fun hyear => ?_
  refine compare_then (hs.number_lt_of_month ht hyear) (ht.number_lt_of_month hs hyear.symm)
    fun hmonth => ?_
  exact compare_of_sub (Date.number_sub_of_month (d := s.asDate) (e := t.asDate) hyear hmonth).symm

/-- Times of the clock are in the order of their seconds. -/
theorem compareTimes_eq (hs : isClock s.hour s.minute s.second = true)
    (ht : isClock t.hour t.minute t.second = true) :
    s.compareTimes t = Ord.compare s.secondsOfDay t.secondsOfDay := by
  simp only [isClock, Bool.and_eq_true, decide_eq_true_eq] at hs ht
  simp only [secondsOfDay]
  refine compare_then (by omega) (by omega) fun hhour => ?_
  refine compare_then (by omega) (by omega) fun hminute => ?_
  exact compare_of_sub (by omega)

theorem compare_eq (s t : Temporal) : s.compare t = (s.compareDates t).then (s.compareTimes t) := by
  rw [compareDates, Ordering.then_assoc, Ordering.then_assoc]
  rfl

/-- The seconds from the first day of year 1. -/
def instant (t : Temporal) : Int := 86400 * t.asDate.number + t.secondsOfDay

/-- Dates with times are in the order of the seconds that have passed. -/
theorem compare_eq_instants (hs : s.asDate.Valid) (ht : t.asDate.Valid)
    (hs' : isClock s.hour s.minute s.second = true) (ht' : isClock t.hour t.minute t.second = true) :
    s.compare t = Ord.compare s.instant t.instant := by
  rw [compare_eq, compareDates_eq hs ht, compareTimes_eq hs' ht']
  have hlow := secondsOfDay_bounds hs'
  have hhigh := secondsOfDay_bounds ht'
  simp only [instant]
  exact compare_then (by omega) (by omega) fun hday => compare_of_sub (by omega)

end Temporal
end Reporting
