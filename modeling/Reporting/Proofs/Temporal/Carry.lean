import Reporting.Proofs.Temporal.Parsed
import Reporting.Proofs.Temporal.Reached
/-!
The carry of dates: where days were cut off, and when it is given back.
-/
namespace Reporting.Temporal
open Calendar

variable {steady : Prop} {t r : Temporal}

/-- Every move keeps dates and times sound. It keeps the carry at the end of a month as well, unless a
number moves the day and leaves the carry behind. -/
theorem Reached.sound (h : t.Reached steady) : t.Sound ∧ (steady → t.AtMonthEnd) := by
  induction h with
  | read h hmoment =>
    have hfresh := parse?_fresh h hmoment
    exact ⟨hfresh.sound, fun _ hcarry => absurd hfresh.carry hcarry⟩
  | @number t r n ht h hsteady ih =>
    obtain ⟨hsound, hcarry⟩ := ih.1.addNumber h
    refine ⟨hsound, fun hs hpending => ?_⟩
    rw [hcarry] at hpending
    have hlast := ih.2 hs hpending
    obtain hnone | hdate := hsteady hs
    · exact absurd hnone hpending
    · obtain ⟨hyear, hmonth, hday⟩ := Date.mk.inj hdate
      rw [hyear, hmonth, hday]
      exact hlast
  | interval ht hi h ih =>
    obtain ⟨hsound, hlast⟩ := ih.1.addInterval h
    exact ⟨hsound, fun _ => hlast⟩
  | dateOnly ht ih => exact ⟨ih.1.dateOnly, ih.2⟩
  | withDateOf ht hd iht ihd => exact ⟨iht.1.withDateOf ihd.1, fun _ hcarry => absurd rfl hcarry⟩
  | withTimeOf ht hd iht ihd => exact ⟨iht.1.withTimeOf ihd.1, iht.2⟩
  | withSeconds ht hlow hhigh ih => exact ⟨ih.1.withSeconds hlow hhigh, ih.2⟩

/-- The functions of dates lead from dates and times that were reached to such ones alone. These have a
carry of at most three days, and only with a date. As long as no number leaves a carry on another day, the
day is the last one of its month where a carry is pending, so that adding an empty interval changes nothing.
Where none is pending, a number of days, or of the seconds of whole days, moves a value as an interval does,
with the same carry for the months that are added next. -/
theorem carry_at_month_end (steady : Prop) (c : Context) :
    (∀ f ∈ Builtin.movers, ∀ args : List Value, (∀ v ∈ args, v.Moved steady) →
      (steady → f.Settles args c) → (f.apply args c).value.Moved steady) ∧
    ∀ t : Temporal, t.Reached steady →
      (t.carry ≠ 0 → t.hasDate = true) ∧ t.carry ≤ 3 ∧
      (steady → (t.carry ≠ 0 → t.day = daysInMonth t.year t.month) ∧
        t.addInterval (ofInterval 0 0 0 0 0 0) = some t) ∧
      (t.hasDate = true → t.carry = 0 → ∀ n, Fits32 n →
        (t.hasTime = false → t.addNumber n = t.addInterval (ofInterval 0 0 n 0 0 0)) ∧
        (t.hasTime = true → ∀ r, t.addNumber (86400 * n) = some r →
          t.addInterval (ofInterval 0 0 n 0 0 0) = some r)) := by
  refine ⟨fun f hf args hargs hsteady => Builtin.moved_apply hf hargs hsteady, ?_⟩
  intro t ht
  obtain ⟨hsound, hlast⟩ := ht.sound
  refine ⟨?_, hsound.carry, fun hs => ⟨hlast hs, hsound.addInterval_zero (hlast hs)⟩, ?_⟩
  · intro hcarry
    by_contra hdate
    exact hcarry (hsound.undated (Bool.eq_false_iff.2 hdate)).2.2.2
  · intro hdate hcarry n hn
    exact ⟨fun htime => hsound.addNumber_days hdate htime hcarry hn,
      fun htime r h => hsound.addNumber_seconds hdate htime hcarry h⟩

/-- Settings for examples. -/
def plainContext : Context where
  precision := .ofBits 64 .nearest
  dateOrder := .dayFirst
  clock := {}
  scope := .empty

/-- The last day of January, moved by a day to February, and by a month with three days cut off, which an
empty interval leaves. -/
theorem carry_at_month_end_of_january :
    (Builtin.dec.apply [.datetime (ofDate 2023 1 31)] plainContext).value.Moved True ∧
      (ofDate 2023 1 31).addNumber 1 = (ofDate 2023 1 31).addInterval (ofInterval 0 0 1 0 0 0) ∧
      ∃ t : Temporal, (ofDate 2023 1 31).addInterval (ofInterval 0 1 0 0 0 0) = some t ∧ t.carry = 3 ∧
        t.addInterval (ofInterval 0 0 0 0 0 0) = some t := by
  have hread : parse? "2023-01-31" .dayFirst = some (ofDate 2023 1 31) := by decide +kernel
  have hjanuary : (ofDate 2023 1 31).Reached True := .read hread rfl
  have hmonth : (ofDate 2023 1 31).addInterval (ofInterval 0 1 0 0 0 0) =
      some { ofDate 2023 2 28 with carry := 3 } := rfl
  obtain ⟨hmoved, hreached⟩ := carry_at_month_end True plainContext
  refine ⟨hmoved .dec (by decide) _ ?_ ?_, ?_, _, hmonth, rfl, ?_⟩
  · intro v hv
    obtain rfl := List.mem_singleton.1 hv
    exact .datetime (.inr hjanuary)
  · rintro - v ⟨⟩ t r ⟨⟩ - -
    exact .inl rfl
  · exact ((hreached _ hjanuary).2.2.2 rfl rfl 1 (by decide)).1 rfl
  · exact ((hreached _ (.interval hjanuary rfl hmonth)).2.2.1 trivial).2

/-- A day after a month, added as a number, leaves the three days on the first day of March: an empty
interval moves it by them, and a further month goes to the fourth day of April. Added as an interval, the
day takes the carry away. -/
theorem carry_not_at_month_end :
    let read (s : String) : Value := (Builtin.stodt.apply [.text s] plainContext).value
    let add (v w : Value) : Value := (Builtin.add.apply [v, w] plainContext).value
    let february := add (read "2023-01-31") (read "1 month")
    let march := add february (.ofInt 1)
    february = .datetime { ofDate 2023 2 28 with carry := 3 } ∧
      march = .datetime { ofDate 2023 3 1 with carry := 3 } ∧ 1 ≠ daysInMonth 2023 3 ∧
      add march (.datetime (ofInterval 0 0 0 0 0 0)) = .datetime (ofDate 2023 3 4) ∧
      add march (read "1 month") = .datetime (ofDate 2023 4 4) ∧
      add (add february (read "1 day")) (read "1 month") = .datetime (ofDate 2023 4 1) := by
  intro read add february march
  have hfebruary : february = .datetime { ofDate 2023 2 28 with carry := 3 } := by decide +kernel
  have hmarch : march = .datetime { ofDate 2023 3 1 with carry := 3 } := by decide +kernel
  refine ⟨hfebruary, hmarch, by decide, ?_, ?_, ?_⟩
  · rw [hmarch]
    decide +kernel
  · rw [hmarch]
    decide +kernel
  · rw [hfebruary]
    decide +kernel

end Reporting.Temporal
