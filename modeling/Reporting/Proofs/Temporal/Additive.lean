import Reporting.Proofs.Temporal.Intervals
import Reporting.Proofs.Temporal.Order
import Reporting.Proofs.Temporal.Shifts
/-!
Numbers that are added one after the other add up. A number goes to a different place in each of the
four kinds of values, and each has one measure that it moves by itself: the duration of an interval,
the seconds of a time of day, the day number of a date and the instant of a date with a time.
-/
namespace Reporting.Temporal
open Calendar

variable {t r s u : Temporal} {d : Date} {k m n : Int}

/-! Intervals -/

theorem addNumber_of_interval (hinterval : t.interval = true) :
    t.addNumber n = (checked (t.second + n)).bind fun second =>
      ({ t with second }.carryTime).bind normalize := by
  rw [addNumber, if_pos hinterval]
  rfl

theorem spread_of_addNumber (hinterval : t.interval = true) (h : t.addNumber n = some r) :
    r = { t.spread t.length (t.duration + n) with carry := t.carry } := by
  rw [addNumber_of_interval hinterval] at h
  obtain ⟨second, hsecond, h⟩ := Option.bind_eq_some_iff.1 h
  obtain ⟨-, rfl⟩ := checked_eq_some.1 hsecond
  obtain ⟨-, rfl⟩ := (carry_eq_some_iff (by exact hinterval)).1 h
  have hduration : { t with second := t.second + n }.duration = t.duration + n := by
    simp only [duration]
    omega
  rw [hduration]
  rfl

theorem addNumber_add_interval (hinterval : t.interval = true) (hr : t.addNumber m = some r)
    (hs : r.addNumber n = some s) (hu : t.addNumber (m + n) = some u) : s = u := by
  have hmoved := spread_of_addNumber hinterval hr
  have hlength : r.length = t.length := by
    rw [hmoved]
    exact length_spread t t.length (t.duration + m)
  have hduration : r.duration = t.duration + m := by
    rw [hmoved]
    exact duration_spread t t.length (t.duration + m)
  have hinterval' : r.interval = true := by
    rw [hmoved]
    exact hinterval
  rw [spread_of_addNumber hinterval' hs, spread_of_addNumber hinterval hu, hlength, hduration, Int.add_assoc,
    hmoved]
  rfl

/-! Times of day -/

/-- The time that a number of seconds leads to, without a date. -/
def aroundClock (t : Temporal) (n : Int) : Temporal :=
  { t.atSecond ((t.secondsOfDay + n) % 86400) with year := 0, month := 0, day := 0 }

/-- A time of day goes around the clock, and is never refused. -/
theorem addNumber_of_time (hmoment : t.interval = false) (hdate : t.hasDate = false)
    (htime : t.hasTime = true) (n : Int) : t.addNumber n = some (t.aroundClock n) := by
  have hseconds : (t.secondsOfDay + n % 86400) % 86400 = (t.secondsOfDay + n) % 86400 := by omega
  rw [addNumber, if_neg (by rw [hmoment]; exact Bool.false_ne_true),
    if_neg (by rw [hdate]; exact Bool.false_ne_true), if_pos htime, hseconds,
    withSeconds_eq (by omega) (by omega)]
  simp only [aroundClock, atSecond, htime]
  rfl

theorem secondsOfDay_atSecond (t : Temporal) (k : Int) : (t.atSecond k).secondsOfDay = k := by
  simp only [atSecond, secondsOfDay]
  omega

theorem secondsOfDay_aroundClock (t : Temporal) (n : Int) :
    (t.aroundClock n).secondsOfDay = (t.secondsOfDay + n) % 86400 :=
  secondsOfDay_atSecond t _

theorem aroundClock_aroundClock (t : Temporal) (m n : Int) :
    (t.aroundClock m).aroundClock n = t.aroundClock (m + n) := by
  have hseconds : ((t.secondsOfDay + m) % 86400 + n) % 86400 = (t.secondsOfDay + (m + n)) % 86400 := by
    omega
  rw [aroundClock, secondsOfDay_aroundClock, hseconds]
  rfl

/-! Dates -/

theorem exists_day_of_roll (hmonth : 1 ≤ t.month ∧ t.month ≤ 12) (h : t.rollDay = some r) :
    ∃ d : Date, d.Valid ∧ d.number = t.asDate.number ∧ r = t.onDay d := by
  by_cases hday : 1 ≤ t.day ∧ t.day ≤ daysInMonth t.year t.month
  · rw [rollDay, if_pos hday, Option.pure_def, Option.some.injEq] at h
    exact ⟨t.asDate, ⟨hmonth, hday⟩, rfl, h.symm⟩
  · rw [rollDay, if_neg hday] at h
    simp only [Option.bind_eq_bind, Option.bind_eq_some_iff, Option.pure_def, Option.some.injEq] at h
    obtain ⟨first, hfirst, d, hd, rfl⟩ := h
    rw [Date.ofParts?, Option.ite_none_right_eq_some, Option.some.injEq] at hfirst
    obtain ⟨-, rfl⟩ := hfirst
    obtain ⟨hvalid, -, hnumber⟩ := Date.ofNumber?_spec hd
    exact ⟨d, hvalid, by rw [hnumber, t.asDate.number_eq]; rfl, rfl⟩

/-- A number moves a date of any year by days. -/
theorem exists_day_of_addNumber (hmoment : t.interval = false) (hdate : t.hasDate = true)
    (htime : t.hasTime = false) (hvalid : t.asDate.Valid) (h : t.addNumber n = some r) :
    ∃ d : Date, d.Valid ∧ d.number = t.asDate.number + n ∧ r = t.onDay d := by
  rw [addNumber_of_date hmoment hdate htime] at h
  obtain ⟨day, hday, h⟩ := Option.bind_eq_some_iff.1 h
  obtain ⟨-, rfl⟩ := checked_eq_some.1 hday
  have hmonth : 1 ≤ t.month ∧ t.month ≤ 12 := hvalid.month
  have hyear : Fits32 t.year := by
    obtain ⟨_, hs, -⟩ := Option.bind_eq_some_iff.1 h
    obtain ⟨year, _, hyear, hfits, -, -⟩ := carryMonths_eq_some (by exact hmoment) hs
    have hsame : year = t.year := by
      rw [hyear]
      dsimp only
      omega
    rwa [← hsame]
  rw [normalize_eq_rollDay (t := { t with day := t.day + n }) hmoment hyear hmonth] at h
  obtain ⟨d, hd, hnumber, rfl⟩ := exists_day_of_roll (t := { t with day := t.day + n }) hmonth h
  refine ⟨d, hd, ?_, rfl⟩
  have hsub := Date.number_sub_of_month (d := asDate { t with day := t.day + n }) (e := t.asDate) rfl rfl
  rw [hnumber]
  simp only [asDate] at hsub ⊢
  omega

theorem addNumber_add_date (hmoment : t.interval = false) (hdate : t.hasDate = true)
    (htime : t.hasTime = false) (hvalid : t.asDate.Valid) (hr : t.addNumber m = some r)
    (hs : r.addNumber n = some s) (hu : t.addNumber (m + n) = some u) : s = u := by
  obtain ⟨d, hd, hdays, rfl⟩ := exists_day_of_addNumber hmoment hdate htime hvalid hr
  obtain ⟨e, he, hdays', rfl⟩ := exists_day_of_addNumber (t := t.onDay d) hmoment hdate htime hd hs
  obtain ⟨f, hf, hsum, rfl⟩ := exists_day_of_addNumber hmoment hdate htime hvalid hu
  have hsame : e.number = f.number := by
    change e.number = d.number + n at hdays'
    omega
  rw [he.eq_of_number hf hsame]
  rfl

theorem compare_of_date (hmoment : t.interval = false) (hdate : t.hasDate = true)
    (htime : t.hasTime = false) (hvalid : t.asDate.Valid) (hlt : m < n) (hr : t.addNumber m = some r)
    (hs : t.addNumber n = some s) : r.compare s = .lt := by
  obtain ⟨d, hd, hdays, rfl⟩ := exists_day_of_addNumber hmoment hdate htime hvalid hr
  obtain ⟨e, he, hdays', rfl⟩ := exists_day_of_addNumber hmoment hdate htime hvalid hs
  have hdates : (t.onDay d).compareDates (t.onDay e) = .lt := by
    rw [compareDates_eq (by exact hd) (by exact he), Int.compare_eq_lt]
    change d.number < e.number
    omega
  rw [compare_eq, hdates]
  rfl

/-! Dates with times -/

/-- A number moves a date with a time by seconds. -/
theorem exists_instant_of_addNumber (hmoment : t.interval = false) (hdate : t.hasDate = true)
    (htime : t.hasTime = true) (h : t.addNumber n = some r) :
    ∃ (d : Date) (k : Int), d.Valid ∧ (0 ≤ k ∧ k < 86400) ∧ 86400 * d.number + k = t.instant + n ∧
      r = (t.atSecond k).onDay d := by
  rw [addNumber_of_dateTime hmoment hdate htime] at h
  obtain ⟨date, d, hdate', hd, rfl⟩ := addSeconds_eq_some h
  rw [date?, if_pos hdate, Date.ofParts?, Option.ite_none_right_eq_some, Option.some.injEq] at hdate'
  obtain ⟨-, rfl⟩ := hdate'
  obtain ⟨hvalid, -, hnumber⟩ := Date.ofNumber?_spec hd
  refine ⟨d, (t.secondsOfDay + n) % 86400, hvalid, by omega, ?_, ?_⟩
  · rw [hnumber, instant, asDate]
    omega
  · simp only [onDay, atSecond, ofDateTime, hmoment, hdate, htime]

theorem instant_onDay (t : Temporal) (d : Date) (k : Int) :
    ((t.atSecond k).onDay d).instant = 86400 * d.number + k :=
  congrArg (86400 * d.number + ·) (secondsOfDay_atSecond t k)

theorem addNumber_add_dateTime (hmoment : t.interval = false) (hdate : t.hasDate = true)
    (htime : t.hasTime = true) (hr : t.addNumber m = some r) (hs : r.addNumber n = some s)
    (hu : t.addNumber (m + n) = some u) : s = u := by
  obtain ⟨d, k, hd, hk, hinstant, rfl⟩ := exists_instant_of_addNumber hmoment hdate htime hr
  obtain ⟨e, l, he, hl, hinstant', rfl⟩ :=
    exists_instant_of_addNumber (t := (t.atSecond k).onDay d) hmoment hdate htime hs
  obtain ⟨f, j, hf, hj, hsum, rfl⟩ := exists_instant_of_addNumber hmoment hdate htime hu
  rw [instant_onDay] at hinstant'
  have hdays : e.number = f.number := by omega
  have hclock : l = j := by omega
  rw [he.eq_of_number hf hdays, hclock]
  rfl

theorem compare_of_dateTime (hmoment : t.interval = false) (hdate : t.hasDate = true)
    (htime : t.hasTime = true) (hlt : m < n) (hr : t.addNumber m = some r) (hs : t.addNumber n = some s) :
    r.compare s = .lt := by
  obtain ⟨d, k, hd, hk, hinstant, rfl⟩ := exists_instant_of_addNumber hmoment hdate htime hr
  obtain ⟨e, l, he, hl, hinstant', rfl⟩ := exists_instant_of_addNumber hmoment hdate htime hs
  have hclock := isClock_of_seconds hk.1 hk.2
  have hclock' := isClock_of_seconds hl.1 hl.2
  rw [compare_eq_instants (by exact hd) (by exact he) (by exact hclock) (by exact hclock'),
    instant_onDay, instant_onDay, Int.compare_eq_lt]
  omega

/-- Adding one number and then another one is adding their sum. A greater number leads a date to a later
date, and a time of day goes around the clock, whatever number it is. -/
theorem addNumber_add (hvalid : t.interval = false → t.hasDate = true → t.hasTime = false → t.asDate.Valid) :
    (∀ m n r s u, t.addNumber m = some r → r.addNumber n = some s → t.addNumber (m + n) = some u → s = u) ∧
    (t.interval = false → t.hasDate = true → ∀ m n r s, m < n → t.addNumber m = some r →
      t.addNumber n = some s → r.compare s = .lt) ∧
    (t.interval = false → t.hasDate = false → t.hasTime = true → ∀ n, ∃ r, t.addNumber n = some r ∧
      r.time?.isSome = true ∧ r.secondsOfDay = (t.secondsOfDay + n) % 86400) := by
  refine ⟨fun m n r s u hr hs hu => ?_, fun hmoment hdate m n r s hlt hr hs => ?_,
    fun hmoment hdate htime n => ?_⟩
  · cases hinterval : t.interval with
    | true => exact addNumber_add_interval hinterval hr hs hu
    | false =>
      cases hdate : t.hasDate with
      | true =>
        cases htime : t.hasTime with
        | true => exact addNumber_add_dateTime hinterval hdate htime hr hs hu
        | false =>
          exact addNumber_add_date hinterval hdate htime (hvalid hinterval hdate htime) hr hs hu
      | false =>
        cases htime : t.hasTime with
        | true =>
          rw [addNumber_of_time hinterval hdate htime, Option.some.injEq] at hr hu
          subst hr hu
          rw [addNumber_of_time (by exact hinterval) (by exact hdate) (by exact htime),
            Option.some.injEq] at hs
          rw [← hs, aroundClock_aroundClock]
        | false =>
          rw [addNumber, hinterval, hdate, htime] at hr
          cases hr
  · cases htime : t.hasTime with
    | true => exact compare_of_dateTime hmoment hdate htime hlt hr hs
    | false => exact compare_of_date hmoment hdate htime (hvalid hmoment hdate htime) hlt hr hs
  · exact ⟨_, addNumber_of_time hmoment hdate htime n,
      isSome_time?.2 (isClock_of_seconds (by omega) (by omega)), secondsOfDay_aroundClock t n⟩

/-- A leap day that is moved into the year before and back over it, the last second of a year with a
carry pending, a time that goes around the clock backwards, and an interval whose seconds are
carried into its days. -/
theorem addNumber_add_of_leap_day :
    let d := ofDate 2024 2 29
    let e : Temporal := { ofDateTime 2023 12 31 23 59 59 with carry := 2 }
    let i := ofInterval 1 14 0 (-1) 0 5
    (∃ r s u, d.addNumber (-60) = some r ∧ r.addNumber 61 = some s ∧ d.addNumber (-60 + 61) = some u ∧
      s = u ∧ r.compare u = .lt) ∧
    (∃ r s u, e.addNumber (-1) = some r ∧ r.addNumber 2 = some s ∧ e.addNumber (-1 + 2) = some u ∧
      s = u ∧ r.compare u = .lt) ∧
    (∃ r s u, i.addNumber 90000 = some r ∧ r.addNumber (-3605) = some s ∧
      i.addNumber (90000 + -3605) = some u ∧ s = u) ∧
    ∃ r, (ofTime 0 0 1).addNumber (-172802) = some r ∧ r.secondsOfDay = 86399 := by
  intro d e i
  obtain ⟨hday, hlater, -⟩ := addNumber_add (t := d) fun _ _ _ => ⟨by decide, by decide⟩
  obtain ⟨hsecond, hlater', -⟩ := addNumber_add (t := e) nofun
  obtain ⟨hinterval, -, -⟩ := addNumber_add (t := i) nofun
  obtain ⟨-, -, haround⟩ := addNumber_add (t := ofTime 0 0 1) nofun
  refine ⟨⟨ofDate 2023 12 31, ofDate 2024 3 1, ofDate 2024 3 1, ?_⟩,
    ⟨{ ofDateTime 2023 12 31 23 59 58 with carry := 2 }, { ofDateTime 2024 1 1 0 0 0 with carry := 2 },
      { ofDateTime 2024 1 1 0 0 0 with carry := 2 }, ?_⟩,
    ⟨ofInterval 2 2 1 0 0 5, ofInterval 2 2 0 23 0 0, ofInterval 2 2 0 23 0 0, ?_⟩, ?_⟩
  · have hback : d.addNumber (-60) = some (ofDate 2023 12 31) := by decide +kernel
    have hforth : (ofDate 2023 12 31).addNumber 61 = some (ofDate 2024 3 1) := by decide +kernel
    have hsum : d.addNumber (-60 + 61) = some (ofDate 2024 3 1) := by decide +kernel
    exact ⟨hback, hforth, hsum, hday _ _ _ _ _ hback hforth hsum,
      hlater rfl rfl _ _ _ _ (by decide) hback hsum⟩
  · have hback : e.addNumber (-1) = some { ofDateTime 2023 12 31 23 59 58 with carry := 2 } := by
      decide +kernel
    have hforth : { ofDateTime 2023 12 31 23 59 58 with carry := 2 }.addNumber 2 =
        some { ofDateTime 2024 1 1 0 0 0 with carry := 2 } := by
      decide +kernel
    have hsum : e.addNumber (-1 + 2) = some { ofDateTime 2024 1 1 0 0 0 with carry := 2 } := by
      decide +kernel
    exact ⟨hback, hforth, hsum, hsecond _ _ _ _ _ hback hforth hsum,
      hlater' rfl rfl _ _ _ _ (by decide) hback hsum⟩
  · have hforth : i.addNumber 90000 = some (ofInterval 2 2 1 0 0 5) := by decide
    have hback : (ofInterval 2 2 1 0 0 5).addNumber (-3605) = some (ofInterval 2 2 0 23 0 0) := by decide
    have hsum : i.addNumber (90000 + -3605) = some (ofInterval 2 2 0 23 0 0) := by decide
    exact ⟨hforth, hback, hsum, hinterval _ _ _ _ _ hforth hback hsum⟩
  · obtain ⟨r, hr, -, hseconds⟩ := haround rfl rfl rfl (-172802)
    exact ⟨r, hr, hseconds⟩

end Reporting.Temporal
