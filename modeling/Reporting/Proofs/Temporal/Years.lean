import Reporting.Proofs.Temporal.Parsed
/-!
Dates and the years of the calendar. A date that is moved by days stays in the calendar or is refused.
It is only by the years and months that are added to it, and by a year that is read, that a date leaves
the calendar.
-/
namespace Reporting
open Calendar

/-- A year in which dates exist. -/
def Calendar.IsYear (year : Int) : Prop := firstYear ≤ year ∧ year ≤ lastYear
  deriving Decidable

namespace Temporal

variable {t i r : Temporal} {year years months n : Int}

/-- A date of the calendar, with a time of the clock if it has a time. -/
structure OnCalendar (t : Temporal) : Prop where
  date : t.date?.isSome = true
  time : t.hasTime = true → t.time?.isSome = true

/-- A day that its month has, with a time of the clock if it has a time. It is a date of the calendar
just when `year` is a year of the calendar. -/
structure Lands (year : Int) (t : Temporal) : Prop where
  day : t.asDate.Valid
  time : t.hasTime = true → t.time?.isSome = true
  date : t.date?.isSome = true ↔ IsYear year

/-- The year of a date after years and months are added. -/
def yearAfter (t : Temporal) (years months : Int) : Int := t.year + years + (t.month + months - 1) / 12

/-- The value at a second of its day. -/
def atSecond (t : Temporal) (n : Int) : Temporal :=
  { t with hour := n / 3600, minute := n % 3600 / 60, second := n % 60 }

/-- The days by which a number moves a date: with a time, it counts seconds. -/
def daysOf (t : Temporal) (n : Int) : Int := if t.hasTime then (t.secondsOfDay + n) / 86400 else n

theorem isSome_date? : t.date?.isSome = true ↔ t.hasDate = true ∧ t.asDate.Valid ∧ IsYear t.year := by
  constructor
  · intro h
    obtain ⟨d, h⟩ := Option.isSome_iff_exists.1 h
    simp only [date?, Date.ofParts?, Option.ite_none_right_eq_some] at h
    obtain ⟨hdate, ⟨hfirst, hlast, hmonth, hmonth', hday⟩, -⟩ := h
    exact ⟨hdate, ⟨⟨hmonth, hmonth'⟩, hday⟩, hfirst, hlast⟩
  · rintro ⟨hdate, hvalid, hyear⟩
    rw [date?, if_pos hdate, Date.ofParts?,
      if_pos ⟨hyear.1, hyear.2, hvalid.month.1, hvalid.month.2, hvalid.day⟩]
    rfl

theorem isSome_time? : t.time?.isSome = true ↔ isClock t.hour t.minute t.second = true := by
  unfold time?
  split <;> simp [*]

theorem lands_of_valid (hdate : t.hasDate = true) (hvalid : t.asDate.Valid)
    (htime : t.hasTime = true → isClock t.hour t.minute t.second = true)
    (hyear : IsYear t.year ↔ IsYear year) : t.Lands year where
  day := hvalid
  time := fun h => isSome_time?.2 (htime h)
  date := by
    rw [isSome_date?, ← hyear]
    exact ⟨fun h => h.2.2, fun h => ⟨hdate, hvalid, h⟩⟩

theorem fits_of_isYear (h : IsYear year) : Fits32 year := by
  rw [IsYear, firstYear, lastYear] at h
  exact ⟨by omega, by omega⟩

/-! Bringing months and days into their ranges -/

/-- A day that rolls stays in the calendar, and one that does not roll stays in its year. -/
theorem rollDay_isYear (h : t.rollDay = some r) : IsYear r.year ↔ IsYear t.year := by
  by_cases hday : 1 ≤ t.day ∧ t.day ≤ daysInMonth t.year t.month
  · rw [rollDay, if_pos hday, Option.pure_def, Option.some.injEq] at h
    rw [h]
  · rw [rollDay, if_neg hday] at h
    simp only [Option.bind_eq_bind, Option.bind_eq_some_iff, Option.pure_def, Option.some.injEq] at h
    obtain ⟨first, hfirst, d, hd, rfl⟩ := h
    obtain ⟨-, hyear, -⟩ := Date.ofNumber?_eq_some hd
    rw [Date.ofParts?, Option.ite_none_right_eq_some] at hfirst
    obtain ⟨⟨hlow, hhigh, -⟩, -⟩ := hfirst
    exact iff_of_true hyear ⟨hlow, hhigh⟩

theorem normalize_isYear (hmoment : t.interval = false) (h : t.normalize = some r) :
    IsYear r.year ↔ IsYear (t.yearAfter 0 0) := by
  obtain ⟨s, hs, h⟩ := Option.bind_eq_some_iff.1 h
  obtain ⟨year, month, hyear, -, -, rfl⟩ := carryMonths_eq_some hmoment hs
  rw [if_neg (by rw [hmoment]; exact Bool.false_ne_true)] at h
  rw [rollDay_isYear h, hyear, yearAfter, Int.add_zero, Int.add_zero]

theorem normalizeCut_isYear (hmoment : t.interval = false) (h : t.normalizeCut = some r) :
    IsYear r.year ↔ IsYear (t.yearAfter 0 0) := by
  obtain ⟨s, hs, h⟩ := Option.bind_eq_some_iff.1 h
  obtain ⟨year, month, hyear, -, -, rfl⟩ := carryMonths_eq_some hmoment hs
  rw [if_neg (by rw [hmoment]; exact Bool.false_ne_true)] at h
  obtain ⟨day, carry, -, -, hcut⟩ := cutDay_eq { t with year, month }
  rw [hcut] at h
  rw [rollDay_isYear h, hyear, yearAfter, Int.add_zero, Int.add_zero]

theorem yearAfter_zero (hmonth : 1 ≤ t.month ∧ t.month ≤ 12) : t.yearAfter 0 0 = t.year := by
  rw [yearAfter]
  omega

/-- The days that are added after years and months do not lead back into the calendar. -/
theorem addCalendar_isYear {days : Int} (hmoment : t.interval = false)
    (h : t.addCalendar years months days = some r) : IsYear r.year ↔ IsYear (t.yearAfter years months) := by
  simp only [addCalendar, Option.bind_eq_bind, Option.bind_eq_some_iff, checked_eq_some] at h
  obtain ⟨_, ⟨-, rfl⟩, _, ⟨-, rfl⟩, s, hs, h⟩ := h
  have hcut : IsYear s.year ↔ IsYear (t.yearAfter years months) := by
    rw [normalizeCut_isYear (by exact hmoment) hs]
    simp only [yearAfter, Int.add_zero]
  split at h
  · rw [← Option.some.inj h]
    exact hcut
  · obtain ⟨day, -, h⟩ := Option.bind_eq_some_iff.1 h
    obtain ⟨hmonth, hmoment⟩ : (1 ≤ s.month ∧ s.month ≤ 12) ∧ s.interval = false := by
      obtain ⟨d, carry, -, hvalid, -, -, rfl⟩ := normalizeCut_spec (by exact hmoment) hs
      exact ⟨hvalid.month, hmoment⟩
    have hsame : { s with day, carry := 0 }.yearAfter 0 0 = s.year := yearAfter_zero hmonth
    rw [normalize_isYear (by exact hmoment) h, hsame, hcut]

/-- A day field that is moved rolls to the date that many days away. Where the field overflows, that date is
out of the calendar. -/
theorem roll_eq_addDays? (hmoment : t.interval = false) (hyear : IsYear t.year) (hvalid : t.asDate.Valid)
    (n : Int) : ((checked (t.day + n)).bind fun day => { t with day }.normalize) =
      (t.asDate.addDays? n).map t.onDay := by
  have hnumber : (asDate { t with day := t.day + n }).number = t.asDate.number + n := by
    rw [Date.number_eq, t.asDate.number_eq]
    simp only [asDate]
    omega
  cases hday : checked (t.day + n) with
  | some day =>
    obtain ⟨-, rfl⟩ := checked_eq_some.1 hday
    have hnormalize := normalize_eq_rollDay (t := { t with day := t.day + n }) hmoment
      (fits_of_isYear hyear) hvalid.month
    have hroll := rollDay_eq_map (t := { t with day := t.day + n }) hyear hvalid.month
    rw [hnumber] at hroll
    exact hnormalize.trans hroll
  | none =>
    cases hmoved : t.asDate.addDays? n with
    | none => rfl
    | some d =>
      have hsmall := hvalid.addDays?_bounds hyear hmoved
      have hbounds := daysInMonth_bounds t.year t.month
      have hrange : 1 ≤ t.day ∧ t.day ≤ daysInMonth t.year t.month := hvalid.day
      rw [checked_of_fits ⟨by omega, by omega⟩] at hday
      cases hday

/-! Numbers -/

/-- A number never leads out of the calendar. -/
theorem onCalendar_of_addNumber (hmoment : t.interval = false) (ht : t.date?.isSome = true)
    (h : t.addNumber n = some r) : r.OnCalendar := by
  obtain ⟨hdate, hvalid, hyear⟩ := isSome_date?.1 ht
  cases htime : t.hasTime with
  | true =>
    rw [addNumber_of_dateTime hmoment hdate htime] at h
    obtain ⟨_, d, -, hd, rfl⟩ := addSeconds_eq_some h
    obtain ⟨hvalid, hyear, -⟩ := Date.ofNumber?_eq_some hd
    exact ⟨isSome_date?.2 ⟨rfl, hvalid, hyear⟩,
      fun _ => isSome_time?.2 (isClock_of_seconds (by omega) (by omega))⟩
  | false =>
    rw [addNumber_of_date hmoment hdate htime] at h
    obtain ⟨day, -, h⟩ := Option.bind_eq_some_iff.1 h
    have hsame : { t with day }.yearAfter 0 0 = t.year := yearAfter_zero hvalid.month
    have hmoved := normalize_isYear (by exact hmoment) h
    rw [hsame] at hmoved
    obtain ⟨d, -, hvalid, rfl⟩ := normalize_eq_some (by exact hmoment) h
    exact ⟨isSome_date?.2 ⟨hdate, hvalid, hmoved.2 hyear⟩,
      fun h => absurd (htime.symm.trans h) Bool.false_ne_true⟩

theorem OnCalendar.addNumber_days (ht : t.OnCalendar) (hmoment : t.interval = false)
    (htime : t.hasTime = false) (n : Int) : t.addNumber n = (t.asDate.addDays? n).map t.onDay := by
  obtain ⟨hdate, hvalid, hyear⟩ := isSome_date?.1 ht.date
  rw [addNumber_of_date hmoment hdate htime, roll_eq_addDays? hmoment hyear hvalid]

theorem OnCalendar.addNumber_seconds (ht : t.OnCalendar) (hmoment : t.interval = false)
    (htime : t.hasTime = true) (n : Int) : t.addNumber n =
      (t.asDate.addDays? ((t.secondsOfDay + n) / 86400)).map
        (t.atSecond ((t.secondsOfDay + n) % 86400)).onDay := by
  obtain ⟨hdate, -, -⟩ := isSome_date?.1 ht.date
  obtain ⟨date, hparts⟩ := Option.isSome_iff_exists.1 ht.date
  obtain ⟨clock, hclock⟩ := Option.isSome_iff_exists.1 (ht.time htime)
  obtain rfl : t.asDate = date := by
    rw [date?, if_pos hdate, Date.ofParts?, Option.ite_none_right_eq_some] at hparts
    exact Option.some.inj hparts.2
  rw [addNumber_of_dateTime hmoment hdate htime, addSeconds, hparts, hclock]
  obtain ⟨year, month, day, hour, minute, second, hasDate, hasTime, interval, carry⟩ := t
  obtain rfl : interval = false := hmoment
  obtain rfl : hasDate = true := hdate
  obtain rfl : hasTime = true := htime
  exact Option.map_eq_bind.symm

/-- A number moves a date by days, and is refused just when that leads out of the calendar. -/
theorem OnCalendar.map_asDate_addNumber (ht : t.OnCalendar) (hmoment : t.interval = false) (n : Int) :
    (t.addNumber n).map asDate = t.asDate.addDays? (t.daysOf n) := by
  cases htime : t.hasTime with
  | true =>
    rw [ht.addNumber_seconds hmoment htime, daysOf, if_pos htime, Option.map_map]
    exact Option.map_id'
  | false =>
    rw [ht.addNumber_days hmoment htime, daysOf, if_neg (by rw [htime]; exact Bool.false_ne_true),
      Option.map_map]
    exact Option.map_id'

/-! Intervals -/

/-- An interval leads a date to a day that its month has, and out of the calendar if its years and months
do. -/
theorem lands_addInterval (hmoment : t.interval = false) (hdate : t.hasDate = true)
    (h : t.addInterval i = some r) : r.Lands (t.yearAfter i.year i.month) := by
  obtain ⟨hasDate, hasTime, hour, minute, second, days, hdated, hparts, h⟩ :=
    addInterval_eq_some hmoment h
  rw [hdate, Bool.true_or, Bool.true_or, Bool.true_or] at hdated
  obtain rfl := hdated
  have hyear := addCalendar_isYear (by exact hmoment) h
  obtain ⟨d, carry, -, hvalid, -, -, rfl⟩ := addCalendar_eq_some (by exact hmoment) h
  refine lands_of_valid rfl hvalid (fun htime => ?_) hyear
  obtain hclock | ⟨hnone, -⟩ := hparts
  · exact hclock
  · cases hnone.symm.trans htime

/-- What is taken away from a date and leaves a date is an interval. -/
theorem lands_sub (hmoment : t.interval = false) (hdate : t.hasDate = true) (h : t.sub i = some r)
    (hdated : r.hasDate = true) : r.Lands (t.yearAfter (-i.year) (-i.month)) := by
  rw [sub] at h
  split at h
  · obtain ⟨j, hj, h⟩ := Option.bind_eq_some_iff.1 h
    obtain rfl := negated_eq hj
    exact lands_addInterval hmoment hdate h
  · rw [if_neg (by rw [hmoment]; exact Bool.false_ne_true)] at h
    simp only [Option.bind_eq_bind, Option.bind_eq_some_iff] at h
    obtain ⟨_, -, _, -, _, -, _, -, _, -, _, -, moved, hmoved, h⟩ := h
    obtain ⟨day, hour, minute, second, rfl⟩ := carryTime_of_some hmoved
    obtain ⟨year, month, rfl⟩ := normalize_of_interval rfl h
    cases hdated

/-- What is read as a date has a day that its month has. A date of the calendar stays one when a number
moves it, which is refused just when the day is in no year of the calendar. An interval leads to a date of
the calendar just when its years and months lead to a year of it. -/
theorem on_calendar_of_years (t : Temporal) :
    (∀ s order, dateTime? s order = some t → t.hasDate = true → t.Lands t.year) ∧
      (t.interval = false → t.date?.isSome = true →
        (∀ n r, t.addNumber n = some r → r.OnCalendar) ∧
        (t.OnCalendar → ∀ n, (t.addNumber n).map asDate = t.asDate.addDays? (t.daysOf n)) ∧
        (∀ i r, t.addInterval i = some r → r.Lands (t.yearAfter i.year i.month)) ∧
        ∀ i r, t.sub i = some r → r.hasDate = true → r.Lands (t.yearAfter (-i.year) (-i.month))) := by
  refine ⟨fun s order h hdate => ?_, fun hmoment ht => ?_⟩
  · have hsound := (dateTime?_fresh h).sound
    exact lands_of_valid hdate (hsound.date hdate) (fun _ => hsound.clock) Iff.rfl
  · have hdate := (isSome_date?.1 ht).1
    exact ⟨fun n r => onCalendar_of_addNumber hmoment ht,
      fun hcalendar n => hcalendar.map_asDate_addNumber hmoment n,
      fun i r => lands_addInterval hmoment hdate, fun i r => lands_sub hmoment hdate⟩

/-- The leap day, moved a day on by seconds, to the next year by an interval, and two months back. -/
theorem on_calendar_of_years_of_leap_day :
    let t := ofDateTime 2024 2 29 10 30 0
    dateTime? "2024-02-29 10:30:00".toList .dayFirst = some t ∧ t.date?.isSome = true ∧
      (t.addNumber 86400).map asDate = some ⟨2024, 3, 1⟩ ∧
      (∃ r, t.addNumber 86400 = some r ∧ r.OnCalendar) ∧
      (∃ r, t.addInterval (ofInterval 0 10 5 20 0 0) = some r ∧ r.asDate = ⟨2025, 1, 4⟩ ∧
        r.date?.isSome = true ∧ r.time?.isSome = true) ∧
      ∃ r, t.sub (ofInterval 0 2 0 0 0 0) = some r ∧ r.asDate = ⟨2023, 12, 29⟩ ∧ r.date?.isSome = true := by
  intro t
  obtain ⟨hread, hmoved⟩ := on_calendar_of_years t
  have ht : dateTime? "2024-02-29 10:30:00".toList .dayFirst = some t := by decide +kernel
  have hlands : t.Lands 2024 := hread _ _ ht rfl
  have hdate : t.date?.isSome = true := hlands.date.2 (by decide)
  obtain ⟨hnumber, hdays, hinterval, hsub⟩ := hmoved rfl hdate
  have hnext := hinterval (ofInterval 0 10 5 20 0 0) (ofDateTime 2025 1 4 6 30 0) (by decide)
  have hback := hsub (ofInterval 0 2 0 0 0 0) (ofDateTime 2023 12 29 10 30 0) (by decide) rfl
  refine ⟨ht, hdate, ?_, ⟨_, by decide, hnumber 86400 (ofDateTime 2024 3 1 10 30 0) (by decide)⟩,
    ⟨_, by decide, rfl, hnext.date.2 (by decide), hnext.time rfl⟩,
    ⟨_, by decide, rfl, hback.date.2 (by decide)⟩⟩
  rw [hdays ⟨hdate, hlands.time⟩]
  decide

/-- An interval of years leads out of the calendar, whether it is added or taken away, where as many days are
refused. A year of six digits that is read may be outside as well. -/
theorem off_calendar_of_years :
    (ofDate 2020 1 1).date?.isSome = true ∧
      (ofDate 2020 1 1).addInterval (ofInterval 300000 0 0 0 0 0) = some (ofDate 302020 1 1) ∧
      (ofDate 2020 1 1).sub (ofInterval (-300000) 0 0 0 0 0) = some (ofDate 302020 1 1) ∧
      (ofDate 302020 1 1).date? = none ∧
      (ofDate 2020 1 1).addInterval (ofInterval 0 0 109572750 0 0 0) = none ∧
      (ofDate 2020 1 1).addNumber 109572750 = none ∧
      dateTime? "999999-01-01".toList .dayFirst = some (ofDate 999999 1 1) ∧
      (ofDate 999999 1 1).date? = none := by
  decide +kernel

end Temporal
end Reporting
