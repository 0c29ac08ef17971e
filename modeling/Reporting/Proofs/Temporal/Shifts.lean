import Reporting.Proofs.Temporal.Years
/-!
The two ways of moving a date. A number goes through the day numbers of the calendar and the seconds of the
day, and an interval through the fields and their carries. Both lead to the same day and time.
-/
namespace Reporting.Temporal
open Calendar

variable {t i : Temporal} {n : Int}

/-- The value with nothing pending. -/
def settled (t : Temporal) : Temporal := { t with carry := 0 }

theorem OnCalendar.atSecond (ht : t.OnCalendar) (hlow : 0 ≤ n) (hhigh : n < 86400) :
    (t.atSecond n).OnCalendar where
  date := ht.date
  time _ := isSome_time?.2 (isClock_of_seconds hlow hhigh)

/-! The day -/

/-- Days that are added through the calendar fields: the carry of a month end is given back and cut off again
before. -/
theorem OnCalendar.addCalendar_days (ht : t.OnCalendar) (hmoment : t.interval = false)
    (hcarry : t.carry < 256) (hlast : t.AtMonthEnd) (n : Int) :
    (t.addCalendar 0 0 n).map settled = (t.asDate.addDays? n).map fun d => (t.onDay d).settled := by
  obtain ⟨-, hvalid, hyear⟩ := isSome_date?.1 ht.date
  rw [Temporal.addCalendar_days hmoment (fits_of_isYear hyear) hvalid hcarry hlast]
  split
  · rename_i hzero
    rw [hzero, Date.addDays?, Int.add_zero, hvalid.ofNumber?_number hyear]
    rfl
  · have hroll := roll_eq_addDays? (t := t.settled) hmoment hyear hvalid n
    exact (congrArg (Option.map settled) hroll).trans (Option.map_map ..)

/-! The time -/

/-- The carries of seconds, minutes and hours make the quotients and remainders of the seconds of the day. -/
theorem addClock_eq (hclock : isClock t.hour t.minute t.second = true) (hday : 1 ≤ t.day ∧ t.day ≤ 31)
    (hhour : 0 ≤ i.hour ∧ i.hour < 24) (hminute : 0 ≤ i.minute ∧ i.minute < 60)
    (hsecond : Fits32 (t.second + i.second)) : t.addClock i =
      some (t.atSecond ((t.secondsOfDay + i.secondsOfDay) % 86400),
        (t.secondsOfDay + i.secondsOfDay) / 86400) := by
  simp only [isClock, Bool.and_eq_true, decide_eq_true_eq] at hclock
  have hlow := hsecond.1
  have hhigh := hsecond.2
  have hsum : t.secondsOfDay + i.secondsOfDay =
      3600 * (t.hour + i.hour) + 60 * (t.minute + i.minute) + (t.second + i.second) := by
    simp only [secondsOfDay]
    omega
  have hdays : (t.hour + i.hour + (t.minute + i.minute + (t.second + i.second) / 60) / 60) / 24 =
      (t.secondsOfDay + i.secondsOfDay) / 86400 := by
    omega
  have hhours : (t.hour + i.hour + (t.minute + i.minute + (t.second + i.second) / 60) / 60) % 24 =
      (t.secondsOfDay + i.secondsOfDay) % 86400 / 3600 := by
    omega
  have hminutes : (t.minute + i.minute + (t.second + i.second) / 60) % 60 =
      (t.secondsOfDay + i.secondsOfDay) % 86400 % 3600 / 60 := by
    omega
  have hseconds : (t.second + i.second) % 60 = (t.secondsOfDay + i.secondsOfDay) % 86400 % 60 := by omega
  have hfields : Fits32 (t.hour + i.hour) ∧ Fits32 (t.minute + i.minute) :=
    ⟨⟨by omega, by omega⟩, ⟨by omega, by omega⟩⟩
  have hcarried : Fits32 (t.minute + i.minute + (t.second + i.second) / 60) ∧
      Fits32 (t.hour + i.hour + (t.minute + i.minute + (t.second + i.second) / 60) / 60) :=
    ⟨⟨by omega, by omega⟩, ⟨by omega, by omega⟩⟩
  have hmoved : Fits32 (t.day + (t.secondsOfDay + i.secondsOfDay) / 86400) ∧
      Fits32 ((t.secondsOfDay + i.secondsOfDay) / 86400) :=
    ⟨⟨by omega, by omega⟩, ⟨by omega, by omega⟩⟩
  simp only [addClock, carryTime, Option.bind_eq_bind, Option.bind_some, Option.pure_def,
    checked_of_fits hfields.1, checked_of_fits hfields.2, checked_of_fits hsecond,
    checked_of_fits hcarried.1, checked_of_fits hcarried.2, hdays, hhours, hminutes, hseconds,
    checked_of_fits hmoved.1, add_sub_cancel_left, checked_of_fits hmoved.2]
  rfl

theorem addClock_seconds (hclock : isClock t.hour t.minute t.second = true) (hday : 1 ≤ t.day ∧ t.day ≤ 31)
    (hn : Fits32 (t.second + n)) : t.addClock (ofInterval 0 0 0 0 0 n) =
      some (t.atSecond ((t.secondsOfDay + n) % 86400), (t.secondsOfDay + n) / 86400) := by
  have hseconds : (ofInterval 0 0 0 0 0 n).secondsOfDay = n := Int.zero_add n
  have hhour : (0 : Int) ≤ 0 ∧ (0 : Int) < 24 := by decide
  have hminute : (0 : Int) ≤ 0 ∧ (0 : Int) < 60 := by decide
  rw [addClock_eq hclock hday hhour hminute hn, hseconds]

/-! Both ways -/

/-- Whether a value has a time after an interval is added. -/
def timed (t i : Temporal) : Bool := t.hasTime || i.hour != 0 || i.minute != 0 || i.second != 0

theorem addInterval_untimed (hmoment : t.interval = false) (hdate : t.hasDate = true)
    (htime : t.timed i = false) :
    t.addInterval i = (checked i.day).bind fun days => t.addCalendar i.year i.month days := by
  rw [timed] at htime
  have hnone : t.hasTime = false := by
    simp only [Bool.or_eq_false_iff] at htime
    exact htime.1.1.1
  obtain ⟨year, month, day, hour, minute, second, hasDate, hasTime, interval, carry⟩ := t
  obtain rfl : interval = false := hmoment
  obtain rfl : hasDate = true := hdate
  obtain rfl : hasTime = false := hnone
  simp only [addInterval, htime]
  simp

theorem addInterval_timed (hmoment : t.interval = false) (hdate : t.hasDate = true)
    (htime : t.timed i = true) :
    t.addInterval i = ({ t with hasTime := true }.addClock i).bind fun moved =>
      (checked (i.day + moved.2)).bind fun days => moved.1.addCalendar i.year i.month days := by
  rw [timed] at htime
  obtain ⟨year, month, day, hour, minute, second, hasDate, hasTime, interval, carry⟩ := t
  obtain rfl : interval = false := hmoment
  obtain rfl : hasDate = true := hdate
  simp only [addInterval, htime]
  simp

theorem addInterval_of_date (hmoment : t.interval = false) (hdate : t.hasDate = true)
    (htime : t.hasTime = false) (hn : Fits32 n) :
    t.addInterval (ofInterval 0 0 n 0 0 0) = t.addCalendar 0 0 n := by
  have huntimed : t.timed (ofInterval 0 0 n 0 0 0) = false := by
    rw [timed, htime]
    rfl
  have hdays : checked (ofInterval 0 0 n 0 0 0).day = some n := checked_of_fits hn
  rw [addInterval_untimed hmoment hdate huntimed, hdays]
  rfl

theorem addInterval_of_dateTime (hmoment : t.interval = false) (hdate : t.hasDate = true)
    (htime : t.hasTime = true) : t.addInterval (ofInterval 0 0 0 0 0 n) =
      (t.addClock (ofInterval 0 0 0 0 0 n)).bind fun moved =>
        (checked (0 + moved.2)).bind fun days => moved.1.addCalendar 0 0 days := by
  have htimed : t.timed (ofInterval 0 0 0 0 0 n) = true := by
    rw [timed, htime]
    rfl
  rw [addInterval_timed hmoment hdate htimed, ← htime]
  rfl

/-- A number of days and an interval of days lead a date to the same date, and a number of seconds and an
interval of seconds lead a date with a time to the same date and time. Both are refused where the other is.
A carry that is pending at the end of a month makes no difference but to what is pending afterwards. -/
theorem addNumber_agrees_addInterval (ht : t.OnCalendar) (hmoment : t.interval = false)
    (hcarry : t.carry < 256) (hlast : t.AtMonthEnd) :
    (t.hasTime = false → ∀ n, Fits32 n →
      (t.addNumber n).map settled = (t.addInterval (ofInterval 0 0 n 0 0 0)).map settled) ∧
    (t.hasTime = true → ∀ n, Fits32 (t.second + n) →
      (t.addNumber n).map settled = (t.addInterval (ofInterval 0 0 0 0 0 n)).map settled) := by
  obtain ⟨hdate, hvalid, hyear⟩ := isSome_date?.1 ht.date
  have hday : 1 ≤ t.day ∧ t.day ≤ 31 :=
    ⟨hvalid.day.1, hvalid.day.2.trans (daysInMonth_bounds t.year t.month).2⟩
  refine ⟨fun htime n hn => ?_, fun htime n hn => ?_⟩
  · rw [ht.addNumber_days hmoment htime, addInterval_of_date hmoment hdate htime hn,
      ht.addCalendar_days hmoment hcarry hlast, Option.map_map]
    rfl
  · have hclock := isSome_time?.1 (ht.time htime)
    have hdays : checked (0 + (t.secondsOfDay + n) / 86400) = some ((t.secondsOfDay + n) / 86400) := by
      simp only [isClock, Bool.and_eq_true, decide_eq_true_eq] at hclock
      obtain ⟨hlow, hhigh⟩ := hn
      rw [Int.zero_add, secondsOfDay]
      exact checked_of_fits ⟨by omega, by omega⟩
    have hmoved : (t.atSecond ((t.secondsOfDay + n) % 86400)).OnCalendar :=
      ht.atSecond (by omega) (by omega)
    rw [ht.addNumber_seconds hmoment htime, addInterval_of_dateTime hmoment hdate htime,
      addClock_seconds hclock hday hn, Option.bind_some, hdays, Option.bind_some,
      hmoved.addCalendar_days hmoment hcarry hlast, Option.map_map]
    rfl

/-- A leap day with two days pending, moved to the last day of the year before, and the last second of the
calendar, moved over its end. -/
theorem addNumber_agrees_addInterval_of_bounds :
    let t : Temporal := { ofDate 2024 2 29 with carry := 2 }
    let u := ofDateTime 262142 12 31 23 59 59
    t.OnCalendar ∧ u.OnCalendar ∧
      (t.addNumber (-60)).map settled = (t.addInterval (ofInterval 0 0 (-60) 0 0 0)).map settled ∧
      (t.addNumber (-60)).map asDate = some ⟨2023, 12, 31⟩ ∧
      (u.addNumber 1).map settled = (u.addInterval (ofInterval 0 0 0 0 0 1)).map settled ∧
      u.addNumber 1 = none ∧
      (u.addNumber (-86400)).map settled = (u.addInterval (ofInterval 0 0 0 0 0 (-86400))).map settled := by
  intro t u
  have ht : t.OnCalendar := ⟨by decide, nofun⟩
  have hu : u.OnCalendar := ⟨by decide, fun _ => by decide⟩
  have hlast : t.AtMonthEnd := fun _ => by decide
  have hdays := (addNumber_agrees_addInterval ht rfl (by decide) hlast).1 rfl
  have hseconds := (addNumber_agrees_addInterval hu rfl (by decide) fun h => absurd rfl h).2 rfl
  exact ⟨ht, hu, hdays (-60) (by decide), by decide +kernel, hseconds 1 (by decide), by decide +kernel,
    hseconds (-86400) (by decide)⟩

end Reporting.Temporal
