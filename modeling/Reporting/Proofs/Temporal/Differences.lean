import Reporting.Proofs.Temporal.Intervals
import Reporting.Proofs.Temporal.Shifts
/-!
The interval between two dates. It has the months between their months and the seconds between their days and
times, so that its days may be negative. Added to the date that was taken away it leads back to the other one,
as long as no day has to be cut on the way.
-/
namespace Reporting.Temporal
open Calendar

variable {a b t : Temporal} {d : Date} {years months : Int}

/-- A date of the calendar, with a time or without one, whose time fields are those of a clock. -/
structure Placed (t : Temporal) : Prop where
  moment : t.interval = false
  date : t.date?.isSome = true
  time : t.time?.isSome = true

/-- The interval between two dates. -/
def since (a b : Temporal) : Temporal :=
  (ofInterval 0 0 0 0 0 0).spread (a.length - b.length) (a.duration - b.duration)

theorem Placed.year (ht : t.Placed) : -262143 ≤ t.year ∧ t.year ≤ 262142 := (isSome_date?.1 ht.date).2.2

theorem Placed.month (ht : t.Placed) : 1 ≤ t.month ∧ t.month ≤ 12 := (isSome_date?.1 ht.date).2.1.month

theorem Placed.day (ht : t.Placed) : 1 ≤ t.day ∧ t.day ≤ 31 := by
  obtain ⟨-, hvalid, -⟩ := isSome_date?.1 ht.date
  exact ⟨hvalid.day.1, hvalid.day.2.trans (daysInMonth_bounds t.year t.month).2⟩

theorem Placed.clock (ht : t.Placed) :
    (0 ≤ t.hour ∧ t.hour < 24) ∧ (0 ≤ t.minute ∧ t.minute < 60) ∧ (0 ≤ t.second ∧ t.second < 60) := by
  have hclock := isSome_time?.1 ht.time
  simp only [isClock, Bool.and_eq_true, decide_eq_true_eq] at hclock
  omega

theorem duration_sub (a b : Temporal) :
    a.duration - b.duration = 86400 * (a.day - b.day) + (a.secondsOfDay - b.secondsOfDay) := by
  simp only [duration, secondsOfDay]
  omega

theorem Placed.secondsOfDay (ht : t.Placed) : 0 ≤ t.secondsOfDay ∧ t.secondsOfDay < 86400 :=
  secondsOfDay_bounds (isSome_time?.1 ht.time)

theorem Placed.atSecond (ht : t.Placed) : t.atSecond t.secondsOfDay = t := by
  have hclock := ht.clock
  obtain ⟨year, month, day, hour, minute, second, hasDate, hasTime, interval, carry⟩ := t
  simp only [Temporal.atSecond, Temporal.secondsOfDay, mk.injEq, and_true, true_and] at hclock ⊢
  omega

/-- The difference field by field, before anything is carried. -/
def minus (a b : Temporal) : Temporal :=
  ofInterval (a.year - b.year) (a.month - b.month) (a.day - b.day) (a.hour - b.hour) (a.minute - b.minute)
    (a.second - b.second)

theorem length_minus (a b : Temporal) : (a.minus b).length = a.length - b.length := by
  simp only [length, minus, ofInterval]
  omega

theorem duration_minus (a b : Temporal) : (a.minus b).duration = a.duration - b.duration := by
  simp only [duration, minus, ofInterval]
  omega

theorem Placed.fits_minus (ha : a.Placed) (hb : b.Placed) : (a.minus b).Roomy ∧ (a.minus b).CarriesFit := by
  have hyears := And.intro ha.year hb.year
  have hmonths := And.intro ha.month hb.month
  have hdays := And.intro ha.day hb.day
  have hclocks := And.intro ha.clock hb.clock
  simp only [roomy_iff, carriesFit_iff, length, duration, minus, ofInterval, Fits32]
  omega

/-- The difference of two dates is never refused. -/
theorem Placed.sub_eq (ha : a.Placed) (hb : b.Placed) : a.sub b = some (a.since b) := by
  obtain ⟨hfields, hcarries⟩ := ha.fits_minus hb
  simp only [roomy_iff, minus, ofInterval] at hfields
  obtain ⟨hyear, hmonth, hday, hhour, hminute, hsecond⟩ := hfields
  have hcarried := (carry_eq_some_iff (t := a.minus b) rfl).2 ⟨hcarries, rfl⟩
  rw [length_minus, duration_minus] at hcarried
  rw [sub, if_neg (by rw [hb.moment]; exact Bool.false_ne_true),
    if_neg (by rw [ha.moment]; exact Bool.false_ne_true), checked_of_fits hyear, checked_of_fits hmonth,
    checked_of_fits hday, checked_of_fits hhour, checked_of_fits hminute, checked_of_fits hsecond]
  exact hcarried

/-! Adding it back -/

theorem normalizeCut_eq {year month : Int} (hmoment : t.interval = false) (hfits : Fits32 (t.month - 1))
    (hyear : Fits32 year) (hvalid : Date.Valid ⟨year, month, t.day⟩) (hlength : t.length = 12 * year + month) :
    t.normalizeCut = some { t with year, month, carry := 0 } := by
  have hmonths := carryMonths_eq hmoment hfits hyear hvalid.month hlength
  have hcut : { t with year, month }.cutDay = { t with year, month, carry := 0 } :=
    if_neg (Int.not_lt.2 hvalid.day.2)
  rw [normalizeCut, hmonths]
  simp only [Option.bind_eq_bind, Option.bind_some]
  rw [hcut, if_neg (by rw [hmoment]; exact Bool.false_ne_true)]
  exact rollDay_of_valid hvalid

/-- A date is reached by the months up to its month and the days from one day of a month to another one, if
its month has the first of these days. -/
theorem addCalendar_to (hmoment : t.interval = false) (hcarry : t.carry = 0) (hfirst : 1 ≤ t.day)
    (hlast : t.day ≤ daysInMonth d.year d.month) (hvalid : d.Valid) (hyear : Fits32 d.year)
    (hyears : Fits32 (t.year + years)) (hmonths : Fits32 (t.month + months))
    (hmonths' : Fits32 (t.month + months - 1))
    (hlength : 12 * (t.year + years) + (t.month + months) = 12 * d.year + d.month) :
    t.addCalendar years months (d.day - t.day) = some { t.onDay d with carry := 0 } := by
  have hrange := hvalid.day
  have hbounds := daysInMonth_bounds d.year d.month
  have hday : wrap (t.day + t.carry) = t.day := by
    rw [hcarry, Nat.cast_zero, Int.add_zero]
    exact wrap_of_small (by omega) (by omega)
  have hcut := normalizeCut_eq
    (t := { t with year := t.year + years, month := t.month + months, day := t.day }) hmoment hmonths' hyear
    ⟨hvalid.month, hfirst, hlast⟩ hlength
  rw [addCalendar, checked_of_fits hyears, checked_of_fits hmonths]
  simp only [Option.bind_eq_bind, Option.bind_some]
  rw [hday, hcut]
  simp only [Option.bind_some]
  split
  · rename_i hzero
    have hsame : d.day = t.day := by omega
    rw [onDay, hsame]
    rfl
  · have hback : t.day + (d.day - t.day) = d.day := by omega
    have hnormal := normalize_eq_rollDay (t := { t.onDay d with carry := 0 }) hmoment hyear hvalid.month
    rw [hback, checked_of_fits ⟨by omega, by omega⟩]
    exact hnormal.trans (rollDay_of_valid hvalid)

/-- The time of the interval leads from one clock to the other, and together with its days over all the days
between. -/
theorem Placed.addClock_since (ha : a.Placed) (hb : b.Placed) :
    b.addClock (a.since b) = some (b.atSecond a.secondsOfDay, a.day - b.day - (a.since b).day) := by
  have hseconds := And.intro ha.secondsOfDay hb.secondsOfDay
  have htotal := duration_sub a b
  have hpart : (a.since b).secondsOfDay = (a.duration - b.duration) % 86400 := by
    simp only [Temporal.secondsOfDay, since, spread]
    omega
  have hclock : (0 ≤ (a.since b).hour ∧ (a.since b).hour < 24) ∧
      (0 ≤ (a.since b).minute ∧ (a.since b).minute < 60) ∧
      (0 ≤ (a.since b).second ∧ (a.since b).second < 60) := by
    simp only [since, spread]
    omega
  have hsecond : (b.secondsOfDay + (a.since b).secondsOfDay) % 86400 = a.secondsOfDay := by omega
  have hdays : (b.secondsOfDay + (a.since b).secondsOfDay) / 86400 = a.day - b.day - (a.since b).day := by
    change _ = a.day - b.day - (a.duration - b.duration) / 86400
    omega
  have hfits : Fits32 (b.second + (a.since b).second) := by
    have hstart := hb.clock
    exact ⟨by omega, by omega⟩
  rw [addClock_eq (isSome_time?.1 hb.time) hb.day hclock.1 hclock.2.1 hfits, hsecond, hdays]

/-- The interval has a time just when the times are not the same. -/
theorem Placed.timed_since (ha : a.Placed) (hb : b.Placed) :
    b.timed (a.since b) = (b.hasTime || a.secondsOfDay != b.secondsOfDay) := by
  have hseconds := And.intro ha.secondsOfDay hb.secondsOfDay
  have htotal := duration_sub a b
  have hparts : ((a.since b).hour != 0 || (a.since b).minute != 0 || (a.since b).second != 0) =
      (a.secondsOfDay != b.secondsOfDay) := by
    rw [Bool.eq_iff_iff]
    simp only [Bool.or_eq_true, bne_iff_ne, since, spread]
    omega
  rw [timed, ← hparts, Bool.or_assoc, Bool.or_assoc, Bool.or_assoc]

theorem Placed.addCalendar_since (ha : a.Placed) (hb : b.Placed) (ht : t.interval = false)
    (hsame : t.asDate = b.asDate) (hcarry : t.carry = 0) (hday : b.day ≤ daysInMonth a.year a.month) :
    t.addCalendar (a.since b).year (a.since b).month (a.day - b.day) =
      some { t.onDay a.asDate with carry := 0 } := by
  obtain ⟨-, hvalid, hyear⟩ := isSome_date?.1 ha.date
  obtain ⟨hy, hm, hd⟩ : t.year = b.year ∧ t.month = b.month ∧ t.day = b.day := Date.mk.inj hsame
  have hyears := And.intro ha.year hb.year
  have hmonths := And.intro ha.month hb.month
  have hlength : 12 * (a.since b).year + (a.since b).month = a.length - b.length :=
    length_spread (ofInterval 0 0 0 0 0 0) _ _
  have hmonth : 0 ≤ (a.since b).month ∧ (a.since b).month < 12 := by
    simp only [since, spread]
    omega
  rw [length, length] at hlength
  have hto : 12 * (t.year + (a.since b).year) + (t.month + (a.since b).month) = 12 * a.year + a.month := by
    omega
  rw [← hd] at hday ⊢
  exact addCalendar_to (d := a.asDate) ht hcarry (hd ▸ hb.day.1) hday hvalid (fits_of_isYear hyear)
    ⟨by omega, by omega⟩ ⟨by omega, by omega⟩ ⟨by omega, by omega⟩ hto

theorem Placed.reached (ha : a.Placed) (hb : b.Placed) :
    { (b.atSecond a.secondsOfDay).onDay a.asDate with carry := 0 } =
      { a with hasTime := b.hasTime, carry := 0 } := by
  have hmoment := ha.moment.trans hb.moment.symm
  have hdate := (isSome_date?.1 ha.date).1.trans (isSome_date?.1 hb.date).1.symm
  calc { (b.atSecond a.secondsOfDay).onDay a.asDate with carry := 0 }
      = { a.atSecond a.secondsOfDay with hasTime := b.hasTime, carry := 0 } := by
        simp only [Temporal.atSecond, onDay, asDate, hmoment, hdate]
    _ = { a with hasTime := b.hasTime, carry := 0 } := by rw [ha.atSecond]

/-- The difference of two dates is an interval that leads from the second to the first one, if no day has to
be cut on the way. -/
theorem sub_addInterval (ha : a.Placed) (hb : b.Placed) (hcarry : b.carry = 0)
    (hday : b.day ≤ daysInMonth a.year a.month) : ∃ i, a.sub b = some i ∧ i.interval = true ∧
      b.addInterval i = some { a with
        hasTime := b.hasTime || a.secondsOfDay != b.secondsOfDay
        carry := 0 } := by
  have hdate := (isSome_date?.1 hb.date).1
  have hseconds := And.intro ha.secondsOfDay hb.secondsOfDay
  have hranges := And.intro ha.day hb.day
  have htotal := duration_sub a b
  have hdays : checked (a.day - b.day) = some (a.day - b.day) := checked_of_fits ⟨by omega, by omega⟩
  have htime := ha.timed_since hb
  refine ⟨_, ha.sub_eq hb, rfl, ?_⟩
  rw [← htime]
  -- a date without a time is only moved by days when the interval has no time either
  cases htimed : b.timed (a.since b) with
  | true =>
    have hmoved : Placed { b with hasTime := true } := ⟨hb.moment, hb.date, hb.time⟩
    have hclock : addClock { b with hasTime := true } (a.since b) = some
        ({ b with hasTime := true }.atSecond a.secondsOfDay, a.day - b.day - (a.since b).day) :=
      ha.addClock_since hmoved
    have hall : (a.since b).day + (a.day - b.day - (a.since b).day) = a.day - b.day := by omega
    rw [addInterval_timed hb.moment hdate htimed, hclock, Option.bind_some]
    dsimp only
    rw [hall, hdays, ← ha.reached hmoved]
    exact ha.addCalendar_since hb hb.moment rfl hcarry hday
  | false =>
    rw [htimed, Bool.false_eq, Bool.or_eq_false_iff] at htime
    have hsame : a.secondsOfDay = b.secondsOfDay := by simpa using htime.2
    have hall : (a.since b).day = a.day - b.day := by
      change (a.duration - b.duration) / 86400 = a.day - b.day
      omega
    rw [addInterval_untimed hb.moment hdate htimed, hall, hdays, ← htime.1, ← ha.reached hb, hsame,
      hb.atSecond]
    exact ha.addCalendar_since hb hb.moment rfl hcarry hday

/-- Two times of day over the end of February, where the days of the interval are negative, and two dates over
the end of a year. -/
theorem sub_addInterval_of_borrow :
    let a := ofDateTime 2023 3 1 10 0 0
    let b := ofDateTime 2023 1 15 12 30 0
    let c := ofDate 2024 2 29
    let d := ofDate 2022 12 24
    a.Placed ∧ b.Placed ∧
      (∃ i, a.sub b = some i ∧ i = ofInterval 0 2 (-15) 21 30 0 ∧ b.addInterval i = some a) ∧
      c.Placed ∧ d.Placed ∧ ∃ i, c.sub d = some i ∧ d.addInterval i = some c := by
  intro a b c d
  have ha : a.Placed := ⟨rfl, by decide, by decide⟩
  have hb : b.Placed := ⟨rfl, by decide, by decide⟩
  have hc : c.Placed := ⟨rfl, by decide, by decide⟩
  have hd : d.Placed := ⟨rfl, by decide, by decide⟩
  obtain ⟨i, hi, -, hback⟩ := sub_addInterval ha hb rfl (by decide)
  obtain ⟨j, hj, -, hreached⟩ := sub_addInterval hc hd rfl (by decide)
  have hvalue : a.sub b = some (ofInterval 0 2 (-15) 21 30 0) := by decide
  exact ⟨ha, hb, ⟨i, hi, Option.some.inj (hi.symm.trans hvalue), hback⟩, hc, hd, j, hj, hreached⟩

/-- A day that is cut at the end of February is not given back. -/
example : ((ofDate 2023 2 28).sub (ofDate 2023 1 31)).bind (ofDate 2023 1 31).addInterval =
    some (ofDate 2023 2 25) := by decide

end Reporting.Temporal
