import Reporting.Function.Dates
import Reporting.Proofs.Calendar.Days
import Reporting.Proofs.Temporal.Months
/-!
What every operation keeps of dates and times: the day is one of the calendar, the time is one of the
clock, and only dates have a carry. Adding an interval leaves a carry at the end of a month alone; adding
a number does not look at the carry.
-/
namespace Reporting.Temporal
open Calendar

variable {t r d i : Temporal} {n m : Int}

/-- The fields of 32 binary digits with a sign. -/
def Fits32 (n : Int) : Prop := -0x80000000 ≤ n ∧ n < 0x80000000
  deriving Decidable

/-- The date fields. -/
def asDate (t : Temporal) : Date := ⟨t.year, t.month, t.day⟩

/-- A date of the calendar, a time of the clock, or both. -/
structure Sound (t : Temporal) : Prop where
  moment : t.interval = false
  year : Fits32 t.year
  date : t.hasDate = true → t.asDate.Valid
  undated : t.hasDate = false → t.year = 0 ∧ t.month = 0 ∧ t.day = 0 ∧ t.carry = 0
  clock : isClock t.hour t.minute t.second = true
  carry : t.carry ≤ 3

/-- Days are only cut off at the end of a month. -/
def AtMonthEnd (t : Temporal) : Prop := t.carry ≠ 0 → t.day = daysInMonth t.year t.month

theorem isDate_iff {year month day : Int} :
    isDate year month day = true ↔ Date.Valid ⟨year, month, day⟩ := by
  simp only [isDate, Bool.and_eq_true, decide_eq_true_eq]
  constructor
  · rintro ⟨⟨⟨hlow, hhigh⟩, hfirst⟩, hlast⟩
    exact ⟨⟨hlow, hhigh⟩, hfirst, hlast⟩
  · rintro ⟨⟨hlow, hhigh⟩, hfirst, hlast⟩
    exact ⟨⟨⟨hlow, hhigh⟩, hfirst⟩, hlast⟩

/-- The value with another date. -/
def onDay (t : Temporal) (d : Date) : Temporal := { t with year := d.year, month := d.month, day := d.day }

/-! Bringing months and days into their ranges -/

theorem carryMonths_eq_some (hmoment : t.interval = false) (h : t.carryMonths = some r) :
    ∃ year month, year = t.year + (t.month - 1) / 12 ∧ Fits32 year ∧ (1 ≤ month ∧ month ≤ 12) ∧
      r = { t with year, month } := by
  simp only [carryMonths, hmoment, Bool.false_eq_true, if_false, Option.bind_eq_bind,
    Option.bind_eq_some_iff, checked_eq_some, Option.pure_def, Option.some.injEq] at h
  obtain ⟨_, ⟨-, rfl⟩, _, ⟨hyear, rfl⟩, rfl⟩ := h
  have hmonth : 1 ≤ (t.month - 1) % 12 + 1 ∧ (t.month - 1) % 12 + 1 ≤ 12 := by omega
  exact ⟨_, _, rfl, hyear, hmonth, by rw [hmoment]⟩

theorem rollDay_of_valid (h : t.asDate.Valid) : t.rollDay = some t := if_pos h.day

theorem rollDay_eq_some (hyear : Fits32 t.year) (hmonth : 1 ≤ t.month ∧ t.month ≤ 12)
    (h : t.rollDay = some r) : ∃ d : Date, Fits32 d.year ∧ d.Valid ∧ r = t.onDay d := by
  by_cases hday : 1 ≤ t.day ∧ t.day ≤ daysInMonth t.year t.month
  · rw [rollDay_of_valid ⟨hmonth, hday⟩] at h
    exact ⟨t.asDate, hyear, ⟨hmonth, hday⟩, (Option.some.inj h).symm⟩
  · rw [rollDay, if_neg hday] at h
    simp only [Option.bind_eq_bind, Option.bind_eq_some_iff, Option.pure_def, Option.some.injEq] at h
    obtain ⟨first, -, d, hd, rfl⟩ := h
    obtain ⟨hvalid, ⟨hfirst, hlast⟩, -⟩ := Date.ofNumber?_eq_some hd
    rw [firstYear] at hfirst
    rw [lastYear] at hlast
    exact ⟨d, ⟨by omega, by omega⟩, hvalid, rfl⟩

theorem normalize_eq_some (hmoment : t.interval = false) (h : t.normalize = some r) :
    ∃ d : Date, Fits32 d.year ∧ d.Valid ∧ r = t.onDay d := by
  obtain ⟨s, hs, h⟩ := Option.bind_eq_some_iff.1 h
  obtain ⟨year, month, -, hyear, hmonth, rfl⟩ := carryMonths_eq_some hmoment hs
  rw [if_neg (by rw [hmoment]; exact Bool.false_ne_true)] at h
  obtain ⟨d, hfits, hvalid, rfl⟩ := rollDay_eq_some hyear hmonth h
  exact ⟨d, hfits, hvalid, rfl⟩

/-- An interval has no month that a day could be outside of. -/
theorem normalize_of_interval (hinterval : t.interval = true) (h : t.normalize = some r) :
    ∃ year month, r = { t with year, month } := by
  simp only [normalize, carryMonths, hinterval, if_true, Option.bind_eq_bind, Option.bind_eq_some_iff,
    Option.pure_def, Option.some.injEq] at h
  obtain ⟨_, ⟨_, -, rfl⟩, h⟩ := h
  exact ⟨_, _, hinterval ▸ (Option.some.inj h).symm⟩

theorem cutDay_eq (t : Temporal) : ∃ day carry, carry ≤ 3 ∧
    (carry ≠ 0 → day = daysInMonth t.year t.month) ∧ t.cutDay = { t with day, carry } := by
  unfold cutDay
  dsimp only
  split
  · exact ⟨_, _, Nat.min_le_right _ _, fun _ => rfl, rfl⟩
  · exact ⟨_, _, Nat.zero_le 3, fun h => absurd rfl h, rfl⟩

theorem normalizeCut_spec (hmoment : t.interval = false) (h : t.normalizeCut = some r) :
    ∃ (d : Date) (carry : Nat), Fits32 d.year ∧ d.Valid ∧ carry ≤ 3 ∧
      (carry ≠ 0 → d.day = daysInMonth d.year d.month) ∧ r = { t.onDay d with carry } := by
  obtain ⟨s, hs, h⟩ := Option.bind_eq_some_iff.1 h
  obtain ⟨year, month, -, hyear, hmonth, rfl⟩ := carryMonths_eq_some hmoment hs
  rw [if_neg (by rw [hmoment]; exact Bool.false_ne_true)] at h
  obtain ⟨day, carry, hcarry, hlast, hcut⟩ := cutDay_eq { t with year, month }
  rw [hcut] at h
  by_cases hzero : carry = 0
  · obtain ⟨d, hfits, hvalid, rfl⟩ := rollDay_eq_some hyear hmonth h
    exact ⟨d, carry, hfits, hvalid, hcarry, fun h => absurd hzero h, rfl⟩
  · -- the last day of a month does not roll
    have hbounds := daysInMonth_bounds year month
    have hvalid : (⟨year, month, day⟩ : Date).Valid :=
      ⟨hmonth, by rw [hlast hzero]; exact ⟨by dsimp only; omega, Int.le_refl _⟩⟩
    rw [rollDay_of_valid (by exact hvalid)] at h
    exact ⟨⟨year, month, day⟩, carry, hyear, hvalid, hcarry, hlast, (Option.some.inj h).symm⟩

theorem addCalendar_eq_some {years months days : Int} (hmoment : t.interval = false)
    (h : t.addCalendar years months days = some r) :
    ∃ (d : Date) (carry : Nat), Fits32 d.year ∧ d.Valid ∧ carry ≤ 3 ∧
      (carry ≠ 0 → d.day = daysInMonth d.year d.month) ∧ r = { t.onDay d with carry } := by
  simp only [addCalendar, Option.bind_eq_bind, Option.bind_eq_some_iff, checked_eq_some] at h
  obtain ⟨year, -, month, -, s, hs, h⟩ := h
  obtain ⟨d, carry, hyear, hvalid, hcarry, hlast, rfl⟩ := normalizeCut_spec (by exact hmoment) hs
  split at h
  · exact ⟨d, carry, hyear, hvalid, hcarry, hlast, (Option.some.inj h).symm⟩
  · obtain ⟨day, -, h⟩ := Option.bind_eq_some_iff.1 h
    obtain ⟨d, hyear, hvalid, rfl⟩ := normalize_eq_some (by exact hmoment) h
    exact ⟨d, 0, hyear, hvalid, Nat.zero_le 3, fun h => absurd rfl h, rfl⟩

/-! The clock -/

theorem carryTime_of_some (h : t.carryTime = some r) :
    ∃ day hour minute second, r = { t with day, hour, minute, second } := by
  simp only [carryTime, Option.bind_eq_bind, Option.bind_eq_some_iff, Option.pure_def,
    Option.some.injEq] at h
  obtain ⟨_, -, _, -, _, -, rfl⟩ := h
  exact ⟨_, _, _, _, rfl⟩

theorem addClock_spec {around : Int} (h : t.addClock i = some (r, around)) :
    ∃ hour minute second, isClock hour minute second = true ∧ r = { t with hour, minute, second } := by
  simp only [addClock, carryTime, Option.bind_eq_bind, Option.bind_eq_some_iff, checked_eq_some,
    Option.pure_def, Option.some.injEq, Prod.mk.injEq] at h
  obtain ⟨_, -, _, -, _, -, _, ⟨_, -, _, -, _, -, rfl⟩, _, -, rfl, -⟩ := h
  refine ⟨_, _, _, ?_, rfl⟩
  simp only [isClock, Bool.and_eq_true, decide_eq_true_eq]
  omega

theorem isClock_of_seconds (hlow : 0 ≤ n) (hhigh : n < 86400) :
    isClock (n / 3600) (n % 3600 / 60) (n % 60) = true := by
  simp only [isClock, Bool.and_eq_true, decide_eq_true_eq]
  omega

theorem secondsOfDay_bounds (ht : isClock t.hour t.minute t.second = true) :
    0 ≤ t.secondsOfDay ∧ t.secondsOfDay < 86400 := by
  simp only [isClock, Bool.and_eq_true, decide_eq_true_eq] at ht
  rw [secondsOfDay]
  omega

theorem withSeconds_eq (hlow : 0 ≤ n) (hhigh : n < 86400) : t.withSeconds n =
    { t with hour := n / 3600, minute := n % 3600 / 60, second := n % 60, hasTime := true } := by
  have hwrap : wrap (n / 3600) = n / 3600 := wrap_of_small (by omega) (by omega)
  rw [withSeconds, Int.tdiv_eq_ediv_of_nonneg hlow, Int.tmod_eq_emod_of_nonneg hlow,
    Int.tdiv_eq_ediv_of_nonneg (by omega), Int.tmod_eq_emod_of_nonneg hlow, hwrap]

theorem addSeconds_eq_some (h : t.addSeconds n = some r) : ∃ date d, t.date? = some date ∧
    date.addDays? ((t.secondsOfDay + n) / 86400) = some d ∧
    r = { ofDateTime d.year d.month d.day ((t.secondsOfDay + n) % 86400 / 3600)
      ((t.secondsOfDay + n) % 86400 % 3600 / 60) ((t.secondsOfDay + n) % 86400 % 60) with
      carry := t.carry } := by
  simp only [addSeconds, Option.bind_eq_bind, Option.bind_eq_some_iff, Option.pure_def,
    Option.some.injEq] at h
  obtain ⟨date, hdate, _, -, d, hd, rfl⟩ := h
  exact ⟨date, d, hdate, hd, rfl⟩

/-! Steps -/

theorem Sound.atMonthEnd_of_undated (h : t.Sound) (hdate : t.hasDate = false) : t.AtMonthEnd :=
  fun hcarry => absurd (h.undated hdate).2.2.2 hcarry

/-- An interval is added to the clock first, if there is one then, and to the date after it. -/
theorem addInterval_eq_some (hmoment : t.interval = false) (h : t.addInterval i = some r) :
    ∃ hasDate hasTime hour minute second days,
      hasDate = (t.hasDate || i.year != 0 || i.month != 0 || i.day != 0) ∧
      (isClock hour minute second = true ∨
        hasTime = false ∧ hour = t.hour ∧ minute = t.minute ∧ second = t.second) ∧
      (if hasDate then { t with hasDate, hasTime, hour, minute, second }.addCalendar i.year i.month days
        else some { t with hasDate, hasTime, hour, minute, second }) = some r := by
  rw [addInterval, if_neg (by rw [hmoment]; exact Bool.false_ne_true)] at h
  dsimp only at h
  generalize (t.hasTime || i.hour != 0 || i.minute != 0 || i.second != 0) = hasTime at h
  cases hasTime with
  | true =>
    obtain ⟨⟨s, around⟩, hs, h⟩ := Option.bind_eq_some_iff.1 h
    obtain ⟨days, -, h⟩ := Option.bind_eq_some_iff.1 h
    obtain ⟨hour, minute, second, hclock, rfl⟩ := addClock_spec hs
    exact ⟨_, true, hour, minute, second, days, rfl, .inl hclock, h⟩
  | false =>
    obtain ⟨days, -, h⟩ := Option.bind_eq_some_iff.1 h
    exact ⟨_, false, t.hour, t.minute, t.second, days, rfl, .inr ⟨rfl, rfl, rfl, rfl⟩, h⟩

/-- Whatever the carry was before, an interval that is added leaves none but at the end of a month. -/
theorem Sound.addInterval (ht : t.Sound) (h : t.addInterval i = some r) : r.Sound ∧ r.AtMonthEnd := by
  obtain ⟨hasDate, hasTime, hour, minute, second, days, hdate, hparts, h⟩ :=
    addInterval_eq_some ht.moment h
  have hclock : isClock hour minute second = true := by
    obtain hclock | ⟨-, rfl, rfl, rfl⟩ := hparts
    · exact hclock
    · exact ht.clock
  cases hasDate with
  | true =>
    obtain ⟨d, carry, hyear, hvalid, hcarry, hlast, rfl⟩ := addCalendar_eq_some (by exact ht.moment) h
    exact ⟨⟨ht.moment, hyear, fun _ => hvalid, fun hundated => absurd hundated.symm Bool.false_ne_true,
      hclock, hcarry⟩, hlast⟩
  | false =>
    have hundated : t.hasDate = false := by
      simp only [Bool.false_eq, Bool.or_eq_false_iff] at hdate
      exact hdate.1.1.1
    obtain rfl := Option.some.inj h
    have hsound : Sound { t with hasDate := false, hasTime, hour, minute, second } :=
      ⟨ht.moment, ht.year, fun hdated => absurd hdated Bool.false_ne_true,
        fun _ => ht.undated hundated, hclock, ht.carry⟩
    exact ⟨hsound, hsound.atMonthEnd_of_undated rfl⟩

/-- A number that is added keeps the carry. -/
theorem Sound.addNumber (ht : t.Sound) (h : t.addNumber n = some r) : r.Sound ∧ r.carry = t.carry := by
  rw [Temporal.addNumber, if_neg (by rw [ht.moment]; exact Bool.false_ne_true)] at h
  split at h
  · rename_i hdate
    split at h
    · obtain ⟨_, d, -, hd, rfl⟩ := addSeconds_eq_some h
      obtain ⟨hvalid, ⟨hfirst, hlast⟩, -⟩ := Date.ofNumber?_eq_some hd
      rw [firstYear] at hfirst
      rw [lastYear] at hlast
      have hclock := isClock_of_seconds (n := (t.secondsOfDay + n) % 86400) (by omega) (by omega)
      exact ⟨⟨rfl, ⟨by dsimp only [ofDateTime]; omega, by dsimp only [ofDateTime]; omega⟩, fun _ => hvalid,
        nofun, hclock, ht.carry⟩, rfl⟩
    · obtain ⟨day, -, h⟩ := Option.bind_eq_some_iff.1 h
      obtain ⟨d, hyear, hvalid, rfl⟩ := normalize_eq_some (by exact ht.moment) h
      exact ⟨⟨ht.moment, hyear, fun _ => hvalid, fun hundated => absurd hdate (by exact hundated ▸ nofun),
        ht.clock, ht.carry⟩, rfl⟩
  · rename_i hdate
    rw [Bool.not_eq_true] at hdate
    split at h
    · rw [withSeconds_eq (by omega) (by omega)] at h
      obtain rfl := Option.some.inj h
      exact ⟨⟨ht.moment, show Fits32 0 by decide, fun hdated => absurd hdated (by exact hdate ▸ nofun),
        fun _ => ⟨rfl, rfl, rfl, (ht.undated hdate).2.2.2⟩, isClock_of_seconds (by omega) (by omega),
        ht.carry⟩, rfl⟩
    · cases h

theorem Sound.dateOnly (ht : t.Sound) : t.dateOnly.Sound :=
  ⟨ht.moment, ht.year, ht.date, ht.undated, rfl, ht.carry⟩

theorem Sound.withDateOf (ht : t.Sound) (hd : d.Sound) : (Dates.withDateOf t d).Sound :=
  ⟨ht.moment, hd.year, hd.date, fun h => ⟨(hd.undated h).1, (hd.undated h).2.1, (hd.undated h).2.2.1, rfl⟩,
    ht.clock, Nat.zero_le 3⟩

theorem Sound.withTimeOf (ht : t.Sound) (hd : d.Sound) : (Dates.withTimeOf t d).Sound :=
  ⟨ht.moment, ht.year, ht.date, ht.undated, hd.clock, ht.carry⟩

theorem Sound.withSeconds (ht : t.Sound) (hlow : 0 ≤ n) (hhigh : n < 86400) : (t.withSeconds n).Sound := by
  rw [withSeconds_eq hlow hhigh]
  exact ⟨ht.moment, ht.year, ht.date, ht.undated, isClock_of_seconds hlow hhigh, ht.carry⟩

/-! Adding nothing, and adding days -/

theorem checked_of_fits (h : Fits32 n) : checked n = some n := if_pos h

theorem carryTime_of_clock (hclock : isClock t.hour t.minute t.second = true) (hday : Fits32 t.day) :
    t.carryTime = some t := by
  simp only [isClock, Bool.and_eq_true, decide_eq_true_eq] at hclock
  obtain ⟨⟨⟨⟨⟨hhour, hhour'⟩, hminute⟩, hminute'⟩, hsecond⟩, hsecond'⟩ := hclock
  have hm : t.minute + t.second / 60 = t.minute := by omega
  have hh : t.hour + t.minute / 60 = t.hour := by omega
  have hd : t.day + t.hour / 24 = t.day := by omega
  rw [carryTime, hm, checked_of_fits ⟨by omega, by omega⟩]
  simp only [Option.bind_eq_bind, Option.bind_some]
  rw [hh, checked_of_fits ⟨by omega, by omega⟩]
  simp only [Option.bind_some]
  rw [hd, checked_of_fits hday, Int.emod_eq_of_lt hhour hhour', Int.emod_eq_of_lt hminute hminute',
    Int.emod_eq_of_lt hsecond hsecond']
  rfl

/-- A number of months belongs to one year and one month of it. -/
theorem carryMonths_eq {year month : Int} (hmoment : t.interval = false) (hfits : Fits32 (t.month - 1))
    (hyear : Fits32 year) (hmonth : 1 ≤ month ∧ month ≤ 12) (hlength : t.length = 12 * year + month) :
    t.carryMonths = some { t with year, month } := by
  rw [length] at hlength
  have hy : t.year + (t.month - 1) / 12 = year := by omega
  have hm : (t.month - 1) % 12 + 1 = month := by omega
  rw [carryMonths, hmoment, if_neg Bool.false_ne_true, checked_of_fits hfits]
  simp only [Option.bind_eq_bind, Option.bind_some]
  rw [hy, checked_of_fits hyear, hm]
  simp only [Option.bind_some, ← hmoment]
  rfl

theorem carryMonths_of_valid (hmoment : t.interval = false) (hyear : Fits32 t.year)
    (hmonth : 1 ≤ t.month ∧ t.month ≤ 12) : t.carryMonths = some t :=
  carryMonths_eq hmoment ⟨by omega, by omega⟩ hyear hmonth rfl

/-- Giving the carry back to the day and cutting it again changes nothing at the end of a month, but for a
carry of more than three days. -/
theorem cutDay_of_atMonthEnd (hday : t.day ≤ daysInMonth t.year t.month) (hlast : t.AtMonthEnd) :
    { t with day := t.day + t.carry }.cutDay = { t with carry := min t.carry 3 } := by
  unfold cutDay
  dsimp only
  by_cases hzero : t.carry = 0
  · rw [if_neg (by omega), hzero]
    simp
  · have hend := hlast hzero
    have hcut : min (t.day + t.carry - daysInMonth t.year t.month).toNat 3 = min t.carry 3 := by omega
    rw [if_pos (by omega), hcut, ← hend]

/-- A carry of eight binary digits at the end of a month is given back, cut off again and then dropped by the
days that are added. -/
theorem addCalendar_days (hmoment : t.interval = false) (hyear : Fits32 t.year) (hvalid : t.asDate.Valid)
    (hcarry : t.carry < 256) (hlast : t.AtMonthEnd) :
    t.addCalendar 0 0 n =
      if n = 0 then some { t with carry := min t.carry 3 }
      else (checked (t.day + n)).bind fun day => { t with day, carry := 0 }.normalize := by
  have hmonth : 1 ≤ t.month ∧ t.month ≤ 12 := hvalid.month
  have hday : 1 ≤ t.day ∧ t.day ≤ daysInMonth t.year t.month := hvalid.day
  have hbounds := daysInMonth_bounds t.year t.month
  have hwrap : wrap (t.day + t.carry) = t.day + t.carry := by
    simp only [wrap, Int.bmod]
    omega
  have hmonths := carryMonths_of_valid (t := { t with day := t.day + t.carry }) hmoment hyear hmonth
  have hcut : { t with day := t.day + t.carry }.normalizeCut = some { t with carry := min t.carry 3 } := by
    rw [normalizeCut, hmonths]
    simp only [Option.bind_eq_bind, Option.bind_some]
    rw [cutDay_of_atMonthEnd hday.2 hlast, hmoment, if_neg Bool.false_ne_true]
    exact rollDay_of_valid hvalid
  rw [addCalendar, Int.add_zero, Int.add_zero, checked_of_fits hyear, checked_of_fits ⟨by omega, by omega⟩,
    hwrap]
  simp only [Option.bind_eq_bind, Option.bind_some]
  rw [hcut]
  rfl

theorem Sound.addCalendar_days (ht : t.Sound) (hdate : t.hasDate = true) (hlast : t.AtMonthEnd) :
    t.addCalendar 0 0 n =
      if n = 0 then some t
      else (checked (t.day + n)).bind fun day => { t with day, carry := 0 }.normalize := by
  have hcarry := ht.carry
  rw [Temporal.addCalendar_days ht.moment ht.year (ht.date hdate) (by omega) hlast, Nat.min_eq_left hcarry]

theorem Sound.addClock_zero (ht : t.Sound) (hi : i.hour = 0 ∧ i.minute = 0 ∧ i.second = 0) :
    t.addClock i = some (t, 0) := by
  have hday : Fits32 t.day := by
    by_cases hdate : t.hasDate = true
    · have hday : 1 ≤ t.day ∧ t.day ≤ daysInMonth t.year t.month := (ht.date hdate).day
      have hbounds := daysInMonth_bounds t.year t.month
      exact ⟨by omega, by omega⟩
    · rw [(ht.undated (Bool.not_eq_true _ ▸ hdate)).2.2.1]
      decide
  have hclock := ht.clock
  simp only [isClock, Bool.and_eq_true, decide_eq_true_eq] at hclock
  rw [addClock, hi.1, hi.2.1, hi.2.2, Int.add_zero, Int.add_zero, Int.add_zero,
    checked_of_fits ⟨by omega, by omega⟩, checked_of_fits ⟨by omega, by omega⟩,
    checked_of_fits ⟨by omega, by omega⟩]
  simp only [Option.bind_eq_bind, Option.bind_some]
  rw [carryTime_of_clock ht.clock hday]
  simp only [Option.bind_some, Int.sub_self]
  rfl

/-- An interval of days does not look at the time, and gives no value a part that it does not have. -/
theorem Sound.addInterval_days (ht : t.Sound) (hn : Fits32 n) (h : t.hasDate = true ∨ n = 0) :
    t.addInterval (ofInterval 0 0 n 0 0 0) = if t.hasDate then t.addCalendar 0 0 n else some t := by
  have hdate : (t.hasDate || (0 : Int) != 0 || (0 : Int) != 0 || n != 0) = t.hasDate := by
    obtain hdate | rfl := h
    · rw [hdate]
      rfl
    · simp
  have htime : (t.hasTime || (0 : Int) != 0 || (0 : Int) != 0 || (0 : Int) != 0) = t.hasTime := by simp
  have hfits : Fits32 (n + 0) := by rwa [Int.add_zero]
  rw [Temporal.addInterval, ht.moment, if_neg Bool.false_ne_true]
  dsimp only [ofInterval]
  rw [hdate, htime, ← ht.moment, ht.addClock_zero ⟨rfl, rfl, rfl⟩, ite_self]
  simp only [Option.bind_eq_bind, Option.bind_some]
  rw [checked_of_fits hfits, Int.add_zero]
  rfl

/-- Adding an empty interval changes nothing where days are only cut off at the end of a month. -/
theorem Sound.addInterval_zero (ht : t.Sound) (hlast : t.AtMonthEnd) :
    t.addInterval (ofInterval 0 0 0 0 0 0) = some t := by
  rw [ht.addInterval_days (by decide) (.inr rfl)]
  split
  · rw [ht.addCalendar_days ‹_› hlast, if_pos rfl]
  · rfl

theorem normalize_eq_rollDay (hmoment : t.interval = false) (hyear : Fits32 t.year)
    (hmonth : 1 ≤ t.month ∧ t.month ≤ 12) : t.normalize = t.rollDay := by
  rw [normalize, carryMonths_of_valid hmoment hyear hmonth]
  simp only [Option.bind_eq_bind, Option.bind_some]
  rw [if_neg (by rw [hmoment]; exact Bool.false_ne_true)]

theorem addNumber_of_date (hmoment : t.interval = false) (hdate : t.hasDate = true)
    (htime : t.hasTime = false) :
    t.addNumber n = (checked (t.day + n)).bind fun day => { t with day }.normalize := by
  obtain ⟨year, month, day, hour, minute, second, hasDate, hasTime, interval, carry⟩ := t
  obtain rfl : interval = false := hmoment
  obtain rfl : hasDate = true := hdate
  obtain rfl : hasTime = false := htime
  rfl

theorem addNumber_of_dateTime (hmoment : t.interval = false) (hdate : t.hasDate = true)
    (htime : t.hasTime = true) : t.addNumber n = t.addSeconds n := by
  rw [addNumber, if_neg (by rw [hmoment]; exact Bool.false_ne_true), if_pos hdate, if_pos htime]

/-- Where no carry is pending, a date is moved by a number as it is by an interval. -/
theorem Sound.addNumber_days (ht : t.Sound) (hdate : t.hasDate = true) (htime : t.hasTime = false)
    (hcarry : t.carry = 0) (hn : Fits32 n) : t.addNumber n = t.addInterval (ofInterval 0 0 n 0 0 0) := by
  have hlast : t.AtMonthEnd := fun h => absurd hcarry h
  rw [ht.addInterval_days hn (.inl hdate), ht.addCalendar_days hdate hlast, if_pos hdate,
    addNumber_of_date ht.moment hdate htime]
  split
  · rename_i hzero
    have hday : 1 ≤ t.day ∧ t.day ≤ daysInMonth t.year t.month := (ht.date hdate).day
    have hbounds := daysInMonth_bounds t.year t.month
    rw [hzero, Int.add_zero, checked_of_fits ⟨by omega, by omega⟩]
    have hvalid := ht.date hdate
    exact (normalize_eq_rollDay ht.moment ht.year hvalid.month).trans (rollDay_of_valid hvalid)
  · rw [hcarry]

/-- In a year of the calendar, a day rolls to where its day number is. -/
theorem rollDay_eq_map (hyear : firstYear ≤ t.year ∧ t.year ≤ lastYear)
    (hmonth : 1 ≤ t.month ∧ t.month ≤ 12) : t.rollDay = (Date.ofNumber? t.asDate.number).map t.onDay := by
  by_cases hday : 1 ≤ t.day ∧ t.day ≤ daysInMonth t.year t.month
  · have hvalid : t.asDate.Valid := ⟨hmonth, hday⟩
    rw [rollDay_of_valid hvalid, hvalid.ofNumber?_number hyear]
    rfl
  · have hbounds := daysInMonth_bounds t.year t.month
    have hfirst : Date.ofParts? t.year t.month 1 = some ⟨t.year, t.month, 1⟩ :=
      if_pos ⟨hyear.1, hyear.2, hmonth.1, hmonth.2, by decide, by omega⟩
    rw [rollDay, if_neg hday, hfirst, Date.number_eq]
    exact Option.map_eq_bind.symm

theorem ofDateTime_secondsOfDay {d : Date} (hclock : isClock t.hour t.minute t.second = true)
    (hmoment : t.interval = false) (hdate : t.hasDate = true) (htime : t.hasTime = true) :
    { ofDateTime d.year d.month d.day (t.secondsOfDay / 3600) (t.secondsOfDay % 3600 / 60)
      (t.secondsOfDay % 60) with carry := t.carry } = t.onDay d := by
  obtain ⟨year, month, day, hour, minute, second, hasDate, hasTime, interval, carry⟩ := t
  obtain rfl : interval = false := hmoment
  obtain rfl : hasDate = true := hdate
  obtain rfl : hasTime = true := htime
  simp only [isClock, Bool.and_eq_true, decide_eq_true_eq] at hclock
  simp only [onDay, ofDateTime, secondsOfDay, mk.injEq, and_true, true_and]
  omega

/-- Where no carry is pending, a date with a time is moved by the seconds of whole days as it is by an
interval, as long as both dates are within the calendar. -/
theorem Sound.addNumber_seconds (ht : t.Sound) (hdate : t.hasDate = true) (htime : t.hasTime = true)
    (hcarry : t.carry = 0) (h : t.addNumber (86400 * n) = some r) :
    t.addInterval (ofInterval 0 0 n 0 0 0) = some r := by
  have hlast : t.AtMonthEnd := fun h => absurd hcarry h
  have hvalid := ht.date hdate
  have hclock := ht.clock
  simp only [isClock, Bool.and_eq_true, decide_eq_true_eq] at hclock
  rw [addNumber_of_dateTime ht.moment hdate htime] at h
  obtain ⟨date, d, hparts, hd, rfl⟩ := addSeconds_eq_some h
  rw [date?, if_pos hdate, Date.ofParts?, Option.ite_none_right_eq_some, Option.some.injEq] at hparts
  obtain ⟨⟨hfirst, hlastYear, -⟩, rfl⟩ := hparts
  have hdays : (t.secondsOfDay + 86400 * n) / 86400 = n := by
    rw [secondsOfDay]
    omega
  have hrest : (t.secondsOfDay + 86400 * n) % 86400 = t.secondsOfDay := by
    rw [secondsOfDay]
    omega
  have hyear : firstYear ≤ t.year ∧ t.year ≤ lastYear := ⟨hfirst, hlastYear⟩
  have hmoved : Date.ofNumber? (t.asDate.number + n) = some d := by rwa [hdays] at hd
  have hsmall := hvalid.addDays?_bounds hyear hmoved
  have hday : 1 ≤ t.day ∧ t.day ≤ daysInMonth t.year t.month := hvalid.day
  have hbounds := daysInMonth_bounds t.year t.month
  rw [hrest, ofDateTime_secondsOfDay ht.clock ht.moment hdate htime,
    ht.addInterval_days ⟨by omega, by omega⟩ (.inl hdate), ht.addCalendar_days hdate hlast, if_pos hdate]
  split
  · rename_i hzero
    rw [hzero, Int.add_zero] at hmoved
    rw [← rollDay_of_valid hvalid, rollDay_eq_map hyear hvalid.month, hmoved]
    rfl
  · have hnumber : (asDate { t with day := t.day + n }).number = t.asDate.number + n := by
      rw [Date.number_eq, t.asDate.number_eq]
      simp only [asDate]
      omega
    have hnormalize := normalize_eq_rollDay (t := { t with day := t.day + n }) ht.moment ht.year hvalid.month
    have hroll := rollDay_eq_map (t := { t with day := t.day + n }) hyear hvalid.month
    rw [hnumber, hmoved] at hroll
    rw [checked_of_fits ⟨by omega, by omega⟩, ← hcarry]
    exact hnormalize.trans hroll

end Reporting.Temporal
