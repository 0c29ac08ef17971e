import Reporting.Temporal.Arithmetic
/-!
Moving dates by years and months. The days that are cut at the end of a month are carried along, so
that it does not matter over which months a date is moved.
-/
namespace Reporting
open Calendar

theorem Calendar.daysInMonth_bounds (year month : Int) :
    28 ≤ daysInMonth year month ∧ daysInMonth year month ≤ 31 := by
  have hall : ∀ leap, ∀ k < 12, 28 ≤ ((monthLengths leap)[k]?).getD 0 ∧
      ((monthLengths leap)[k]?).getD 0 ≤ 31 := by decide
  exact hall (isLeapYear year) _ (by omega)

namespace Temporal

variable {a b c d i j k t : Temporal} {m n : Int}

theorem checked_eq_some : checked n = some m ↔ (-0x80000000 ≤ n ∧ n < 0x80000000) ∧ n = m := by
  simp only [checked, Option.ite_none_right_eq_some, Option.some.injEq]

theorem wrap_of_small (hlow : 0 ≤ n) (hhigh : n ≤ 31) : wrap n = n := by
  simp only [wrap, Int.bmod]
  omega

theorem carryTime_eq_some (hclock : isClock t.hour t.minute t.second = true)
    (h : t.carryTime = some k) : k = t := by
  simp only [isClock, Bool.and_eq_true, decide_eq_true_eq] at hclock
  simp only [carryTime, Option.bind_eq_bind, Option.bind_eq_some_iff, checked_eq_some,
    Option.pure_def, Option.some.injEq] at h
  obtain ⟨_, ⟨-, rfl⟩, _, ⟨-, rfl⟩, _, ⟨-, rfl⟩, rfl⟩ := h
  obtain ⟨year, month, day, hour, minute, second, hasDate, hasTime, interval, carry⟩ := t
  simp only [mk.injEq, and_true, true_and] at hclock ⊢
  omega

/-! Intervals of years and months -/

/-- An interval of years and months, of any sign, and of nothing else. -/
structure OfMonths (i : Temporal) : Prop where
  interval : i.interval = true
  day : i.day = 0
  hour : i.hour = 0
  minute : i.minute = 0
  second : i.second = 0

/-- The length of an interval in months. -/
def length (i : Temporal) : Int := 12 * i.year + i.month

theorem OfMonths.add (hi : i.OfMonths) (hj : j.OfMonths) (h : i.addInterval j = some k) :
    k.OfMonths ∧ k.length = i.length + j.length := by
  rw [addInterval, if_pos hi.interval] at h
  simp only [Option.bind_eq_bind, Option.bind_eq_some_iff, Option.pure_def, Option.some.injEq] at h
  obtain ⟨sum, hsum, moved, hmoved, whole, hwhole, rfl⟩ := h
  simp only [addFields, Option.bind_eq_bind, Option.bind_eq_some_iff, checked_eq_some,
    Option.pure_def, Option.some.injEq, hi.day, hi.hour, hi.minute, hi.second, hj.day, hj.hour,
    hj.minute, hj.second] at hsum
  obtain ⟨_, ⟨-, rfl⟩, _, ⟨-, rfl⟩, _, ⟨-, rfl⟩, _, ⟨-, rfl⟩, _, ⟨-, rfl⟩, _, ⟨-, rfl⟩, rfl⟩ := hsum
  obtain rfl := carryTime_eq_some rfl hmoved
  simp only [normalize, carryMonths, Option.bind_eq_bind, Option.bind_eq_some_iff, checked_eq_some,
    Option.pure_def, Option.some.injEq, hi.interval, if_true] at hwhole
  obtain ⟨_, ⟨_, ⟨-, rfl⟩, rfl⟩, hwhole⟩ := hwhole
  obtain rfl := Option.some.inj hwhole
  refine ⟨⟨rfl, rfl, rfl, rfl, rfl⟩, ?_⟩
  simp only [length]
  omega

theorem negated_eq (h : i.negated = some k) : k = { i with
    year := -i.year
    month := -i.month
    day := -i.day
    hour := -i.hour
    minute := -i.minute
    second := -i.second } := by
  simp only [negated, Option.bind_eq_bind, Option.bind_eq_some_iff, checked_eq_some, Option.pure_def,
    Option.some.injEq] at h
  obtain ⟨_, ⟨-, rfl⟩, _, ⟨-, rfl⟩, _, ⟨-, rfl⟩, _, ⟨-, rfl⟩, _, ⟨-, rfl⟩, _, ⟨-, rfl⟩, rfl⟩ := h
  rfl

theorem OfMonths.negated (hi : i.OfMonths) (h : i.negated = some k) :
    k.OfMonths ∧ k.length = -i.length := by
  obtain rfl := negated_eq h
  simp only [hi.day, hi.hour, hi.minute, hi.second]
  refine ⟨⟨hi.interval, rfl, rfl, rfl, rfl⟩, ?_⟩
  simp only [length]
  omega

/-! Dates -/

/-- A date, with a time of day or without one, whose day and carry together are a day of some
month. -/
structure Dated (d : Temporal) : Prop where
  hasDate : d.hasDate = true
  moment : d.interval = false
  month : 1 ≤ d.month ∧ d.month ≤ 12
  day : 1 ≤ d.day
  carried : d.day + d.carry ≤ 31
  clock : d.hasTime = true → isClock d.hour d.minute d.second = true

/-- The months from the first month of year 0. -/
def monthNumber (d : Temporal) : Int := 12 * d.year + (d.month - 1)

/-- The same day of another month: it takes the carry in, and what the month does not have of it
becomes the new carry. -/
def inMonth (d : Temporal) (n : Int) : Temporal :=
  let days := daysInMonth (n / 12) (n % 12 + 1)
  { d with
    year := n / 12
    month := n % 12 + 1
    day := min (d.day + d.carry) days
    carry := (d.day + d.carry - days).toNat }

theorem monthNumber_inMonth (d : Temporal) (n : Int) : (d.inMonth n).monthNumber = n := by
  simp only [monthNumber, inMonth]
  omega

theorem day_add_carry_inMonth (d : Temporal) (n : Int) :
    (d.inMonth n).day + (d.inMonth n).carry = d.day + d.carry := by
  simp only [inMonth]
  omega

theorem inMonth_inMonth (d : Temporal) (m n : Int) : (d.inMonth m).inMonth n = d.inMonth n := by
  have hday := day_add_carry_inMonth d m
  rw [inMonth, hday]
  rfl

theorem Dated.inMonth (hd : d.Dated) (n : Int) : (d.inMonth n).Dated where
  hasDate := hd.hasDate
  moment := hd.moment
  month := by
    simp only [Temporal.inMonth]
    omega
  day := by
    have hday := hd.day
    have hdays := daysInMonth_bounds (n / 12) (n % 12 + 1)
    simp only [Temporal.inMonth]
    omega
  carried := by
    rw [day_add_carry_inMonth]
    exact hd.carried
  clock := hd.clock

theorem addClock_eq_some {r : Temporal × Int} (hi : i.OfMonths)
    (hclock : isClock t.hour t.minute t.second = true) (h : t.addClock i = some r) : r = (t, 0) := by
  simp only [addClock, Option.bind_eq_bind, Option.bind_eq_some_iff, checked_eq_some,
    Option.pure_def, Option.some.injEq, hi.hour, hi.minute, hi.second, Int.add_zero] at h
  obtain ⟨_, ⟨-, rfl⟩, _, ⟨-, rfl⟩, _, ⟨-, rfl⟩, moved, hmoved, _, ⟨-, rfl⟩, rfl⟩ := h
  obtain rfl := carryTime_eq_some hclock hmoved
  rw [Int.sub_self]

/-- The day of a month that is not behind its end stays, and all other days are cut. -/
theorem rollDay_cutDay (hday : 1 ≤ t.day) (hcut : t.day ≤ 31) :
    t.cutDay.rollDay = some { t with
      day := min t.day (daysInMonth t.year t.month)
      carry := (t.day - daysInMonth t.year t.month).toNat } := by
  obtain ⟨hlow, hhigh⟩ := daysInMonth_bounds t.year t.month
  have hcut : t.cutDay = { t with
      day := min t.day (daysInMonth t.year t.month)
      carry := (t.day - daysInMonth t.year t.month).toNat } := by
    simp only [cutDay]
    split
    · rw [Int.min_eq_right (by omega), Nat.min_eq_left (by omega)]
    · rw [Int.min_eq_left (by omega), Int.toNat_of_nonpos (by omega)]
  rw [hcut, rollDay, if_pos ⟨by dsimp only; omega, Int.min_le_right _ _⟩]
  rfl

theorem normalizeCut_eq_some (hmoment : t.interval = false) (hday : 1 ≤ t.day)
    (hcut : t.day ≤ 31) (h : t.normalizeCut = some a) :
    a = { t with carry := 0 }.inMonth t.monthNumber := by
  obtain ⟨year, month, day, hour, minute, second, hasDate, hasTime, interval, carry⟩ := t
  obtain rfl : interval = false := hmoment
  simp only [normalizeCut, carryMonths, Bool.false_eq_true, if_false, Option.bind_eq_bind,
    Option.bind_eq_some_iff, checked_eq_some, Option.pure_def, Option.some.injEq] at h
  obtain ⟨_, ⟨_, ⟨-, rfl⟩, _, ⟨-, rfl⟩, rfl⟩, h⟩ := h
  rw [if_neg Bool.false_ne_true, rollDay_cutDay (by exact hday) (by exact hcut),
    Option.some.injEq] at h
  have hyear : (12 * year + (month - 1)) / 12 = year + (month - 1) / 12 := by omega
  have hmonth : (12 * year + (month - 1)) % 12 = (month - 1) % 12 := by omega
  rw [← h, inMonth, monthNumber, hyear, hmonth]
  simp only [Int.natCast_zero, Int.add_zero]

/-- An interval of months moves a date to another month. -/
theorem Dated.addInterval (hd : d.Dated) (hi : i.OfMonths) (h : d.addInterval i = some a) :
    a = d.inMonth (d.monthNumber + i.length) := by
  have hmoved : d.addCalendar i.year i.month 0 = some a := by
    obtain ⟨year, month, day, hour, minute, second, hasDate, hasTime, interval, carry⟩ := d
    obtain rfl : hasDate = true := hd.hasDate
    obtain rfl : interval = false := hd.moment
    simp only [Temporal.addInterval, Bool.false_eq_true, if_false, if_true, Bool.true_or, hi.day,
      hi.hour, hi.minute, hi.second, bne_self_eq_false, Bool.or_false] at h
    split at h
    · rename_i htime
      obtain ⟨r, hr, h⟩ := Option.bind_eq_some_iff.1 h
      obtain rfl := addClock_eq_some hi (hd.clock htime) hr
      exact h
    · exact h
  have hcarried := hd.carried
  have hday := hd.day
  simp only [addCalendar, wrap_of_small (show 0 ≤ d.day + d.carry by omega) hcarried, if_true,
    Option.bind_eq_bind, Option.bind_eq_some_iff, checked_eq_some, Option.pure_def,
    Option.some.injEq] at hmoved
  obtain ⟨_, ⟨-, rfl⟩, _, ⟨-, rfl⟩, _, hcut, rfl⟩ := hmoved
  have hmoved := normalizeCut_eq_some (by exact hd.moment) (by dsimp only; omega)
    (by exact hcarried) hcut
  have hnumber : 12 * (d.year + i.year) + (d.month + i.month - 1) = d.monthNumber + i.length := by
    rw [monthNumber, length]
    omega
  rw [hmoved, monthNumber, hnumber]
  simp only [Temporal.inMonth, Int.natCast_zero, Int.add_zero]

/-! Moving over months in two steps -/

/-- Moves a value by an interval, forward or back. -/
def move (t : Temporal) (back : Bool) (i : Temporal) : Option Temporal :=
  if back then t.sub i else t.addInterval i

/-- A number of months forward or back. -/
def signed (back : Bool) (n : Int) : Int := if back then -n else n

theorem signed_add_signed (back back' : Bool) (m n : Int) :
    signed back (m + signed (back != back') n) = signed back m + signed back' n := by
  cases back <;> cases back' <;> simp [signed] <;> omega

theorem OfMonths.move {back : Bool} (hi : i.OfMonths) (hj : j.OfMonths)
    (h : i.move back j = some k) : k.OfMonths ∧ k.length = i.length + signed back j.length := by
  cases back with
  | false => exact hi.add hj h
  | true =>
    change i.sub j = some k at h
    rw [Temporal.sub, if_pos hj.interval] at h
    obtain ⟨j', hj', h⟩ := Option.bind_eq_some_iff.1 h
    obtain ⟨hneg, hlength⟩ := hj.negated hj'
    obtain ⟨hk, hsum⟩ := hi.add hneg h
    exact ⟨hk, by rw [hsum, hlength]; rfl⟩

theorem Dated.move {back : Bool} (hd : d.Dated) (hi : i.OfMonths) (h : d.move back i = some a) :
    a = d.inMonth (d.monthNumber + signed back i.length) := by
  cases back with
  | false => exact hd.addInterval hi h
  | true =>
    change d.sub i = some a at h
    rw [Temporal.sub, if_pos hi.interval] at h
    obtain ⟨i', hi', h⟩ := Option.bind_eq_some_iff.1 h
    obtain ⟨hneg, hlength⟩ := hi.negated hi'
    rw [hd.addInterval hneg h, hlength]
    rfl

/-- A date that is moved by two intervals of months, each forward or back, comes to where it is moved
by both together, with the same carry; and day and carry together stay a day of some month. -/
theorem move_months_assoc (hd : d.Dated) (hi : i.OfMonths) (hj : j.OfMonths) {back back' : Bool}
    (ha : d.move back i = some a) (hb : a.move back' j = some b)
    (hk : i.move (back != back') j = some k) (hc : d.move back k = some c) :
    b = c ∧ a.Dated ∧ b.Dated := by
  obtain ⟨hmonths, hlength⟩ := hi.move hj hk
  have ha' := hd.move hi ha
  have hdated : a.Dated := ha' ▸ hd.inMonth _
  have hb' := hdated.move hj hb
  have hc' := hd.move hmonths hc
  refine ⟨?_, hdated, hb' ▸ hdated.inMonth _⟩
  calc b = a.inMonth (a.monthNumber + signed back' j.length) := hb'
    _ = d.inMonth (d.monthNumber + signed back i.length + signed back' j.length) := by
      rw [ha', inMonth_inMonth, monthNumber_inMonth]
    _ = d.inMonth (d.monthNumber + signed back k.length) := by
      rw [hlength, signed_add_signed, Int.add_assoc]
    _ = c := hc'.symm

/-- The last day of January, a year and a month forward, and then two months back. -/
theorem move_months_assoc_of_january :
    ∃ a b c k, (ofDate 2023 1 31).Dated ∧ (ofInterval 1 1 0 0 0 0).OfMonths ∧
      (ofInterval 0 2 0 0 0 0).OfMonths ∧
      (ofDate 2023 1 31).move false (ofInterval 1 1 0 0 0 0) = some a ∧
      a.move true (ofInterval 0 2 0 0 0 0) = some b ∧
      (ofInterval 1 1 0 0 0 0).move true (ofInterval 0 2 0 0 0 0) = some k ∧
      (ofDate 2023 1 31).move false k = some c ∧
      (a.day, a.carry, b.day, b.carry) = (29, 2, 31, 0) ∧ b = c := by
  have hd : (ofDate 2023 1 31).Dated := ⟨rfl, rfl, by decide, by decide, by decide, nofun⟩
  have hi : (ofInterval 1 1 0 0 0 0).OfMonths := ⟨rfl, rfl, rfl, rfl, rfl⟩
  have hj : (ofInterval 0 2 0 0 0 0).OfMonths := ⟨rfl, rfl, rfl, rfl, rfl⟩
  have hforward : (ofDate 2023 1 31).move false (ofInterval 1 1 0 0 0 0) = some _ := rfl
  have htogether : (ofInterval 1 1 0 0 0 0).move (false != true) (ofInterval 0 2 0 0 0 0) =
      some _ := rfl
  refine ⟨_, _, _, _, hd, hi, hj, hforward, rfl, htogether, rfl, rfl, ?_⟩
  exact (move_months_assoc hd hi hj hforward rfl htogether rfl).1

end Temporal
end Reporting
