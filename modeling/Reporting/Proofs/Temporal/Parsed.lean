import Reporting.Proofs.Decimal.Digits
import Reporting.Proofs.Temporal.Sound
/-!
What is read is a date of the calendar, a time of the clock, both, or an interval.
-/
namespace Reporting.Temporal
open Calendar

variable {s r : List Char} {t : Temporal} {order : DateOrder} {year month day hour minute second : Int}

/-! Values without a carry -/

/-- A date or time that no operation has moved. -/
structure Fresh (t : Temporal) : Prop where
  sound : t.Sound
  carry : t.carry = 0

theorem fresh_ofDate (hyear : Fits32 year) (hvalid : Date.Valid ⟨year, month, day⟩) :
    (ofDate year month day).Fresh :=
  ⟨⟨rfl, hyear, fun _ => hvalid, nofun, rfl, Nat.zero_le 3⟩, rfl⟩

theorem fresh_ofTime (hclock : isClock hour minute second = true) : (ofTime hour minute second).Fresh :=
  ⟨⟨rfl, show Fits32 0 by decide, nofun, fun _ => ⟨rfl, rfl, rfl, rfl⟩, hclock, Nat.zero_le 3⟩, rfl⟩

theorem fresh_ofDateTime (hyear : Fits32 year) (hvalid : Date.Valid ⟨year, month, day⟩)
    (hclock : isClock hour minute second = true) : (ofDateTime year month day hour minute second).Fresh :=
  ⟨⟨rfl, hyear, fun _ => hvalid, nofun, hclock, Nat.zero_le 3⟩, rfl⟩

/-! Dates and times with separators -/

theorem number?_lt {max n k : Nat} (h : number? max s = some ((n, k), r)) : n < 10 ^ max := by
  rw [number?] at h
  split at h
  · cases h
  · obtain rfl : Digits.value ((s.take max).takeWhile Char.isDigit) = n := by
      exact congrArg (·.1.1) (Option.some.inj h)
    have hdigits : ((s.take max).takeWhile Char.isDigit).all Char.isDigit = true := List.all_takeWhile
    have hlength : ((s.take max).takeWhile Char.isDigit).length ≤ max :=
      (List.takeWhile_prefix _).length_le.trans (List.length_take_le _ _)
    exact (Digits.value_lt hdigits).trans_le (Nat.pow_le_pow_right (by decide) hlength)

theorem slashDate?_spec (h : slashDate? order s = some ((year, month, day), r)) :
    Fits32 year ∧ Date.Valid ⟨year, month, day⟩ := by
  simp only [slashDate?, Option.bind_eq_bind, Option.bind_eq_some_iff, Prod.exists] at h
  obtain ⟨first, _, _, -, _, -, second, _, _, -, _, -, n, digits, _, hn, h⟩ := h
  have hbound := number?_lt hn
  have hyear : Fits32 ((if digits ≤ 2 then expandYear n else n : Nat) : Int) := by
    unfold expandYear Fits32
    split <;> (try split) <;> omega
  generalize ((if digits ≤ 2 then expandYear n else n : Nat) : Int) = y at hyear h
  split at h
  · obtain ⟨⟨rfl, rfl, rfl⟩, rfl⟩ := by simpa only [Option.some.injEq, Prod.mk.injEq] using h
    exact ⟨hyear, isDate_iff.1 ‹_›⟩
  · simp only [Option.ite_none_right_eq_some, Option.some.injEq, Prod.mk.injEq] at h
    obtain ⟨⟨-, hdate⟩, ⟨rfl, rfl, rfl⟩, rfl⟩ := h
    exact ⟨hyear, isDate_iff.1 hdate⟩

theorem dashDate?_spec (h : dashDate? s = some ((year, month, day), r)) :
    Fits32 year ∧ Date.Valid ⟨year, month, day⟩ := by
  simp only [dashDate?, Option.bind_eq_bind, Option.bind_eq_some_iff, Prod.exists,
    Option.ite_none_right_eq_some, Option.some.injEq, Prod.mk.injEq] at h
  obtain ⟨n, _, _, hn, _, -, m, _, _, -, _, -, d, _, _, -, hdate, ⟨rfl, rfl, rfl⟩, rfl⟩ := h
  have hbound := number?_lt hn
  exact ⟨⟨by omega, by omega⟩, isDate_iff.1 hdate⟩

theorem clock?_spec (h : clock? s = some ((hour, minute, second), r)) :
    isClock hour minute second = true := by
  rw [clock?] at h
  obtain ⟨⟨⟨_, _⟩, _⟩, -, h⟩ := Option.bind_eq_some_iff.1 h
  obtain ⟨_, -, h⟩ := Option.bind_eq_some_iff.1 h
  obtain ⟨⟨⟨_, _⟩, _⟩, -, h⟩ := Option.bind_eq_some_iff.1 h
  obtain ⟨⟨_, _⟩, -, h⟩ := Option.bind_eq_some_iff.1 h
  dsimp only at h
  split at h
  all_goals
    obtain ⟨⟨_, _⟩, -, h⟩ := Option.bind_eq_some_iff.1 h
    simp only [Option.ite_none_right_eq_some, Option.some.injEq, Prod.mk.injEq] at h
    obtain ⟨hclock, ⟨rfl, rfl, rfl⟩, -⟩ := h
    exact hclock

/-! Forms of digits alone -/

theorem field_lt {ds : List Char} (hd : ds.all Char.isDigit = true) (i k : Nat) : field ds i k < 10 ^ k := by
  have hdigits : ((ds.drop i).take k).all Char.isDigit = true := by
    rw [List.all_eq_true] at hd ⊢
    intro c hc
    exact hd c (List.mem_of_mem_drop (List.mem_of_mem_take hc))
  exact (Digits.value_lt hdigits).trans_le (Nat.pow_le_pow_right (by decide) (List.length_take_le _ _))

theorem dateOfDigits?_spec {ds : List Char} (hd : ds.all Char.isDigit = true)
    (h : dateOfDigits? ds = some t) :
    ∃ year month day, Fits32 year ∧ Date.Valid ⟨year, month, day⟩ ∧ t = ofDate year month day := by
  rw [dateOfDigits?, Option.ite_none_right_eq_some, Option.some.injEq] at h
  obtain ⟨hdate, rfl⟩ := h
  have hbound := field_lt hd 0 4
  have hyear : Fits32 (field ds 0 4) := ⟨by omega, by omega⟩
  exact ⟨_, _, _, hyear, isDate_iff.1 hdate, rfl⟩

theorem clockOfDigits?_spec {ds : List Char} {pm : Option Bool} (h : clockOfDigits? ds pm = some t) :
    ∃ hour minute second, isClock hour minute second = true ∧ t = ofTime hour minute second := by
  unfold clockOfDigits? at h
  split at h
  all_goals
    obtain ⟨_, -, h⟩ := Option.bind_eq_some_iff.1 h
    simp only [Option.ite_none_right_eq_some, Option.some.injEq] at h
    exact ⟨_, _, _, h.1, h.2.symm⟩

theorem ofDigits?_fresh (hs : isAllDigits s = true) (h : ofDigits? s = some t) : t.Fresh := by
  rw [isAllDigits] at hs
  rw [ofDigits?] at h
  generalize splitMeridiem s = split at hs h
  obtain ⟨ds, pm⟩ := split
  dsimp only at hs h
  have hd : ds.all Char.isDigit = true := (Bool.and_eq_true_iff.1 hs).2
  split at h
  · obtain ⟨d, hdate, h⟩ := Option.bind_eq_some_iff.1 h
    obtain ⟨c, htime, h⟩ := Option.bind_eq_some_iff.1 h
    obtain ⟨year, month, day, hyear, hvalid, rfl⟩ := dateOfDigits?_spec hd hdate
    obtain ⟨hour, minute, second, hclock, rfl⟩ := clockOfDigits?_spec htime
    exact Option.some.inj h ▸ fresh_ofDateTime hyear hvalid hclock
  · split at h
    · obtain ⟨year, month, day, hyear, hvalid, rfl⟩ := dateOfDigits?_spec hd h
      exact fresh_ofDate hyear hvalid
    · split at h
      · obtain ⟨hour, minute, second, hclock, rfl⟩ := clockOfDigits?_spec h
        exact fresh_ofTime hclock
      · cases h

/-! Dates, times and intervals -/

theorem join?_fresh {date time : Option (Int × Int × Int)}
    (hdate : ∀ year month day, date = some (year, month, day) →
      Fits32 year ∧ Date.Valid ⟨year, month, day⟩)
    (htime : ∀ hour minute second, time = some (hour, minute, second) → isClock hour minute second = true)
    (h : join? date time = some t) : t.Fresh := by
  unfold join? at h
  split at h
  · obtain ⟨hyear, hvalid⟩ := hdate _ _ _ rfl
    exact Option.some.inj h ▸ fresh_ofDateTime hyear hvalid (htime _ _ _ rfl)
  · obtain ⟨hyear, hvalid⟩ := hdate _ _ _ rfl
    exact Option.some.inj h ▸ fresh_ofDate hyear hvalid
  · exact Option.some.inj h ▸ fresh_ofTime (htime _ _ _ rfl)
  · cases h

theorem dateTime?_fresh (h : dateTime? s order = some t) : t.Fresh := by
  rw [dateTime?] at h
  dsimp only at h
  split at h
  · exact ofDigits?_fresh ‹_› h
  · obtain ⟨date, r, hdate, h⟩ : ∃ date r, (∀ year month day, date = some (year, month, day) →
        Fits32 year ∧ Date.Valid ⟨year, month, day⟩) ∧
        (if r.isEmpty then join? date none
          else (clock? r).bind fun p =>
            if (skipSpaces p.2).isEmpty then join? date (some p.1) else none) = some t := by
      split at h
      · rename_i heq
        refine ⟨_, _, ?_, h⟩
        rintro _ _ _ ⟨⟩
        obtain heq | ⟨-, heq⟩ := (Option.orElse_eq_some _ _ _).1 heq
        · exact slashDate?_spec heq
        · exact dashDate?_spec heq
      · exact ⟨none, _, by rintro _ _ _ ⟨⟩, h⟩
    split at h
    · exact join?_fresh hdate (by rintro _ _ _ ⟨⟩) h
    · obtain ⟨⟨⟨hour, minute, second⟩, r⟩, hclock, h⟩ := Option.bind_eq_some_iff.1 h
      rw [Option.ite_none_right_eq_some] at h
      refine join?_fresh hdate ?_ h.2
      rintro _ _ _ ⟨⟩
      exact clock?_spec hclock

theorem interval_withUnit (t : Temporal) (unit : IntervalUnit) (n : Int) :
    (t.withUnit unit n).interval = t.interval := by
  cases unit <;> rfl

theorem parts?_interval {u : Temporal} {k : Nat} (h : parts? k t s = some u) : u.interval = t.interval := by
  induction k generalizing t s with
  | zero =>
    cases s with
    | nil => rw [Option.some.inj h]
    | cons c s => cases h
  | succ k ih =>
    cases s with
    | nil => rw [Option.some.inj h]
    | cons c s =>
      obtain ⟨⟨⟨n, unit⟩, r⟩, -, h⟩ := Option.bind_eq_some_iff.1 h
      exact (ih h).trans (interval_withUnit t unit n)

theorem interval?_interval (h : interval? s = some t) : t.interval = true := by
  obtain ⟨u, hu, h⟩ := Option.bind_eq_some_iff.1 h
  split at h
  · cases h
  · exact Option.some.inj h ▸ parts?_interval hu

theorem parse?_fresh {text : String} (h : parse? text order = some t) (hmoment : t.interval = false) :
    t.Fresh := by
  obtain h | ⟨-, h⟩ := (Option.orElse_eq_some _ _ _).1 h
  · exact dateTime?_fresh h
  · rw [interval?_interval h] at hmoment
    cases hmoment

end Reporting.Temporal
