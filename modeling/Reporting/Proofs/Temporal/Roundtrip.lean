import Reporting.Proofs.Decimal.Reading
import Reporting.Proofs.Temporal.Parsed
import Reporting.Temporal.Printer
/-!
The text of a date, a time or an interval is read as what was written. The readers are tried one after
the other, so each form is shown to be none that is tried before its own.
-/
namespace Reporting

namespace Digits

variable {n : Int} {width k : Nat}

/-! The digits of a number with zeros in front -/

theorem pad_of_nonneg (h : 0 ≤ n) (width : Nat) :
    pad width n = List.replicate (width - (ofNat n.natAbs).length) '0' ++ ofNat n.natAbs :=
  if_neg (Int.not_lt.2 h)

theorem all_isDigit_pad (h : 0 ≤ n) (width : Nat) : (pad width n).all Char.isDigit = true := by
  rw [pad_of_nonneg h]
  exact all_isDigit_zeros_append _ (all_isDigit_ofNat _)

theorem value_pad (h : 0 ≤ n) (width : Nat) : (value (pad width n) : Int) = n := by
  rw [pad_of_nonneg h, value_zeros_append, value_ofNat]
  exact Int.natAbs_of_nonneg h

theorem length_pad_le (h : 0 ≤ n) (hk : 0 < k) (hlt : n < 10 ^ k) (hwidth : width ≤ k) :
    (pad width n).length ≤ k := by
  have hcount : count n.natAbs ≤ k := by
    apply count_le_of_lt _ hk
    have hcast : ((10 ^ k : Nat) : Int) = 10 ^ k := Nat.cast_pow 10 k
    omega
  rw [pad_of_nonneg h, List.length_append, List.length_replicate, length_ofNat]
  omega

theorem pad_ne_nil (h : 0 ≤ n) (width : Nat) : pad width n ≠ [] := by
  rw [pad_of_nonneg h]
  exact List.append_ne_nil_of_right_ne_nil _ (ofNat_ne_nil _)

end Digits

namespace Temporal
open Calendar Digits

variable {s r ds : List Char} {t : Temporal} {order : DateOrder} {c : Char} {n : Int} {max : Nat}

/-! Digits and separators -/

/-- Nothing that could go on with the digits before it. -/
def Ends (s : List Char) : Prop := ∀ c ∈ s.head?, c.isDigit = false

theorem number?_digits (hne : ds ≠ []) (hd : ds.all Char.isDigit = true) (hlength : ds.length ≤ max)
    (hr : Ends r) : number? max (ds ++ r) = some ((value ds, ds.length), r) := by
  have hdigits : ((ds ++ r).take max).takeWhile Char.isDigit = ds := by
    have hstops : Ends (r.take (max - ds.length)) := by
      intro c hc
      rw [List.head?_take] at hc
      split at hc
      · cases hc
      · exact hr c hc
    rw [List.take_append, List.take_of_length_le hlength]
    exact congrArg Prod.fst (Text.splitWhile_of_all hd hstops)
  rw [number?, hdigits, if_neg (by simpa using hne), List.drop_left]

/-- What is left after reading from digits is the rest of the digits and what follows them. -/
theorem number?_rest {v : Nat × Nat} {r' : List Char} (hd : ds.all Char.isDigit = true) (hr : Ends r)
    (h : number? max (ds ++ r) = some (v, r')) : ∃ k, r' = ds.drop k ++ r := by
  by_cases hlength : ds.length ≤ max
  · cases ds with
    | nil =>
      have hnone : (r.take max).takeWhile Char.isDigit = [] := by
        cases r with
        | nil => rw [List.take_nil]; rfl
        | cons c r =>
          cases max with
          | zero => rfl
          | succ max => exact List.takeWhile_cons_of_neg (by rw [hr c rfl]; exact Bool.false_ne_true)
      rw [List.nil_append, number?, hnone] at h
      cases h
    | cons d ds =>
      rw [number?_digits (List.cons_ne_nil d ds) hd hlength hr] at h
      cases h
      exact ⟨(d :: ds).length, by rw [List.drop_length, List.nil_append]⟩
  · have hle : max ≤ ds.length := Nat.le_of_not_le hlength
    have hall : (ds.take max).takeWhile Char.isDigit = ds.take max := by
      rw [List.takeWhile_eq_self_iff]
      exact fun c hc => List.all_eq_true.1 hd c (List.mem_of_mem_take hc)
    rw [number?, List.take_append_of_le_length hle, hall] at h
    split at h
    · cases h
    · cases h
      rw [List.length_take, Nat.min_eq_left hle]
      exact ⟨max, List.drop_append_of_le_length hle⟩

theorem number?_pad (max width : Nat) (n : Int) (h : 0 ≤ n) (hmax : 0 < max) (hlt : n < 10 ^ max)
    (hwidth : width ≤ max) (hr : Ends r) :
    ∃ v k, number? max (pad width n ++ r) = some ((v, k), r) ∧ (v : Int) = n :=
  ⟨_, _, number?_digits (pad_ne_nil h width) (all_isDigit_pad h width)
    (length_pad_le h hmax hlt hwidth) hr, value_pad h width⟩

theorem eat?_cons (c : Char) (s : List Char) : eat? c (c :: s) = some s := if_pos rfl

theorem eat?_of_ne {d : Char} (h : d ≠ c) (s : List Char) : eat? c (d :: s) = none := if_neg h

theorem ends_cons (h : c.isDigit = false) (s : List Char) : Ends (c :: s) := by
  rintro _ ⟨⟩
  exact h

theorem ends_nil : Ends [] := nofun

/-! What is read from a date or a time is in the text -/

theorem number?_suffix {v : Nat × Nat} (h : number? max s = some (v, r)) : r <:+ s := by
  rw [number?] at h
  split at h
  · cases h
  · cases h
    exact List.drop_suffix _ s

theorem eat?_eq_some (h : eat? c s = some r) : s = c :: r := by
  cases s with
  | nil => cases h
  | cons d s =>
    rw [eat?] at h
    split at h
    · rename_i hd
      rw [hd, Option.some.inj h]
    · cases h

theorem mem_of_number?_eat? {v : Nat × Nat} {r' : List Char} (hn : number? max s = some (v, r))
    (he : eat? c r = some r') : c ∈ s := by
  apply (number?_suffix hn).subset
  rw [eat?_eq_some he]
  exact List.mem_cons_self

theorem slashDate?_of_not_mem (h : '/' ∉ s) (order : DateOrder) : slashDate? order s = none := by
  rw [Option.eq_none_iff_forall_ne_some]
  intro result hresult
  rw [slashDate?] at hresult
  obtain ⟨⟨_, r⟩, hn, hresult⟩ := Option.bind_eq_some_iff.1 hresult
  obtain ⟨_, he, -⟩ := Option.bind_eq_some_iff.1 hresult
  exact h (mem_of_number?_eat? hn he)

theorem dashDate?_of_not_mem (h : '-' ∉ s) : dashDate? s = none := by
  rw [Option.eq_none_iff_forall_ne_some]
  intro result hresult
  rw [dashDate?] at hresult
  obtain ⟨⟨_, r⟩, hn, hresult⟩ := Option.bind_eq_some_iff.1 hresult
  obtain ⟨_, he, -⟩ := Option.bind_eq_some_iff.1 hresult
  exact h (mem_of_number?_eat? hn he)

theorem clock?_of_not_mem (h : ':' ∉ s) : clock? s = none := by
  rw [Option.eq_none_iff_forall_ne_some]
  intro result hresult
  rw [clock?] at hresult
  obtain ⟨⟨_, r⟩, hn, hresult⟩ := Option.bind_eq_some_iff.1 hresult
  obtain ⟨_, he, -⟩ := Option.bind_eq_some_iff.1 hresult
  exact h (mem_of_number?_eat? hn he)

theorem isAllDigits_of_mem (hc : c ∈ s.dropLast) (hd : c.isDigit = false) :
    isAllDigits s = false := by
  have hsplit : c ∈ (splitMeridiem s).1 := by
    have hfront : c ∈ s.take (s.length - 1) := by rwa [← List.dropLast_eq_take]
    unfold splitMeridiem
    split
    · exact hfront
    · exact hfront
    · exact List.mem_of_mem_take hfront
  rw [Bool.eq_false_iff]
  intro hall
  have hdigits := List.all_eq_true.1 (Bool.and_eq_true_iff.1 hall).2 c hsplit
  rw [hd] at hdigits
  cases hdigits

/-! Dates and times -/

/-- A date in the years that have up to six digits, a time of day, or both. -/
structure Moment (t : Temporal) : Prop where
  moment : t.interval = false
  parts : t.hasDate = true ∨ t.hasTime = true
  year : 0 ≤ t.year ∧ t.year ≤ 999999
  date : t.hasDate = true → t.asDate.Valid
  undated : t.hasDate = false → t.year = 0 ∧ t.month = 0 ∧ t.day = 0
  clock : isClock t.hour t.minute t.second = true
  untimed : t.hasTime = false → t.hour = 0 ∧ t.minute = 0 ∧ t.second = 0

theorem dashDate?_renderDate (hyear : 0 ≤ t.year ∧ t.year ≤ 999999) (hvalid : t.asDate.Valid)
    (hr : Ends r) : dashDate? (t.renderDate ++ r) = some ((t.year, t.month, t.day), r) := by
  obtain ⟨⟨hfirst, hlast⟩, hday, hend⟩ := hvalid
  have hdays := (daysInMonth_bounds t.year t.month).2
  change 1 ≤ t.month at hfirst
  change t.month ≤ 12 at hlast
  change 1 ≤ t.day at hday
  change t.day ≤ daysInMonth t.year t.month at hend
  have hdash (s : List Char) : Ends ('-' :: s) := ends_cons rfl s
  obtain ⟨year, _, hreadYear, hyear'⟩ := number?_pad 6 4 t.year hyear.1
    (by decide) (by omega) (by decide) (hdash (pad 2 t.month ++ '-' :: (pad 2 t.day ++ r)))
  obtain ⟨month, _, hreadMonth, hmonth'⟩ := number?_pad 2 2 t.month
    (by omega) (by decide) (by omega) (by decide) (hdash (pad 2 t.day ++ r))
  obtain ⟨day, _, hreadDay, hday'⟩ := number?_pad 2 2 t.day
    (by omega) (by decide) (by omega) (by decide) hr
  have hdate : isDate t.year t.month t.day = true := isDate_iff.2 ⟨⟨hfirst, hlast⟩, hday, hend⟩
  have htext : t.renderDate ++ r =
      pad 4 t.year ++ '-' :: (pad 2 t.month ++ '-' :: (pad 2 t.day ++ r)) := by
    simp only [renderDate, List.append_assoc, List.cons_append]
  simp only [dashDate?, htext, hreadYear, hreadMonth, hreadDay, eat?_cons, Option.bind_eq_bind,
    Option.bind_some, hyear', hmonth', hday', hdate, if_true]

theorem clock?_renderTime (h : isClock t.hour t.minute t.second = true) :
    clock? t.renderTime = some ((t.hour, t.minute, t.second), []) := by
  have hclock := h
  simp only [isClock, Bool.and_eq_true, decide_eq_true_eq] at h
  obtain ⟨⟨⟨⟨⟨hhour, hhour'⟩, hminute⟩, hminute'⟩, hsecond⟩, hsecond'⟩ := h
  have hcolon (s : List Char) : Ends (':' :: s) := ends_cons rfl s
  obtain ⟨hour, _, hreadHour, heqHour⟩ := number?_pad 2 2 t.hour hhour
    (by decide) (by omega) (by decide) (hcolon (pad 2 t.minute ++ ':' :: pad 2 t.second))
  obtain ⟨minute, _, hreadMinute, heqMinute⟩ := number?_pad 2 2 t.minute
    hminute (by decide) (by omega) (by decide) (hcolon (pad 2 t.second))
  obtain ⟨second, _, hreadSecond, heqSecond⟩ := number?_pad 2 2 t.second
    hsecond (by decide) (by omega) (by decide) ends_nil
  have hseconds : seconds? (':' :: pad 2 t.second) = some (second, []) := by
    rw [List.append_nil] at hreadSecond
    rw [seconds?, eat?_cons]
    simp only [hreadSecond, Option.bind_eq_bind, Option.bind_some]
    rfl
  have htext : t.renderTime = pad 2 t.hour ++ ':' :: (pad 2 t.minute ++ ':' :: pad 2 t.second) := by
    simp only [renderTime, List.append_assoc, List.cons_append]
  have hmeridiem : meridiem? (skipSpaces []) = none := rfl
  have hzone : skipZone (skipSpaces []) = [] := rfl
  simp only [clock?, htext, hreadHour, hreadMinute, hseconds, eat?_cons, Option.bind_eq_bind,
    Option.bind_some, hmeridiem, hzone, heqHour, heqMinute, heqSecond, hclock, if_true]

/-! The text of dates and times -/

theorem mem_renderDate {t : Temporal} (hyear : 0 ≤ t.year) (hvalid : t.asDate.Valid)
    (hc : c ∈ t.renderDate) : c.isDigit = true ∨ c = '-' := by
  have hmonth : 0 ≤ t.month := Int.le_trans (by decide) hvalid.month.1
  have hday : 0 ≤ t.day := Int.le_trans (by decide) hvalid.day.1
  simp only [renderDate, List.mem_append, List.mem_cons] at hc
  have hdigit {n : Int} (hn : 0 ≤ n) {width : Nat} (hc : c ∈ pad width n) : c.isDigit = true :=
    List.all_eq_true.1 (all_isDigit_pad hn width) c hc
  rcases hc with (hc | hc | hc) | hc | hc
  · exact .inl (hdigit hyear hc)
  · exact .inr hc
  · exact .inl (hdigit hmonth hc)
  · exact .inr hc
  · exact .inl (hdigit hday hc)

theorem mem_renderTime (h : isClock t.hour t.minute t.second = true) (hc : c ∈ t.renderTime) :
    c.isDigit = true ∨ c = ':' := by
  simp only [isClock, Bool.and_eq_true, decide_eq_true_eq] at h
  obtain ⟨⟨⟨⟨⟨hhour, -⟩, hminute⟩, -⟩, hsecond⟩, -⟩ := h
  simp only [renderTime, List.mem_append, List.mem_cons] at hc
  have hdigit {n : Int} (hn : 0 ≤ n) {width : Nat} (hc : c ∈ pad width n) : c.isDigit = true :=
    List.all_eq_true.1 (all_isDigit_pad hn width) c hc
  rcases hc with (hc | hc | hc) | hc | hc
  · exact .inl (hdigit hhour hc)
  · exact .inr hc
  · exact .inl (hdigit hminute hc)
  · exact .inr hc
  · exact .inl (hdigit hsecond hc)

theorem renderDate_ne_nil (t : Temporal) : t.renderDate ≠ [] := by
  rw [renderDate, List.append_assoc]
  exact List.append_ne_nil_of_right_ne_nil _ (List.cons_ne_nil _ _)

theorem renderTime_ne_nil (t : Temporal) : t.renderTime ≠ [] := by
  rw [renderTime, List.append_assoc]
  exact List.append_ne_nil_of_right_ne_nil _ (List.cons_ne_nil _ _)

theorem trimmed_renderDate (hyear : 0 ≤ t.year) (hvalid : t.asDate.Valid) :
    Text.Trimmed t.renderDate := by
  apply Text.trimmed_of_forall
  intro c hc
  obtain hc | rfl := mem_renderDate hyear hvalid hc
  · exact Text.isBlank_of_isDigit hc
  · decide

theorem trimmed_renderTime (h : isClock t.hour t.minute t.second = true) :
    Text.Trimmed t.renderTime := by
  apply Text.trimmed_of_forall
  intro c hc
  obtain hc | rfl := mem_renderTime h hc
  · exact Text.isBlank_of_isDigit hc
  · decide

/-- The date in front of a text is read, and then what follows it after a space. -/
theorem dateTime?_of_date {d : Int × Int × Int} (htrim : Text.trim s = s)
    (hdigits : isAllDigits s = false) (hslash : slashDate? order s = none)
    (hdash : dashDate? s = some (d, [])) : dateTime? s order = join? (some d) none := by
  simp only [dateTime?, htrim, hdigits, hslash, hdash, Option.orElse_eq_orElse, Option.orElse]
  rfl

theorem skipSpaces_renderTime (h : isClock t.hour t.minute t.second = true) :
    skipSpaces (' ' :: t.renderTime) = t.renderTime := by
  rw [skipSpaces, List.dropWhile_cons_of_pos (by decide)]
  obtain ⟨d, r, htext⟩ := List.exists_cons_of_ne_nil (renderTime_ne_nil t)
  have hd : d ≠ ' ' := by
    rintro rfl
    have hmem := mem_renderTime h (c := ' ') (by rw [htext]; exact List.mem_cons_self)
    revert hmem
    decide
  rw [htext, List.dropWhile_cons_of_neg (by simpa using hd)]

theorem dateTime?_of_date_time {d : Int × Int × Int} (htrim : Text.trim s = s)
    (hdigits : isAllDigits s = false) (hslash : slashDate? order s = none)
    (hdash : dashDate? s = some (d, ' ' :: t.renderTime))
    (hclock : isClock t.hour t.minute t.second = true) :
    dateTime? s order = join? (some d) (some (t.hour, t.minute, t.second)) := by
  have hsome : t.renderTime.isEmpty = false := List.isEmpty_eq_false_iff.2 (renderTime_ne_nil t)
  have heat : eat? 'T' (' ' :: t.renderTime) = none := eat?_of_ne (by decide) _
  have hspaces : (skipSpaces []).isEmpty = true := rfl
  simp only [dateTime?, htrim, hdigits, hslash, hdash, Option.orElse_eq_orElse, Option.orElse,
    Bool.false_eq_true, if_false, heat, Option.getD_none, skipSpaces_renderTime hclock, hsome,
    clock?_renderTime hclock, Option.bind_eq_bind, Option.bind_some, hspaces, if_true]

theorem dateTime?_of_time (htrim : Text.trim t.renderTime = t.renderTime)
    (hdigits : isAllDigits t.renderTime = false) (hslash : slashDate? order t.renderTime = none)
    (hdash : dashDate? t.renderTime = none) (hclock : isClock t.hour t.minute t.second = true) :
    dateTime? t.renderTime order = join? none (some (t.hour, t.minute, t.second)) := by
  have hsome : t.renderTime.isEmpty = false := List.isEmpty_eq_false_iff.2 (renderTime_ne_nil t)
  have hspaces : (skipSpaces []).isEmpty = true := rfl
  simp only [dateTime?, htrim, hdigits, hslash, hdash, Option.orElse_eq_orElse, Option.orElse,
    Bool.false_eq_true, if_false, hsome, clock?_renderTime hclock, Option.bind_eq_bind,
    Option.bind_some, hspaces, if_true]

/-- A separator in front of the last character. -/
theorem mem_dropLast_append (hr : r ≠ []) (h : c ∈ s) : c ∈ (s ++ r).dropLast := by
  rw [List.dropLast_append_of_ne_nil hr]
  exact List.mem_append_left _ h

theorem isAllDigits_renderDate (t : Temporal) (r : List Char) :
    isAllDigits (t.renderDate ++ r) = false := by
  have hmem : '-' ∈ pad 4 t.year ++ ['-'] := List.mem_append_right _ List.mem_cons_self
  have htext : t.renderDate ++ r =
      (pad 4 t.year ++ ['-']) ++ (pad 2 t.month ++ '-' :: pad 2 t.day ++ r) := by
    simp only [renderDate, List.append_assoc, List.cons_append, List.nil_append]
  rw [htext]
  refine isAllDigits_of_mem (mem_dropLast_append ?_ hmem) rfl
  rw [List.append_assoc]
  exact List.append_ne_nil_of_right_ne_nil _ (List.cons_ne_nil _ _)

theorem isAllDigits_renderTime (t : Temporal) : isAllDigits t.renderTime = false := by
  have hmem : ':' ∈ pad 2 t.hour ++ [':'] := List.mem_append_right _ List.mem_cons_self
  have htext : t.renderTime = (pad 2 t.hour ++ [':']) ++ (pad 2 t.minute ++ ':' :: pad 2 t.second) := by
    simp only [renderTime, List.append_assoc, List.cons_append, List.nil_append]
  rw [htext]
  exact isAllDigits_of_mem (mem_dropLast_append
    (List.append_ne_nil_of_right_ne_nil _ (List.cons_ne_nil _ _)) hmem) rfl

theorem not_mem_of_digits {d : Char} (h : ∀ c ∈ s, c.isDigit = true ∨ c = d) (hc : c.isDigit = false)
    (hd : c ≠ d) : c ∉ s := by
  intro hmem
  obtain hdigit | rfl := h c hmem
  · rw [hc] at hdigit
    cases hdigit
  · exact hd rfl

theorem renderChars_of_date (hmoment : t.interval = false) (hdate : t.hasDate = true)
    (htime : t.hasTime = false) : t.renderChars = t.renderDate := by
  rw [renderChars, hmoment, hdate, htime]
  exact List.append_nil _ |>.trans (List.append_nil _)

theorem renderChars_of_date_time (hmoment : t.interval = false) (hdate : t.hasDate = true)
    (htime : t.hasTime = true) : t.renderChars = t.renderDate ++ ' ' :: t.renderTime := by
  rw [renderChars, hmoment, hdate, htime]
  exact List.append_assoc t.renderDate [' '] t.renderTime

theorem renderChars_of_time (hmoment : t.interval = false) (hdate : t.hasDate = false)
    (htime : t.hasTime = true) : t.renderChars = t.renderTime := by
  rw [renderChars, hmoment, hdate, htime]
  rfl

/-- What is read of the text of a date or a time, and that it is none of the forms that are tried
before. -/
structure Read (order : DateOrder) (s : List Char) (t : Temporal) : Prop where
  trim : Text.trim s = s
  digits : isAllDigits s = false
  slash : slashDate? order s = none
  value : dateTime? s order = some { t with carry := 0 }

theorem Moment.read_date (h : t.Moment) (order : DateOrder) (hdate : t.hasDate = true)
    (htime : t.hasTime = false) : Read order t.renderChars t := by
  have hvalid := h.date hdate
  have htrim := (trimmed_renderDate h.year.1 hvalid).trim
  have hdigits := isAllDigits_renderDate t []
  have hdash := dashDate?_renderDate h.year hvalid ends_nil
  have hslash := slashDate?_of_not_mem (not_mem_of_digits (fun _ => mem_renderDate h.year.1 hvalid)
    (by decide) (by decide)) order
  rw [List.append_nil] at hdigits hdash
  rw [renderChars_of_date h.moment hdate htime]
  refine ⟨htrim, hdigits, hslash, ?_⟩
  obtain ⟨hhour, hminute, hsecond⟩ := h.untimed htime
  rw [dateTime?_of_date htrim hdigits hslash hdash]
  simp only [join?, ofDate, hhour, hminute, hsecond, hdate, htime, h.moment]

theorem Moment.read_date_time (h : t.Moment) (order : DateOrder) (hdate : t.hasDate = true)
    (htime : t.hasTime = true) : Read order t.renderChars t := by
  have hvalid := h.date hdate
  have hspace : Ends (' ' :: t.renderTime) := ends_cons rfl _
  have htrim : Text.trim (t.renderDate ++ ' ' :: t.renderTime) = t.renderDate ++ ' ' :: t.renderTime :=
    ((trimmed_renderDate h.year.1 hvalid).append (trimmed_renderTime h.clock) (renderDate_ne_nil t)
      (renderTime_ne_nil t) [' ']).trim
  have hdigits := isAllDigits_renderDate t (' ' :: t.renderTime)
  have hdash := dashDate?_renderDate h.year hvalid hspace
  have hslash : slashDate? order (t.renderDate ++ ' ' :: t.renderTime) = none := by
    apply slashDate?_of_not_mem
    rw [List.mem_append, List.mem_cons, not_or, not_or]
    exact ⟨not_mem_of_digits (fun _ => mem_renderDate h.year.1 hvalid) (by decide) (by decide),
      by decide, not_mem_of_digits (fun _ => mem_renderTime h.clock) (by decide) (by decide)⟩
  rw [renderChars_of_date_time h.moment hdate htime]
  refine ⟨htrim, hdigits, hslash, ?_⟩
  rw [dateTime?_of_date_time htrim hdigits hslash hdash h.clock]
  simp only [join?, ofDateTime, hdate, htime, h.moment]

theorem Moment.read_time (h : t.Moment) (order : DateOrder) (hdate : t.hasDate = false) :
    Read order t.renderChars t := by
  have htime : t.hasTime = true := h.parts.resolve_left (by rw [hdate]; exact Bool.false_ne_true)
  have htrim := (trimmed_renderTime h.clock).trim
  have hdigits := isAllDigits_renderTime t
  have hslash := slashDate?_of_not_mem (not_mem_of_digits (fun _ => mem_renderTime h.clock)
    (by decide) (by decide)) order
  have hdash := dashDate?_of_not_mem (not_mem_of_digits (fun _ => mem_renderTime h.clock)
    (by decide) (by decide))
  rw [renderChars_of_time h.moment hdate htime]
  refine ⟨htrim, hdigits, hslash, ?_⟩
  obtain ⟨hyear, hmonth, hday⟩ := h.undated hdate
  rw [dateTime?_of_time htrim hdigits hslash hdash h.clock]
  simp only [join?, ofTime, hyear, hmonth, hday, hdate, htime, h.moment]

theorem Moment.read (h : t.Moment) (order : DateOrder) : Read order t.renderChars t := by
  cases hdate : t.hasDate with
  | false => exact h.read_time order hdate
  | true =>
    cases htime : t.hasTime with
    | false => exact h.read_date order hdate htime
    | true => exact h.read_date_time order hdate htime

/-! Intervals -/

/-- An interval that is not zero. -/
structure Span (t : Temporal) : Prop where
  interval : t.interval = true
  undated : t.hasDate = false
  untimed : t.hasTime = false
  fits : Fits32 t.year ∧ Fits32 t.month ∧ Fits32 t.day ∧ Fits32 t.hour ∧ Fits32 t.minute ∧ Fits32 t.second
  nonzero : ¬(t.year = 0 ∧ t.month = 0 ∧ t.day = 0 ∧ t.hour = 0 ∧ t.minute = 0 ∧ t.second = 0)

namespace IntervalUnit

/-- The name under which a unit is written. -/
def text : IntervalUnit → String
  | year => "years"
  | month => "months"
  | day => "days"
  | hour => "hours"
  | minute => "minutes"
  | second => "seconds"

/-- The field of a unit. -/
def field (t : Temporal) : IntervalUnit → Int
  | year => t.year
  | month => t.month
  | day => t.day
  | hour => t.hour
  | minute => t.minute
  | second => t.second

/-- The units in the order in which they are written. -/
def all : List IntervalUnit := [year, month, day, hour, minute, second]

theorem unit?_text (u : IntervalUnit) (r : List Char) : unit? (u.text.toList ++ r) = some (u, r) := by
  cases u <;> rfl

theorem of_mem_text {u : IntervalUnit} {c : Char} (h : c ∈ u.text.toList) :
    Text.isBlank c = false ∧ c.toLower = c := by
  have hall : (u.text.toList.all fun c => !Text.isBlank c && c.toLower == c) = true := by
    cases u <;> rfl
  have hc := List.all_eq_true.1 hall c h
  rw [Bool.and_eq_true, Bool.not_eq_true', beq_iff_eq] at hc
  exact hc

theorem trimmed_text (u : IntervalUnit) : Text.Trimmed u.text.toList :=
  Text.trimmed_of_forall fun _ hc => (of_mem_text hc).1

theorem text_ne_nil (u : IntervalUnit) : u.text.toList ≠ [] := by
  cases u <;> decide

/-- A field and its unit as text. -/
def spell (t : Temporal) (u : IntervalUnit) : List Char := ofInt (u.field t) ++ (' ' :: u.text.toList)

/-- The fields of an interval as text. -/
def spellAll (t : Temporal) (us : List IntervalUnit) : List Char :=
  List.intercalate [' '] (us.map (spell t))

end IntervalUnit

open IntervalUnit (spell spellAll unit?_text)

variable {u : IntervalUnit} {us : List IntervalUnit}

theorem ofInt_eq (n : Int) : ofInt n = if n < 0 then '-' :: ofNat n.natAbs else ofNat n.natAbs := by
  simp only [ofInt, pad, Nat.zero_sub, List.replicate_zero, List.nil_append]

theorem mem_ofInt (h : c ∈ ofInt n) : c.isDigit = true ∨ c = '-' := by
  have hdigits {c : Char} (hc : c ∈ ofNat n.natAbs) : c.isDigit = true :=
    List.all_eq_true.1 (all_isDigit_ofNat _) c hc
  rw [ofInt_eq] at h
  split at h
  · obtain rfl | h := List.mem_cons.1 h
    · exact .inr rfl
    · exact .inl (hdigits h)
  · exact .inl (hdigits h)

theorem ofInt_ne_nil (n : Int) : ofInt n ≠ [] := by
  rw [ofInt_eq]
  split
  · exact List.cons_ne_nil _ _
  · exact ofNat_ne_nil _

theorem trimmed_ofInt (n : Int) : Text.Trimmed (ofInt n) := by
  apply Text.trimmed_of_forall
  intro c hc
  obtain hc | rfl := mem_ofInt hc
  · exact Text.isBlank_of_isDigit hc
  · decide

theorem splitSign_ofInt (n : Int) (r : List Char) :
    ∃ sign : Int, splitSign (ofInt n ++ r) = (sign, ofNat n.natAbs ++ r) ∧ sign * n.natAbs = n := by
  rw [ofInt_eq]
  split
  · exact ⟨-1, rfl, by omega⟩
  · refine ⟨1, ?_, by omega⟩
    obtain ⟨d, ds, hds⟩ := List.exists_cons_of_ne_nil (ofNat_ne_nil n.natAbs)
    have hd : d.isDigit = true :=
      List.all_eq_true.1 (all_isDigit_ofNat n.natAbs) d (by rw [hds]; exact List.mem_cons_self)
    have hminus : d ≠ '-' := Decimal.ne_of_isDigit hd rfl
    have hplus : d ≠ '+' := Decimal.ne_of_isDigit hd rfl
    rw [hds, List.cons_append]
    unfold splitSign
    split
    · rename_i heq
      exact absurd (List.cons.inj heq).1 hminus
    · rename_i heq
      exact absurd (List.cons.inj heq).1 hplus
    · rfl

/-- A field is read with its unit, up to the next field. -/
theorem part?_spell (hn : Fits32 (u.field t)) (r : List Char) :
    part? (u.spell t ++ r) = some ((u.field t, u), Text.trimStart r) := by
  obtain ⟨sign, hsign, hvalue⟩ := splitSign_ofInt (u.field t) (' ' :: (u.text.toList ++ r))
  have hspace : Ends (' ' :: (u.text.toList ++ r)) := ends_cons rfl _
  have hsplit := Text.splitWhile_of_all (all_isDigit_ofNat (u.field t).natAbs) hspace
  have hsome : (ofNat (u.field t).natAbs).isEmpty = false :=
    List.isEmpty_eq_false_iff.2 (ofNat_ne_nil _)
  have htrim : Text.trimStart (' ' :: (u.text.toList ++ r)) = u.text.toList ++ r := by
    rw [Text.trimStart, List.dropWhile_cons_of_pos (by decide)]
    apply Text.trimStart_of_head
    rw [List.head?_append_of_ne_nil _ u.text_ne_nil]
    exact u.trimmed_text.1
  have htext : u.spell t ++ r = ofInt (u.field t) ++ ' ' :: (u.text.toList ++ r) := by
    rw [spell, List.append_assoc, List.cons_append]
  simp only [part?, htext, hsign, hsplit, hsome, Bool.false_eq_true, if_false, value_ofNat, hvalue,
    htrim, unit?_text, Option.bind_eq_bind, Option.bind_some]
  exact if_pos hn

theorem spell_ne_nil (t : Temporal) (u : IntervalUnit) : u.spell t ≠ [] :=
  List.append_ne_nil_of_left_ne_nil (ofInt_ne_nil _) _

theorem trimmed_spell (t : Temporal) (u : IntervalUnit) : Text.Trimmed (u.spell t) :=
  (trimmed_ofInt _).append u.trimmed_text (ofInt_ne_nil _) u.text_ne_nil [' ']

theorem spellAll_cons (t : Temporal) (u v : IntervalUnit) (us : List IntervalUnit) :
    spellAll t (u :: v :: us) = u.spell t ++ ([' '] ++ spellAll t (v :: us)) := by
  rw [spellAll, List.map_cons, List.map_cons, List.intercalate_cons_cons, List.append_assoc]
  rfl

theorem spellAll_singleton (t : Temporal) (u : IntervalUnit) : spellAll t [u] = u.spell t :=
  List.intercalate_singleton

theorem trimmed_spellAll (t : Temporal) (u : IntervalUnit) (us : List IntervalUnit) :
    spellAll t (u :: us) ≠ [] ∧ Text.Trimmed (spellAll t (u :: us)) := by
  induction us generalizing u with
  | nil =>
    rw [spellAll_singleton]
    exact ⟨spell_ne_nil t u, trimmed_spell t u⟩
  | cons v us ih =>
    obtain ⟨hne, htrimmed⟩ := ih v
    rw [spellAll_cons]
    exact ⟨List.append_ne_nil_of_left_ne_nil (spell_ne_nil t u) _,
      (trimmed_spell t u).append htrimmed (spell_ne_nil t u) hne [' ']⟩

theorem length_le_spellAll (t : Temporal) (us : List IntervalUnit) :
    us.length ≤ (spellAll t us).length := by
  induction us with
  | nil => exact Nat.zero_le _
  | cons u us ih =>
    have hpos := List.length_pos_of_ne_nil (spell_ne_nil t u)
    cases us with
    | nil =>
      rw [spellAll_singleton]
      exact hpos
    | cons v us =>
      rw [spellAll_cons, List.length_append, List.length_append, List.length_cons]
      omega

theorem parts?_succ (hs : s ≠ []) (k : Nat) (t : Temporal) : parts? (k + 1) t s =
    (part? s).bind fun p => parts? k (t.withUnit p.1.2 p.1.1) p.2 := by
  cases s with
  | nil => exact absurd rfl hs
  | cons c s => rfl

theorem parts?_nil (k : Nat) (t : Temporal) : parts? k t [] = some t := by
  cases k <;> rfl

/-- The fields are read one after the other, each into its place. -/
theorem parts?_spellAll {k : Nat} (w : Temporal) (hfits : ∀ u ∈ us, Fits32 (u.field t)) (hne : us ≠ [])
    (hk : us.length ≤ k) : parts? k w (spellAll t us) =
      some (us.foldl (fun w u => w.withUnit u (u.field t)) w) := by
  induction us generalizing k w with
  | nil => exact absurd rfl hne
  | cons u us ih =>
    obtain ⟨k, rfl⟩ : ∃ j, k = j + 1 := ⟨k - 1, (Nat.succ_pred_eq_of_pos (Nat.lt_of_lt_of_le
      (Nat.succ_pos _) hk)).symm⟩
    have hpart := part?_spell (hfits u List.mem_cons_self)
    rw [parts?_succ (trimmed_spellAll t u us).1]
    cases us with
    | nil =>
      have hread := hpart []
      rw [List.append_nil] at hread
      rw [spellAll_singleton, hread, Option.bind_some]
      exact parts?_nil k _
    | cons v us =>
      have hrest : Text.trimStart ([' '] ++ spellAll t (v :: us)) = spellAll t (v :: us) := by
        rw [List.singleton_append, Text.trimStart, List.dropWhile_cons_of_pos (by decide)]
        exact Text.trimStart_of_head (trimmed_spellAll t v us).2.1
      rw [spellAll_cons, hpart, hrest, Option.bind_some]
      exact ih _ (fun u hu => hfits u (List.mem_cons_of_mem _ hu)) (List.cons_ne_nil v us)
        (Nat.le_of_succ_le_succ hk)

/-! What stands in the text of an interval -/

theorem mem_spellAll (h : c ∈ spellAll t us) :
    c.isDigit = true ∨ c = '-' ∨ c = ' ' ∨ ∃ u : IntervalUnit, c ∈ u.text.toList := by
  have hspell {u : IntervalUnit} (h : c ∈ u.spell t) :
      c.isDigit = true ∨ c = '-' ∨ c = ' ' ∨ ∃ u : IntervalUnit, c ∈ u.text.toList := by
    rw [spell, List.mem_append, List.mem_cons] at h
    obtain h | h | h := h
    · exact (mem_ofInt h).imp_right .inl
    · exact .inr (.inr (.inl h))
    · exact .inr (.inr (.inr ⟨u, h⟩))
  induction us with
  | nil => cases h
  | cons u us ih =>
    cases us with
    | nil =>
      rw [spellAll_singleton] at h
      exact hspell h
    | cons v us =>
      rw [spellAll_cons, List.mem_append, List.singleton_append, List.mem_cons] at h
      obtain h | h | h := h
      · exact hspell h
      · exact .inr (.inr (.inl h))
      · exact ih h

theorem not_mem_spellAll (hc : c.isDigit = false) (hminus : c ≠ '-') (hspace : c ≠ ' ')
    (htext : ∀ u : IntervalUnit, c ∉ u.text.toList) : c ∉ spellAll t us := by
  intro h
  obtain h | h | h | ⟨u, h⟩ := mem_spellAll h
  · rw [hc] at h
    cases h
  · exact hminus h
  · exact hspace h
  · exact htext u h

theorem lowerAscii_spellAll (t : Temporal) (us : List IntervalUnit) :
    Text.lowerAscii (spellAll t us) = spellAll t us := by
  have hdigit {c : Char} (h : c.isDigit = true) : c.toLower = c := by
    have hrange := Text.isDigit_iff.1 h
    refine dif_neg ?_
    rintro ⟨hlow, -⟩
    have hlow : 65 ≤ c.toNat := hlow
    omega
  rw [Text.lowerAscii]
  conv_rhs => rw [← List.map_id (spellAll t us)]
  apply List.map_congr_left
  intro c hc
  obtain h | rfl | rfl | ⟨u, h⟩ := mem_spellAll hc
  · exact hdigit h
  · rfl
  · rfl
  · exact (IntervalUnit.of_mem_text h).2

theorem dashDate?_spell (t : Temporal) (u : IntervalUnit) (r : List Char) :
    dashDate? (u.spell t ++ r) = none := by
  rw [Option.eq_none_iff_forall_ne_some]
  intro result hresult
  rw [dashDate?] at hresult
  obtain ⟨⟨v, r'⟩, hn, hresult⟩ := Option.bind_eq_some_iff.1 hresult
  obtain ⟨r'', he, -⟩ := Option.bind_eq_some_iff.1 hresult
  have he : r' = '-' :: r'' := eat?_eq_some he
  rw [spell, List.append_assoc, ofInt_eq, List.cons_append] at hn
  split at hn
  · cases hn
  · have hdigits := all_isDigit_ofNat (u.field t).natAbs
    obtain ⟨k, hk⟩ := number?_rest hdigits (ends_cons rfl _) hn
    rw [he] at hk
    cases hdrop : (Digits.ofNat (u.field t).natAbs).drop k with
    | nil =>
      rw [hdrop] at hk
      cases hk
    | cons d ds =>
      rw [hdrop] at hk
      have hd : d.isDigit = true :=
        List.all_eq_true.1 hdigits d (List.mem_of_mem_drop (by rw [hdrop]; exact List.mem_cons_self))
      rw [← (List.cons.inj hk).1] at hd
      cases hd

theorem isAllDigits_spellAll (t : Temporal) (u : IntervalUnit) (us : List IntervalUnit) :
    isAllDigits (spellAll t (u :: us)) = false := by
  have hspace : ' ' ∈ ofInt (u.field t) ++ [' '] := List.mem_append_right _ List.mem_cons_self
  have hfirst (r : List Char) : ' ' ∈ (u.spell t ++ r).dropLast := by
    have htext : u.spell t ++ r = (ofInt (u.field t) ++ [' ']) ++ (u.text.toList ++ r) := by
      simp only [spell, List.append_assoc, List.cons_append, List.nil_append]
    rw [htext]
    exact mem_dropLast_append (List.append_ne_nil_of_left_ne_nil u.text_ne_nil r) hspace
  cases us with
  | nil =>
    have hmem := hfirst []
    rw [List.append_nil] at hmem
    rw [spellAll_singleton]
    exact isAllDigits_of_mem hmem rfl
  | cons v us =>
    rw [spellAll_cons]
    exact isAllDigits_of_mem (hfirst _) rfl

/-- The text of an interval is neither a date nor a time. -/
theorem dateTime?_spellAll (t : Temporal) (u : IntervalUnit) (us : List IntervalUnit)
    (order : DateOrder) : slashDate? order (spellAll t (u :: us)) = none ∧
      dateTime? (spellAll t (u :: us)) order = none := by
  have hslash : slashDate? order (spellAll t (u :: us)) = none := by
    apply slashDate?_of_not_mem
    apply not_mem_spellAll (by decide) (by decide) (by decide)
    intro u
    cases u <;> decide
  have hclock : clock? (spellAll t (u :: us)) = none := by
    apply clock?_of_not_mem
    apply not_mem_spellAll (by decide) (by decide) (by decide)
    intro u
    cases u <;> decide
  have hdash : dashDate? (spellAll t (u :: us)) = none := by
    cases us with
    | nil =>
      have hnone := dashDate?_spell t u []
      rw [List.append_nil] at hnone
      rw [spellAll_singleton, hnone]
    | cons v us => rw [spellAll_cons, dashDate?_spell]
  obtain ⟨hne, htrimmed⟩ := trimmed_spellAll t u us
  have hsome : (spellAll t (u :: us)).isEmpty = false := List.isEmpty_eq_false_iff.2 hne
  refine ⟨hslash, ?_⟩
  simp only [dateTime?, htrimmed.trim, isAllDigits_spellAll, hslash, hdash, hclock, hsome,
    Option.orElse_eq_orElse, Option.orElse, Bool.false_eq_true, if_false, Option.bind_eq_bind,
    Option.bind_none]

/-! Intervals are read back -/

/-- The units of the fields that are written. -/
def writtenUnits (t : Temporal) : List IntervalUnit :=
  IntervalUnit.all.filter fun u => u.field t ≠ 0

theorem parts_eq (t : Temporal) : t.parts.filter (·.1 ≠ 0) =
    t.writtenUnits.map fun u => (u.field t, u.text) := by
  have hparts : t.parts = IntervalUnit.all.map fun u => (u.field t, u.text) := rfl
  rw [hparts, List.filter_map]
  rfl

theorem renderInterval_eq (h : t.writtenUnits ≠ []) :
    t.renderInterval = spellAll t t.writtenUnits := by
  rw [renderInterval, parts_eq]
  obtain ⟨u, us, hus⟩ := List.exists_cons_of_ne_nil h
  rw [hus, List.map_cons]
  dsimp only
  rw [List.map_cons, List.map_map]
  rfl

theorem Span.writtenUnits_ne_nil (h : t.Span) : t.writtenUnits ≠ [] := by
  intro hnil
  have hall : ∀ u ∈ IntervalUnit.all, u.field t = 0 := by
    intro u hu
    have hnot := List.filter_eq_nil_iff.1 hnil u hu
    simpa using hnot
  simp only [IntervalUnit.all, List.forall_mem_cons, List.not_mem_nil, false_implies, implies_true,
    and_true] at hall
  exact h.nonzero hall

theorem withUnit_of_zero {w : Temporal} (hzero : u.field w = 0) (n : Int) :
    (if decide (n ≠ 0) = true then w.withUnit u n else w) = w.withUnit u n := by
  have hstays : w.withUnit u (u.field w) = w := by cases u <;> rfl
  rw [hzero] at hstays
  by_cases hn : n = 0
  · rw [hn, hstays]
    exact ite_self w
  · exact if_pos (decide_eq_true hn)

/-- Filling in the fields that are written gives all fields, as the others are zero. -/
theorem Span.foldl_withUnit (h : t.Span) :
    t.writtenUnits.foldl (fun w u => w.withUnit u (u.field t)) (ofInterval 0 0 0 0 0 0) =
      { t with carry := 0 } := by
  rw [writtenUnits, List.foldl_filter]
  simp only [IntervalUnit.all, List.foldl_cons, List.foldl_nil]
  rw [withUnit_of_zero (u := .year) rfl, withUnit_of_zero (u := .month) rfl,
    withUnit_of_zero (u := .day) rfl, withUnit_of_zero (u := .hour) rfl,
    withUnit_of_zero (u := .minute) rfl, withUnit_of_zero (u := .second) rfl]
  simp only [withUnit, ofInterval, IntervalUnit.field, h.interval, h.undated, h.untimed]

theorem Span.interval?_render (h : t.Span) :
    interval? t.renderInterval = some { t with carry := 0 } := by
  obtain ⟨u, us, hus⟩ := List.exists_cons_of_ne_nil h.writtenUnits_ne_nil
  have hfits : ∀ u ∈ t.writtenUnits, Fits32 (u.field t) := by
    obtain ⟨hyear, hmonth, hday, hhour, hminute, hsecond⟩ := h.fits
    intro u _
    cases u <;> assumption
  have htrim : Text.trimStart (spellAll t t.writtenUnits) = spellAll t t.writtenUnits := by
    rw [hus]
    exact Text.trimStart_of_head (trimmed_spellAll t u us).2.1
  have hread := parts?_spellAll (ofInterval 0 0 0 0 0 0) hfits h.writtenUnits_ne_nil
    (length_le_spellAll t t.writtenUnits)
  rw [h.foldl_withUnit] at hread
  have hnonzero : ({ t with carry := 0 } : Temporal) ≠ ofInterval 0 0 0 0 0 0 := by
    intro heq
    exact h.nonzero ⟨congrArg year heq, congrArg month heq, congrArg day heq, congrArg hour heq,
      congrArg minute heq, congrArg second heq⟩
  rw [renderInterval_eq h.writtenUnits_ne_nil]
  simp only [interval?, lowerAscii_spellAll, htrim, hread, Option.bind_eq_bind, Option.bind_some]
  exact if_neg hnonzero

/-- The text of a date, a time or an interval is read as the value that was written, without its carry.
Before that it is not taken for a date with slashes nor for digits alone, and that of an interval is not
taken for a date or a time. -/
theorem reads_render (h : t.Moment ∨ t.Span) (order : DateOrder) :
    parse? t.render order = some { t with carry := 0 } ∧
      slashDate? order (Text.trim t.render.toList) = none ∧
      isAllDigits (Text.trim t.render.toList) = false ∧
      (t.interval = true → dateTime? t.render.toList order = none) := by
  rw [parse?, render, String.toList_ofList]
  obtain h | h := h
  · obtain ⟨htrim, hdigits, hslash, hvalue⟩ := h.read order
    rw [htrim, hvalue]
    refine ⟨rfl, hslash, hdigits, fun hinterval => ?_⟩
    rw [h.moment] at hinterval
    cases hinterval
  · have htext : t.renderChars = t.renderInterval := by rw [renderChars, if_pos h.interval]
    obtain ⟨u, us, hus⟩ := List.exists_cons_of_ne_nil h.writtenUnits_ne_nil
    obtain ⟨hslash, hnone⟩ := dateTime?_spellAll t u us order
    have hdigits := isAllDigits_spellAll t u us
    have htrim := (trimmed_spellAll t u us).2.trim
    rw [← hus, ← renderInterval_eq h.writtenUnits_ne_nil] at hslash hnone hdigits htrim
    rw [htext, htrim, hnone, h.interval?_render]
    exact ⟨rfl, hslash, hdigits, fun _ => rfl⟩

/-- The last day of a year of six digits with a time of day, and an interval of the least field. -/
theorem reads_render_of_bounds :
    let t : Temporal := { ofDateTime 999999 12 31 23 59 59 with carry := 2 }
    let i : Temporal := ofInterval 0 (-0x80000000) 0 0 7 0
    (t.Moment ∧ t.render = "999999-12-31 23:59:59" ∧
      parse? t.render .dayFirst = some (ofDateTime 999999 12 31 23 59 59)) ∧
      i.Span ∧ i.render = "-2147483648 months 7 minutes" ∧
        parse? i.render .monthFirst = some i ∧ dateTime? i.render.toList .monthFirst = none := by
  intro t i
  have ht : t.Moment := by
    refine ⟨rfl, .inl rfl, by decide, fun _ => ⟨by decide, by decide⟩, nofun, rfl, nofun⟩
  have hi : i.Span := ⟨rfl, rfl, rfl, by decide, by decide⟩
  obtain ⟨hi', -, -, hnone⟩ := reads_render (.inr hi) .monthFirst
  exact ⟨⟨ht, by decide +kernel, (reads_render (.inl ht) .dayFirst).1⟩, hi, by decide +kernel, hi',
    hnone rfl⟩

end Temporal
end Reporting
