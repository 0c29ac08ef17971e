import Reporting.Proofs.Temporal.Sound
/-!
Sums of intervals. The carries from seconds up to days and from months up to years keep two totals, the months
of an interval and the seconds of its days and its time. So a sum is what the totals of its operands make of
it, and it is refused rather than wrapped where one of its fields has no room.
-/
namespace Reporting.Temporal

variable {i j k l t r s a b c d : Temporal} {m n : Int}

/-- The days and the time of an interval in seconds. -/
def duration (i : Temporal) : Int := 86400 * i.day + 3600 * i.hour + 60 * i.minute + i.second

/-- All fields have room. -/
@[mk_iff]
structure Roomy (t : Temporal) : Prop where
  year : Fits32 t.year
  month : Fits32 t.month
  day : Fits32 t.day
  hour : Fits32 t.hour
  minute : Fits32 t.minute
  second : Fits32 t.second

/-- The fields that are carried into have room for what they get. -/
@[mk_iff]
structure CarriesFit (t : Temporal) : Prop where
  minute : Fits32 (t.minute + t.second / 60)
  hour : Fits32 (t.hour + (60 * t.minute + t.second) / 3600)
  day : Fits32 (t.duration / 86400)
  year : Fits32 (t.length / 12)

/-- An interval in which nothing is left to be carried. -/
structure Carried (k : Temporal) : Prop where
  year : Fits32 k.year
  month : 0 ≤ k.month ∧ k.month < 12
  day : Fits32 k.day
  clock : isClock k.hour k.minute k.second = true

/-- The interval of a number of months and a number of seconds in which nothing is left to be carried. -/
def spread (t : Temporal) (months seconds : Int) : Temporal :=
  { t with
    year := months / 12
    month := months % 12
    day := seconds / 86400
    hour := seconds % 86400 / 3600
    minute := seconds % 3600 / 60
    second := seconds % 60
    carry := 0 }

theorem length_spread (t : Temporal) (m n : Int) : (t.spread m n).length = m := by
  simp only [length, spread]
  omega

theorem duration_spread (t : Temporal) (m n : Int) : (t.spread m n).duration = n := by
  simp only [duration, spread]
  omega

theorem carried_spread (hyear : Fits32 (m / 12)) (hday : Fits32 (n / 86400)) : (t.spread m n).Carried where
  year := hyear
  month := by
    simp only [spread]
    omega
  day := hday
  clock := by
    have hclock := isClock_of_seconds (n := n % 86400) (by omega) (by omega)
    have hrest : n % 86400 % 3600 = n % 3600 ∧ n % 86400 % 60 = n % 60 := by omega
    rwa [hrest.1, hrest.2] at hclock

/-! Carries -/

theorem carryTime_eq_some_iff : t.carryTime = some r ↔
    Fits32 (t.minute + t.second / 60) ∧ Fits32 (t.hour + (60 * t.minute + t.second) / 3600) ∧
      Fits32 (t.duration / 86400) ∧ r = { t with
        day := t.duration / 86400
        hour := t.duration % 86400 / 3600
        minute := t.duration % 3600 / 60
        second := t.duration % 60 } := by
  have hhour : t.hour + (t.minute + t.second / 60) / 60 = t.hour + (60 * t.minute + t.second) / 3600 := by
    omega
  have hday : t.day + (t.hour + (60 * t.minute + t.second) / 3600) / 24 = t.duration / 86400 := by
    rw [duration]
    omega
  have hparts : (t.hour + (60 * t.minute + t.second) / 3600) % 24 = t.duration % 86400 / 3600 ∧
      (t.minute + t.second / 60) % 60 = t.duration % 3600 / 60 ∧ t.second % 60 = t.duration % 60 := by
    rw [duration]
    omega
  simp only [carryTime, Option.bind_eq_bind, Option.bind_eq_some_iff, checked_eq_some, Option.pure_def,
    Option.some.injEq]
  constructor
  · rintro ⟨_, ⟨hm, rfl⟩, _, ⟨hh, rfl⟩, _, ⟨hd, rfl⟩, rfl⟩
    rw [hhour] at hh hd
    rw [hday] at hd
    refine ⟨hm, hh, hd, ?_⟩
    rw [hhour, hday, hparts.1, hparts.2.1, hparts.2.2]
  · rintro ⟨hm, hh, hd, rfl⟩
    refine ⟨_, ⟨hm, rfl⟩, _, ⟨?_, rfl⟩, _, ⟨?_, rfl⟩, ?_⟩
    · rwa [hhour]
    · rwa [hhour, hday]
    · rw [hhour, hday, hparts.1, hparts.2.1, hparts.2.2]

theorem normalize_eq_some_iff (ht : t.interval = true) : t.normalize = some r ↔
    Fits32 (t.length / 12) ∧ r = { t with year := t.length / 12, month := t.length % 12 } := by
  obtain ⟨year, month, day, hour, minute, second, hasDate, hasTime, interval, carry⟩ := t
  obtain rfl : interval = true := ht
  have hyear : year + month / 12 = (12 * year + month) / 12 := by omega
  have hmonth : month % 12 = (12 * year + month) % 12 := by omega
  simp only [normalize, carryMonths, length, if_true, hyear, hmonth, Option.bind_eq_bind,
    Option.bind_eq_some_iff, checked_eq_some, Option.pure_def, Option.some.injEq]
  constructor
  · rintro ⟨_, ⟨_, ⟨hfits, rfl⟩, rfl⟩, h⟩
    exact ⟨hfits, (Option.some.inj h).symm⟩
  · rintro ⟨hfits, rfl⟩
    exact ⟨_, ⟨_, ⟨hfits, rfl⟩, rfl⟩, rfl⟩

/-- The carries of an interval only depend on its totals, as long as there is room for them. -/
theorem carry_eq_some_iff (ht : t.interval = true) :
    t.carryTime.bind normalize = some k ↔
      t.CarriesFit ∧ k = { t.spread t.length t.duration with carry := t.carry } := by
  rw [Option.bind_eq_some_iff]
  constructor
  · rintro ⟨s, hs, hk⟩
    obtain ⟨hminute, hhour, hday, rfl⟩ := carryTime_eq_some_iff.1 hs
    obtain ⟨hyear, rfl⟩ := (normalize_eq_some_iff (by exact ht)).1 hk
    exact ⟨⟨hminute, hhour, hday, hyear⟩, rfl⟩
  · rintro ⟨⟨hminute, hhour, hday, hyear⟩, rfl⟩
    exact ⟨_, carryTime_eq_some_iff.2 ⟨hminute, hhour, hday, rfl⟩,
      (normalize_eq_some_iff (by exact ht)).2 ⟨hyear, rfl⟩⟩

/-! Sums -/

/-- The sum field by field. -/
def plus (i j : Temporal) : Temporal :=
  { i with
    year := i.year + j.year
    month := i.month + j.month
    day := i.day + j.day
    hour := i.hour + j.hour
    minute := i.minute + j.minute
    second := i.second + j.second }

theorem length_plus (i j : Temporal) : (i.plus j).length = i.length + j.length := by
  simp only [length, plus]
  omega

theorem duration_plus (i j : Temporal) : (i.plus j).duration = i.duration + j.duration := by
  simp only [duration, plus]
  omega

theorem addFields_eq_some_iff : i.addFields j = some s ↔ (i.plus j).Roomy ∧ s = i.plus j := by
  simp only [addFields, Option.bind_eq_bind, Option.bind_eq_some_iff, checked_eq_some, Option.pure_def,
    Option.some.injEq]
  constructor
  · rintro ⟨_, ⟨hyear, rfl⟩, _, ⟨hmonth, rfl⟩, _, ⟨hday, rfl⟩, _, ⟨hhour, rfl⟩, _, ⟨hminute, rfl⟩, _,
      ⟨hsecond, rfl⟩, rfl⟩
    exact ⟨⟨hyear, hmonth, hday, hhour, hminute, hsecond⟩, rfl⟩
  · rintro ⟨⟨hyear, hmonth, hday, hhour, hminute, hsecond⟩, rfl⟩
    exact ⟨_, ⟨hyear, rfl⟩, _, ⟨hmonth, rfl⟩, _, ⟨hday, rfl⟩, _, ⟨hhour, rfl⟩, _, ⟨hminute, rfl⟩, _,
      ⟨hsecond, rfl⟩, rfl⟩

/-- A sum is defined when its fields and what is carried into them have room, and then its totals make it. -/
theorem addInterval_eq_some_iff (hi : i.interval = true) : i.addInterval j = some k ↔
    (i.plus j).Roomy ∧ (i.plus j).CarriesFit ∧
      k = i.spread (i.length + j.length) (i.duration + j.duration) := by
  have hsteps : i.addInterval j = (i.addFields j).bind fun s =>
      (s.carryTime.bind normalize).bind fun r => some { r with carry := 0 } := by
    rw [addInterval, if_pos hi]
    simp only [Option.bind_eq_bind, Option.bind_assoc]
    rfl
  rw [hsteps, Option.bind_eq_some_iff, ← length_plus, ← duration_plus]
  constructor
  · rintro ⟨s, hs, hk⟩
    obtain ⟨hroom, rfl⟩ := addFields_eq_some_iff.1 hs
    obtain ⟨r, hr, hk⟩ := Option.bind_eq_some_iff.1 hk
    obtain ⟨hcarries, rfl⟩ := (carry_eq_some_iff (by exact hi)).1 hr
    exact ⟨hroom, hcarries, (Option.some.inj hk).symm⟩
  · rintro ⟨hroom, hcarries, rfl⟩
    have hcarried := (carry_eq_some_iff (by exact hi)).2 ⟨hcarries, rfl⟩
    exact ⟨_, addFields_eq_some_iff.2 ⟨hroom, rfl⟩, Option.bind_eq_some_iff.2 ⟨_, hcarried, rfl⟩⟩

theorem addInterval_totals (hi : i.interval = true) (h : i.addInterval j = some k) : k.interval = true ∧
    k.Carried ∧ k.length = i.length + j.length ∧ k.duration = i.duration + j.duration := by
  obtain ⟨-, ⟨-, -, hday, hyear⟩, rfl⟩ := (addInterval_eq_some_iff hi).1 h
  rw [length_plus] at hyear
  rw [duration_plus] at hday
  exact ⟨hi, carried_spread hyear hday, length_spread i _ _, duration_spread i _ _⟩

/-- The value with the flags of another one. -/
def flaggedAs (k i : Temporal) : Temporal := { k with hasDate := i.hasDate, hasTime := i.hasTime }

theorem flaggedAs_spread (hi : i.interval = true) (hj : j.interval = true) (m n : Int) :
    (i.spread m n).flaggedAs j = j.spread m n := by
  simp only [flaggedAs, spread, hi, hj]

theorem Roomy.plus_comm (h : (i.plus j).Roomy) : (j.plus i).Roomy := by
  simp only [roomy_iff, plus, Int.add_comm] at h ⊢
  exact h

theorem CarriesFit.plus_comm (h : (i.plus j).CarriesFit) : (j.plus i).CarriesFit := by
  simp only [carriesFit_iff, length, duration, plus, Int.add_comm] at h ⊢
  exact h

/-- A sum does not depend on the order of its operands, and neither does whether it is defined. -/
theorem addInterval_comm (hi : i.interval = true) (hj : j.interval = true) :
    j.addInterval i = (i.addInterval j).map (flaggedAs · j) := by
  ext k
  rw [Option.map_eq_some_iff, addInterval_eq_some_iff hj, Int.add_comm j.length, Int.add_comm j.duration]
  constructor
  · rintro ⟨hroom, hcarries, rfl⟩
    exact ⟨_, (addInterval_eq_some_iff hi).2 ⟨hroom.plus_comm, hcarries.plus_comm, rfl⟩,
      flaggedAs_spread hi hj _ _⟩
  · rintro ⟨k, hk, rfl⟩
    obtain ⟨hroom, hcarries, rfl⟩ := (addInterval_eq_some_iff hi).1 hk
    exact ⟨hroom.plus_comm, hcarries.plus_comm, flaggedAs_spread hi hj _ _⟩

theorem addInterval_assoc (hi : i.interval = true) (hj : j.interval = true) (ha : i.addInterval j = some a)
    (hb : a.addInterval l = some b) (hc : j.addInterval l = some c) (hd : i.addInterval c = some d) :
    b = d := by
  obtain ⟨hainterval, -, halength, haduration⟩ := addInterval_totals hi ha
  obtain ⟨-, -, hclength, hcduration⟩ := addInterval_totals hj hc
  obtain ⟨-, -, hb⟩ := (addInterval_eq_some_iff hainterval).1 hb
  obtain ⟨-, -, hd⟩ := (addInterval_eq_some_iff hi).1 hd
  obtain ⟨-, -, rfl⟩ := (addInterval_eq_some_iff hi).1 ha
  rw [hb, hd, halength, haduration, hclength, hcduration, Int.add_assoc, Int.add_assoc]
  rfl

/-! Differences -/

theorem negated_totals (h : i.negated = some k) : k.interval = i.interval ∧ k.length = -i.length ∧
    k.duration = -i.duration := by
  obtain rfl := negated_eq h
  simp only [length, duration, true_and]
  omega

theorem sub_eq_some (hi : i.interval = true) (hj : j.interval = true) (h : i.sub j = some k) :
    k.Carried ∧ k = i.spread (i.length - j.length) (i.duration - j.duration) := by
  rw [sub, if_pos hj] at h
  obtain ⟨l, hl, h⟩ := Option.bind_eq_some_iff.1 h
  obtain ⟨-, hlength, hduration⟩ := negated_totals hl
  obtain ⟨-, hcarried, -⟩ := addInterval_totals hi h
  obtain ⟨-, -, hk⟩ := (addInterval_eq_some_iff hi).1 h
  rw [hlength, hduration, ← Int.sub_eq_add_neg, ← Int.sub_eq_add_neg] at hk
  exact ⟨hcarried, hk⟩

theorem empty_of_sub (hi : i.interval = true) (h : i.sub i = some k) :
    k = (ofInterval 0 0 0 0 0 0).flaggedAs i := by
  obtain ⟨-, rfl⟩ := sub_eq_some hi hi h
  rw [Int.sub_self, Int.sub_self]
  simp only [spread, flaggedAs, hi]
  rfl

/-- The sum and the difference of two intervals have the sums and the differences of their months and of their
seconds, with all carries made. A sum is defined just when no field and no carry leaves the range, and so
never where its years or its days would. It does not matter in which order or in which groups intervals are
added, and an interval less itself is empty. -/
theorem interval_totals (hi : i.interval = true) (hj : j.interval = true) :
    (∀ k, i.addInterval j = some k → k.interval = true ∧ k.Carried ∧
      k.length = i.length + j.length ∧ k.duration = i.duration + j.duration) ∧
    ((∃ k, i.addInterval j = some k) ↔ (i.plus j).Roomy ∧ (i.plus j).CarriesFit) ∧
    (¬ (Fits32 ((i.length + j.length) / 12) ∧ Fits32 ((i.duration + j.duration) / 86400)) →
      i.addInterval j = none) ∧
    j.addInterval i = (i.addInterval j).map (flaggedAs · j) ∧
    (∀ l a b c d, i.addInterval j = some a → a.addInterval l = some b → j.addInterval l = some c →
      i.addInterval c = some d → b = d) ∧
    (∀ k, i.sub j = some k → k.interval = true ∧ k.Carried ∧
      k.length = i.length - j.length ∧ k.duration = i.duration - j.duration) ∧
    ∀ k, i.sub i = some k → k = (ofInterval 0 0 0 0 0 0).flaggedAs i := by
  refine ⟨fun k => addInterval_totals hi, ⟨?_, ?_⟩, fun hrange => ?_, addInterval_comm hi hj,
    fun l a b c d => addInterval_assoc hi hj, fun k hk => ?_, fun k => empty_of_sub hi⟩
  · rintro ⟨k, hk⟩
    obtain ⟨hroom, hcarries, -⟩ := (addInterval_eq_some_iff hi).1 hk
    exact ⟨hroom, hcarries⟩
  · intro ⟨hroom, hcarries⟩
    exact ⟨_, (addInterval_eq_some_iff hi).2 ⟨hroom, hcarries, rfl⟩⟩
  · rw [Option.eq_none_iff_forall_ne_some]
    intro k hk
    obtain ⟨-, hcarries, -⟩ := (addInterval_eq_some_iff hi).1 hk
    rw [← length_plus, ← duration_plus] at hrange
    exact hrange ⟨hcarries.year, hcarries.day⟩
  · obtain ⟨hcarried, rfl⟩ := sub_eq_some hi hj hk
    exact ⟨hi, hcarried, length_spread i _ _, duration_spread i _ _⟩

/-- Fields of both signs with carries all the way up, and a carry that the years have no room for. -/
theorem interval_totals_of_signs :
    let i := ofInterval 1 (-1) 0 0 0 (-1)
    let j := ofInterval (-1) 0 1 (-30) 59 (-59)
    let k := ofInterval (-1) 11 (-1) 18 58 0
    i.addInterval j = some k ∧ k.length = i.length + j.length ∧ k.duration = i.duration + j.duration ∧
      j.addInterval i = some k ∧ (∃ b d, k.addInterval i = some b ∧ i.addInterval k = some d ∧ b = d) ∧
      i.sub i = some ((ofInterval 0 0 0 0 0 0).flaggedAs i) ∧
      (ofInterval 0x7fffffff 11 0 0 0 0).addInterval (ofInterval 0 1 0 0 0 0) = none := by
  intro i j k
  obtain ⟨htotals, -, -, hcomm, hassoc, -, hself⟩ := interval_totals (i := i) (j := j) rfl rfl
  have hsum : i.addInterval j = some k := by decide
  have hback : j.addInterval i = some k := by
    rw [hcomm, hsum]
    rfl
  have hleft : k.addInterval i = some (ofInterval 0 10 (-1) 18 57 59) := by decide
  have hright : i.addInterval k = some (ofInterval 0 10 (-1) 18 57 59) := by decide
  have hzero : i.sub i = some (ofInterval 0 0 0 0 0 0) := by decide
  obtain ⟨-, -, hrange, -⟩ := interval_totals (i := ofInterval 0x7fffffff 11 0 0 0 0)
    (j := ofInterval 0 1 0 0 0 0) rfl rfl
  exact ⟨hsum, (htotals k hsum).2.2.1, (htotals k hsum).2.2.2, hback,
    ⟨_, _, hleft, hright, hassoc i k _ k _ hsum hleft hback hright⟩, hself _ hzero ▸ hzero, hrange (by decide)⟩

end Reporting.Temporal
