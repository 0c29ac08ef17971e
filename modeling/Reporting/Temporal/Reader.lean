import Reporting.Temporal.Basic
import Reporting.Text.Case
import Reporting.Text.Blank
/-!
Reading dates, times and intervals.
-/
namespace Reporting.Temporal
open Calendar

/-- Up to `max` digits, at least one, with their value and their number. -/
def number? (max : Nat) (s : List Char) : Option ((Nat × Nat) × List Char) :=
  let ds := (s.take max).takeWhile Char.isDigit
  if ds.isEmpty then none else some ((Digits.value ds, ds.length), s.drop ds.length)

/-- Takes one given character. -/
def eat? (c : Char) : List Char → Option (List Char)
  | d :: r => if d = c then some r else none
  | [] => none

/-- Skips spaces, and no other blanks. -/
def skipSpaces (s : List Char) : List Char := s.dropWhile (· = ' ')

def isDate (year month day : Int) : Bool :=
  1 ≤ month && month ≤ 12 && 1 ≤ day && day ≤ daysInMonth year month

/-- Two digits stand for a year from 1969 to 2068. -/
def expandYear (year : Nat) : Nat := if year < 69 then 2000 + year else 1900 + year

/-- A date such as `29/2/2024`: the day first, or the month first where that is allowed and the day
first is no date. -/
def slashDate? (order : DateOrder) (s : List Char) : Option ((Int × Int × Int) × List Char) := do
  let ((first, _), s) ← number? 2 s
  let s ← eat? '/' s
  let ((second, _), s) ← number? 2 s
  let s ← eat? '/' s
  let ((year, digits), s) ← number? 4 s
  let year := if digits ≤ 2 then expandYear year else year
  if isDate year second first then some ((year, second, first), s)
  else if order = .monthFirst ∧ isDate year first second then some ((year, first, second), s)
  else none

/-- A date such as `2024-02-29`. -/
def dashDate? (s : List Char) : Option ((Int × Int × Int) × List Char) := do
  let ((year, _), s) ← number? 6 s
  let s ← eat? '-' s
  let ((month, _), s) ← number? 2 s
  let s ← eat? '-' s
  let ((day, _), s) ← number? 2 s
  if isDate year month day then some ((year, month, day), s) else none

/-- The hour of the day for an hour of the 12 hour clock. -/
def applyMeridiem? (hour : Nat) (pm : Bool) : Option Nat :=
  if hour < 1 ∨ 12 < hour then none
  else some (hour % 12 + if pm then 12 else 0)

/-- A marker for the half of the day, as `true` for the second half. -/
def meridiem? (s : List Char) : Option (Bool × List Char) :=
  match Text.lowerAscii (s.take 2) with
  | ['p', 'm'] => some (true, s.drop 2)
  | ['a', 'm'] => some (false, s.drop 2)
  | 'p' :: _ => some (true, s.drop 1)
  | 'a' :: _ => some (false, s.drop 1)
  | _ => none

/-- Skips a time zone such as `Z`, `+01` or `-0130`; zones are not applied. -/
def skipZone (s : List Char) : List Char :=
  match s with
  | 'Z' :: r => r
  | c :: r =>
    if c = '+' ∨ c = '-' then
      match number? 2 r with
      | none => s
      | some (_, hours) =>
        match number? 2 ((eat? ':' hours).getD hours) with
        | some (_, r) => r
        | none => hours
    else s
  | [] => s

/-- The seconds of a time with their fraction, which is not kept. -/
def seconds? (s : List Char) : Option (Nat × List Char) :=
  match eat? ':' s with
  | none => some (0, s)
  | some s => do
    let ((second, _), s) ← number? 2 s
    match eat? '.' s with
    | some s => some (second, s.dropWhile Char.isDigit)
    | none => some (second, s)

/-- A time such as `12:30`, `12:30:45.5`, `1:30 pm` or `12:30+01:00`. -/
def clock? (s : List Char) : Option ((Int × Int × Int) × List Char) := do
  let ((hour, _), s) ← number? 2 s
  let s ← eat? ':' s
  let ((minute, _), s) ← number? 2 s
  let (second, s) ← seconds? s
  let s := skipSpaces s
  let (hour, s) ← match meridiem? s with
    | some (pm, s) => (applyMeridiem? hour pm).map fun hour => (hour, skipSpaces s)
    | none => some (hour, s)
  let s := skipZone s
  if isClock hour minute second then some ((hour, minute, second), s) else none

/-- The number that the digits from `i` on write, `k` of them. -/
def field (ds : List Char) (i k : Nat) : Nat := Digits.value ((ds.drop i).take k)

/-- A time of day from digits, with a marker for the half of the day. -/
def clockOfDigits? (ds : List Char) (pm : Option Bool) : Option Temporal := do
  let hour ← match pm with
    | some pm => applyMeridiem? (field ds 0 2) pm
    | none => some (field ds 0 2)
  let t := ofTime hour (field ds 2 2) (field ds 4 2)
  if isClock t.hour t.minute t.second then some t else none

/-- A date from eight digits. -/
def dateOfDigits? (ds : List Char) : Option Temporal :=
  let t := ofDate (field ds 0 4) (field ds 4 2) (field ds 6 2)
  if isDate t.year t.month t.day then some t else none

/-- Splits a marker for the half of the day off the end. -/
def splitMeridiem (s : List Char) : List Char × Option Bool :=
  match Text.lowerAscii (s.drop (s.length - 1)) with
  | ['p'] => (s.take (s.length - 1), some true)
  | ['a'] => (s.take (s.length - 1), some false)
  | _ => (s, none)

/-- Whether a text is written with digits alone, up to a marker. -/
def isAllDigits (s : List Char) : Bool :=
  let (ds, _) := splitMeridiem s
  !ds.isEmpty && ds.all Char.isDigit

/-- The forms `YYYYmmddHHMMSS`, `YYYYmmdd`, `HHMMSS` and `HHMM`. -/
def ofDigits? (s : List Char) : Option Temporal :=
  let (ds, pm) := splitMeridiem s
  if ds.length = 14 ∧ pm = none then do
    let d ← dateOfDigits? ds
    let t ← clockOfDigits? (ds.drop 8) none
    some (ofDateTime d.year d.month d.day t.hour t.minute t.second)
  else if ds.length = 8 ∧ pm = none then dateOfDigits? ds
  else if ds.length = 6 ∨ ds.length = 4 then clockOfDigits? ds pm
  else none

/-- Joins a date and a time. -/
def join? : Option (Int × Int × Int) → Option (Int × Int × Int) → Option Temporal
  | some (y, mo, d), some (h, mi, s) => some (ofDateTime y mo d h mi s)
  | some (y, mo, d), none => some (ofDate y mo d)
  | none, some (h, mi, s) => some (ofTime h mi s)
  | none, none => none

/-- Reads a date, a time, or a date followed by a time. -/
def dateTime? (s : List Char) (order : DateOrder) : Option Temporal := do
  let s := Text.trim s
  if isAllDigits s then ofDigits? s
  else
    let (date, s) := match slashDate? order s <|> dashDate? s with
      | some (date, s) => (some date, (eat? 'T' s).getD (skipSpaces s))
      | none => (none, s)
    if s.isEmpty then join? date none
    else
      let (time, s) ← clock? s
      if (skipSpaces s).isEmpty then join? date (some time) else none

/-- The units of intervals. -/
inductive IntervalUnit
  | year | month | day | hour | minute | second
  deriving DecidableEq, Repr

/-- The names of the units; of two names that fit, the first one counts. -/
def unitNames : List (String × IntervalUnit) :=
  [("years", .year), ("year", .year), ("yrs", .year), ("yr", .year), ("y", .year),
   ("months", .month), ("month", .month), ("mons", .month), ("mon", .month), ("mo", .month),
   ("days", .day), ("day", .day), ("d", .day),
   ("hours", .hour), ("hour", .hour), ("hrs", .hour), ("hr", .hour), ("h", .hour),
   ("minutes", .minute), ("minute", .minute), ("mins", .minute), ("min", .minute), ("m", .minute),
   ("seconds", .second), ("second", .second), ("secs", .second), ("sec", .second), ("s", .second)]

/-- Replaces one field. -/
def withUnit (t : Temporal) (unit : IntervalUnit) (n : Int) : Temporal :=
  match unit with
  | .year => { t with year := n }
  | .month => { t with month := n }
  | .day => { t with day := n }
  | .hour => { t with hour := n }
  | .minute => { t with minute := n }
  | .second => { t with second := n }

/-- The sign at the front. -/
def splitSign : List Char → Int × List Char
  | '-' :: r => (-1, r)
  | '+' :: r => (1, r)
  | r => (1, r)

/-- The name of a unit at the front. -/
def unit? (s : List Char) : Option (IntervalUnit × List Char) := do
  let (name, unit) ← unitNames.find? fun (name, _) => name.toList.isPrefixOf s
  some (unit, s.drop name.length)

/-- A number and its unit at the front. -/
def part? (s : List Char) : Option ((Int × IntervalUnit) × List Char) := do
  let (sign, r) := splitSign s
  let (ds, r) := Text.splitWhile Char.isDigit r
  if ds.isEmpty then none
  let n := sign * Digits.value ds
  if -0x80000000 ≤ n ∧ n < 0x80000000 then
    let (unit, r) ← unit? (Text.trimStart r)
    some ((n, unit), Text.trimStart r)
  else none

/-- Reads numbers with units into the fields of `t`; `k` bounds their number. -/
def parts? : (k : Nat) → (t : Temporal) → List Char → Option Temporal
  | _, t, [] => some t
  | 0, _, _ :: _ => none
  | k + 1, t, s => do
    let ((n, unit), r) ← part? s
    parts? k (t.withUnit unit n) r

/-- Reads an interval such as `1 year 2 months` or `3d 4h`, which is not zero. -/
def interval? (s : List Char) : Option Temporal := do
  let s := Text.trimStart (Text.lowerAscii s)
  let t ← parts? s.length (ofInterval 0 0 0 0 0 0) s
  if t = ofInterval 0 0 0 0 0 0 then none else some t

/-- Reads a date or a time, or else an interval. -/
def parse? (s : String) (order : DateOrder) : Option Temporal :=
  dateTime? s.toList order <|> interval? s.toList

end Reporting.Temporal
