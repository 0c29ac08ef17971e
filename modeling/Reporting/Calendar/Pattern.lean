import Reporting.Calendar.Basic
import Reporting.Decimal.Digits
import Reporting.Text.Blank
/-!
Writing dates and times by patterns such as `%d/%m/%Y`.
-/
namespace Reporting

/-- A day with a time of day. -/
structure Moment where
  date : Date
  hour : Int := 0
  minute : Int := 0
  second : Int := 0
  deriving DecidableEq, Repr

namespace Pattern

/-- How a number is filled up to its width. -/
inductive Fill
  | none | zero | space
  deriving DecidableEq, Repr

/-- What a number of a pattern tells. -/
inductive Figure
  | year | century | yearOfCentury | isoYear | isoYearOfCentury | quarter | month | day
  | sundayWeek | mondayWeek | isoWeek | sundayDay | mondayDay | dayOfYear
  | hour | hour12 | minute | second | nanosecond | timestamp
  deriving DecidableEq, Repr

/-- A piece of a pattern. -/
inductive Item
  | chars (s : List Char)
  | figure (f : Figure) (fill : Fill)
  | weekday (full : Bool)
  | month (full : Bool)
  | meridiem (upper : Bool)
  deriving DecidableEq, Repr

/-- The pieces of a directive that stands for a single number, with its usual filling. -/
def figure? : Char → Option (Figure × Fill)
  | 'Y' => some (.year, .zero)
  | 'C' => some (.century, .zero)
  | 'y' => some (.yearOfCentury, .zero)
  | 'G' => some (.isoYear, .zero)
  | 'g' => some (.isoYearOfCentury, .zero)
  | 'q' => some (.quarter, .none)
  | 'm' => some (.month, .zero)
  | 'd' => some (.day, .zero)
  | 'e' => some (.day, .space)
  | 'U' => some (.sundayWeek, .zero)
  | 'W' => some (.mondayWeek, .zero)
  | 'V' => some (.isoWeek, .zero)
  | 'w' => some (.sundayDay, .none)
  | 'u' => some (.mondayDay, .none)
  | 'j' => some (.dayOfYear, .zero)
  | 'H' => some (.hour, .zero)
  | 'k' => some (.hour, .space)
  | 'I' => some (.hour12, .zero)
  | 'l' => some (.hour12, .space)
  | 'M' => some (.minute, .zero)
  | 'S' => some (.second, .zero)
  | 'f' => some (.nanosecond, .zero)
  | 's' => some (.timestamp, .none)
  | _ => none

def num0 (f : Figure) : Item := .figure f .zero

/-- Hours and minutes. -/
def hourMinute : List Item := [num0 .hour, .chars [':'], num0 .minute]

/-- Hours, minutes and seconds. -/
def clock : List Item := hourMinute ++ [.chars [':'], num0 .second]

/-- Month, day and two digits of the year. -/
def shortDate : List Item :=
  [num0 .month, .chars ['/'], num0 .day, .chars ['/'], num0 .yearOfCentury]

/-- The pieces of a directive that is no single number. -/
def compound? : Char → Option (List Item)
  | 'A' => some [.weekday true]
  | 'a' => some [.weekday false]
  | 'B' => some [.month true]
  | 'b' | 'h' => some [.month false]
  | 'P' => some [.meridiem false]
  | 'p' => some [.meridiem true]
  | 'D' | 'x' => some shortDate
  | 'F' => some [num0 .year, .chars ['-'], num0 .month, .chars ['-'], num0 .day]
  | 'R' => some hourMinute
  | 'T' | 'X' => some clock
  | 'r' => some [num0 .hour12, .chars [':'], num0 .minute, .chars [':'], num0 .second, .chars [' '],
      .meridiem true]
  | 'v' => some [.figure .day .space, .chars ['-'], .month false, .chars ['-'], num0 .year]
  | 'c' => some ([.weekday false, .chars [' '], .month false, .chars [' '], .figure .day .space,
      .chars [' ']] ++ clock ++ [.chars [' '], num0 .year])
  | 'n' => some [.chars ['\n']]
  | 't' => some [.chars ['\t']]
  | '%' => some [.chars ['%']]
  | _ => none

/-- A directive without its percent sign, with the rest of the pattern. Directives that need a time
zone are refused. Times have no fraction, so fractions are written with zeros. -/
def directive? : List Char → Option (List Item × List Char)
  | '-' :: c :: r => (figure? c).map fun (f, _) => ([.figure f .none], r)
  | '0' :: c :: r => (figure? c).map fun (f, _) => ([.figure f .zero], r)
  | '_' :: c :: r => (figure? c).map fun (f, _) => ([.figure f .space], r)
  | '3' :: 'f' :: r => some ([.chars "000".toList], r)
  | '6' :: 'f' :: r => some ([.chars "000000".toList], r)
  | '9' :: 'f' :: r => some ([.chars "000000000".toList], r)
  | '.' :: 'f' :: r => some ([], r)
  | '.' :: '3' :: 'f' :: r => some ([.chars ".000".toList], r)
  | '.' :: '6' :: 'f' :: r => some ([.chars ".000000".toList], r)
  | '.' :: '9' :: 'f' :: r => some ([.chars ".000000000".toList], r)
  | c :: r => match figure? c with
    | some (f, fill) => some ([.figure f fill], r)
    | none => (compound? c).map fun items => (items, r)
  | [] => none

theorem directive?_length {s r : List Char} {items : List Item}
    (h : directive? s = some (items, r)) : r.length < s.length := by
  unfold directive? at h
  split at h
  all_goals first
    | (simp only [Option.some.injEq, Prod.mk.injEq] at h; simp only [List.length_cons]; grind)
    | grind [Option.map_eq_some_iff]

/-- The pieces of a pattern, or none if a directive is not known. -/
def items? (s : List Char) : Option (List Item) :=
  match s with
  | [] => some []
  | '%' :: r =>
    match _h : directive? r with
    | some (items, r') => (items? r').map (items ++ ·)
    | none => none
  | c :: r => (items? r).map (.chars [c] :: ·)
termination_by s.length
decreasing_by
  · have := directive?_length _h
    simp only [List.length_cons]
    omega
  · simp

/-- A number with a filling up to a width, where a sign may be asked for and widens it by one. -/
def filled (width : Nat) (n : Int) (fill : Fill) (signed : Bool) : List Char :=
  let sign : List Char := if n < 0 then ['-'] else if signed then ['+'] else []
  let width := if signed then width + 1 else width
  let ds := Digits.ofNat n.natAbs
  let gap := width - sign.length - ds.length
  match fill with
  | .none => sign ++ ds
  | .zero => sign ++ List.replicate gap '0' ++ ds
  | .space => List.replicate gap ' ' ++ sign ++ ds

/-- A number below 256, as two digits. -/
def two (n : Int) (fill : Fill) : List Char :=
  let n := n.toNat
  let ones := Char.ofNat (48 + n % 10)
  match fill with
  | .none => if n / 10 = 0 then [ones] else [Char.ofNat (48 + n / 10), ones]
  | .space => if n / 10 = 0 then [' ', ones] else [Char.ofNat (48 + n / 10), ones]
  | .zero => [Char.ofNat (48 + n / 10), ones]

/-- A year; one outside of four digits has a sign. -/
def yearText (year : Int) (fill : Fill) : List Char :=
  filled 4 year fill (year < 0 || 9999 < year)

/-- The hour on a clock of twelve hours. -/
def twelveHour (hour : Int) : Int := if hour % 12 = 0 then 12 else hour % 12

/-- The seconds since the start of 1970. -/
def epochSeconds (m : Moment) : Int :=
  (m.date.number - Calendar.daysBeforeYear 1970) * 86400 + m.hour * 3600 + m.minute * 60 + m.second

/-- A number of a moment. -/
def Figure.text (f : Figure) (fill : Fill) (m : Moment) : List Char :=
  match f with
  | .year => yearText m.date.year fill
  | .century => two (m.date.year / 100 % 256) fill
  | .yearOfCentury => two (m.date.year % 100) fill
  | .isoYear => yearText m.date.isoWeek.1 fill
  | .isoYearOfCentury => two (m.date.isoWeek.1 % 100) fill
  | .quarter => two ((m.date.month - 1) / 3 + 1) .none
  | .month => two m.date.month fill
  | .day => two m.date.day fill
  | .sundayWeek => two (m.date.week m.date.weekdayFromSunday) fill
  | .mondayWeek => two (m.date.week m.date.weekday) fill
  | .isoWeek => two m.date.isoWeek.2 fill
  | .sundayDay => two m.date.weekdayFromSunday .none
  | .mondayDay => two (m.date.weekday + 1) .none
  | .dayOfYear => filled 3 (m.date.ordinal + 1) fill false
  | .hour => two m.hour fill
  | .hour12 => two (twelveHour m.hour) fill
  | .minute => two m.minute fill
  | .second => two m.second fill
  | .nanosecond => filled 9 0 fill false
  | .timestamp => filled 9 (epochSeconds m) fill false

/-- The weekdays from Monday. -/
def weekdays : List String :=
  ["Monday", "Tuesday", "Wednesday", "Thursday", "Friday", "Saturday", "Sunday"]

def months : List String :=
  ["January", "February", "March", "April", "May", "June", "July", "August", "September",
   "October", "November", "December"]

/-- A name, in full or its first three letters. -/
def named (names : List String) (i : Int) (full : Bool) : List Char :=
  let name := (names[i.toNat]?.getD "").toList
  if full then name else name.take 3

def Item.text (m : Moment) : Item → List Char
  | chars s => s
  | figure f fill => f.text fill m
  | weekday full => named weekdays m.date.weekday full
  | month full => named months (m.date.month - 1) full
  | meridiem upper =>
    match decide (m.hour < 12), upper with
    | true, true => ['A', 'M']
    | true, false => ['a', 'm']
    | false, true => ['P', 'M']
    | false, false => ['p', 'm']

/-- Writes a moment by a pattern, or gives none if the pattern is not known. -/
def format? (pattern : List Char) (m : Moment) : Option (List Char) :=
  (items? pattern).map fun items => items.flatMap (Item.text m)

end Pattern
end Reporting
