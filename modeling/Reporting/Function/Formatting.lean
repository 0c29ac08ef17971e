import Reporting.Function.Operands
import Reporting.Function.Texts
import Reporting.Decimal.Scientific
import Reporting.Calendar.Pattern
/-!
Formatting values by patterns. A pattern is consumed from the left, one conversion for each value;
what stands between conversions is copied.
-/
namespace Reporting

namespace Temporal

/-- Writes a date or time by a pattern; a missing date is the first day of 1900, and a missing time
is midnight. -/
def format? (t : Temporal) (pattern : List Char) : Option (List Char) := do
  if t.interval then none
  else
    let date ← if t.hasDate then t.date? else some ⟨1900, 1, 1⟩
    let (hour, minute, second) ← if t.hasTime then t.time? else some (0, 0, 0)
    Pattern.format? pattern { date, hour, minute, second }

end Temporal

/-- The pattern of dates that are written without one. -/
def DateOrder.pattern : DateOrder → List Char
  | dayFirst => "%d/%m/%Y".toList
  | monthFirst => "%m/%d/%Y".toList

namespace Formatting
open Operands

/-- A conversion such as `%-8.2f`. -/
structure Directive where
  leftAlign : Bool := false
  zeroPad : Bool := false
  plus : Bool := false
  space : Bool := false
  alternate : Bool := false
  width : Option Nat := none
  precision : Option Nat := none
  conversion : Char := 's'
  deriving DecidableEq, Repr

namespace Directive

/-- Reads the flags; flags for grouping have no effect. -/
def flags (d : Directive) : List Char → Directive × List Char
  | [] => (d, [])
  | c :: r =>
    if c = '-' then flags { d with leftAlign := true } r
    else if c = '0' then flags { d with zeroPad := true } r
    else if c = '+' then flags { d with plus := true } r
    else if c = ' ' then flags { d with space := true } r
    else if c = '#' then flags { d with alternate := true } r
    else if c = '\x27' ∨ c = '$' ∨ c = 'I' then flags d r
    else (d, c :: r)

/-- The number at the front, if there is one of at most 64 binary digits. -/
def readCount (s : List Char) : Option Nat × List Char :=
  let (ds, r) := Text.splitWhile Char.isDigit s
  let n := Digits.value ds
  (if ds ≠ [] ∧ n < 0x10000000000000000 then some n else none, r)

/-- A conversion without its percent sign, and the rest of the pattern. -/
def read? (s : List Char) : Option (Directive × List Char) :=
  let (d, r) := flags {} s
  let (width, r) := readCount r
  let (precision, r) := match r with
    | '.' :: r => let (n, r) := readCount r; (some (n.getD 0), r)
    | r => (none, r)
  match r with
  | c :: r => some ({ d with width, precision, conversion := c }, r)
  | [] => none

/-- The conversions of numbers. -/
def numeric : List Char := ['d', 'i', 'x', 'X', 'f', 'F', 'e', 'E', 'g', 'G']

/-- Whether a conversion is for values of a kind. -/
def accepts (d : Directive) : Kind → Bool
  | .number => numeric.contains d.conversion
  | .text => d.conversion == 's'
  | _ => false

/-- The sign in front of a number. -/
def splitSign : List Char → List Char × List Char
  | [] => ([], [])
  | c :: r => if c = '-' ∨ c = '+' ∨ c = ' ' then ([c], r) else ([], c :: r)

/-- Adds a sign and fills up to a width. -/
def pad (d : Directive) (s : List Char) (width : Nat) : List Char :=
  let s :=
    if s.head? = some '-' then s
    else if d.plus then '+' :: s
    else if d.space then ' ' :: s
    else s
  let gap := width - s.length
  if d.leftAlign then s ++ List.replicate gap ' '
  else if d.zeroPad then
    let (sign, digits) := splitSign s
    sign ++ List.replicate gap '0' ++ digits
  else List.replicate gap ' ' ++ s

/-- The integer part in base 16, as 64 binary digits. -/
def hexadecimal (d : Directive) (n : Decimal) (upper : Bool) : List Char :=
  let m := (n.trunc.toInt64?.getD 0 % 0x10000000000000000).toNat
  let ds := Nat.toDigits 16 m
  let ds := if upper then ds.map Char.toUpper else ds
  if d.alternate && m != 0 then '0' :: 'x' :: ds else ds

/-- The digits of a number, without the padding. -/
def digits (d : Directive) (n : Decimal) (p : Precision) : List Char :=
  match d.conversion with
  | 'd' => (n.renderFixed (d.precision.getD 0) p.rounding).toList
  | 'i' => (n.renderFixed 0 p.rounding).toList
  | 'x' => d.hexadecimal n false
  | 'X' => d.hexadecimal n true
  | 'e' => Scientific.render n.toFloat (d.precision.getD 6) false
  | 'E' => Scientific.render n.toFloat (d.precision.getD 6) true
  | 'g' => Scientific.renderGeneral n.toFloat (d.precision.getD 6) false d.alternate
  | 'G' => Scientific.renderGeneral n.toFloat (d.precision.getD 6) true d.alternate
  | _ => (n.renderFixed (d.precision.getD 6) p.rounding).toList

/-- The width to which a number is filled; with `%d` the places and the point come on top. -/
def fullWidth (d : Directive) : Nat :=
  match d.width with
  | none => 0
  | some w =>
    let places := d.precision.getD 0
    if d.conversion = 'd' ∧ 0 < places then w + places + 1 else w

def renderNumber (d : Directive) (n : Decimal) (p : Precision) : List Char :=
  d.pad (d.digits n p) d.fullWidth

/-- A text, cut to the precision or else the width, and filled up to it on demand. -/
def renderText (d : Directive) (s : List Char) : List Char :=
  match d.precision <|> d.width with
  | none | some 0 => s
  | some limit =>
    let kept := s.take limit
    if d.space then Texts.padLeft limit kept else kept

/-- A value by a conversion; nulls are written as nothing. -/
def render (d : Directive) (v : Value) (p : Precision) : List Char :=
  match v.number?, v.text? with
  | some n, _ => d.renderNumber n p
  | none, some s => d.renderText s.toList
  | none, none => []

end Directive

/-- A date or time by a pattern, or plainly if the pattern is not known. -/
def renderTemporal (v : Value) (pattern : List Char) : List Char :=
  match v.datetime? with
  | some t => (t.format? pattern).getD t.renderChars
  | none => []

def formatError : Value := .error "format error"

/-- A conversion without its percent sign, by which a value is written. -/
def convert (v : Value) (p : Precision) (s : List Char) : Except Value (List Char × List Char) :=
  match Directive.read? s with
  | some (d, r) => if d.accepts v.kind then .ok (d.render v p, r) else .error formatError
  | none => .error formatError

/-- What stands in braces, and what follows them. -/
def braced (s : List Char) : Except Value (List Char × List Char) :=
  match s.dropWhile (· ≠ '\x7d') with
  | _ :: r => .ok (s.takeWhile (· ≠ '\x7d'), r)
  | [] => .error formatError

/-- A pattern of dates behind its mark, in braces or to the end. -/
def explicitDate (v : Value) : List Char → Except Value (List Char × List Char)
  | '\x7b' :: r => do
    let (pattern, r) ← braced r
    return (renderTemporal v pattern, r)
  | r => .ok (renderTemporal v r, [])

/-- A conversion behind its mark, in braces or after characters that are dropped. -/
def explicit (v : Value) (p : Precision) : List Char → Except Value (List Char × List Char)
  | '\x7b' :: r => do
    let (inner, r) ← braced r
    match inner with
    | '%' :: inner =>
      let (out, _) ← convert v p inner
      return (out, r)
    | _ => throw formatError
  | r => match r.dropWhile (· ≠ '%') with
    | _ :: r => convert v p r
    | [] => .error formatError

/-- Puts characters in front of what is written. -/
def cons (s : List Char) (out : Except Value (List Char × List Char)) :
    Except Value (List Char × List Char) :=
  out.map fun (out, r) => (s ++ out, r)

/-- Copies a pattern up to its next conversion and writes the value by it. -/
def consume (v : Value) (p : Precision) : List Char → Except Value (List Char × List Char)
  | [] => .ok ([], [])
  | '%' :: '%' :: r => cons ['%'] (consume v p r)
  | '!' :: '@' :: r =>
    if v.kind = .datetime then explicitDate v r else cons ['!', '@'] (consume v p r)
  | '!' :: '#' :: r =>
    if v.kind = .number then explicit v p r else cons ['!', '#'] (consume v p r)
  | '!' :: '&' :: r =>
    if v.kind = .text then explicit v p r else cons ['!', '&'] (consume v p r)
  | ['%'] => .ok (['%'], [])
  | '%' :: r => if v.kind = .datetime then .ok (renderTemporal v ('%' :: r), []) else convert v p r
  | c :: r => cons [c] (consume v p r)

/-- The end of a pattern, where a doubled percent sign stands for one. -/
def closing : List Char → List Char
  | '%' :: '%' :: r => '%' :: closing r
  | c :: r => c :: closing r
  | [] => []

/-- Writes values by a pattern; errors among the values go on. -/
def formatChars (p : Precision) : List Char → List Value → Except Value (List Char)
  | pattern, [] => .ok (closing pattern)
  | pattern, v :: vs => do
    surfaceErrors [v]
    let (out, r) ← consume v p pattern
    return out ++ (← formatChars p r vs)

def format (pattern : String) (values : List Value) (p : Precision) : Value :=
  match formatChars p pattern.toList values with
  | .ok s => .text (String.ofList s)
  | .error e => e

/-! Functions -/

/-- A pattern operand, or none if it is null or empty. -/
def patternOf (v : Value) : Except Value (Option String) :=
  if v.kind ≠ .text then invalid
  else match v.text? with
    | some s => .ok (if s.isEmpty then none else some s)
    | none => .ok none

/-- A value by a pattern; without one its kind decides. -/
def formatOne (args : List Value) (p : Precision) (order : DateOrder) : Outcome := do
  surfaceErrors args
  match args with
  | [v, pattern] =>
    match ← patternOf pattern, v.kind with
    | some pattern, _ => return format pattern [v] p
    | none, .number => return format "%d" [v] p
    | none, .text => return format "%s" [v] p
    | none, _ =>
      if v.isInterval then return .text ""
      else return format (String.ofList order.pattern) [v] p
  | _ => invalid

/-- A date or time by a pattern; intervals are empty. -/
def formatDate (args : List Value) (p : Precision) (order : DateOrder) : Outcome := do
  surfaceErrors args
  match args with
  | [v, pattern] =>
    if v.kind ≠ .datetime then invalid
    else
      let pattern ← patternOf pattern
      if v.isInterval then return .text ""
      else return format (pattern.getD (String.ofList order.pattern)) [v] p
  | _ => invalid

/-- Values by a pattern, which comes first. -/
def formatAll (args : List Value) (p : Precision) : Outcome := do
  atLeast args 2
  surfaceErrors args
  match args with
  | pattern :: values => return format ((← patternOf pattern).getD "") values p
  | [] => invalid

end Formatting
end Reporting
