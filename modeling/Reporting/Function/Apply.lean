import Reporting.Function.Arithmetic
import Reporting.Function.Compare
import Reporting.Function.Texts
import Reporting.Function.Formatting
import Reporting.Function.Dates
import Reporting.Function.Elementary
/-!
Applying functions to evaluated operands.
-/
namespace Reporting
open Operands

namespace Counter

def noQuery : Value := .error "rownum(): no such query"

def noBreak : Value := .error "brrownum(): no such break"

/-- The value of a counter, or what is said when there is none. -/
def read (c : Context) (source : Option Source) (missing : Value) : Outcome :=
  match source.bind fun s => c.scope.lookup? s c.slot with
  | some v => .ok v
  | none => .error missing

/-- The name of a counter, which is not null. -/
def name (args : List Value) : Except Value (Option String) := do
  surfaceErrors args
  requireKind args .text
  return args.head?.bind Value.text?

/-- The rows of a query, or of the default one. A null name stands for the default one, too. -/
def ofQuery (args : List Value) (c : Context) : Outcome := do
  match args with
  | [] => read c (c.scope.rowNumber? none) noQuery
  | [_] => read c (c.scope.rowNumber? (← name args)) noQuery
  | _ => invalid

/-- The rows since a break. -/
def ofBreak (args : List Value) (c : Context) : Outcome := do
  match args with
  | [_] => read c ((← name args).bind c.scope.breakRowNumber?) noBreak
  | _ => invalid

end Counter

/-- The outcome of a built-in function. -/
def Builtin.apply (f : Builtin) (args : List Value) (c : Context) : Outcome :=
  let p := c.precision
  match f with
  | add => Arithmetic.add args p
  | sub => Arithmetic.sub args p
  | mul => Arithmetic.mul args p
  | div => Arithmetic.div args p
  | uminus => unary args fun n => some n.neg
  | abs => unary args fun n => some n.abs
  | inc => Arithmetic.step args 1 p
  | dec => Arithmetic.step args (-1) p
  | remainder | fmod => Arithmetic.remainder args p
  | pow => Arithmetic.pow args p
  | factorial => unary args (·.factorial? p)
  | sqr => unary args fun n => some (n.mul n p)
  | sqrt => unary args (·.sqrt? p)
  | ceil => unary args fun n => some n.ceil
  | floor => unary args fun n => some n.floor
  | round => unary args fun n => some n.round
  | trunc => unary args fun n => some n.trunc
  | rint => unary args fun n => some (n.rint p)
  | land => Arithmetic.logical args fun bs => bs.all id
  | lor => Arithmetic.logical args fun bs => bs.any id
  | lnot => unary args fun n => some (.ofBool n.isZero)
  | and => Arithmetic.bitwise args (· &&& ·)
  | or => Arithmetic.bitwise args (· ||| ·)
  | xor => Arithmetic.bitwise args (· ^^^ ·)
  | not => Arithmetic.complement args
  | shl => Arithmetic.shift args Arithmetic.shiftLeft
  | shr => Arithmetic.shift args Arithmetic.shiftRight
  | eq => Compare.equality args true
  | ne => Compare.equality args false
  | lt => Compare.order args (·.isLT)
  | le => Compare.order args (·.isLE)
  | gt => Compare.order args (·.isGT)
  | ge => Compare.order args (·.isGE)
  | iif => Compare.iif args p
  | val => match args with
    | v :: _ => if v.kind = .datetime then invalid else .ok (v.toNumber p)
    | [] => invalid
  | isnull => Compare.isNull args
  | null => Compare.null args
  | nulldt => .ok (.null .datetime)
  | nulln => .ok (.null .number)
  | nulls => .ok (.null .text)
  | error => Compare.error args
  | concat => Texts.concat args
  | left => Texts.left args p
  | right => Texts.right args p
  | mid => Texts.mid args p
  | lower => Texts.map args Text.lower
  | upper => Texts.map args Text.upper
  | proper => Texts.map args Text.proper
  | strlen => Texts.length args
  | str => Texts.str args p
  | fxpval => Texts.fixedPoint args p
  | format => Formatting.formatOne args p c.dateOrder
  | printf => Formatting.formatAll args p
  | translate => Texts.translate args
  | translate2 => Texts.translatePlural args
  | stodt => Dates.ofText args c.dateOrder
  | dtos => Dates.toText args c.dateOrder
  | dtosf => Formatting.formatDate args p c.dateOrder
  | date => .ok (.datetime c.clock.today)
  | now => .ok (.datetime c.clock.now)
  | year => Dates.datePart args (·.year)
  | month => Dates.datePart args (·.month)
  | day => Dates.datePart args (·.day)
  | dim => Dates.daysInMonth args
  | wiy => Dates.weekOf args Dates.sundayWeek
  | wiy1 => Dates.weekOf args Dates.mondayWeek
  | wiyo => Dates.weekWithOffset args p
  | stdwiy => Dates.weekOf args fun d => d.isoWeek.2
  | dateof => Dates.dateOf args
  | timeof => Dates.timeOf args
  | chgdateof => Dates.replacePart args Dates.withDateOf
  | chgtimeof => Dates.replacePart args Dates.withTimeOf
  | gettimeinsecs => Dates.secondsOf args
  | settimeinsecs => Dates.withSeconds args p
  | interval => Dates.interval args p
  | sin => Elementary.apply args p Float.sin
  | cos => Elementary.apply args p Float.cos
  | tan => Elementary.apply args p Float.tan
  | asin => Elementary.apply args p Float.asin
  | acos => Elementary.apply args p Float.acos
  | atan => Elementary.apply args p Float.atan
  | sec => Elementary.apply args p Elementary.sec
  | csc => Elementary.apply args p Elementary.csc
  | cot => Elementary.apply args p Elementary.cot
  | log => Elementary.apply args p Float.log
  | log2 => Elementary.apply args p Float.log2
  | log10 => Elementary.apply args p Float.log10
  | exp => Elementary.apply args p Float.exp
  | exp2 => Elementary.apply args p Float.exp2
  | exp10 => Elementary.apply args p Elementary.exp10
  | random => .ok (.number c.clock.draw)
  | rownum => Counter.ofQuery args c
  | brrownum => Counter.ofBreak args c
  | prevval => .error (.error "Subexpression has no previous result")

/-- Applies a function; a wrong number of operands is an error. -/
def Function.apply (f : Function) (args : List Value) (c : Context) : Value :=
  if f.arity.accepts args.length then
    match f with
    | builtin e => (e.builtin.apply args c).value
    | user f => f.body args c
  else .invalidOperands

end Reporting
