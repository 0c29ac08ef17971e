/-!
The built-in functions: their names, how many operands they take, and what may be assumed when calls
are regrouped.
-/
namespace Reporting

/-- The built-in functions. -/
inductive Builtin
  | add | sub | mul | div | uminus | abs | inc | dec | remainder | fmod | pow | factorial
  | sqr | sqrt | ceil | floor | round | trunc | rint
  | land | lor | lnot | and | or | xor | not | shl | shr
  | eq | ne | lt | le | gt | ge | iif | val | isnull | null | nulldt | nulln | nulls | error
  | concat | left | right | mid | lower | upper | proper | strlen | str | fxpval
  | format | printf | translate | translate2
  | stodt | dtos | dtosf | date | now | year | month | day | dim | wiy | wiy1 | wiyo | stdwiy
  | dateof | timeof | chgdateof | chgtimeof | gettimeinsecs | settimeinsecs | interval
  | sin | cos | tan | asin | acos | atan | sec | csc | cot
  | log | log2 | log10 | exp | exp2 | exp10
  | random | rownum | brrownum | prevval
  deriving DecidableEq, Repr

/-- How many operands a function takes. -/
inductive Arity
  | exact (n : Nat)
  | variadic
  deriving DecidableEq, Repr

def Arity.accepts : Arity → Nat → Bool
  | exact n, k => n == k
  | variadic, _ => true

/-- What may be assumed of a function when calls are regrouped or computed in advance. -/
structure Traits where
  commutative : Bool := false
  associative : Bool := false
  leftAssociative : Bool := false
  /-- The value is not given by the operands alone. -/
  volatileCall : Bool := false
  deriving DecidableEq, Repr

namespace Traits

def plain : Traits := {}

def commAssoc : Traits := { commutative := true, associative := true }

def comm : Traits := { commutative := true }

def commAssocLeft : Traits :=
  { commutative := true, associative := true, leftAssociative := true }

def leftAssoc : Traits := { leftAssociative := true }

def volatile : Traits := { volatileCall := true }

/-- Whether operands may change their order and their grouping. -/
def isCommAssoc (t : Traits) : Bool := t.commutative && t.associative

end Traits

/-- A name of a built-in function. -/
structure Entry where
  name : String
  builtin : Builtin
  arity : Arity
  traits : Traits
  deriving DecidableEq, Repr

/-- The names of the built-in functions in alphabetical order. A function may have several names. -/
def Entry.all : List Entry := [
  ⟨"abs", .abs, .exact 1, .plain⟩,
  ⟨"acos", .acos, .exact 1, .plain⟩,
  ⟨"add", .add, .variadic, .commAssoc⟩,
  ⟨"and", .and, .variadic, .commAssoc⟩,
  ⟨"asin", .asin, .exact 1, .plain⟩,
  ⟨"atan", .atan, .exact 1, .plain⟩,
  ⟨"brrownum", .brrownum, .exact 1, .volatile⟩,
  ⟨"ceil", .ceil, .exact 1, .plain⟩,
  ⟨"chgdateof", .chgdateof, .exact 2, .plain⟩,
  ⟨"chgtimeof", .chgtimeof, .exact 2, .plain⟩,
  ⟨"concat", .concat, .variadic, .plain⟩,
  ⟨"cos", .cos, .exact 1, .plain⟩,
  ⟨"cot", .cot, .exact 1, .plain⟩,
  ⟨"csc", .csc, .exact 1, .plain⟩,
  ⟨"date", .date, .exact 0, .volatile⟩,
  ⟨"dateof", .dateof, .exact 1, .plain⟩,
  ⟨"day", .day, .exact 1, .plain⟩,
  ⟨"dec", .dec, .exact 1, .plain⟩,
  ⟨"dim", .dim, .exact 1, .plain⟩,
  ⟨"div", .div, .variadic, .leftAssoc⟩,
  ⟨"dtos", .dtos, .exact 1, .plain⟩,
  ⟨"dtosf", .dtosf, .exact 2, .plain⟩,
  ⟨"eq", .eq, .exact 2, .comm⟩,
  ⟨"error", .error, .exact 1, .plain⟩,
  ⟨"exp", .exp, .exact 1, .plain⟩,
  ⟨"exp10", .exp10, .exact 1, .plain⟩,
  ⟨"exp2", .exp2, .exact 1, .plain⟩,
  ⟨"factorial", .factorial, .exact 1, .plain⟩,
  ⟨"floor", .floor, .exact 1, .plain⟩,
  ⟨"fmod", .fmod, .exact 2, .plain⟩,
  ⟨"format", .format, .exact 2, .plain⟩,
  ⟨"fxpval", .fxpval, .exact 2, .plain⟩,
  ⟨"ge", .ge, .exact 2, .plain⟩,
  ⟨"gettimeinsecs", .gettimeinsecs, .exact 1, .plain⟩,
  ⟨"gt", .gt, .exact 2, .plain⟩,
  ⟨"iif", .iif, .exact 3, .plain⟩,
  ⟨"inc", .inc, .exact 1, .plain⟩,
  ⟨"interval", .interval, .variadic, .plain⟩,
  ⟨"isnull", .isnull, .exact 1, .plain⟩,
  ⟨"land", .land, .variadic, .commAssoc⟩,
  ⟨"le", .le, .exact 2, .plain⟩,
  ⟨"left", .left, .exact 2, .plain⟩,
  ⟨"ln", .log, .exact 1, .plain⟩,
  ⟨"lnot", .lnot, .exact 1, .plain⟩,
  ⟨"log", .log, .exact 1, .plain⟩,
  ⟨"log10", .log10, .exact 1, .plain⟩,
  ⟨"log2", .log2, .exact 1, .plain⟩,
  ⟨"lor", .lor, .variadic, .commAssoc⟩,
  ⟨"lower", .lower, .exact 1, .plain⟩,
  ⟨"lt", .lt, .exact 2, .plain⟩,
  ⟨"mid", .mid, .exact 3, .plain⟩,
  ⟨"mod", .remainder, .exact 2, .plain⟩,
  ⟨"month", .month, .exact 1, .plain⟩,
  ⟨"mul", .mul, .variadic, .commAssoc⟩,
  ⟨"ne", .ne, .exact 2, .comm⟩,
  ⟨"not", .not, .exact 1, .plain⟩,
  ⟨"now", .now, .exact 0, .volatile⟩,
  ⟨"null", .null, .exact 1, .plain⟩,
  ⟨"nulldt", .nulldt, .exact 0, .plain⟩,
  ⟨"nulln", .nulln, .exact 0, .plain⟩,
  ⟨"nulls", .nulls, .exact 0, .plain⟩,
  ⟨"or", .or, .variadic, .commAssoc⟩,
  ⟨"pow", .pow, .exact 2, .plain⟩,
  ⟨"prevval", .prevval, .exact 1, .volatile⟩,
  ⟨"printf", .printf, .variadic, .plain⟩,
  ⟨"proper", .proper, .exact 1, .plain⟩,
  ⟨"random", .random, .exact 0, .volatile⟩,
  ⟨"remainder", .remainder, .exact 2, .plain⟩,
  ⟨"right", .right, .exact 2, .plain⟩,
  ⟨"rint", .rint, .exact 1, .plain⟩,
  ⟨"round", .round, .exact 1, .plain⟩,
  ⟨"rownum", .rownum, .variadic, .volatile⟩,
  ⟨"sec", .sec, .exact 1, .plain⟩,
  ⟨"settimeinsecs", .settimeinsecs, .exact 2, .plain⟩,
  ⟨"shl", .shl, .exact 2, .plain⟩,
  ⟨"shr", .shr, .exact 2, .plain⟩,
  ⟨"sin", .sin, .exact 1, .plain⟩,
  ⟨"sqr", .sqr, .exact 1, .plain⟩,
  ⟨"sqrt", .sqrt, .exact 1, .plain⟩,
  ⟨"stdwiy", .stdwiy, .exact 1, .plain⟩,
  ⟨"stod", .stodt, .exact 1, .plain⟩,
  ⟨"stodt", .stodt, .exact 1, .plain⟩,
  ⟨"stodtsql", .stodt, .exact 1, .plain⟩,
  ⟨"str", .str, .exact 3, .plain⟩,
  ⟨"strlen", .strlen, .exact 1, .plain⟩,
  ⟨"sub", .sub, .variadic, .leftAssoc⟩,
  ⟨"tan", .tan, .exact 1, .plain⟩,
  ⟨"timeof", .timeof, .exact 1, .plain⟩,
  ⟨"translate", .translate, .exact 1, .plain⟩,
  ⟨"translate2", .translate2, .exact 3, .plain⟩,
  ⟨"trunc", .trunc, .exact 1, .plain⟩,
  ⟨"tstod", .stodt, .exact 1, .plain⟩,
  ⟨"uminus", .uminus, .exact 1, .plain⟩,
  ⟨"upper", .upper, .exact 1, .plain⟩,
  ⟨"val", .val, .exact 1, .plain⟩,
  ⟨"wiy", .wiy, .exact 1, .plain⟩,
  ⟨"wiy1", .wiy1, .exact 1, .plain⟩,
  ⟨"wiyo", .wiyo, .exact 2, .plain⟩,
  ⟨"xor", .xor, .variadic, .commAssocLeft⟩,
  ⟨"year", .year, .exact 1, .plain⟩]

/-- The entry of a name that is written in lower case. -/
def Entry.find? (name : String) : Option Entry := all.find? fun e => e.name = name

end Reporting
