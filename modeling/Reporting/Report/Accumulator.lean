import Reporting.Function.Compare
/-!
What a variable makes of the values of many rows.
-/
namespace Reporting

/-- How a variable combines the values of rows. -/
inductive VariableKind
  /-- The number of values that are not null, or of rows. -/
  | count
  /-- The number of rows. -/
  | countAll
  | sum
  /-- The sum by the number of values that are not null. -/
  | average
  /-- The sum by the number of rows. -/
  | averageAll
  | lowest
  | highest
  /-- The value of the row itself. -/
  | expression
  /-- A chain of expressions. -/
  | custom
  deriving DecidableEq, Repr

namespace VariableKind

def name : VariableKind → String
  | count => "count"
  | countAll => "countall"
  | sum => "sum"
  | average => "average"
  | averageAll => "averageall"
  | lowest => "lowest"
  | highest => "highest"
  | expression => "expression"
  | custom => "custom"

def ofName? : String → Option VariableKind
  | "count" => some count
  | "countall" => some countAll
  | "sum" => some sum
  | "average" => some average
  | "averageall" => some averageAll
  | "lowest" => some lowest
  | "highest" => some highest
  | "expression" => some expression
  | "custom" => some custom
  | _ => none

/-- Whether the result is made of the values of many rows. -/
def isAggregate : VariableKind → Bool
  | expression | custom => false
  | _ => true

/-- Whether there is no result without a base expression. -/
def needsBase : VariableKind → Bool
  | count | countAll | custom => false
  | _ => true

theorem ofName?_name (k : VariableKind) : ofName? k.name = some k := by
  cases k <;> rfl

end VariableKind

/-- What is known of the values that were added. -/
structure Accumulator where
  rows : Nat := 0
  /-- The number of values that are not null. -/
  count : Nat := 0
  sum : Option Decimal := none
  lowest : Option Value := none
  highest : Option Value := none
  deriving DecidableEq, Repr

namespace Accumulator

/-- The order of two values of one kind. -/
def rank (v w : Value) : Except Value Ordering :=
  match v.payload, w.payload with
  | .number a, .number b => .ok (a.compare b)
  | .text a, .text b => .ok (Compare.compareTexts a b)
  | .datetime a, .datetime b => .ok (a.compare b)
  | _, _ => .error .invalidOperands

/-- The value that comes first in the wanted order; of equal ones the earlier stays. -/
def better (wanted : Ordering) (v : Value) : Option Value → Except Value Value
  | none => .ok v
  | some w => do return if (← rank v w) = wanted then v else w

/-- Takes in a value that is not null. -/
def take (a : Accumulator) (k : VariableKind) (v : Value) (p : Precision) :
    Except Value Accumulator :=
  match k with
  | .sum | .average | .averageAll => match v.number? with
    | some n => .ok { a with sum := some ((a.sum.map fun s => s.add n p).getD n) }
    | none => .error .invalidOperands
  | .lowest => do return { a with lowest := some (← better .lt v a.lowest) }
  | .highest => do return { a with highest := some (← better .gt v a.highest) }
  | _ => .ok a

/-- The sum divided by a number of values. -/
def mean (a : Accumulator) (n : Nat) (p : Precision) : Value :=
  if n = 0 then .null .number
  else match a.sum.bind fun s => s.div? (.ofInt n) p with
    | some q => .number q
    | none => .null .number

/-- What the values seen so far give. -/
def result (a : Accumulator) (k : VariableKind) (p : Precision) : Value :=
  match k with
  | .count => .ofInt a.count
  | .countAll => .ofInt a.rows
  | .sum => .number (a.sum.getD .zero)
  | .average => a.mean a.count p
  | .averageAll => a.mean a.rows p
  | .lowest => a.lowest.getD (.null .number)
  | .highest => a.highest.getD (.null .number)
  | .expression | .custom => .null .number

/-- Adds the value of a row, and gives the new result. Errors are results of their row, and a value
that does not fit counts although it changes nothing else. -/
def add (a : Accumulator) (k : VariableKind) (v : Value) (p : Precision) : Accumulator × Value :=
  let a := { a with rows := a.rows + 1 }
  if v.isError || k = .expression then (a, v)
  else if v.isNull then (a, a.result k p)
  else
    let a := { a with count := a.count + 1 }
    match a.take k v p with
    | .ok a => (a, a.result k p)
    | .error e => (a, e)

end Accumulator
end Reporting
