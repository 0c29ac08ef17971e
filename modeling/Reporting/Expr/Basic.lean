import Reporting.Function.Apply
import Reporting.Formula.Printer
/-!
Compiled expressions: trees of constants, references and calls. A call keeps the values it was
evaluated to.
-/
namespace Reporting

/-- A name in an expression. -/
inductive Reference
  | named (scope : NameScope) (name : String)
  | column (name : ColumnName)
  deriving DecidableEq, Repr

/-- What a name evaluates to that stands for nothing. -/
def Reference.invalid : Reference → Value
  | named scope name => .error ("invalid identifier '" ++ scope.letter ++ "." ++ name ++ "'")
  | column name => .error ("invalid identifier '" ++ name.render ++ "'")

/-- What a slot of a call holds: a value, or the place of one. -/
inductive Cell
  | owned (v : Value)
  | borrowed (s : Source)
  deriving DecidableEq, Repr

/-- A compiled expression. What was written in parentheses or as an argument is grouped. -/
inductive Expr
  | constant (value : Value) (grouped : Bool)
  /-- A name, and what it stands for if that is known. -/
  | reference (name : Reference) (target : Option Source) (grouped : Bool)
  | call (f : Function) (operands : List Expr) (ring : Ring (Option Cell)) (grouped : Bool)

namespace Expr

instance : Inhabited Expr := ⟨constant default false⟩

/-- A call that was not evaluated yet. -/
def ofCall (f : Function) (operands : List Expr) : Expr := call f operands (.fill none) false

/-- Marks an expression as grouped. -/
def group : Expr → Expr
  | constant v _ => constant v true
  | reference r t _ => reference r t true
  | call f es ring _ => call f es ring true

def isGrouped : Expr → Bool
  | constant _ g => g
  | reference _ _ g => g
  | call _ _ _ g => g

def isConstant : Expr → Bool
  | constant .. => true
  | _ => false

def constant? : Expr → Option Value
  | constant v _ => some v
  | _ => none

/-- The value of a source. `self` is what the expression itself gave before. -/
def readSource (scope : Scope) (self : Option Value) (slot : Slot) : Source → Option Value
  | .self => some (self.getD (.null .number))
  | s => scope.lookup? s slot

/-- The value of an expression in a slot, as it was evaluated last. -/
def value (scope : Scope) (self : Option Value) (slot : Slot) : Expr → Value
  | constant v _ => v
  | reference r none _ => r.invalid
  | reference r (some s) _ => (readSource scope self slot s).getD r.invalid
  | call _ _ ring _ => match ring.get slot with
    | some (.owned v) => v
    | some (.borrowed s) => (readSource scope self slot s).getD (.error "invalid identifier ''")
    | none => .invalidOperands

/-- Whether the expression has a value in a slot. -/
def hasValue (slot : Slot) : Expr → Bool
  | call _ _ ring _ => (ring.get slot).isSome
  | _ => true

/-- Where the expression itself reads its current value, if it does not hold it. -/
def source? : Expr → Option Source
  | constant .. => none
  | reference _ target _ => target
  | call _ _ ring _ => match ring.current with
    | some (.borrowed s) => some s
    | _ => none

mutual

/-- The number of nodes. -/
def nodes : Expr → Nat
  | call _ operands _ _ => 1 + nodesAll operands
  | _ => 1

def nodesAll : List Expr → Nat
  | [] => 0
  | e :: es => e.nodes + nodesAll es

end

mutual

/-- The places that the expression reads, from left to right, a call before its operands. -/
def sources : Expr → List Source
  | constant .. => []
  | reference _ target _ => target.toList
  | call f operands ring g => (source? (call f operands ring g)).toList ++ sourcesAll operands

def sourcesAll : List Expr → List Source
  | [] => []
  | e :: es => e.sources ++ sourcesAll es

end

mutual

/-- The names in the expression, from left to right. -/
def references : Expr → List Reference
  | constant .. => []
  | reference r _ _ => [r]
  | call _ operands _ _ => referencesAll operands

def referencesAll : List Expr → List Reference
  | [] => []
  | e :: es => e.references ++ referencesAll es

end

end Expr
end Reporting
