import Reporting.Expr.Compile
import Reporting.Expr.Printer
import Reporting.Expr.Resolve
import Reporting.Expr.Optimize
/-!
Evaluating expressions, once for every row.
-/
namespace Reporting

namespace Expr

/-- The value that an operand had one evaluation ago. -/
def previousValue (c : Context) (self : Option Value) (operands : List Expr) : Value :=
  match operands with
  | [e] =>
    if e.hasValue .previous then e.value c.scope self .previous
    else .error "Subexpression has no previous result"
  | _ => .invalidOperands

/-- The value of a call whose operands are evaluated. -/
def callValue (c : Context) (self : Option Value) (f : Function) (operands : List Expr) : Value :=
  if f.builtin? = some .prevval then previousValue c self operands
  else f.apply (operands.map fun e => e.value c.scope self c.slot) c

mutual

/-- Evaluates the calls of an expression, operands first. A call that reads a counter holds no value
of its own and stays. -/
def evaluate (c : Context) (self : Option Value) : Expr → Expr
  | call f operands ring grouped =>
    match ring.current with
    | some (.borrowed _) => call f operands ring grouped
    | _ =>
      let operands := evaluateAll c self operands
      let v := callValue c self f operands
      call f operands (ring.push c.slot (some (.owned v))) grouped
  | e => e

def evaluateAll (c : Context) (self : Option Value) : List Expr → List Expr
  | [] => []
  | e :: es => evaluate c self e :: evaluateAll c self es

end

end Expr

/-- An expression that may read its own previous result as `r.self`. -/
structure Computation where
  root : Expr
  /-- The text it was compiled from. -/
  source : String
  /-- What `r.self` is at first; without it, a null number. -/
  initial : Option Value := none
  /-- Whether the first evaluation gives the initial value itself. -/
  startsWithInitial : Bool := false
  /-- Whether there was an evaluation since the last restart. -/
  evaluated : Bool := false

/-- Reads and compiles a formula. -/
def Compiler.compileText (c : Compiler) (text : String) : Except Error Computation :=
  match Formula.parse text with
  | .error e => .error (.parse e)
  | .ok f => do return { root := ← c.compile f, source := text }

namespace Computation

def nodes (x : Computation) : Nat := x.root.nodes

def sources (x : Computation) : List Source := x.root.sources

/-- Whether the expression reads its own previous result. -/
def isIterative (x : Computation) : Bool := x.sources.any fun s => s == .self

/-- Whether the expression reads a precalculated variable. -/
def isDelayed (x : Computation) : Bool :=
  x.sources.any fun
    | .result _ precalculated => precalculated
    | _ => false

/-- Binds all names, and tells the names that stand for nothing. -/
def resolve (x : Computation) (s : Scope) : Computation × List Reference :=
  let (root, missing) := x.root.resolve s
  ({ x with root }, missing)

def optimize (x : Computation) (p : Precision) (order : DateOrder) : Computation :=
  { x with root := x.root.optimize p order }

/-- Makes the next evaluation a first one. -/
def restart (x : Computation) : Computation := { x with evaluated := false }

/-- The value before the first evaluation. -/
def initialValue (x : Computation) : Value := x.initial.getD (.null .number)

/-- Stores a value in a call as if it had been evaluated to it. -/
def store (slot : Slot) (v : Value) : Expr → Expr
  | .call f operands ring grouped => .call f operands (ring.push slot (some (.owned v))) grouped
  | e => e

/-- Evaluates the expression for a row. -/
def evaluate (x : Computation) (c : Context) : Computation × Value :=
  if !x.evaluated && x.startsWithInitial then
    ({ x with evaluated := true, root := store c.slot x.initialValue x.root }, x.initialValue)
  else
    let before :=
      if x.evaluated then x.root.value c.scope (some x.initialValue) c.slot else x.initialValue
    let root := x.root.evaluate c (some before)
    ({ x with root, evaluated := true }, root.value c.scope (some before) c.slot)

/-- The value last evaluated into a slot. -/
def result (x : Computation) (scope : Scope) (slot : Slot) : Value :=
  x.root.value scope x.initial slot

end Computation
end Reporting
