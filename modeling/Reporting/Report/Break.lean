import Reporting.Expr.Evaluate
/-!
Breaks: a break starts a new group of rows whenever one of its fields changes. Breaks are nested in
their order, and a break triggers all breaks inside it.
-/
namespace Reporting

/-- A break as it is defined. -/
structure BreakDef where
  name : String
  fields : List String := []
  /-- Formulas of constant numbers; one other than zero sets the attribute. -/
  newPage : Option String := none
  headerNewPage : Option String := none
  suppressBlank : Option String := none
  deriving DecidableEq, Repr

/-- How a layout treats a break. -/
structure BreakFlags where
  newPage : Bool := false
  headerNewPage : Bool := false
  suppressBlank : Bool := false
  deriving DecidableEq, Repr

/-- A break whose fields are compiled. -/
structure Break where
  name : String
  flags : BreakFlags := {}
  fields : List Computation := []

namespace Break

/-- The value of an attribute, whose formula must be a constant number. -/
def flag (c : Compiler) (name : String) (which : BreakAttribute) :
    Option String → Except Error Bool
  | none => .ok false
  | some text => do
    let x ← c.compileText text
    match (x.optimize c.precision c.dateOrder).root.constant?.bind Value.number? with
    | some n => return !n.isZero
    | none => throw (.invalidBreakAttribute name which)

def compile (c : Compiler) (d : BreakDef) : Except Error Break := do
  let newPage ← flag c d.name .newPage d.newPage
  let headerNewPage ← flag c d.name .headerNewPage d.headerNewPage
  let suppressBlank ← flag c d.name .suppressBlank d.suppressBlank
  let fields ← d.fields.mapM c.compileText
  return { name := d.name, flags := { newPage, headerNewPage, suppressBlank }, fields }

/-- A break without fields cannot trigger. -/
def check (b : Break) : Except Error Unit :=
  if b.fields.isEmpty then .error (.uselessBreak b.name) else .ok ()

/-- Keeps the fields whose names all stand for something, and drops a break that loses all of
them. -/
def resolve? (b : Break) (s : Scope) (optimize : Computation → Computation) : Option Break :=
  let fields := b.fields.filterMap fun x =>
    let (x, missing) := x.resolve s
    if missing.isEmpty then some (optimize x) else none
  if fields.isEmpty then none else some { b with fields }

def restart (b : Break) : Break := { b with fields := b.fields.map .restart }

/-- Evaluates all fields for a row, and tells whether one has changed since the row before. -/
def evaluate (b : Break) (c : Context) : Break × Bool :=
  let fields := b.fields.map fun x => (x.evaluate c).1
  let changed := fields.any fun x =>
    !(x.result c.scope .current).sameAs (x.result c.scope .previous)
  ({ b with fields }, changed)

end Break
end Reporting
