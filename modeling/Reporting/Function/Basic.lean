import Reporting.Function.Table
import Reporting.Formula.Tree
import Reporting.Slot
/-!
Functions and what they see: the values that names stand for, the clock, and the numeric settings.
-/
namespace Reporting

/-- The position of a query among all that were ever added. -/
structure QueryId where
  index : Nat
  deriving DecidableEq, Repr

/-- Where a reference reads its value. -/
inductive Source
  | column (query : QueryId) (index : Nat)
  | rowNumber (query : QueryId)
  | breakRowNumber (index : Nat)
  /-- The result of a variable of the report; a precalculated one is read ahead of its rows. -/
  | result (index : Nat) (precalculated : Bool)
  /-- A stage of a custom variable. -/
  | stage (index stage : Nat)
  | environment (name : String)
  /-- What the expression itself gave before. -/
  | self
  deriving DecidableEq, Repr

/-- What names stand for, and the values of what they stand for. -/
structure Scope where
  column? : ColumnName → Option Source := fun _ => none
  reportVariable? : String → Option Source := fun _ => none
  rowVariable? : String → Option Source := fun _ => none
  /-- The row counter of a query, or of the default one. -/
  rowNumber? : Option String → Option Source := fun _ => none
  breakRowNumber? : String → Option Source := fun _ => none
  lookup? : Source → Slot → Option Value := fun _ _ => none

/-- A scope without names. -/
def Scope.empty : Scope := {}

/-- What the functions of time and chance answer throughout a run. -/
structure Clock where
  now : Temporal := .ofDateTime 1970 1 1 0 0 0
  /-- A number from 0 up to 1, drawn by chance. -/
  draw : Decimal := ⟨5, 1⟩
  deriving Repr, Inhabited

def Clock.today (c : Clock) : Temporal := c.now.dateOnly

/-- What a function sees besides its operands. -/
structure Context where
  precision : Precision
  dateOrder : DateOrder
  clock : Clock
  scope : Scope
  /-- The slot into which is evaluated. -/
  slot : Slot := .current

/-- A function that was registered for a document. -/
structure UserFunction where
  name : String
  arity : Arity
  traits : Traits
  /-- The number of the registration, by which functions of one name are told apart. -/
  registration : Nat
  body : List Value → Context → Value

/-- A function that a call names. -/
inductive Function
  | builtin (entry : Entry)
  | user (f : UserFunction)

namespace Function

def name : Function → String
  | builtin e => e.name
  | user f => f.name

def arity : Function → Arity
  | builtin e => e.arity
  | user f => f.arity

def traits : Function → Traits
  | builtin e => e.traits
  | user f => f.traits

def builtin? : Function → Option Builtin
  | builtin e => some e.builtin
  | user _ => none

/-- Whether two names stand for one function. -/
def sameAs : Function → Function → Bool
  | builtin a, builtin b => a.builtin == b.builtin
  | user a, user b => a.registration == b.registration
  | _, _ => false

end Function

/-- The functions of a document: the registered ones hide built-in ones of the same name. -/
structure FunctionTable where
  /-- The registered functions, the latest first. -/
  users : List UserFunction := []

namespace FunctionTable

/-- Adds a function; it replaces an earlier one of its name. -/
def register (t : FunctionTable) (name : String) (arity : Arity) (traits : Traits)
    (body : List Value → Context → Value) : FunctionTable :=
  let name := String.ofList (name.toList.map Char.toLower)
  { users := { name, arity, traits, registration := t.users.length, body } :: t.users }

/-- The function of a name in any case. -/
def find? (t : FunctionTable) (name : String) : Option Function :=
  let name := String.ofList (name.toList.map Char.toLower)
  match t.users.find? fun f => f.name = name with
  | some f => some (.user f)
  | none => (Entry.find? name).map .builtin

end FunctionTable
end Reporting
