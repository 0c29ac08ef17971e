/-!
JSON values and the rules by which records, choices and lists are read from them.
-/
namespace Reporting

/-- A JSON value. Members of an object keep their order and may repeat. -/
inductive Json
  | null
  | bool (b : Bool)
  | integer (n : Int)
  /-- A number with a fraction or an exponent, or negative zero. -/
  | real (numeral : String)
  | text (s : String)
  /-- A text with an escaped surrogate that has no partner, or an object with such a key. It has no
  value, but may be skipped. -/
  | unpaired
  | array (items : List Json)
  | object (members : List (String × Json))
  deriving Inhabited, Repr

namespace Json

/-- The values of the named fields: of an object by name, each name at most once, and of an array by
position. Other members of an object are ignored; an array may be too short, but not too long. -/
def fields? (names : List String) : Json → Option (List (Option Json))
  | object members =>
    if names.all fun name => (members.filter fun m => m.1 = name).length ≤ 1 then
      some (names.map fun name => members.lookup name)
    else none
  | array items =>
    if items.length ≤ names.length then
      some (items.map some ++ List.replicate (names.length - items.length) none)
    else none
  | _ => none

/-- A field that must be there. -/
def required? (read : Json → Option α) (field : Option Json) : Option α :=
  field.bind read

/-- A field that has a default. -/
def orElse? (read : Json → Option α) (default : α) : Option Json → Option α
  | some value => read value
  | none => some default

/-- A value or null. -/
def nullable? (read : Json → Option α) : Json → Option (Option α)
  | null => some none
  | value => (read value).map some

/-- A field that may be null or absent. -/
def optional? (read : Json → Option α) : Option Json → Option (Option α) :=
  orElse? (nullable? read) none

def text? : Json → Option String
  | text s => some s
  | _ => none

def bool? : Json → Option Bool
  | bool b => some b
  | _ => none

/-- An integer below a bound. -/
def natBelow? (bound : Nat) : Json → Option Nat
  | integer n => if 0 ≤ n ∧ n < bound then some n.toNat else none
  | _ => none

def list? (read : Json → Option α) : Json → Option (List α)
  | array items => items.mapM read
  | _ => none

/-- One of several names, alone or as the only member of an object with the value null. -/
def name? : Json → Option String
  | text s => some s
  | object [(s, null)] => some s
  | _ => none

end Json
end Reporting
