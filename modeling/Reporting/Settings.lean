import Reporting.Config
import Reporting.Value.Reader
import Reporting.Function.Basic
/-!
What evaluation needs of the settings of a document.
-/
namespace Reporting

/-- The settings of a document, ready for use. -/
structure Settings where
  precision : Precision
  dateOrder : DateOrder
  decimalComma : Bool
  clock : Clock
  deriving Repr

def Config.settings (c : Config) (clock : Clock) : Settings :=
  { precision := c.precision, dateOrder := c.dateOrder, decimalComma := c.decimalComma, clock }

namespace Settings

/-- A context for evaluation in a scope. -/
def context (s : Settings) (scope : Scope) (slot : Slot) : Context :=
  { precision := s.precision, dateOrder := s.dateOrder, clock := s.clock, scope, slot }

def coercion (s : Settings) : Coercion :=
  { precision := s.precision, dateOrder := s.dateOrder, decimalComma := s.decimalComma }

end Settings

/-- Values by name, which formulas read as `m.NAME`. -/
abbrev Environment := List (String × Value)

/-- The value of a name; without one it is a null text. -/
def Environment.get (e : Environment) (name : String) : Value :=
  ((e.find? fun x => x.1 = name).map (·.2)).getD (.null .text)

end Reporting
