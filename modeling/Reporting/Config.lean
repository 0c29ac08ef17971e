import Reporting.Decimal.Rounding
import Reporting.Temporal.Basic
import Reporting.Json.Basic
/-!
Numeric and locale settings.
-/
namespace Reporting

/-- The settings that all expressions of a document share. -/
structure Config where
  /-- The precision of numbers in binary digits. -/
  precisionBits : Nat := 256
  rounding : Rounding := .nearest
  /-- A locale name such as `C`, `en_US` or `hu_HU.UTF-8`. -/
  locale : String := "C"
  deriving DecidableEq, Repr, Inhabited

namespace Config

/-- At least two binary digits are used. -/
def usedBits (c : Config) : Nat := max 2 c.precisionBits

def precision (c : Config) : Precision := .ofBits c.usedBits c.rounding

/-- Only the locale of the United States writes the month first. -/
def dateOrder (c : Config) : DateOrder :=
  if c.locale.startsWith "en_US" ∨ c.locale.startsWith "en-US" then .monthFirst else .dayFirst

/-- The language of the locale: its name up to a separator. -/
def language (c : Config) : String :=
  String.ofList (c.locale.toList.takeWhile fun c => c ≠ '_' && c ≠ '-' && c ≠ '.')

/-- The languages that write a decimal comma. -/
def commaLanguages : List String :=
  ["de", "fr", "hu", "it", "es", "pt", "nl", "pl", "cs", "sk", "ru", "sv", "da", "fi", "nb", "tr",
   "ro", "hr", "sl", "uk", "el"]

/-- Whether numbers of this locale are written with a decimal comma. -/
def decimalComma (c : Config) : Bool := commaLanguages.contains c.language

/-- Reads settings; what is not given keeps its default. -/
def ofJson? (j : Json) : Option Config := do
  match ← j.fields? ["precision_bits", "rounding", "locale"] with
  | [bits, rounding, locale] =>
    let precisionBits ← Json.orElse? (Json.natBelow? 0x100000000) 256 bits
    let rounding ← Json.orElse? (fun j => j.name?.bind Rounding.ofName?) .nearest rounding
    let locale ← Json.orElse? Json.text? "C" locale
    return { precisionBits, rounding, locale }
  | _ => none

end Config
end Reporting
