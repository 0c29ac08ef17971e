import Reporting.Json.Basic
/-!
Writing JSON in ASCII on one line.
-/
namespace Reporting.Json

/-- A UTF-16 unit as four hexadecimal digits. -/
def hexUnit (n : Nat) : List Char :=
  '\\' :: 'u' :: [n / 4096 % 16, n / 256 % 16, n / 16 % 16, n % 16].map Nat.digitChar

/-- A character of a text. Those outside printable ASCII are escaped by their UTF-16 units. -/
def escape (c : Char) : List Char :=
  let n := c.toNat
  if c = '"' ∨ c = '\\' then ['\\', c]
  else if 0x20 ≤ n ∧ n ≤ 0x7E then [c]
  else if n < 0x10000 then hexUnit n
  else hexUnit (0xD800 + (n - 0x10000) / 0x400) ++ hexUnit (0xDC00 + (n - 0x10000) % 0x400)

def renderText (s : String) : String := "\"" ++ String.ofList (s.toList.flatMap escape) ++ "\""

mutual

/-- A value on one line. A text that is no text has no form of its own and becomes null. -/
def render : Json → String
  | null | unpaired => "null"
  | bool b => if b then "true" else "false"
  | integer n => toString n
  | real numeral => numeral
  | text s => renderText s
  | array items => "[" ++ ",".intercalate (renderItems items) ++ "]"
  | object members => "\x7b" ++ ",".intercalate (renderMembers members) ++ "\x7d"

def renderItems : List Json → List String
  | [] => []
  | j :: js => render j :: renderItems js

def renderMembers : List (String × Json) → List String
  | [] => []
  | (name, j) :: ms => (renderText name ++ ":" ++ render j) :: renderMembers ms

end

end Reporting.Json
