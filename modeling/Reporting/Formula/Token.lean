/-!
The tokens of formulas and their texts.
-/
namespace Reporting

/-- The operators and delimiters of formulas. -/
inductive Symbol
  | plus | minus | asterisk | slash | percent | caret | increment | decrement
  | bang | tilde | ampersand | pipe | doubleAmpersand | doublePipe | doubleCaret
  | shiftLeft | shiftRight
  | equals | notEqual | lessThan | greaterThan | lessEqual | greaterEqual
  | leftParen | rightParen | comma | dot | question | colon
  deriving DecidableEq, Repr

/-- How a symbol is written; of two spellings, the one that messages use. -/
def Symbol.text : Symbol → String
  | plus => "+" | minus => "-" | asterisk => "*" | slash => "/" | percent => "%" | caret => "^"
  | increment => "++" | decrement => "--" | bang => "!" | tilde => "~" | ampersand => "&"
  | pipe => "|" | doubleAmpersand => "&&" | doublePipe => "||" | doubleCaret => "^^"
  | shiftLeft => "<<" | shiftRight => ">>" | equals => "=" | notEqual => "!=" | lessThan => "<"
  | greaterThan => ">" | lessEqual => "<=" | greaterEqual => ">=" | leftParen => "("
  | rightParen => ")" | comma => "," | dot => "." | question => "?" | colon => ":"

/-- A token of a formula. -/
inductive Token
  /-- A number as it is written. -/
  | number (numeral : String)
  /-- The content of a quoted text. -/
  | text (content : String)
  /-- What stands in braces, trimmed. -/
  | datetime (content : String)
  | identifier (name : String)
  | symbol (s : Symbol)
  /-- A character that starts no token, or the opening quote of a text without an end. -/
  | illegal (c : Char)
  deriving DecidableEq, Repr

namespace Text

/-- Writes a quote inside a text twice. -/
def doubleQuotes (q : Char) (s : List Char) : List Char :=
  s.flatMap fun c => if c = q then [q, q] else [c]

/-- A text in single quotes. -/
def quoted (s : String) : String :=
  "'" ++ String.ofList (doubleQuotes '\x27' s.toList) ++ "'"

/-- A text in braces. -/
def braced (s : String) : String := "\x7b" ++ s ++ "\x7d"

end Text

/-- A token as messages show it. -/
def Token.display : Token → String
  | number numeral => numeral
  | text content => Text.quoted content
  | datetime content => Text.braced content
  | identifier name => name
  | symbol s => s.text
  | illegal c => "ILLEGAL(" ++ c.toString ++ ")"

end Reporting
