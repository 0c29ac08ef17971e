import Reporting.Formula.Parser
/-!
The grammar of formulas. A derivation says how a stretch of tokens is made up, and which tree it
denotes; the readers have no part in either.

From the loosest to the tightest, with `?` for what may be absent and `*` for what may be repeated:

- an expression is `level 0 ("?" expression ":" expression)?`;
- level `n` is `level (n + 1) (operator level (n + 1))*` with the operators of this level, and on the
  last level also `unary` without an operator, if it begins with an opening parenthesis, a name, a
  number or a date;
- behind the last level, a unary is `sign unary` or a power, a power is `suffixed ("^" unary)?`, and
  a suffixed is `primary suffix*`;
- a primary is a literal, a name, `name "." name`, `"." name`, a call or `"(" expression ")"`.
-/
namespace Reporting
namespace Grammar

/-- The operators of the levels, from the loosest, and what they stand for. -/
def operators : List (List (Symbol × BinaryOp)) := [
  [(.doublePipe, .logicalOr)],
  [(.doubleAmpersand, .logicalAnd)],
  [(.pipe, .bitOr)],
  [(.doubleCaret, .bitXor)],
  [(.ampersand, .bitAnd)],
  [(.equals, .equal), (.notEqual, .notEqual)],
  [(.lessThan, .lessThan), (.lessEqual, .lessEqual), (.greaterThan, .greaterThan),
    (.greaterEqual, .greaterEqual)],
  [(.shiftLeft, .shiftLeft), (.shiftRight, .shiftRight)],
  [(.plus, .add), (.minus, .subtract)],
  [(.asterisk, .multiply), (.slash, .divide), (.percent, .modulo)]]

/-- The operators of a level; there are none behind the last one. -/
def operatorsOf (n : Nat) : List (Symbol × BinaryOp) := operators.getD n []

/-- The operators before an operand, and what they stand for. -/
def signs : List (Symbol × UnaryOp) := [
  (.minus, .negate), (.plus, .plus), (.bang, .logicalNot), (.tilde, .bitNot),
  (.increment, .preIncrement), (.decrement, .preDecrement)]

/-- The operators after an operand, and what they stand for. -/
def suffixes : List (Symbol × UnaryOp) := [
  (.increment, .postIncrement), (.decrement, .postDecrement)]

/-- Whether a factor that begins so may follow another one without an operator. -/
def BeginsFactor : List Token → Prop
  | .symbol .leftParen :: _ | .identifier _ :: _ | .number _ :: _ | .datetime _ :: _ => True
  | _ => False

/-- Whether an opening parenthesis follows. -/
def BeginsArguments : List Token → Prop
  | .symbol .leftParen :: _ => True
  | _ => False

/-- What the grammar defines. -/
inductive Nonterminal
  | expression
  | level (n : Nat)
  /-- The operators of a level with their right operands. -/
  | operations (n : Nat)
  | unary
  | power
  | suffixed
  /-- The operators after an operand. -/
  | suffixes
  | primary
  | arguments
  deriving DecidableEq, Repr

/-- A derivation from a nonterminal of what `ts` begins with, up to `rest`. -/
inductive Derivation : Nonterminal → List Token → List Token → Type
  | simple {ts rest : List Token} : Derivation (.level 0) ts rest → Derivation .expression ts rest
  | conditional {ts r₁ r₂ rest : List Token} :
      Derivation (.level 0) ts (.symbol .question :: r₁) →
      Derivation .expression r₁ (.symbol .colon :: r₂) → Derivation .expression r₂ rest →
      Derivation .expression ts rest
  | level {n : Nat} {ts r rest : List Token} : n < operators.length →
      Derivation (.level (n + 1)) ts r → Derivation (.operations n) r rest →
      Derivation (.level n) ts rest
  /-- There are no more levels. -/
  | tightest {n : Nat} {ts rest : List Token} : n = operators.length →
      Derivation .unary ts rest → Derivation (.level n) ts rest
  | noOperation {n : Nat} {rest : List Token} : Derivation (.operations n) rest rest
  | operation {n : Nat} {ts r rest : List Token} (s : Symbol) (op : BinaryOp) :
      (s, op) ∈ operatorsOf n → Derivation (.level (n + 1)) ts r →
      Derivation (.operations n) r rest → Derivation (.operations n) (.symbol s :: ts) rest
  /-- A product without a sign. -/
  | product {n : Nat} {ts r rest : List Token} : n + 1 = operators.length → BeginsFactor ts →
      Derivation .unary ts r → Derivation (.operations n) r rest →
      Derivation (.operations n) ts rest
  | signed {ts rest : List Token} (s : Symbol) (op : UnaryOp) : (s, op) ∈ signs →
      Derivation .unary ts rest → Derivation .unary (.symbol s :: ts) rest
  | unsigned {ts rest : List Token} : Derivation .power ts rest → Derivation .unary ts rest
  | base {ts rest : List Token} : Derivation .suffixed ts rest → Derivation .power ts rest
  | power {ts r rest : List Token} : Derivation .suffixed ts (.symbol .caret :: r) →
      Derivation .unary r rest → Derivation .power ts rest
  | suffixed {ts r rest : List Token} : Derivation .primary ts r → Derivation .suffixes r rest →
      Derivation .suffixed ts rest
  | noSuffix {rest : List Token} : Derivation .suffixes rest rest
  | suffix {ts rest : List Token} (s : Symbol) (op : UnaryOp) : (s, op) ∈ suffixes →
      Derivation .suffixes ts rest → Derivation .suffixes (.symbol s :: ts) rest
  | number (numeral : String) {rest : List Token} :
      Derivation .primary (.number numeral :: rest) rest
  | text (content : String) {rest : List Token} : Derivation .primary (.text content :: rest) rest
  | datetime (content : String) {rest : List Token} :
      Derivation .primary (.datetime content :: rest) rest
  /-- A name that an opening parenthesis follows is no operand but the name of a call. -/
  | plain (name : String) {rest : List Token} : ¬ BeginsArguments rest →
      Derivation .primary (.identifier name :: rest) rest
  | qualified (qualifier name : String) {rest : List Token} :
      Derivation .primary (.identifier qualifier :: .symbol .dot :: .identifier name :: rest) rest
  | dotted (name : String) {rest : List Token} :
      Derivation .primary (.symbol .dot :: .identifier name :: rest) rest
  | emptyCall (name : String) {rest : List Token} :
      Derivation .primary
        (.identifier name :: .symbol .leftParen :: .symbol .rightParen :: rest) rest
  | call (name : String) {ts rest : List Token} :
      Derivation .arguments ts (.symbol .rightParen :: rest) →
      Derivation .primary (.identifier name :: .symbol .leftParen :: ts) rest
  | grouped {ts rest : List Token} : Derivation .expression ts (.symbol .rightParen :: rest) →
      Derivation .primary (.symbol .leftParen :: ts) rest
  | argument {ts rest : List Token} : Derivation .expression ts rest →
      Derivation .arguments ts rest
  | arguments {ts r rest : List Token} : Derivation .expression ts (.symbol .comma :: r) →
      Derivation .arguments r rest → Derivation .arguments ts rest

/-- What a derivation from a nonterminal denotes. -/
abbrev Nonterminal.Meaning : Nonterminal → Type
  | .operations _ => List (BinaryOp × Formula)
  | .suffixes => List UnaryOp
  | .arguments => List Formula
  | _ => Formula

/-- Operators with their right operands, grouped to the left. -/
def chain (first : Formula) (operations : List (BinaryOp × Formula)) : Formula :=
  operations.foldl (fun left operation => .binary operation.1 left operation.2) first

/-- An operand with the operators after it. -/
def withSuffixes (operand : Formula) (ops : List UnaryOp) : Formula :=
  ops.foldl (fun f op => .unary op f) operand

/-- What a derivation denotes. The operators of a level group to the left, the power and the
conditional group to the right, and parentheses are kept. -/
def Derivation.meaning : {n : Nonterminal} → {ts rest : List Token} → Derivation n ts rest →
    n.Meaning
  | _, _, _, .simple d => d.meaning
  | _, _, _, .conditional condition yes no =>
    Formula.conditional condition.meaning yes.meaning no.meaning
  | _, _, _, .level _ first operations => chain first.meaning operations.meaning
  | _, _, _, .tightest _ d => d.meaning
  | _, _, _, .noOperation => ([] : List (BinaryOp × Formula))
  | _, _, _, .operation _ op _ right operations => (op, right.meaning) :: operations.meaning
  | _, _, _, .product _ _ right operations => (BinaryOp.multiply, right.meaning) :: operations.meaning
  | _, _, _, .signed _ op _ operand => Formula.unary op operand.meaning
  | _, _, _, .unsigned d => d.meaning
  | _, _, _, .base d => d.meaning
  | _, _, _, .power left right => Formula.binary .power left.meaning right.meaning
  | _, _, _, .suffixed operand ops => withSuffixes operand.meaning ops.meaning
  | _, _, _, .noSuffix => ([] : List UnaryOp)
  | _, _, _, .suffix _ op _ ops => op :: ops.meaning
  | _, _, _, .number numeral => Formula.literal (.number numeral)
  | _, _, _, .text content => Formula.literal (.text content)
  | _, _, _, .datetime content => Formula.literal (.datetime content)
  | _, _, _, .plain name _ => Formula.column (.plain name)
  | _, _, _, .qualified qualifier name => Formula.ofQualified qualifier name
  | _, _, _, .dotted name => Formula.column (.dotted name)
  | _, _, _, .emptyCall name => Formula.call name []
  | _, _, _, .call name args => Formula.call name args.meaning
  | _, _, _, .grouped inner => Formula.grouped inner.meaning
  | _, _, _, .argument arg => [arg.meaning]
  | _, _, _, .arguments arg args => arg.meaning :: args.meaning

end Grammar
end Reporting
