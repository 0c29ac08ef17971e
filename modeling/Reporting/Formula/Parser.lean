import Reporting.Formula.Lexer
import Reporting.Formula.Tree
/-!
Reading formulas.

From the loosest to the tightest: the conditional `? :`, the binary levels of `BinaryOp.level?`,
where products may also be written without a sign, the signs and other operators before an operand, the
power, the operators after an operand, and the primaries. Every reader returns the rest of the
tokens with a proof that it is shorter, so reading ends.
-/
namespace Reporting

/-- Why a text is no formula. An absent token is the end of the text. -/
inductive ParseError
  | empty
  | trailing (found : Token)
  | expected (wanted : Symbol) (found : Option Token)
  | expectedName (qualifier : String) (found : Option Token)
  | unexpectedEnd
  | illegal (c : Char)
  | unexpected (found : Token)
  deriving DecidableEq, Repr

namespace ParseError

/-- A token of a message. -/
def found : Option Token → String
  | some t => t.display
  | none => "EOF"

/-- What is said about a character that starts no token. -/
def illegalMessage (c : Char) : String :=
  if c = '\x27' ∨ c = '"' then "Unterminated string literal"
  else if c = '\x7b' then "Unterminated datetime literal"
  else if c = '\x60' then "Unterminated quoted identifier"
  else "Illegal character: " ++ c.toString

def message : ParseError → String
  | empty => "Empty expression"
  | trailing t => "Unexpected token after expression: " ++ t.display
  | expected wanted t => "Expected " ++ wanted.text ++ ", found " ++ found t
  | expectedName qualifier t =>
    "Expected identifier after '" ++ qualifier ++ ".', found " ++ found t
  | unexpectedEnd => "Unexpected end of expression"
  | illegal c => illegalMessage c
  | unexpected t => "Unexpected token: " ++ t.display

end ParseError

/-- The number of binary levels. -/
def BinaryOp.levels : Nat := 10

/-- The level of an operator that groups to the left, from the loosest, 0. The power groups to the
right and has none. -/
def BinaryOp.level? : BinaryOp → Option Nat
  | logicalOr => some 0
  | logicalAnd => some 1
  | bitOr => some 2
  | bitXor => some 3
  | bitAnd => some 4
  | equal | notEqual => some 5
  | lessThan | lessEqual | greaterThan | greaterEqual => some 6
  | shiftLeft | shiftRight => some 7
  | add | subtract => some 8
  | multiply | divide | modulo => some 9
  | power => none

namespace Symbol

/-- The binary operator that a symbol stands for. -/
def binaryOp? : Symbol → Option BinaryOp
  | doublePipe => some .logicalOr | doubleAmpersand => some .logicalAnd
  | pipe => some .bitOr | doubleCaret => some .bitXor | ampersand => some .bitAnd
  | equals => some .equal | notEqual => some .notEqual
  | lessThan => some .lessThan | lessEqual => some .lessEqual
  | greaterThan => some .greaterThan | greaterEqual => some .greaterEqual
  | shiftLeft => some .shiftLeft | shiftRight => some .shiftRight
  | plus => some .add | minus => some .subtract
  | asterisk => some .multiply | slash => some .divide | percent => some .modulo
  | caret => some .power
  | _ => none

/-- The operator that a symbol stands for before an operand. -/
def preOp? : Symbol → Option UnaryOp
  | minus => some .negate | plus => some .plus | bang => some .logicalNot | tilde => some .bitNot
  | increment => some .preIncrement | decrement => some .preDecrement
  | _ => none

/-- The operator that a symbol stands for after an operand. -/
def postOp? : Symbol → Option UnaryOp
  | increment => some .postIncrement | decrement => some .postDecrement
  | _ => none

end Symbol

/-- Whether a token multiplies what stands before it although no sign is written. -/
def Token.multiplies : Token → Bool
  | symbol .leftParen | identifier _ | number _ | datetime _ => true
  | _ => false

/-- A column or scoped name with a qualifier. -/
def Formula.ofQualified (qualifier name : String) : Formula :=
  match NameScope.ofLetter? qualifier with
  | some scope => named scope name
  | none => column (.qualified qualifier name)

namespace Parser

/-- Fewer tokens than `ts` has. -/
abbrev Fewer (ts : List Token) := { rest : List Token // rest.length < ts.length }

/-- At most as many tokens as `ts` has. -/
abbrev NoMore (ts : List Token) := { rest : List Token // rest.length ≤ ts.length }

/-- What a reader yields that takes at least one token. -/
abbrev Taken (α : Type) (ts : List Token) := Except ParseError (α × Fewer ts)

/-- What a reader yields that may take nothing. -/
abbrev Left (α : Type) (ts : List Token) := Except ParseError (α × NoMore ts)

/-- Takes one given symbol. -/
def expect (wanted : Symbol) : (ts : List Token) → Except ParseError (Fewer ts)
  | .symbol s :: ts =>
    if s = wanted then .ok ⟨ts, Nat.lt_succ_self _⟩
    else .error (.expected wanted (some (.symbol s)))
  | t :: _ => .error (.expected wanted (some t))
  | [] => .error (.expected wanted none)

/-- Takes the name behind a qualifier and its point. -/
def expectName (qualifier : String) : (ts : List Token) → Taken String ts
  | .identifier name :: ts => .ok (name, ⟨ts, Nat.lt_succ_self _⟩)
  | t :: _ => .error (.expectedName qualifier (some t))
  | [] => .error (.expectedName qualifier none)

/-- The operators after an operand. -/
def postfixes (operand : Formula) : (ts : List Token) → Formula × NoMore ts
  | .symbol s :: ts =>
    match s.postOp? with
    | some op =>
      let (f, rest) := postfixes (.unary op operand) ts
      (f, ⟨rest.1, Nat.le_succ_of_le rest.2⟩)
    | none => (operand, ⟨.symbol s :: ts, Nat.le_refl _⟩)
  | ts => (operand, ⟨ts, Nat.le_refl _⟩)

mutual

/-- A formula: a conditional, which groups to the right, or what stands on the binary levels. -/
def expression (ts : List Token) : Taken Formula ts := do
  let (condition, ⟨r, hr⟩) ← binary 0 ts
  match r, hr with
  | .symbol .question :: r₁, hr =>
    let (yes, ⟨r₂, h₂⟩) ← expression r₁
    let ⟨r₃, h₃⟩ ← expect .colon r₂
    let (no, ⟨r₄, h₄⟩) ← expression r₃
    return (.conditional condition yes no, ⟨r₄, by simp only [List.length_cons] at hr; omega⟩)
  | r, hr => return (condition, ⟨r, hr⟩)
termination_by (ts.length, 20)
decreasing_by
  all_goals simp_wf
  all_goals first
    | (apply Prod.Lex.right; decide)
    | (apply Prod.Lex.left; simp only [List.length_cons] at hr; omega)

/-- The operands and operators from a level on. -/
def binary (level : Nat) (ts : List Token) : Taken Formula ts := do
  if _h : level < BinaryOp.levels then
    let (left, ⟨r, hr⟩) ← binary (level + 1) ts
    let (f, ⟨r', hr'⟩) ← binaryRest level left r
    return (f, ⟨r', Nat.lt_of_le_of_lt hr' hr⟩)
  else
    unary ts
termination_by (ts.length, 3 + (BinaryOp.levels - level))
decreasing_by
  · apply Prod.Lex.right
    omega
  · apply Prod.Lex.left; exact hr
  · apply Prod.Lex.right
    omega

/-- The operators of one level that follow an operand, with their operands, grouped to the left. -/
def binaryRest (level : Nat) (left : Formula) : (ts : List Token) → Left Formula ts
  | [] => .ok (left, ⟨[], Nat.le_refl _⟩)
  | t :: ts' => do
    match (match t with | .symbol s => s.binaryOp? | _ => none) with
    | some op =>
      if op.level? = some level then
        let (right, ⟨r, hr⟩) ← binary (level + 1) ts'
        let (f, ⟨r', hr'⟩) ← binaryRest level (.binary op left right) r
        return (f, ⟨r', by simp only [List.length_cons]; omega⟩)
      else return (left, ⟨t :: ts', Nat.le_refl _⟩)
    | none =>
      if level + 1 = BinaryOp.levels ∧ t.multiplies then
        let (right, ⟨r, hr⟩) ← unary (t :: ts')
        let (f, ⟨r', hr'⟩) ← binaryRest level (.binary .multiply left right) r
        return (f, ⟨r', by omega⟩)
      else return (left, ⟨t :: ts', Nat.le_refl _⟩)
termination_by ts => (ts.length, 19)
decreasing_by
  all_goals first
    | (apply Prod.Lex.left; simp only [List.length_cons]; omega)
    | (apply Prod.Lex.right; decide)

/-- Operators before an operand. -/
def unary : (ts : List Token) → Taken Formula ts
  | .symbol s :: ts' => do
    match s.preOp? with
    | some op =>
      let (operand, ⟨r, hr⟩) ← unary ts'
      return (.unary op operand, ⟨r, by simp only [List.length_cons]; omega⟩)
    | none => power (.symbol s :: ts')
  | ts => power ts
termination_by ts => (ts.length, 2)
decreasing_by
  all_goals first
    | (apply Prod.Lex.left; simp only [List.length_cons]; omega)
    | (apply Prod.Lex.right; decide)

/-- A power, whose exponent may have operators before it and is itself a power. -/
def power (ts : List Token) : Taken Formula ts := do
  let (operand, ⟨r, hr⟩) ← primary ts
  let (base, ⟨r, hr'⟩) := postfixes operand r
  match r, hr' with
  | .symbol .caret :: r₁, hr' =>
    let (exponent, ⟨r₂, h₂⟩) ← unary r₁
    return (.binary .power base exponent, ⟨r₂, by simp only [List.length_cons] at hr'; omega⟩)
  | r, hr' => return (base, ⟨r, Nat.lt_of_le_of_lt hr' hr⟩)
termination_by (ts.length, 1)
decreasing_by
  all_goals first
    | (apply Prod.Lex.left; simp only [List.length_cons] at hr'; omega)
    | (apply Prod.Lex.right; decide)

/-- A literal, a name, a call or a formula in parentheses. -/
def primary : (ts : List Token) → Taken Formula ts
  | .number n :: r => .ok (.literal (.number n), ⟨r, Nat.lt_succ_self _⟩)
  | .text s :: r => .ok (.literal (.text s), ⟨r, Nat.lt_succ_self _⟩)
  | .datetime s :: r => .ok (.literal (.datetime s), ⟨r, Nat.lt_succ_self _⟩)
  | .symbol .dot :: r => do
    let (name, ⟨r', h⟩) ← expectName "" r
    return (.column (.dotted name), ⟨r', Nat.lt_succ_of_lt h⟩)
  | .identifier name :: .symbol .leftParen :: .symbol .rightParen :: r =>
    .ok (.call name [], ⟨r, by simp only [List.length_cons]; omega⟩)
  | .identifier name :: .symbol .leftParen :: r => do
    let (first, ⟨r₁, h₁⟩) ← expression r
    let (others, ⟨r₂, h₂⟩) ← arguments r₁
    let ⟨r₃, h₃⟩ ← expect .rightParen r₂
    return (.call name (first :: others), ⟨r₃, by simp only [List.length_cons]; omega⟩)
  | .identifier qualifier :: .symbol .dot :: r => do
    let (name, ⟨r', h⟩) ← expectName qualifier r
    return (.ofQualified qualifier name, ⟨r', by simp only [List.length_cons]; omega⟩)
  | .identifier name :: r => .ok (.column (.plain name), ⟨r, Nat.lt_succ_self _⟩)
  | .symbol .leftParen :: r => do
    let (inner, ⟨r₁, h₁⟩) ← expression r
    let ⟨r₂, h₂⟩ ← expect .rightParen r₁
    return (.grouped inner, ⟨r₂, by simp only [List.length_cons]; omega⟩)
  | .illegal c :: _ => .error (.illegal c)
  | t :: _ => .error (.unexpected t)
  | [] => .error .unexpectedEnd
termination_by ts => (ts.length, 0)
decreasing_by
  all_goals (apply Prod.Lex.left; simp only [List.length_cons]; omega)

/-- Further arguments, each behind a comma. -/
def arguments : (ts : List Token) → Left (List Formula) ts
  | .symbol .comma :: r => do
    let (arg, ⟨r₁, h₁⟩) ← expression r
    let (args, ⟨r₂, h₂⟩) ← arguments r₁
    return (arg :: args, ⟨r₂, by simp only [List.length_cons]; omega⟩)
  | ts => .ok ([], ⟨ts, Nat.le_refl _⟩)
termination_by ts => (ts.length, 0)
decreasing_by
  all_goals (apply Prod.Lex.left; simp only [List.length_cons]; omega)

end

end Parser

/-- The formula of a list of tokens. -/
def Formula.ofTokens : List Token → Except ParseError Formula
  | [] => .error .empty
  | ts => do
    let (f, ⟨rest, _⟩) ← Parser.expression ts
    match rest with
    | [] => return f
    | t :: _ => throw (.trailing t)

/-- Reads a formula. -/
def Formula.parse (text : String) : Except ParseError Formula :=
  ofTokens (tokens text.toList)

end Reporting
