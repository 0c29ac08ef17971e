import Reporting.Text.Blank
import Reporting.Text.Letter
import Reporting.Formula.Token
/-!
Splitting a formula into tokens. Every token takes at least one character, so the split ends.
-/
namespace Reporting
namespace Lexer

/-- An identifier starts with a letter or an underscore. -/
def isNameStart (c : Char) : Bool := Text.isLetter c || c == '_'

/-- The characters an identifier goes on with. -/
def isNameRest (c : Char) : Bool := isNameStart c || c.isDigit

/-- The symbols of two characters. -/
def pair? : Char → Char → Option Symbol
  | '+', '+' => some .increment
  | '-', '-' => some .decrement
  | '&', '&' => some .doubleAmpersand
  | '|', '|' => some .doublePipe
  | '^', '^' => some .doubleCaret
  | '=', '=' => some .equals
  | '!', '=' => some .notEqual
  | '<', '=' => some .lessEqual
  | '<', '>' => some .notEqual
  | '<', '<' => some .shiftLeft
  | '>', '=' => some .greaterEqual
  | '>', '>' => some .shiftRight
  | _, _ => none

/-- The symbols of one character. -/
def single? : Char → Option Symbol
  | '+' => some .plus
  | '-' => some .minus
  | '*' => some .asterisk
  | '/' => some .slash
  | '%' => some .percent
  | '^' => some .caret
  | '!' => some .bang
  | '~' => some .tilde
  | '&' => some .ampersand
  | '|' => some .pipe
  | '=' => some .equals
  | '<' => some .lessThan
  | '>' => some .greaterThan
  | '(' => some .leftParen
  | ')' => some .rightParen
  | ',' => some .comma
  | '.' => some .dot
  | '?' => some .question
  | ':' => some .colon
  | _ => none

/-- The token of an operator or a stray character `c` before `r`; two characters go before one. -/
def operator (c : Char) (r : List Char) : Token × List Char :=
  let short := match single? c with
    | some s => (.symbol s, r)
    | none => (.illegal c, r)
  match r with
  | d :: r' => match pair? c d with
    | some s => (.symbol s, r')
    | none => short
  | [] => short

/-- The content of a text up to its closing quote, where a doubled quote stands for one. -/
def quotedRest? (q : Char) : List Char → Option (List Char × List Char)
  | [] => none
  | c :: r =>
    if c = q then
      match r with
      | d :: r' => if d = q then (quotedRest? q r').map fun (s, t) => (q :: s, t) else some ([], r)
      | [] => some ([], [])
    else (quotedRest? q r).map fun (s, t) => (c :: s, t)

/-- What precedes a closing character, and what follows it. -/
def upTo? (close : Char) : List Char → Option (List Char × List Char)
  | [] => none
  | c :: r => if c = close then some ([], r) else (upTo? close r).map fun (s, t) => (c :: s, t)

/-- An exponent with at least one digit. -/
def exponent? : List Char → Option (List Char × List Char)
  | e :: r =>
    if e = 'e' ∨ e = 'E' then
      let (sign, r) := match r with
        | '+' :: r => (['+'], r)
        | '-' :: r => (['-'], r)
        | r => ([], r)
      let (digits, r) := Text.splitWhile Char.isDigit r
      if digits.isEmpty then none else some (e :: sign ++ digits, r)
    else none
  | [] => none

/-- Digits, a point with more digits, and an exponent, as far as each is there. An exponent sign
without digits is left for the next token. -/
def numeral (s : List Char) : List Char × List Char :=
  let (whole, r) := Text.splitWhile Char.isDigit s
  let (body, r) := match r with
    | '.' :: r =>
      let (fraction, r) := Text.splitWhile Char.isDigit r
      (whole ++ '.' :: fraction, r)
    | r => (whole, r)
  match exponent? r with
  | some (e, r) => (body ++ e, r)
  | none => (body, r)

/-- Whether a number starts here: with a digit, or with a point that a digit follows. -/
def startsNumeral : List Char → Bool
  | '.' :: d :: _ => d.isDigit
  | d :: _ => d.isDigit
  | [] => false

/-- The token at the front of an input that does not start with a blank. -/
def token? : List Char → Option (Token × List Char)
  | [] => none
  | c :: r =>
    if c = '"' ∨ c = '\x27' then
      match quotedRest? c r with
      | some (s, t) => some (.text (String.ofList s), t)
      | none => some (.illegal c, [])
    else if c = '\x7b' then
      match upTo? '\x7d' r with
      | some (s, t) => some (.datetime (String.ofList (Text.trim s)), t)
      | none => some (.illegal c, [])
    else if c = '\x60' then
      match upTo? '\x60' r with
      | some (s, t) => some (.identifier (String.ofList s), t)
      | none => some (.illegal c, [])
    else if startsNumeral (c :: r) then
      let (s, t) := numeral (c :: r)
      some (.number (String.ofList s), t)
    else if isNameStart c then
      let (s, t) := Text.splitWhile isNameRest r
      some (.identifier (String.ofList (c :: s)), t)
    else some (operator c r)

/-! Each reader leaves less than it was given. -/

theorem operator_length_le (c : Char) (r : List Char) : (operator c r).2.length ≤ r.length := by
  unfold operator
  grind

theorem quotedRest?_length {q : Char} {s a t : List Char} (h : quotedRest? q s = some (a, t)) :
    t.length < s.length := by
  fun_induction quotedRest? q s generalizing a t with
  | case1 => simp at h
  | case2 r' ih =>
    obtain ⟨⟨_, _⟩, hu, he⟩ := Option.map_eq_some_iff.1 h
    simp only [Prod.mk.injEq] at he
    have := ih hu
    simp only [List.length_cons]
    grind
  | case3 => simp_all
  | case4 => simp_all
  | case5 c r _ ih =>
    obtain ⟨⟨_, _⟩, hu, he⟩ := Option.map_eq_some_iff.1 h
    simp only [Prod.mk.injEq] at he
    have := ih hu
    simp only [List.length_cons]
    grind

theorem upTo?_length {close : Char} {s a t : List Char} (h : upTo? close s = some (a, t)) :
    t.length < s.length := by
  fun_induction upTo? close s generalizing a t with
  | case1 => simp at h
  | case2 => simp_all
  | case3 c r _ ih =>
    obtain ⟨⟨_, _⟩, hu, he⟩ := Option.map_eq_some_iff.1 h
    simp only [Prod.mk.injEq] at he
    have := ih hu
    simp only [List.length_cons]
    grind

theorem exponent?_length_le {s a t : List Char} (h : exponent? s = some (a, t)) :
    t.length ≤ s.length := by
  unfold exponent? at h
  split at h
  · rename_i e r
    have h1 := Text.splitWhile_length_le Char.isDigit r
    have h2 : ∀ u c, r = c :: u → (Text.splitWhile Char.isDigit u).2.length ≤ r.length := by
      rintro u c rfl
      have := Text.splitWhile_length_le Char.isDigit u
      simp only [List.length_cons]
      omega
    grind
  · simp at h

theorem numeral_length {s : List Char} (h : startsNumeral s = true) :
    (numeral s).2.length < s.length := by
  have key : ∀ r : List Char, r.length < s.length →
      ∀ b : List Char, (match exponent? r with
        | some (e, r) => (b ++ e, r)
        | none => (b, r)).2.length < s.length := by
    intro r hr b
    split
    · rename_i h
      exact Nat.lt_of_le_of_lt (exponent?_length_le h) hr
    · exact hr
  unfold numeral
  apply key
  have h0 : (s.dropWhile Char.isDigit).length ≤ s.length := Text.splitWhile_length_le _ s
  simp only [Text.splitWhile]
  split
  · rename_i r hr
    have h1 : (r.dropWhile Char.isDigit).length ≤ r.length := Text.splitWhile_length_le _ r
    rw [hr] at h0
    simp only [List.length_cons] at h0
    exact Nat.lt_of_le_of_lt h1 h0
  · rename_i r hr
    match s, h with
    | c :: u, h =>
      by_cases hc : c.isDigit = true
      · simp only [List.dropWhile_cons, hc, if_true] at h0 hr ⊢
        have := (List.dropWhile_sublist (l := u) Char.isDigit).length_le
        simp only [List.length_cons]
        omega
      · exfalso
        unfold startsNumeral at h
        simp [hc] at hr
        grind

theorem token?_length {s t : List Char} {x : Token} (h : token? s = some (x, t)) :
    t.length < s.length := by
  unfold token? at h
  split at h
  · simp at h
  · rename_i c r
    have hq := @quotedRest?_length c r
    have hd := @upTo?_length '\x7d' r
    have hn := @upTo?_length '\x60' r
    have hm := @numeral_length (c :: r)
    have hw := Text.splitWhile_length_le isNameRest r
    have ho := operator_length_le c r
    simp only [List.length_cons] at hm ⊢
    grind

end Lexer

/-- The tokens of a formula. -/
def tokens (s : List Char) : List Token :=
  match _h : Lexer.token? (Text.trimStart s) with
  | none => []
  | some (t, rest) => t :: tokens rest
termination_by s.length
decreasing_by
  exact Nat.lt_of_lt_of_le (Lexer.token?_length _h) (Text.trimStart_length_le s)

end Reporting
