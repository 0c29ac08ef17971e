import Reporting.Json.Basic
import Reporting.Text.Blank
/-!
Reading JSON texts. A reader returns the rest of the text with a proof that it is shorter.
-/
namespace Reporting.Json

/-- Fewer characters than `s` has. -/
abbrev Shorter (s : List Char) := { rest : List Char // rest.length < s.length }

/-- What a reader yields that takes at least one character. -/
abbrev Taken (α : Type) (s : List Char) := Option (α × Shorter s)

/-- The characters that may stand between tokens. -/
def isSpace (c : Char) : Bool := c == ' ' || c == '\n' || c == '\t' || c == '\r'

theorem length_lt_of_cons_le {c : Char} {r s : List Char} (h : (c :: r).length ≤ s.length) :
    r.length < s.length := h

/-- The text from its first character that is no space. -/
def skip (s : List Char) : { rest : List Char // rest.length ≤ s.length } :=
  ⟨s.dropWhile isSpace, (List.dropWhile_sublist _).length_le⟩

/-- The value of a hexadecimal digit. -/
def hexDigit? (c : Char) : Option Nat :=
  if c.isDigit then some (c.toNat - 48)
  else if 'a' ≤ c ∧ c ≤ 'f' then some (c.toNat - 87)
  else if 'A' ≤ c ∧ c ≤ 'F' then some (c.toNat - 55)
  else none

/-- Four hexadecimal digits. -/
def hex4? : (s : List Char) → Taken Nat s
  | a :: b :: c :: d :: r => do
    let a ← hexDigit? a
    let b ← hexDigit? b
    let c ← hexDigit? c
    let d ← hexDigit? d
    some (((a * 16 + b) * 16 + c) * 16 + d, ⟨r, by simp only [List.length_cons]; omega⟩)
  | _ => none

/-- The character that an escape letter stands for. -/
def escaped? : Char → Option Char
  | '"' => some '"'
  | '\\' => some '\\'
  | '/' => some '/'
  | 'b' => some '\x08'
  | 'f' => some '\x0c'
  | 'n' => some '\n'
  | 'r' => some '\r'
  | 't' => some '\t'
  | _ => none

/-- The low half of a surrogate pair at the front. -/
def lowSurrogate? : (s : List Char) → Taken Nat s
  | '\\' :: 'u' :: r => do
    let (n, ⟨r', h⟩) ← hex4? r
    if 0xDC00 ≤ n ∧ n ≤ 0xDFFF then
      some (n, ⟨r', by simp only [List.length_cons]; omega⟩)
    else none
  | _ => none

/-- The characters up to the closing quote; an unpaired surrogate reads as none. -/
def characters? : (s : List Char) → Taken (List (Option Char)) s
  | '"' :: r => some ([], ⟨r, Nat.lt_succ_self _⟩)
  | '\\' :: 'u' :: r => do
    let (n, ⟨r₁, h₁⟩) ← hex4? r
    if 0xD800 ≤ n ∧ n ≤ 0xDBFF then
      match lowSurrogate? r₁ with
      | some (low, ⟨r₂, h₂⟩) =>
        let (cs, ⟨r₃, h₃⟩) ← characters? r₂
        let c := Char.ofNat (0x10000 + (n - 0xD800) * 0x400 + (low - 0xDC00))
        some (some c :: cs, ⟨r₃, by simp only [List.length_cons]; omega⟩)
      | none =>
        let (cs, ⟨r₂, h₂⟩) ← characters? r₁
        some (none :: cs, ⟨r₂, by simp only [List.length_cons]; omega⟩)
    else
      let (cs, ⟨r₂, h₂⟩) ← characters? r₁
      let c := if 0xDC00 ≤ n ∧ n ≤ 0xDFFF then none else some (Char.ofNat n)
      some (c :: cs, ⟨r₂, by simp only [List.length_cons]; omega⟩)
  | '\\' :: e :: r => do
    let c ← escaped? e
    let (cs, ⟨r', h⟩) ← characters? r
    some (some c :: cs, ⟨r', by simp only [List.length_cons]; omega⟩)
  | c :: r =>
    if c.toNat < 0x20 ∨ c = '\\' then none
    else do
      let (cs, ⟨r', h⟩) ← characters? r
      some (some c :: cs, ⟨r', Nat.lt_succ_of_lt h⟩)
  | [] => none
termination_by s => s.length

/-- The text of characters that are all there. -/
def textOf? (cs : List (Option Char)) : Option String := (cs.mapM id).map String.ofList

/-- A text, if its characters are all there. -/
def ofCharacters (cs : List (Option Char)) : Json :=
  match textOf? cs with
  | some s => text s
  | none => unpaired

/-- An object, if its keys are all texts. -/
def ofMembers (ms : List (Option String × Json)) : Json :=
  match ms.mapM fun (key, v) => key.map fun key => (key, v) with
  | some ms => object ms
  | none => unpaired

/-- The digits of an integer part: a single zero, or digits without a leading zero. -/
def isWhole : List Char → Bool
  | ['0'] => true
  | '0' :: _ => false
  | [] => false
  | _ => true

/-- The value of a digit string. -/
def digitsValue (ds : List Char) : Nat := ds.foldl (fun n d => n * 10 + (d.toNat - 48)) 0

/-- A fraction with its point, if one starts here. -/
def fraction? : List Char → Option (List Char × List Char)
  | '.' :: r =>
    let (ds, r) := Text.splitWhile Char.isDigit r
    if ds.isEmpty then none else some ('.' :: ds, r)
  | r => some ([], r)

/-- An exponent, if one starts here. -/
def exponent? : List Char → Option (List Char × List Char)
  | e :: r =>
    if e = 'e' ∨ e = 'E' then
      let (sign, r) := match r with
        | '+' :: r => (['+'], r)
        | '-' :: r => (['-'], r)
        | r => ([], r)
      let (ds, r) := Text.splitWhile Char.isDigit r
      if ds.isEmpty then none else some (e :: sign ++ ds, r)
    else some ([], e :: r)
  | [] => some ([], [])

/-- A number without its sign, and what follows it. -/
def unsigned? (negative : Bool) (s : List Char) : Option (Json × List Char) := do
  let (whole, r) := Text.splitWhile Char.isDigit s
  if !isWhole whole then none
  let (fraction, r) ← fraction? r
  let (exponent, r) ← exponent? r
  let n := digitsValue whole
  if fraction.isEmpty && exponent.isEmpty && !(negative && n == 0) then
    some (integer (if negative then -n else n), r)
  else
    let sign := if negative then ['-'] else []
    some (real (String.ofList (sign ++ whole ++ fraction ++ exponent)), r)

/-- A number at the front. -/
def number? (s : List Char) : Taken Json s :=
  let read := match s with
    | '-' :: r => unsigned? true r
    | r => unsigned? false r
  match read with
  | some (n, r) => if h : r.length < s.length then some (n, ⟨r, h⟩) else none
  | none => none

/-- A literal name or a number at the front. -/
def scalar? : (s : List Char) → Taken Json s
  | 'n' :: 'u' :: 'l' :: 'l' :: r =>
    some (null, ⟨r, by simp only [List.length_cons]; omega⟩)
  | 't' :: 'r' :: 'u' :: 'e' :: r =>
    some (bool true, ⟨r, by simp only [List.length_cons]; omega⟩)
  | 'f' :: 'a' :: 'l' :: 's' :: 'e' :: r =>
    some (bool false, ⟨r, by simp only [List.length_cons]; omega⟩)
  | s => number? s

/-- A colon, with spaces before it. -/
def colon? (s : List Char) : Option (Shorter s) :=
  match skip s with
  | ⟨[], _⟩ => none
  | ⟨c :: r, h⟩ => if c = ':' then some ⟨r, h⟩ else none

mutual

/-- A value, with spaces before it. -/
def value? (s : List Char) : Taken Json s :=
  match skip s with
  | ⟨[], _⟩ => none
  | ⟨c :: r, h⟩ =>
    if c = '"' then do
      let (cs, ⟨r₁, h₁⟩) ← characters? r
      some (ofCharacters cs, ⟨r₁, by have := length_lt_of_cons_le h; omega⟩)
    else if c = '[' then do
      let (items, ⟨r₁, h₁⟩) ← itemList? r
      some (array items, ⟨r₁, by have := length_lt_of_cons_le h; omega⟩)
    else if c = '\x7b' then do
      let (ms, ⟨r₁, h₁⟩) ← memberList? r
      some (ofMembers ms, ⟨r₁, by have := length_lt_of_cons_le h; omega⟩)
    else do
      let (v, ⟨r₁, h₁⟩) ← scalar? (c :: r)
      some (v, ⟨r₁, Nat.lt_of_lt_of_le h₁ h⟩)
termination_by (s.length, 0)
decreasing_by
  all_goals
    apply Prod.Lex.left
    have := length_lt_of_cons_le h
    omega

/-- The items of an array behind its bracket, up to its end. -/
def itemList? (s : List Char) : Taken (List Json) s :=
  match skip s with
  | ⟨[], _⟩ => none
  | ⟨c :: r, h⟩ =>
    if c = ']' then some ([], ⟨r, h⟩)
    else do
      let (first, ⟨r₁, h₁⟩) ← value? s
      let (others, ⟨r₂, h₂⟩) ← items? r₁
      some (first :: others, ⟨r₂, by omega⟩)
termination_by (s.length, 1)
decreasing_by
  · apply Prod.Lex.right
    decide
  · exact Prod.Lex.left _ _ h₁

/-- The further items of an array, up to its end. -/
def items? (s : List Char) : Taken (List Json) s :=
  match skip s with
  | ⟨[], _⟩ => none
  | ⟨c :: r, h⟩ =>
    if c = ']' then some ([], ⟨r, h⟩)
    else if c = ',' then do
      let (first, ⟨r₁, h₁⟩) ← value? r
      let (others, ⟨r₂, h₂⟩) ← items? r₁
      some (first :: others, ⟨r₂, by have := length_lt_of_cons_le h; omega⟩)
    else none
termination_by (s.length, 0)
decreasing_by
  all_goals
    apply Prod.Lex.left
    have := length_lt_of_cons_le h
    omega

/-- A key and its value. -/
def member? (s : List Char) : Taken (Option String × Json) s :=
  match skip s with
  | ⟨[], _⟩ => none
  | ⟨c :: r, h⟩ =>
    if c = '"' then do
      let (cs, ⟨r₁, h₁⟩) ← characters? r
      let ⟨r₂, h₂⟩ ← colon? r₁
      let (v, ⟨r₃, h₃⟩) ← value? r₂
      some ((textOf? cs, v), ⟨r₃, by have := length_lt_of_cons_le h; omega⟩)
    else none
termination_by (s.length, 0)
decreasing_by
  all_goals
    apply Prod.Lex.left
    have := length_lt_of_cons_le h
    omega

/-- The members of an object behind its brace, up to its end. -/
def memberList? (s : List Char) : Taken (List (Option String × Json)) s :=
  match skip s with
  | ⟨[], _⟩ => none
  | ⟨c :: r, h⟩ =>
    if c = '\x7d' then some ([], ⟨r, h⟩)
    else do
      let (first, ⟨r₁, h₁⟩) ← member? s
      let (others, ⟨r₂, h₂⟩) ← members? r₁
      some (first :: others, ⟨r₂, by omega⟩)
termination_by (s.length, 1)
decreasing_by
  · apply Prod.Lex.right
    decide
  · exact Prod.Lex.left _ _ h₁

/-- The further members of an object, up to its end. -/
def members? (s : List Char) : Taken (List (Option String × Json)) s :=
  match skip s with
  | ⟨[], _⟩ => none
  | ⟨c :: r, h⟩ =>
    if c = '\x7d' then some ([], ⟨r, h⟩)
    else if c = ',' then do
      let (first, ⟨r₁, h₁⟩) ← member? r
      let (others, ⟨r₂, h₂⟩) ← members? r₁
      some (first :: others, ⟨r₂, by have := length_lt_of_cons_le h; omega⟩)
    else none
termination_by (s.length, 0)
decreasing_by
  all_goals
    apply Prod.Lex.left
    have := length_lt_of_cons_le h
    omega

end

/-- Reads a text that holds one value and nothing else. -/
def parse? (s : String) : Option Json := do
  let (v, ⟨rest, _⟩) ← value? s.toList
  if rest.all isSpace then some v else none

end Reporting.Json
