import Reporting.Text.CaseTable
/-!
Upper and lower case of single characters and of texts.
-/
namespace Reporting.Text

/-- The image of a character under expansions and shifts; other characters stay. -/
def mapCase (expansions : List (Nat × List Nat)) (shifts : Shifts) (c : Char) : List Char :=
  match expansions.lookup c.toNat with
  | some image => image.map Char.ofNat
  | none => match shifts.image? c.toNat with
    | some n => [Char.ofNat n]
    | none => [c]

/-- The upper case of a character. -/
def upperChar (c : Char) : List Char :=
  if c.toNat < 0x80 then [c.toUpper] else mapCase upperExpansions upperShifts c

/-- The lower case of a character on its own. -/
def lowerChar (c : Char) : List Char :=
  if c.toNat < 0x80 then [c.toLower] else mapCase lowerExpansions lowerShifts c

/-- The upper case of a text. -/
def upper (s : List Char) : List Char := s.flatMap upperChar

/-- Whether the first character that case does not ignore is cased. -/
def startsCased (s : List Char) : Bool :=
  match s.dropWhile fun c => caseIgnorableRanges.contains c.toNat with
  | c :: _ => casedRanges.contains c.toNat
  | [] => false

/-- The lower case of `s`, where `before` is what precedes it, reversed: a capital sigma that ends
a word becomes a final sigma. -/
def lowerAfter (before : List Char) : List Char → List Char
  | [] => []
  | c :: s =>
    let image := if c = 'Σ' then
        (if startsCased before && !startsCased s then ['ς'] else ['σ'])
      else lowerChar c
    image ++ lowerAfter (c :: before) s

/-- The lower case of a text. -/
def lower (s : List Char) : List Char := lowerAfter [] s

/-- The first character in upper case and the others in lower case, each on its own. -/
def proper : List Char → List Char
  | [] => []
  | c :: s => upperChar c ++ s.flatMap lowerChar

/-- ASCII letters in lower case. -/
def lowerAscii (s : List Char) : List Char := s.map Char.toLower

end Reporting.Text
