import Reporting.Text.Ranges
/-!
Blank characters and trimming.
-/
namespace Reporting.Text

/-- The code points of the property White_Space. -/
def blankRanges : Ranges := [
  (0x9, 0xD), (0x20, 0x20), (0x85, 0x85), (0xA0, 0xA0), (0x1680, 0x1680), (0x2000, 0x200A),
  (0x2028, 0x2029), (0x202F, 0x202F), (0x205F, 0x205F), (0x3000, 0x3000)]

/-- White space in the sense of Unicode. -/
def isBlank (c : Char) : Bool := blankRanges.contains c.toNat

theorem isBlank_of_isWhitespace (c : Char) (h : c.isWhitespace = true) : isBlank c = true := by
  simp only [Char.isWhitespace, Bool.or_eq_true, decide_eq_true_eq] at h
  rcases h with ((h | h) | h) | h <;> subst h <;> decide

/-- Removes the blanks at the front. -/
def trimStart (s : List Char) : List Char := s.dropWhile isBlank

/-- Removes the blanks at the end. -/
def trimEnd (s : List Char) : List Char := (s.reverse.dropWhile isBlank).reverse

/-- Removes the blanks at both ends. -/
def trim (s : List Char) : List Char := trimEnd (trimStart s)

/-- The longest stretch at the front whose characters satisfy `p`, and the rest. -/
def splitWhile (p : Char → Bool) (s : List Char) : List Char × List Char :=
  (s.takeWhile p, s.dropWhile p)

theorem splitWhile_append (p : Char → Bool) (s : List Char) :
    (splitWhile p s).1 ++ (splitWhile p s).2 = s :=
  List.takeWhile_append_dropWhile

theorem splitWhile_length_le (p : Char → Bool) (s : List Char) :
    (splitWhile p s).2.length ≤ s.length :=
  (List.dropWhile_sublist _).length_le

theorem trimStart_length_le (s : List Char) : (trimStart s).length ≤ s.length :=
  (List.dropWhile_sublist _).length_le

end Reporting.Text
