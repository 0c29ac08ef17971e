import Reporting.Expr.Compile
import Reporting.Proofs.Decimal.Padded
import Reporting.Proofs.Formula.Spelling
/-!
Numbers as formulas write them: digits, a point with digits on at least one side of it, and an exponent.
What is taken for a number in a formula is written so, and becomes the number that is written, rounded to
the precision of the formula.
-/
namespace Reporting
open Lexer Decimal

/-- An exponent as it is written. -/
structure Exponent where
  letter : Char
  sign : List Char
  digits : List Char
  letter_eq : letter = 'e' ∨ letter = 'E' := by decide
  sign_eq : sign = [] ∨ sign = ['+'] ∨ sign = ['-'] := by decide
  digits_ne_nil : digits ≠ [] := by decide
  all_digits : digits.all Char.isDigit = true := by decide

namespace Exponent

def chars (e : Exponent) : List Char := e.letter :: (e.sign ++ e.digits)

def value (e : Exponent) : Int :=
  if e.sign = ['-'] then -(Digits.value e.digits : Int) else Digits.value e.digits

theorem integer?_value (e : Exponent) : integer? true (e.sign ++ e.digits) = some e.value := by
  have hplain := integer?_withSign false e.digits_ne_nil e.all_digits
  rw [value]
  obtain h | h | h := e.sign_eq
  · rw [h]
    exact hplain
  · rw [h, if_neg (by decide)]
    exact if_pos ⟨rfl, e.digits_ne_nil, e.all_digits⟩
  · rw [h, if_pos rfl]
    exact integer?_withSign true e.digits_ne_nil e.all_digits

theorem isNumeral_of_mem {c : Char} (e : Exponent) (hc : c ∈ e.chars) : isNumeral c = true := by
  obtain rfl | hc := List.mem_cons.1 hc
  · obtain h | h := e.letter_eq
    · rw [h]
      rfl
    · rw [h]
      rfl
  · obtain hc | hc := List.mem_append.1 hc
    · obtain h | h | h := e.sign_eq <;> rw [h] at hc
      · cases hc
      · rw [List.mem_singleton.1 hc]
        rfl
      · rw [List.mem_singleton.1 hc]
        rfl
    · simp only [isNumeral, List.all_eq_true.1 e.all_digits c hc, Bool.true_or]

/-- An exponent or none, as it is written. -/
def text : Option Exponent → List Char
  | some e => e.chars
  | none => []

theorem exists_text {s : List Char} (h : IsExponent s) : ∃ e, text e = s := by
  obtain rfl | ⟨letter, sign, digits, hletter, hsign, hne, hdigits, rfl⟩ := h
  · exact ⟨none, rfl⟩
  · exact ⟨some ⟨letter, sign, digits, hletter, hsign, hne, hdigits⟩, rfl⟩

end Exponent

/-- A number as it is written. With a point, one of its sides may be empty. -/
structure Numeral where
  whole : List Char
  /-- The digits behind the point, if there is one. -/
  fraction : Option (List Char)
  exponent : Option Exponent
  whole_digits : whole.all Char.isDigit = true := by decide
  fraction_digits : ∀ ds ∈ fraction, ds.all Char.isDigit = true := by decide
  has_digits : whole ≠ [] ∨ ∃ ds ∈ fraction, ds ≠ [] := by decide

namespace Numeral

variable {c : Char} {s : List Char} {p : Precision}

/-- The digits behind the point. -/
def places (m : Numeral) : List Char := m.fraction.getD []

/-- A point with the digits behind it, or none. -/
def point : Option (List Char) → List Char
  | some ds => '.' :: ds
  | none => []

/-- The number without its exponent. -/
def body (m : Numeral) : List Char := m.whole ++ point m.fraction

def chars (m : Numeral) : List Char := m.body ++ Exponent.text m.exponent

/-- The exponent that is written; without one it is zero. -/
def power (m : Numeral) : Int :=
  match m.exponent with
  | some e => e.value
  | none => 0

/-- The number that is written. -/
def value (m : Numeral) : ℚ :=
  (Digits.value m.whole + Digits.value m.places / 10 ^ m.places.length) * 10 ^ m.power

/-- The number that is written, with all its digits. -/
def exact (m : Numeral) : Decimal := ⟨Digits.value (m.whole ++ m.places), m.places.length - m.power⟩

theorem toRat_exact (m : Numeral) : m.exact.toRat = m.value := by
  have hscale : -((m.places.length : Int) - m.power) = m.power - m.places.length := by ring
  have hne : (10 : ℚ) ^ m.places.length ≠ 0 := pow_ne_zero _ ten_ne_zero
  rw [toRat, exact, hscale, Digits.value_append, zpow_sub₀ ten_ne_zero, zpow_natCast, value]
  push_cast
  field_simp

/-! The characters of a number -/

theorem places_digits (m : Numeral) : m.places.all Char.isDigit = true := by
  rw [places]
  cases h : m.fraction with
  | none => rfl
  | some ds => exact m.fraction_digits ds h

theorem isDigit_or_of_mem (m : Numeral) (hc : c ∈ m.body) : c.isDigit = true ∨ c = '.' := by
  obtain hc | hc := List.mem_append.1 hc
  · exact .inl (List.all_eq_true.1 m.whole_digits c hc)
  · cases h : m.fraction with
    | none => rw [h] at hc; cases hc
    | some ds =>
      rw [h] at hc
      obtain rfl | hc := List.mem_cons.1 hc
      · exact .inr rfl
      · exact .inl (List.all_eq_true.1 (m.fraction_digits ds h) c hc)

theorem isNumeral_of_mem (m : Numeral) (hc : c ∈ m.chars) : isNumeral c = true := by
  obtain hc | hc := List.mem_append.1 hc
  · obtain hc | rfl := m.isDigit_or_of_mem hc
    · simp only [isNumeral, hc, Bool.true_or]
    · rfl
  · cases h : m.exponent with
    | none => rw [h] at hc; cases hc
    | some e => rw [h] at hc; exact e.isNumeral_of_mem hc

theorem isBlank_of_isNumeral (h : isNumeral c = true) : Text.isBlank c = false := by
  simp only [isNumeral, Bool.or_eq_true, beq_iff_eq] at h
  obtain ((((h | rfl) | rfl) | rfl) | rfl) | rfl := h
  · exact Text.isBlank_of_isDigit h
  all_goals decide

theorem exists_isDigit (m : Numeral) : ∃ c ∈ m.body, c.isDigit = true := by
  obtain h | ⟨ds, hds, h⟩ := m.has_digits
  · obtain ⟨d, t, hw⟩ := List.exists_cons_of_ne_nil h
    have hd : d ∈ m.whole := hw ▸ List.mem_cons_self
    exact ⟨d, List.mem_append_left _ hd, List.all_eq_true.1 m.whole_digits d hd⟩
  · obtain ⟨d, t, rfl⟩ := List.exists_cons_of_ne_nil h
    have hd : d ∈ point m.fraction := by
      rw [Option.mem_def.1 hds]
      exact List.mem_cons_of_mem _ List.mem_cons_self
    exact ⟨d, List.mem_append_right _ hd, List.all_eq_true.1 (m.fraction_digits _ hds) d List.mem_cons_self⟩

/-- A number begins with a digit or with its point. -/
theorem exists_cons (m : Numeral) : ∃ c t, m.chars = c :: t ∧ (c.isDigit = true ∨ c = '.') := by
  obtain ⟨d, hd, -⟩ := m.exists_isDigit
  obtain ⟨c, t, h⟩ := List.exists_cons_of_ne_nil (List.ne_nil_of_mem hd)
  exact ⟨c, t ++ Exponent.text m.exponent, by rw [chars, h, List.cons_append],
    m.isDigit_or_of_mem (h ▸ List.mem_cons_self)⟩

/-- What starts like a number has digits beside its exponent. -/
theorem ne_nil_of_startsNumeral {whole exponent : List Char} {fraction : Option (List Char)}
    (hexponent : IsExponent exponent)
    (h : startsNumeral (whole ++ point fraction ++ exponent) = true) :
    whole ≠ [] ∨ ∃ ds ∈ fraction, ds ≠ [] := by
  have hhead : ∀ c ∈ exponent.head?, c.isDigit = false ∧ c ≠ '.' := by
    have hnil := head_exponent (t := []) hexponent nofun
    rwa [List.append_nil] at hnil
  have hdigit : ∀ c ∈ exponent.head?, c.isDigit ≠ true := fun c hc => Bool.eq_false_iff.1 (hhead c hc).1
  by_contra hempty
  rw [not_or, not_not] at hempty
  obtain ⟨rfl, hfraction⟩ := hempty
  rw [List.nil_append] at h
  cases fraction with
  | none =>
    obtain ⟨c, r, rfl, hc⟩ | ⟨d, r, rfl, -⟩ := startsNumeral_iff.1 h
    · exact hdigit c rfl hc
    · exact (hhead '.' rfl).2 rfl
  | some ds =>
    obtain rfl : ds = [] := by
      by_contra hds
      exact hfraction ⟨ds, rfl, hds⟩
    obtain ⟨c, r, hcr, hc⟩ | ⟨d, r, hdr, hd⟩ := startsNumeral_iff.1 h
    · cases hcr
      cases hc
    · cases hdr
      exact hdigit d rfl hd

/-- What is taken for a number is written as one. -/
theorem exists_chars (h : IsNumeral s) : ∃ m : Numeral, m.chars = s := by
  obtain ⟨hstarts, whole, fraction, exponent, hwhole, hfraction, hexponent, rfl⟩ := h
  obtain ⟨f, hdigits, rfl⟩ : ∃ f, (∀ ds ∈ f, ds.all Char.isDigit = true) ∧ point f = fraction := by
    obtain rfl | ⟨ds, hds, rfl⟩ := hfraction
    · exact ⟨none, nofun, rfl⟩
    · exact ⟨some ds, fun es hes => Option.mem_some.1 hes ▸ hds, rfl⟩
  have hne := ne_nil_of_startsNumeral hexponent hstarts
  obtain ⟨e, rfl⟩ := Exponent.exists_text hexponent
  exact ⟨⟨whole, f, e, hwhole, hdigits, hne⟩, rfl⟩

/-! Reading a number -/

/-- The number with a zero in front of a point that it begins with. -/
def filled (m : Numeral) : Numeral :=
  if m.whole = [] then
    { m with whole := ['0'], whole_digits := rfl, has_digits := .inl (List.cons_ne_nil _ _) }
  else m

theorem filled_whole (m : Numeral) : m.filled.whole ≠ [] := by
  rw [filled]
  split
  · exact List.cons_ne_nil _ _
  · assumption

theorem filled_power (m : Numeral) : m.filled.power = m.power := by
  rw [filled]
  split <;> rfl

theorem filled_places (m : Numeral) : m.filled.places = m.places := by
  rw [filled]
  split <;> rfl

theorem filled_exact (m : Numeral) : m.filled.exact = m.exact := by
  rw [filled]
  split
  · rename_i h
    have hzero := Digits.value_zeros_append 1 m.places
    simp only [exact, h, List.nil_append]
    exact congrArg (fun n : Nat => (⟨n, m.places.length - m.power⟩ : Decimal)) hzero
  · rfl

theorem leadingZero_chars (m : Numeral) : leadingZero m.chars = m.filled.chars := by
  rw [filled]
  split
  · rename_i h
    obtain hne | ⟨ds, hds, -⟩ := m.has_digits
    · exact absurd h hne
    · simp only [chars, body, h, Option.mem_def.1 hds]
      rfl
  · rename_i h
    obtain ⟨d, t, hw⟩ := List.exists_cons_of_ne_nil h
    have hd : d.isDigit = true := List.all_eq_true.1 m.whole_digits d (hw ▸ List.mem_cons_self)
    rw [chars, body, hw]
    unfold leadingZero
    split
    · exact absurd (List.cons.inj ‹_›).1 (ne_of_isDigit hd rfl)
    · exact absurd (List.cons.inj ‹_›).1 (ne_of_isDigit hd rfl)
    · rfl

theorem splitPoint_body (m : Numeral) : splitPoint m.body = (m.whole ++ m.places, m.places.length) := by
  have hall : m.whole.all (· ≠ '.') = true := by
    rw [List.all_eq_true]
    exact fun c hc => decide_eq_true (ne_of_isDigit (List.all_eq_true.1 m.whole_digits c hc) rfl)
  have hsplit := Text.splitWhile_of_all (t := point m.fraction) hall (by
    intro c hc
    cases h : m.fraction with
    | none => rw [h] at hc; cases hc
    | some ds => rw [h] at hc; cases hc; rfl)
  rw [splitPoint, body, hsplit, places]
  cases m.fraction with
  | none => simp [point]
  | some ds =>
    cases ds with
    | nil => simp [point]
    | cons d ds => simp [point]

theorem splitWhile_chars (m : Numeral) :
    Text.splitWhile (fun c => c ≠ 'e' && c ≠ 'E') m.chars = (m.body, Exponent.text m.exponent) := by
  apply Text.splitWhile_of_all
  · rw [List.all_eq_true]
    intro c hc
    obtain hc | rfl := m.isDigit_or_of_mem hc
    · simp [ne_of_isDigit hc]
    · decide
  · intro c hc
    cases h : m.exponent with
    | none => rw [h] at hc; cases hc
    | some e =>
      rw [h] at hc
      cases hc
      obtain he | he := e.letter_eq
      · rw [he]; decide
      · rw [he]; decide

/-- The exponent as the reader takes it: what follows its letter. -/
theorem power_cases (m : Numeral) : Exponent.text m.exponent = [] ∧ m.power = 0 ∨
    ∃ c r, Exponent.text m.exponent = c :: r ∧ integer? true r = some m.power := by
  rw [power]
  cases m.exponent with
  | none => exact .inl ⟨rfl, rfl⟩
  | some e => exact .inr ⟨_, _, rfl, e.integer?_value⟩

/-- A number whose digits begin before its point is read as it is written, if its exponent and its
scale are within the bounds of the reader. -/
theorem ofChars?_chars (m : Numeral) (hw : m.whole ≠ []) (hpower : fits128 m.power = true)
    (hscale : fits64 (m.places.length - m.power) = true) : ofChars? m.chars = some m.exact := by
  have hdigits : (m.whole ++ m.places).all Char.isDigit = true := by
    rw [List.all_append, m.whole_digits, m.places_digits]
    rfl
  have hint : integer? true (m.whole ++ m.places) = some (Digits.value (m.whole ++ m.places) : Int) :=
    integer?_withSign false (List.append_ne_nil_of_left_ne_nil hw _) hdigits
  have hfits : (fits128 m.power && fits64 (m.places.length - m.power)) = true := by
    rw [hpower, hscale]
    rfl
  have hpow := m.power_cases
  unfold ofChars?
  rw [m.splitWhile_chars]
  dsimp only
  rw [m.splitPoint_body, hint, exact]
  generalize m.power = k at hpow hfits ⊢
  generalize Exponent.text m.exponent = r at hpow ⊢
  obtain ⟨rfl, rfl⟩ | ⟨c, r, rfl, hk⟩ := hpow
  · simp only [Option.bind_eq_bind, Option.bind_eq_some_iff]
    exact ⟨0, rfl, _, rfl, if_pos hfits⟩
  · simp only [Option.bind_eq_bind, Option.bind_eq_some_iff]
    exact ⟨_, hk, _, rfl, if_pos hfits⟩

theorem length_places_le (m : Numeral) : m.places.length ≤ m.chars.length := by
  have hpoint : m.places.length ≤ (point m.fraction).length := by
    rw [places]
    cases m.fraction with
    | none => exact Nat.zero_le _
    | some ds => exact Nat.le_succ _
  rw [chars, body, List.length_append, List.length_append]
  omega

/-- The zero in front is all that the reader needs; an exponent that is not too large keeps the scale in its
bounds. -/
theorem ofChars?_leadingZero (m : Numeral) (hpower : |m.power| ≤ 10 ^ 6)
    (hsize : m.chars.length + 10 ^ 6 < 2 ^ 63) : ofChars? (leadingZero m.chars) = some m.exact := by
  have hplaces := m.length_places_le
  obtain ⟨hlow, hhigh⟩ := abs_le.1 hpower
  rw [leadingZero_chars, ofChars?_chars _ m.filled_whole, filled_exact]
  · rw [filled_power, fits128, Bool.and_eq_true, decide_eq_true_eq, decide_eq_true_eq]
    omega
  · rw [filled_power, filled_places, fits64_iff]
    omega

/-- A number is read and rounded, and given up if it is then out of range. -/
theorem parse?_chars (m : Numeral) (hpower : |m.power| ≤ 10 ^ 6) (hsize : m.chars.length + 10 ^ 6 < 2 ^ 63)
    (p : Precision) :
    parse? m.chars p =
      if (m.exact.rounded p).inRange then some (m.exact.rounded p) else none := by
  have hnumeral : (m.chars.all isNumeral && m.chars.any Char.isDigit) = true := by
    obtain ⟨d, hd, hdigit⟩ := m.exists_isDigit
    rw [Bool.and_eq_true, List.all_eq_true, List.any_eq_true]
    exact ⟨fun c hc => m.isNumeral_of_mem hc, d, List.mem_append_left _ hd, hdigit⟩
  have htrim : Text.trim m.chars = m.chars :=
    (Text.trimmed_of_forall fun c hc => isBlank_of_isNumeral (m.isNumeral_of_mem hc)).trim
  obtain ⟨c, t, hcons, hc⟩ := m.exists_cons
  have hplus : c ≠ '+' := by
    obtain hc | rfl := hc
    · exact ne_of_isDigit hc rfl
    · decide
  unfold parse?
  rw [htrim]
  split
  · exact absurd (List.cons.inj (hcons.symm.trans ‹_›)).1 hplus
  · simp only [hnumeral, m.ofChars?_leadingZero hpower hsize, if_true]

end Numeral

/-! Literals -/

/-- What is left of a number where small numbers are taken as zero. -/
def Decimal.kept (r : ℚ) : ℚ := if |r| < smallest then 0 else r

theorem Decimal.exists_rounds_kept (x : Decimal) (p : Precision) :
    ∃ r, Rounds p.rounding p.digits x.toRat r ∧ (x.rounded p).toRat = kept r := by
  obtain ⟨r, hr, hsmall, hlarge⟩ := x.exists_rounds p
  refine ⟨r, hr, ?_⟩
  rw [kept]
  split
  · exact hsmall ‹_›
  · exact hlarge (not_lt.1 ‹_›)

namespace Compiler

variable {c : Compiler} {n : String} {x : Decimal}

theorem compile_of_parse? (h : parse? n.toList c.precision = some x) :
    c.compile (.literal (.number n)) = .ok (.constant (.number x) false) := by
  rw [compile, literal, h]
  rfl

theorem compile_of_parse?_none (h : parse? n.toList c.precision = none) :
    c.compile (.literal (.number n)) = .error (.invalidNumber n) := by
  rw [compile, literal, h]
  rfl

/-- Every number that is read from a formula is written as digits with an optional point and exponent,
and the literal becomes the number that they write, correctly rounded to the precision. It is an error
only where the exponent of the rounded number is out of range. The bound on the length leaves out what no
memory holds. -/
theorem compile_of_mem_tokens (c : Compiler) {input : List Char} {n : String}
    (hn : .number n ∈ tokens input) (hsize : n.length + 10 ^ 6 < 2 ^ 63) :
    (∃ m : Numeral, m.chars = n.toList) ∧
    ∀ m : Numeral, m.chars = n.toList → |m.power| ≤ 10 ^ 6 →
      ∃ r, Rounds c.precision.rounding c.precision.digits m.value r ∧
        (|kept r| < 10 ^ ((maxExponent : Int) + 1) → ∃ x, parse? n.toList c.precision = some x ∧
          x.toRat = kept r ∧ c.compile (.literal (.number n)) = .ok (.constant (.number x) false)) ∧
        (10 ^ ((maxExponent : Int) + 1) ≤ |kept r| → parse? n.toList c.precision = none ∧
          c.compile (.literal (.number n)) = .error (.invalidNumber n)) := by
  refine ⟨Numeral.exists_chars (isSpelled_of_mem_tokens input _ hn), fun m hm hpower => ?_⟩
  have hparse := m.parse?_chars hpower (by rwa [hm, String.length_toList]) c.precision
  rw [hm] at hparse
  obtain ⟨r, hr, hkept⟩ := m.exact.exists_rounds_kept c.precision
  rw [m.toRat_exact] at hr
  refine ⟨r, hr, fun hlt => ?_, fun hle => ?_⟩
  · rw [← hkept, ← inRange_iff] at hlt
    rw [if_pos hlt] at hparse
    exact ⟨_, hparse, hkept, compile_of_parse? hparse⟩
  · rw [← hkept, ← not_lt, ← inRange_iff] at hle
    rw [if_neg hle] at hparse
    exact ⟨hparse, compile_of_parse?_none hparse⟩

/-- A point before an exponent, with no digits between them. -/
def barePoint : Numeral where
  whole := ['1']
  fraction := some []
  exponent := some { letter := 'e', sign := [], digits := ['5'] }

def threeDigits : Compiler where
  functions := {}
  precision := { digits := 3, rounding := .nearest }
  dateOrder := .dayFirst

theorem compile_barePoint :
    .number "1.e5" ∈ tokens "1.e5".toList ∧ "1.e5".length + 10 ^ 6 < 2 ^ 63 ∧
      barePoint.chars = "1.e5".toList ∧ |barePoint.power| ≤ 10 ^ 6 ∧
      ∃ x, parse? "1.e5".toList threeDigits.precision = some x ∧ x.toRat = 100000 ∧
        threeDigits.compile (.literal (.number "1.e5")) = .ok (.constant (.number x) false) := by
  have hread := tokens_numeral (n := "1.e5") (s := []) (isNumeral_numeral (s := "1.e5".toList) rfl) nofun
  have hmem : .number "1.e5" ∈ tokens "1.e5".toList := by
    rw [← List.append_nil "1.e5".toList, hread]
    exact List.mem_cons_self
  have hpower : |barePoint.power| ≤ 10 ^ 6 := by decide
  have hvalue : barePoint.value = (1 : Int) * 10 ^ (5 : Int) := by
    have hone : Digits.value ['1'] = 1 := rfl
    have hfive : Digits.value ['5'] = 5 := rfl
    have hnil : Digits.value [] = 0 := rfl
    simp [barePoint, Numeral.value, Numeral.power, Numeral.places, Exponent.value, hone, hfive, hnil]
  obtain ⟨r, hr, hin, -⟩ := (compile_of_mem_tokens threeDigits hmem (by decide)).2 barePoint rfl hpower
  have hexact : r = 100000 := by
    rw [hr.exact ⟨1, 5, by decide, hvalue⟩, hvalue]
    norm_num
  have hkept : kept r = 100000 := by
    have hlarge : smallest ≤ (100000 : ℚ) :=
      (zpow_le_one_of_nonpos₀ (by norm_num) (by decide)).trans (by norm_num)
    rw [kept, hexact, abs_of_pos (by norm_num), if_neg hlarge.not_gt]
  have hrange : |kept r| < 10 ^ ((maxExponent : Int) + 1) := by
    have hpow : (10 : ℚ) ^ (6 : Int) ≤ 10 ^ ((maxExponent : Int) + 1) :=
      zpow_le_zpow_right₀ (by norm_num) (by decide)
    rw [hkept, abs_of_pos (by norm_num)]
    exact lt_of_lt_of_le (by norm_num) hpow
  obtain ⟨x, hx, hxr, hcompile⟩ := hin hrange
  exact ⟨hmem, by decide, rfl, hpower, x, hx, hxr.trans hkept, hcompile⟩

end Compiler
end Reporting
