import Reporting.Formula.Lexer
import Reporting.Proofs.Text.Blank
/-!
How tokens are spelled. A token that is written out is read back from the front of a text, if what
follows does not go on with it.
-/
namespace Reporting

namespace Lexer

/-- Whether a name needs no quotes: a letter or an underscore, and then letters, digits and
underscores. -/
def isPlain (name : String) : Bool :=
  match name.toList with
  | c :: r => isNameStart c && r.all isNameRest
  | [] => false

variable {c : Char} {s t r : List Char} {x : Token}

theorem isNameStart_of_isDigit (h : c.isDigit = true) : isNameStart c = false := by
  rw [isNameStart, Text.isLetter_of_isDigit h, Bool.false_or]
  rw [Bool.eq_false_iff]
  intro hc
  rw [beq_iff_eq] at hc
  subst hc
  cases h

theorem isBlank_of_isNameStart (h : isNameStart c = true) : Text.isBlank c = false := by
  rw [isNameStart, Bool.or_eq_true] at h
  obtain h | h := h
  · exact Text.isBlank_of_isLetter h
  · rw [beq_iff_eq] at h
    subst h
    decide

theorem tokens_of_none (h : token? (Text.trimStart s) = none) : tokens s = [] := by
  rw [tokens]
  split
  · rfl
  · rename_i h'
    cases h.symm.trans h'

theorem tokens_of_some (h : token? (Text.trimStart s) = some (x, t)) : tokens s = x :: tokens t := by
  rw [tokens]
  split
  · rename_i h'
    cases h.symm.trans h'
  · rename_i h'
    cases h.symm.trans h'
    rfl

theorem tokens_nil : tokens [] = [] := tokens_of_none rfl

theorem tokens_blank (h : Text.isBlank c = true) : tokens (c :: s) = tokens s := by
  have hs : Text.trimStart (c :: s) = Text.trimStart s := List.dropWhile_cons_of_pos h
  cases ht : token? (Text.trimStart s) with
  | none => rw [tokens_of_none (s := s) ht, tokens_of_none (hs.symm ▸ ht)]
  | some p => rw [tokens_of_some (s := s) ht, tokens_of_some (hs.symm ▸ ht)]

/-- A token is read from the front of a text that does not begin with a blank. -/
theorem tokens_cons (hc : Text.isBlank c = false) (h : token? (c :: s) = some (x, t)) :
    tokens (c :: s) = x :: tokens t := by
  refine tokens_of_some ?_
  rw [Text.trimStart_of_head]
  · exact h
  · rintro d ⟨⟩
    exact hc

/-! Names -/

theorem startsNumeral_of_isNameStart (h : isNameStart c = true) : startsNumeral (c :: r) = false := by
  have hdigit : c.isDigit = false := by
    rw [Bool.eq_false_iff]
    intro hc
    rw [isNameStart_of_isDigit hc] at h
    cases h
  unfold startsNumeral
  split
  · rename_i he
    cases he
    exact absurd h (by decide)
  · rename_i he
    cases he
    exact hdigit
  · rfl

theorem ne_of_isNameStart {d : Char} (h : isNameStart c = true) (hd : isNameStart d = false) :
    c ≠ d := by
  rintro rfl
  rw [h] at hd
  cases hd

theorem tokens_name {name : String} (hname : isPlain name = true)
    (hs : ∀ d ∈ s.head?, isNameRest d = false) :
    tokens (name.toList ++ s) = .identifier name :: tokens s := by
  rw [isPlain] at hname
  split at hname
  · rename_i c r hcr
    rw [Bool.and_eq_true] at hname
    obtain ⟨hc, hr⟩ := hname
    rw [hcr, List.cons_append]
    refine tokens_cons (isBlank_of_isNameStart hc) ?_
    rw [token?, if_neg, if_neg, if_neg, if_neg, if_pos hc, Text.splitWhile_of_all hr hs]
    · simp only [← hcr, String.ofList_toList]
    · rw [startsNumeral_of_isNameStart hc]
      exact Bool.noConfusion
    · exact ne_of_isNameStart hc (by decide)
    · exact ne_of_isNameStart hc (by decide)
    · rintro (h | h)
      · exact ne_of_isNameStart hc (by decide) h
      · exact ne_of_isNameStart hc (by decide) h
  · cases hname

/-! Texts and dates -/

theorem quotedRest?_close {q : Char} (ht : ∀ d ∈ t.head?, d ≠ q) :
    quotedRest? q (q :: t) = some ([], t) := by
  rw [quotedRest?.eq_def]
  cases t with
  | nil => simp only [if_true]
  | cons d t => simp only [if_true, if_neg (ht d rfl)]

theorem quotedRest?_doubled (q : Char) (s : List Char) :
    quotedRest? q (q :: q :: s) = (quotedRest? q s).map fun (a, t) => (q :: a, t) := by
  rw [quotedRest?.eq_def]
  simp only [if_true]

theorem quotedRest?_other {q : Char} (hc : c ≠ q) :
    quotedRest? q (c :: s) = (quotedRest? q s).map fun (a, t) => (c :: a, t) := by
  rw [quotedRest?.eq_def]
  simp only [if_neg hc]

theorem quotedRest?_doubleQuotes {q : Char} (ht : ∀ d ∈ t.head?, d ≠ q) :
    quotedRest? q (Text.doubleQuotes q s ++ q :: t) = some (s, t) := by
  induction s with
  | nil => exact quotedRest?_close ht
  | cons c s ih =>
    rw [Text.doubleQuotes] at ih
    rw [Text.doubleQuotes, List.flatMap_cons, List.append_assoc]
    by_cases hc : c = q
    · subst hc
      rw [if_pos rfl, List.cons_append, List.cons_append, List.nil_append, quotedRest?_doubled, ih]
      rfl
    · rw [if_neg hc, List.cons_append, List.nil_append, quotedRest?_other hc, ih]
      rfl

theorem tokens_quoted (content : String) (hs : ∀ d ∈ s.head?, d ≠ '\x27') :
    tokens ((Text.quoted content).toList ++ s) = .text content :: tokens s := by
  have hshape : (Text.quoted content).toList ++ s
      = '\x27' :: (Text.doubleQuotes '\x27' content.toList ++ '\x27' :: s) := by
    simp [Text.quoted]
  rw [hshape]
  refine tokens_cons (by decide) ?_
  rw [token?, if_pos (.inr rfl), quotedRest?_doubleQuotes hs]
  simp only [String.ofList_toList]

theorem upTo?_append {close : Char} (hs : close ∉ s) : upTo? close (s ++ close :: t) = some (s, t) := by
  induction s with
  | nil => exact if_pos rfl
  | cons c s ih =>
    rw [List.mem_cons, not_or] at hs
    rw [List.cons_append, upTo?, if_neg (Ne.symm hs.1), ih hs.2]
    rfl

theorem tokens_braced {content : String} (hcontent : Text.Trimmed content.toList)
    (hclose : '\x7d' ∉ content.toList) :
    tokens ((Text.braced content).toList ++ s) = .datetime content :: tokens s := by
  have hshape : (Text.braced content).toList ++ s
      = '\x7b' :: (content.toList ++ '\x7d' :: s) := by
    simp [Text.braced]
  rw [hshape]
  refine tokens_cons (by decide) ?_
  rw [token?, if_neg (by decide), if_pos rfl, upTo?_append hclose]
  simp only [hcontent.trim, String.ofList_toList]

/-! Numbers -/

/-- Whether a character may go on with a number. -/
def goesOnWithNumeral (c : Char) : Bool := c.isDigit || c == '.' || c == 'e' || c == 'E'

/-- An exponent, or none. -/
def IsExponent (s : List Char) : Prop :=
  s = [] ∨ ∃ e sign digits, (e = 'e' ∨ e = 'E') ∧ (sign = [] ∨ sign = ['+'] ∨ sign = ['-']) ∧
    digits ≠ [] ∧ digits.all Char.isDigit = true ∧ s = e :: sign ++ digits

/-- A number as it is spelled: digits, a point with more digits, and an exponent. -/
structure IsNumeral (s : List Char) : Prop where
  starts : startsNumeral s = true
  shape : ∃ whole fraction exponent, whole.all Char.isDigit = true ∧
    (fraction = [] ∨ ∃ digits, digits.all Char.isDigit = true ∧ fraction = '.' :: digits) ∧
    IsExponent exponent ∧ s = whole ++ fraction ++ exponent

theorem ne_of_goesOnWithNumeral {d : Char} (hc : goesOnWithNumeral c = false)
    (hd : goesOnWithNumeral d = true) : c ≠ d := by
  rintro rfl
  rw [hd] at hc
  cases hc

theorem goesOnWithNumeral_of_isDigit (h : c.isDigit = true) : goesOnWithNumeral c = true := by
  simp only [goesOnWithNumeral, h, Bool.true_or]

theorem isDigit_of_goesOnWithNumeral (h : goesOnWithNumeral c = false) : c.isDigit = false := by
  rw [Bool.eq_false_iff]
  intro hc
  rw [goesOnWithNumeral_of_isDigit hc] at h
  cases h

/-- What follows a number has no exponent at its front. -/
theorem exponent?_of_head (ht : ∀ c ∈ t.head?, goesOnWithNumeral c = false) : exponent? t = none := by
  cases t with
  | nil => rfl
  | cons c t =>
    have hc : ¬ (c = 'e' ∨ c = 'E') := by
      rintro (rfl | rfl)
      · cases ht _ rfl
      · cases ht _ rfl
    rw [exponent?.eq_def]
    exact if_neg hc

theorem exponent?_append {e : Char} {sign digits : List Char} (he : e = 'e' ∨ e = 'E')
    (hsign : sign = [] ∨ sign = ['+'] ∨ sign = ['-']) (hne : digits ≠ [])
    (hdigits : digits.all Char.isDigit = true)
    (ht : ∀ c ∈ t.head?, goesOnWithNumeral c = false) :
    exponent? (e :: sign ++ digits ++ t) = some (e :: sign ++ digits, t) := by
  have hsplit := Text.splitWhile_of_all hdigits fun c hc => isDigit_of_goesOnWithNumeral (ht c hc)
  have hempty : digits.isEmpty ≠ true := fun h => hne (List.isEmpty_iff.1 h)
  obtain rfl | rfl | rfl := hsign
  · obtain ⟨d, more, rfl⟩ := List.exists_cons_of_ne_nil hne
    have hd : d.isDigit = true := by
      rw [List.all_cons, Bool.and_eq_true] at hdigits
      exact hdigits.1
    rw [List.cons_append, List.cons_append, List.nil_append, List.cons_append, exponent?, if_pos he]
    · rw [List.cons_append] at hsplit
      simp only [hsplit, if_neg hempty]
      rfl
    · rintro r ⟨⟩
      exact absurd hd (by decide)
    · rintro r ⟨⟩
      exact absurd hd (by decide)
  · rw [List.cons_append, List.cons_append, List.cons_append, List.cons_append, List.nil_append,
      exponent?, if_pos he]
    simp only [hsplit, if_neg hempty]
    rfl
  · rw [List.cons_append, List.cons_append, List.cons_append, List.cons_append, List.nil_append,
      exponent?, if_pos he]
    simp only [hsplit, if_neg hempty]
    rfl

theorem all_splitWhile (p : Char → Bool) (s : List Char) : (Text.splitWhile p s).1.all p = true :=
  List.all_takeWhile

theorem isExponent_of_exponent? (h : exponent? s = some (r, t)) : IsExponent r := by
  rw [exponent?.eq_def] at h
  cases s with
  | nil => cases h
  | cons e s =>
    dsimp only at h
    split at h
    · rename_i he
      have hsign : ∀ sign u, (sign = [] ∨ sign = ['+'] ∨ sign = ['-']) →
          (if (Text.splitWhile Char.isDigit u).1.isEmpty = true then none
            else some (e :: sign ++ (Text.splitWhile Char.isDigit u).1,
              (Text.splitWhile Char.isDigit u).2)) = some (r, t) → IsExponent r := by
        intro sign u hsign hu
        split at hu
        · cases hu
        · rename_i hempty
          cases hu
          exact .inr ⟨e, sign, _, he, hsign, fun h => hempty (List.isEmpty_iff.2 h),
            all_splitWhile _ u, rfl⟩
      split at h
      · exact hsign _ _ (.inr (.inl rfl)) h
      · exact hsign _ _ (.inr (.inr rfl)) h
      · exact hsign _ _ (.inl rfl) h
    · cases h

/-- A number, from where its exponent may stand. -/
def withExponent (body r : List Char) : List Char × List Char :=
  match exponent? r with
  | some (e, r) => (body ++ e, r)
  | none => (body, r)

theorem withExponent_append {body : List Char} (hs : IsExponent s)
    (ht : ∀ c ∈ t.head?, goesOnWithNumeral c = false) :
    withExponent body (s ++ t) = (body ++ s, t) := by
  obtain rfl | ⟨e, sign, digits, he, hsign, hne, hdigits, rfl⟩ := hs
  · rw [withExponent, List.nil_append, exponent?_of_head ht, List.append_nil]
  · rw [withExponent, exponent?_append he hsign hne hdigits ht]

theorem withExponent_shape (body r : List Char) :
    ∃ exponent, IsExponent exponent ∧ (withExponent body r).1 = body ++ exponent := by
  rw [withExponent]
  split
  · rename_i he
    exact ⟨_, isExponent_of_exponent? he, rfl⟩
  · exact ⟨[], .inl rfl, (List.append_nil body).symm⟩

/-- An exponent, or what follows a number without one, begins with neither a digit nor a point. -/
theorem head_exponent (hs : IsExponent s) (ht : ∀ c ∈ t.head?, goesOnWithNumeral c = false) :
    ∀ c ∈ (s ++ t).head?, c.isDigit = false ∧ c ≠ '.' := by
  intro c hc
  obtain rfl | ⟨e, sign, digits, he, -, -, -, rfl⟩ := hs
  · have h := ht c hc
    exact ⟨isDigit_of_goesOnWithNumeral h, ne_of_goesOnWithNumeral h (by decide)⟩
  · cases hc
    obtain rfl | rfl := he
    · decide
    · decide

theorem numeral_eq_of_dot {u : List Char} (h : (Text.splitWhile Char.isDigit s).2 = '.' :: u) :
    numeral s = withExponent ((Text.splitWhile Char.isDigit s).1 ++
      '.' :: (Text.splitWhile Char.isDigit u).1) (Text.splitWhile Char.isDigit u).2 := by
  rw [numeral]
  simp only [h]
  rfl

theorem numeral_eq (h : ∀ u, (Text.splitWhile Char.isDigit s).2 ≠ '.' :: u) :
    numeral s =
      withExponent (Text.splitWhile Char.isDigit s).1 (Text.splitWhile Char.isDigit s).2 := by
  rw [numeral]
  generalize Text.splitWhile Char.isDigit s = p at h ⊢
  obtain ⟨whole, r⟩ := p
  cases he : exponent? r with
  | none => simp only [withExponent, he]
  | some p => simp only [withExponent, he]

theorem numeral_append (hs : IsNumeral s) (ht : ∀ c ∈ t.head?, goesOnWithNumeral c = false) :
    numeral (s ++ t) = (s, t) := by
  obtain ⟨-, whole, fraction, exponent, hwhole, hfraction, hexponent, rfl⟩ := hs
  have htail := head_exponent hexponent ht
  obtain rfl | ⟨digits, hdigits, rfl⟩ := hfraction
  · have hsplit := Text.splitWhile_of_all hwhole fun c hc => (htail c hc).1
    rw [List.append_nil, List.append_assoc, numeral_eq, hsplit]
    · exact withExponent_append hexponent ht
    · intro u hu
      replace hu : exponent ++ t = '.' :: u := (congrArg Prod.snd hsplit).symm.trans hu
      exact (htail '.' (by rw [hu]; rfl)).2 rfl
  · have hsplit := Text.splitWhile_of_all (t := '.' :: (digits ++ (exponent ++ t))) hwhole
      (by rintro c ⟨⟩; decide)
    have hsplit' := Text.splitWhile_of_all hdigits fun c hc => (htail c hc).1
    have hshape : whole ++ '.' :: digits ++ exponent ++ t
        = whole ++ '.' :: (digits ++ (exponent ++ t)) := by
      simp only [List.append_assoc, List.cons_append]
    rw [hshape, numeral_eq_of_dot (congrArg Prod.snd hsplit), hsplit, hsplit']
    exact withExponent_append hexponent ht

theorem startsNumeral_of_isDigit (h : c.isDigit = true) : startsNumeral (c :: s) = true := by
  unfold startsNumeral
  split
  · rename_i he
    cases he
    cases h
  · rename_i he
    cases he
    exact h
  · rename_i he
    cases he

/-- A number starts with a digit, or with a point and a digit. -/
theorem startsNumeral_iff : startsNumeral s = true ↔
    (∃ c r, s = c :: r ∧ c.isDigit = true) ∨ ∃ d r, s = '.' :: d :: r ∧ d.isDigit = true := by
  constructor
  · intro h
    unfold startsNumeral at h
    split at h
    · exact .inr ⟨_, _, rfl, h⟩
    · exact .inl ⟨_, _, rfl, h⟩
    · cases h
  · rintro (⟨c, r, rfl, hc⟩ | ⟨d, r, rfl, hd⟩)
    · exact startsNumeral_of_isDigit hc
    · exact hd

theorem startsNumeral_append (h : startsNumeral s = true) : startsNumeral (s ++ t) = true := by
  obtain ⟨c, r, rfl, hc⟩ | ⟨d, r, rfl, hd⟩ := startsNumeral_iff.1 h
  · exact startsNumeral_of_isDigit hc
  · exact hd

theorem splitWhile_cons {p : Char → Bool} (hc : p c = true) :
    Text.splitWhile p (c :: s) = (c :: (Text.splitWhile p s).1, (Text.splitWhile p s).2) := by
  rw [Text.splitWhile, Text.splitWhile, List.takeWhile_cons_of_pos hc, List.dropWhile_cons_of_pos hc]

/-- What is taken for a number starts one. -/
theorem startsNumeral_numeral (h : startsNumeral s = true) : startsNumeral (numeral s).1 = true := by
  obtain ⟨c, r, rfl, hc⟩ | ⟨d, r, rfl, hd⟩ := startsNumeral_iff.1 h
  · by_cases hdot : ∃ u, (Text.splitWhile Char.isDigit (c :: r)).2 = '.' :: u
    · obtain ⟨u, hu⟩ := hdot
      obtain ⟨exponent, -, he⟩ := withExponent_shape _ (Text.splitWhile Char.isDigit u).2
      rw [numeral_eq_of_dot hu, he, splitWhile_cons hc]
      exact startsNumeral_of_isDigit hc
    · obtain ⟨exponent, -, he⟩ := withExponent_shape _ (Text.splitWhile Char.isDigit (c :: r)).2
      rw [numeral_eq (fun u hu => hdot ⟨u, hu⟩), he, splitWhile_cons hc]
      exact startsNumeral_of_isDigit hc
  · obtain ⟨exponent, -, he⟩ := withExponent_shape _ (Text.splitWhile Char.isDigit (d :: r)).2
    rw [numeral_eq_of_dot (u := d :: r) rfl, he, splitWhile_cons hd]
    exact hd

theorem isNumeral_numeral (h : startsNumeral s = true) : IsNumeral (numeral s).1 := by
  refine ⟨startsNumeral_numeral h, ?_⟩
  by_cases hdot : ∃ u, (Text.splitWhile Char.isDigit s).2 = '.' :: u
  · obtain ⟨u, hu⟩ := hdot
    obtain ⟨exponent, hexponent, he⟩ := withExponent_shape _ (Text.splitWhile Char.isDigit u).2
    rw [numeral_eq_of_dot hu, he]
    exact ⟨_, _, exponent, all_splitWhile _ s, .inr ⟨_, all_splitWhile _ u, rfl⟩, hexponent, rfl⟩
  · obtain ⟨exponent, hexponent, he⟩ := withExponent_shape _ (Text.splitWhile Char.isDigit s).2
    rw [numeral_eq (fun u hu => hdot ⟨u, hu⟩), he]
    exact ⟨_, [], exponent, all_splitWhile _ s, .inl rfl, hexponent, by rw [List.append_nil]⟩

theorem tokens_numeral {n : String} (hn : IsNumeral n.toList)
    (hs : ∀ c ∈ s.head?, goesOnWithNumeral c = false) :
    tokens (n.toList ++ s) = .number n :: tokens s := by
  have hstarts := startsNumeral_append (t := s) hn.starts
  have hread := numeral_append hn hs
  obtain ⟨c, r, hcr⟩ : ∃ c r, n.toList = c :: r := by
    obtain ⟨c, r, h, -⟩ | ⟨d, r, h, -⟩ := startsNumeral_iff.1 hn.starts
    · exact ⟨c, r, h⟩
    · exact ⟨_, _, h⟩
  have hc : goesOnWithNumeral c = true := by
    obtain ⟨c', r', h, hc⟩ | ⟨d, r', h, -⟩ := startsNumeral_iff.1 hn.starts
    · cases hcr.symm.trans h
      exact goesOnWithNumeral_of_isDigit hc
    · cases hcr.symm.trans h
      rfl
  have hne : ∀ d, goesOnWithNumeral d = false → c ≠ d := by
    rintro d hd rfl
    rw [hc] at hd
    cases hd
  rw [hcr, List.cons_append] at hstarts hread ⊢
  refine tokens_cons ?_ ?_
  · simp only [goesOnWithNumeral, Bool.or_eq_true, beq_iff_eq] at hc
    obtain ((hc | rfl) | rfl) | rfl := hc
    · exact Text.isBlank_of_isDigit hc
    · decide
    · decide
    · decide
  · rw [token?, if_neg, if_neg (hne _ (by decide)), if_neg (hne _ (by decide)), if_pos hstarts, hread]
    · simp only [← hcr, String.ofList_toList]
    · rintro (h | h)
      · exact hne _ (by decide) h
      · exact hne _ (by decide) h

/-! Symbols -/

/-- What follows a symbol does not go on with it. -/
def Apart (s : Symbol) (t : List Char) : Prop :=
  ∀ d ∈ t.head?, (∀ c, s.text.toList = [c] → pair? c d = none) ∧ (s = .dot → d.isDigit = false)

theorem pair?_blank (c : Char) : pair? c ' ' = none := by
  unfold pair?
  split <;> first | rfl | (rename_i h; cases h)

theorem apart_blank {s : Symbol} : Apart s (' ' :: t) := by
  rintro d ⟨⟩
  exact ⟨fun c _ => pair?_blank c, fun _ => by decide⟩

theorem operator_single {s : Symbol} (hs : single? c = some s) (ht : ∀ d ∈ t.head?, pair? c d = none) :
    operator c t = (.symbol s, t) := by
  cases t with
  | nil => simp only [operator, hs]
  | cons d t => simp only [operator, hs, ht d rfl]

theorem tokens_symbol {s : Symbol} (h : Apart s t) :
    tokens (s.text.toList ++ t) = .symbol s :: tokens t := by
  cases s with
  | increment | decrement | doubleAmpersand | doublePipe | doubleCaret | shiftLeft | shiftRight
    | notEqual | lessEqual | greaterEqual => exact tokens_cons (by decide) rfl
  | dot =>
    show tokens ('.' :: t) = _
    have hop := operator_single (c := '.') (s := .dot) rfl fun d hd => (h d hd).1 _ rfl
    have hstarts : startsNumeral ('.' :: t) = false := by
      cases t with
      | nil => rfl
      | cons d t => exact (h d rfl).2 rfl
    refine tokens_cons (by decide) ?_
    rw [token?, if_neg (by decide), if_neg (by decide), if_neg (by decide), hstarts, hop]
    rfl
  | _ => exact tokens_cons (by decide) (congrArg some (operator_single rfl fun d hd => (h d hd).1 _ rfl))

/-! What is read -/

/-- Whether a token that is written out without quotes can be read back. -/
def IsSpelled : Token → Prop
  | .number n => IsNumeral n.toList
  | .datetime s => Text.Trimmed s.toList ∧ '\x7d' ∉ s.toList
  | _ => True

theorem notMem_of_upTo? {close : Char} (h : upTo? close s = some (r, t)) : close ∉ r := by
  induction s generalizing r with
  | nil => cases h
  | cons c s ih =>
    rw [upTo?] at h
    split at h
    · cases h
      exact List.not_mem_nil
    · rename_i hc
      obtain ⟨⟨r', t'⟩, hr, he⟩ := Option.map_eq_some_iff.1 h
      cases he
      rw [List.mem_cons, not_or]
      exact ⟨Ne.symm hc, ih hr⟩

theorem isSpelled_operator : IsSpelled (operator c r).1 := by
  unfold operator
  dsimp only
  split <;> split <;> (try split) <;> trivial

theorem isSpelled_of_token? (h : token? s = some (x, t)) : IsSpelled x := by
  cases s with
  | nil => cases h
  | cons c r =>
    rw [token?] at h
    split at h
    · split at h
      · cases h
        trivial
      · cases h
        trivial
    · split at h
      · split at h
        · rename_i hr
          cases h
          rw [IsSpelled, String.toList_ofList]
          exact ⟨Text.trim_trimmed _, fun hc => notMem_of_upTo? hr (Text.trim_subset _ hc)⟩
        · cases h
          trivial
      · split at h
        · split at h
          · cases h
            trivial
          · cases h
            trivial
        · split at h
          · rename_i hstarts
            cases h
            rw [IsSpelled, String.toList_ofList]
            exact isNumeral_numeral hstarts
          · split at h
            · cases h
              trivial
            · have hx : (operator c r).1 = x := congrArg Prod.fst (Option.some.inj h)
              exact hx ▸ isSpelled_operator

/-- What is read as a number or a date can be written and read back. -/
theorem isSpelled_of_mem_tokens (s : List Char) : ∀ x ∈ tokens s, IsSpelled x := by
  induction s using tokens.induct with
  | case1 s h =>
    rw [tokens_of_none h]
    exact fun x hx => absurd hx List.not_mem_nil
  | case2 s y t h ih =>
    rw [tokens_of_some h]
    intro x hx
    obtain rfl | hx := List.mem_cons.1 hx
    · exact isSpelled_of_token? h
    · exact ih x hx

end Lexer
end Reporting
