import Reporting.Proofs.Decimal.Padded
import Reporting.Proofs.Function.Literals
import Reporting.Proofs.Value.Held
/-!
Numbers that are written by a decimal conversion. The text is as long as the number needs, or as wide as the
conversion asks for, and is read back as the number rounded to the decimals of the conversion.
-/
namespace Reporting.Formatting
open Decimal

/-- The flags that deal with signs and padding. -/
inductive Flag
  | minus
  | zero
  | plus
  | space
  deriving DecidableEq, Repr

namespace Flag

def char : Flag → Char
  | minus => '-'
  | zero => '0'
  | plus => '+'
  | space => ' '

/-- What a flag changes in a conversion. -/
def set : Flag → Directive → Directive
  | minus, d => { d with leftAlign := true }
  | zero, d => { d with zeroPad := true }
  | plus, d => { d with plus := true }
  | space, d => { d with space := true }

end Flag

/-- The letters of decimal conversions. -/
inductive Letter
  | d
  | i
  | f
  deriving DecidableEq, Repr

def Letter.char : Letter → Char
  | d => 'd'
  | i => 'i'
  | f => 'f'

/-- A decimal conversion as it is written: flags, a width if there is one, the number of decimals behind a point
if there is one, and a letter. Zeros in front of the width are flags as well. -/
structure Conversion where
  flags : List Flag
  width : List Char
  places : Option (List Char)
  letter : Letter
  width_digits : width.all Char.isDigit = true := by decide
  places_digits : ∀ ds ∈ places, ds.all Char.isDigit = true := by decide
  width_le : Digits.value width ≤ 1000000 := by decide
  places_le : ∀ ds ∈ places, Digits.value ds ≤ maxExponent := by decide

namespace Conversion

def point (c : Conversion) : List Char :=
  match c.places with
  | some ds => '.' :: ds
  | none => []

/-- The conversion without its percent sign. -/
def chars (c : Conversion) : List Char := c.flags.map Flag.char ++ (c.width ++ (c.point ++ [c.letter.char]))

def precision (c : Conversion) : Option Nat := c.places.map Digits.value

/-- The number of decimals that are written. -/
def decimals (c : Conversion) : Nat :=
  match c.letter with
  | .d => c.precision.getD 0
  | .i => 0
  | .f => c.precision.getD 6

/-- The width that is asked for. With `d` it does not count the point and what follows it. -/
def fullWidth (c : Conversion) : Nat :=
  if c.width = [] then 0
  else if c.letter = .d ∧ 0 < c.decimals then Digits.value c.width + c.decimals + 1
  else Digits.value c.width

/-- The conversion that pads nothing. -/
def unpadded (c : Conversion) : Conversion :=
  { c with width := [], width_digits := rfl, width_le := Nat.zero_le _ }

theorem decimals_le (c : Conversion) : c.decimals ≤ maxExponent := by
  have hplaces (k : Nat) (hk : k ≤ maxExponent) : c.precision.getD k ≤ maxExponent := by
    rw [precision]
    cases hp : c.places with
    | none => exact hk
    | some ds => exact c.places_le ds hp
  rw [decimals]
  cases c.letter with
  | d => exact hplaces 0 (Nat.zero_le _)
  | i => exact Nat.zero_le _
  | f => exact hplaces 6 (by decide)

/-! Reading a conversion -/

/-- What no flag can be read from. -/
def Unflagged (s : List Char) : Prop := ∀ x ∈ s.head?, x ∉ ['-', '0', '+', ' ', '#', '\x27', '$', 'I']

theorem flags_map (fs : List Flag) (d : Directive) (s : List Char) :
    d.flags (fs.map Flag.char ++ s) = (fs.foldl (fun d f => f.set d) d).flags s := by
  induction fs generalizing d with
  | nil => rfl
  | cons f fs ih =>
    rw [List.map_cons, List.cons_append, List.foldl_cons, ← ih]
    cases f <;> rfl

theorem flags_of_unflagged {s : List Char} (hs : Unflagged s) (d : Directive) : d.flags s = (d, s) := by
  cases s with
  | nil => rfl
  | cons x s =>
    have hx := hs x rfl
    simp only [List.mem_cons, List.not_mem_nil, or_false, not_or] at hx
    simp [Directive.flags, hx]

theorem readCount_digits {ds r : List Char} (hd : ds.all Char.isDigit = true)
    (hr : ∀ x ∈ r.head?, x.isDigit = false) (hlt : Digits.value ds < 0x10000000000000000) :
    Directive.readCount (ds ++ r) = (if ds = [] then none else some (Digits.value ds), r) := by
  rw [Directive.readCount, Text.splitWhile_of_all hd hr]
  by_cases hds : ds = []
  · simp [hds]
  · simp [hds, hlt]

theorem exists_zeros (ds : List Char) :
    ∃ k ws, ds = List.replicate k '0' ++ ws ∧ ∀ x ∈ ws.head?, x ≠ '0' := by
  induction ds with
  | nil => exact ⟨0, [], rfl, nofun⟩
  | cons x ds ih =>
    by_cases hx : x = '0'
    · obtain ⟨k, ws, rfl, hws⟩ := ih
      exact ⟨k + 1, ws, by rw [hx]; rfl, hws⟩
    · exact ⟨0, x :: ds, rfl, fun y hy => by rwa [← Option.some.inj hy]⟩

theorem foldl_set (fs : List Flag) (d : Directive) :
    (fs.foldl (fun d f => f.set d) d).plus = (d.plus || decide (.plus ∈ fs)) ∧
      (fs.foldl (fun d f => f.set d) d).space = (d.space || decide (.space ∈ fs)) := by
  induction fs generalizing d with
  | nil => simp
  | cons f fs ih =>
    rw [List.foldl_cons, (ih _).1, (ih _).2]
    cases f <;> simp [Flag.set]

theorem letter_isDigit (l : Letter) : l.char.isDigit = false := by
  cases l <;> rfl

theorem tail_ends (c : Conversion) : ∀ x ∈ (c.point ++ [c.letter.char]).head?, x.isDigit = false := by
  intro x hx
  rw [point] at hx
  cases hp : c.places with
  | none =>
    rw [hp] at hx
    rw [← Option.some.inj hx]
    exact letter_isDigit c.letter
  | some ds =>
    rw [hp] at hx
    rw [← Option.some.inj hx]
    rfl

theorem tail_unflagged (c : Conversion) {ws : List Char} (hd : ws.all Char.isDigit = true)
    (hw : ∀ x ∈ ws.head?, x ≠ '0') : Unflagged (ws ++ (c.point ++ [c.letter.char])) := by
  intro x hx
  cases ws with
  | nil =>
    rw [List.nil_append, point] at hx
    cases hp : c.places with
    | none =>
      rw [hp] at hx
      rw [← Option.some.inj hx]
      cases c.letter <;> decide
    | some ds =>
      rw [hp] at hx
      rw [← Option.some.inj hx]
      decide
  | cons y ws =>
    rw [List.all_cons, Bool.and_eq_true] at hd
    obtain rfl := Option.some.inj hx
    have hzero := hw y rfl
    simp [hzero, ne_of_isDigit hd.1]

/-- The flags as they are read, together with the zeros in front of the width, which are not part of it any
more. -/
theorem flags_chars (c : Conversion) : ∃ d ws,
    Directive.flags {} c.chars = (d, ws ++ (c.point ++ [c.letter.char])) ∧
    d.plus = decide (.plus ∈ c.flags) ∧ d.space = decide (.space ∈ c.flags) ∧
    ws.all Char.isDigit = true ∧ Digits.value ws = Digits.value c.width ∧ (c.width = [] → ws = []) := by
  obtain ⟨k, ws, hwidth, hws⟩ := exists_zeros c.width
  have hdigits : ws.all Char.isDigit = true := by
    have hall := c.width_digits
    rw [hwidth, List.all_append, Bool.and_eq_true] at hall
    exact hall.2
  have hchars : c.chars = (c.flags ++ List.replicate k Flag.zero).map Flag.char ++
      (ws ++ (c.point ++ [c.letter.char])) := by
    rw [chars, hwidth, List.map_append, List.map_replicate, List.append_assoc, List.append_assoc]
    rfl
  have hflag : ∀ f, f ≠ .zero → (f ∈ c.flags ++ List.replicate k Flag.zero ↔ f ∈ c.flags) := by
    intro f hf
    simp [hf]
  obtain ⟨hplus, hspace⟩ := foldl_set (c.flags ++ List.replicate k Flag.zero) {}
  have hread := flags_of_unflagged (c.tail_unflagged hdigits hws)
  refine ⟨_, ws, by rw [hchars, flags_map, hread], ?_, ?_, hdigits, ?_, ?_⟩
  · rw [hplus, Bool.false_or, decide_eq_decide.2 (hflag .plus (by decide))]
  · rw [hspace, Bool.false_or, decide_eq_decide.2 (hflag .space (by decide))]
  · rw [hwidth, Digits.value_zeros_append]
  · intro hnone
    rw [hnone] at hwidth
    exact (List.append_eq_nil_iff.1 hwidth.symm).2

/-- A conversion as it is read. -/
theorem read?_chars (c : Conversion) : ∃ d ws, Directive.read? c.chars = some (d, []) ∧
    d.plus = decide (.plus ∈ c.flags) ∧ d.space = decide (.space ∈ c.flags) ∧
    d.width = (if ws = [] then none else some (Digits.value ws)) ∧ Digits.value ws = Digits.value c.width ∧
    (c.width = [] → ws = []) ∧ d.precision = c.precision ∧ d.conversion = c.letter.char := by
  obtain ⟨flagged, ws, hflags, hplus, hspace, hdigits, hvalue, hnone⟩ := c.flags_chars
  have hwidth : Directive.readCount (ws ++ (c.point ++ [c.letter.char])) =
      (if ws = [] then none else some (Digits.value ws), c.point ++ [c.letter.char]) :=
    readCount_digits hdigits c.tail_ends (by have := c.width_le; omega)
  refine ⟨{ flagged with
    width := if ws = [] then none else some (Digits.value ws)
    precision := c.precision
    conversion := c.letter.char }, ws, ?_, hplus, hspace, rfl, hvalue, hnone, rfl, rfl⟩
  rw [Directive.read?, hflags]
  dsimp only
  rw [hwidth, point, precision]
  cases hp : c.places with
  | none => cases c.letter <;> rfl
  | some ds =>
    by_cases hds : ds = []
    · subst hds
      cases c.letter <;> rfl
    · have hmax : maxExponent < 0x10000000000000000 := by decide
      have hletter : ∀ x ∈ [c.letter.char].head?, x.isDigit = false := by
        intro x hx
        rw [← Option.some.inj hx]
        exact letter_isDigit c.letter
      have hcount := readCount_digits (c.places_digits ds hp) hletter (by have := c.places_le ds hp; omega)
      simp [hcount, hds]

end Conversion

/-! Padding -/

namespace Directive

variable {d : Directive} {s whole fraction : List Char} {negative : Bool}

/-- A number with the sign that a conversion asks for. -/
def signed (d : Directive) (s : List Char) : List Char :=
  if s.head? = some '-' then s
  else if d.plus then '+' :: s
  else if d.space then ' ' :: s
  else s

theorem splitSign_append (s : List Char) : (splitSign s).1 ++ (splitSign s).2 = s := by
  cases s with
  | nil => rfl
  | cons c s =>
    rw [splitSign]
    split <;> rfl

theorem pad_eq (d : Directive) (s : List Char) (width : Nat) : d.pad s width =
    if d.leftAlign then d.signed s ++ List.replicate (width - (d.signed s).length) ' '
    else if d.zeroPad then (splitSign (d.signed s)).1 ++
      List.replicate (width - (d.signed s).length) '0' ++ (splitSign (d.signed s)).2
    else List.replicate (width - (d.signed s).length) ' ' ++ d.signed s := rfl

theorem length_pad (d : Directive) (s : List Char) (width : Nat) :
    (d.pad s width).length = max (d.signed s).length width := by
  have hsplit := congrArg List.length (splitSign_append (d.signed s))
  rw [List.length_append] at hsplit
  rw [pad_eq]
  split
  · rw [List.length_append, List.length_replicate]
    omega
  · split
    · rw [List.length_append, List.length_append, List.length_replicate]
      omega
    · rw [List.length_append, List.length_replicate]
      omega

theorem exists_pad_of_split {sign ds : List Char} (h : splitSign (d.signed s) = (sign, ds)) (width : Nat) :
    ∃ before zeros after, d.pad s width = List.replicate before ' ' ++
      (sign ++ (List.replicate zeros '0' ++ ds)) ++ List.replicate after ' ' := by
  have happend := splitSign_append (d.signed s)
  rw [h] at happend
  rw [pad_eq, h, ← happend]
  generalize width - (sign ++ ds).length = gap
  split
  · exact ⟨0, 0, gap, by simp⟩
  · split
    · exact ⟨0, gap, 0, by simp⟩
    · exact ⟨gap, 0, 0, by simp⟩

/-- What a conversion makes of a number in plain notation is padding that the reader does not see. -/
theorem exists_pad (d : Directive) (negative : Bool) (fraction : List Char) (hne : whole ≠ [])
    (hw : whole.all Char.isDigit = true) (width : Nat) :
    ∃ before zeros after plus, d.pad (plainText negative whole fraction) width =
      padded before zeros after plus (plainText negative whole fraction) := by
  obtain ⟨c, t, hc, hcons⟩ := plainText_eq_cons negative fraction hne hw
  have hminus : c ≠ '-' := ne_of_isDigit hc rfl
  have hplus : c ≠ '+' := ne_of_isDigit hc rfl
  have hspace : c ≠ ' ' := ne_of_isDigit hc rfl
  rw [hcons]
  cases negative with
  | true =>
    obtain ⟨before, zeros, after, hpad⟩ := exists_pad_of_split (d := d) (s := '-' :: c :: t) rfl width
    exact ⟨before, zeros, after, false, hpad⟩
  | false =>
    rw [if_neg Bool.false_ne_true]
    by_cases hp : d.plus = true
    · have hsplit : splitSign (d.signed (c :: t)) = (['+'], c :: t) := by
        simp [signed, hminus, hp, splitSign]
      obtain ⟨before, zeros, after, hpad⟩ := exists_pad_of_split hsplit width
      exact ⟨before, zeros, after, true, by simp [hpad, padded, hminus]⟩
    · by_cases hs : d.space = true
      · have hsplit : splitSign (d.signed (c :: t)) = ([' '], c :: t) := by
          simp [signed, hminus, hp, hs, splitSign]
        obtain ⟨before, zeros, after, hpad⟩ := exists_pad_of_split hsplit width
        -- the sign is a blank like those that may stand before it
        exact ⟨before + 1, zeros, after, false, by simp [hpad, padded, hminus, List.replicate_succ']⟩
      · have hsplit : splitSign (d.signed (c :: t)) = ([], c :: t) := by
          simp [signed, hminus, hp, hs, splitSign, hplus, hspace]
        obtain ⟨before, zeros, after, hpad⟩ := exists_pad_of_split hsplit width
        exact ⟨before, zeros, after, false, by simp [hpad, padded, hminus]⟩

theorem signed_congr {d d' : Directive} (hplus : d.plus = d'.plus) (hspace : d.space = d'.space) (s : List Char) :
    d.signed s = d'.signed s := by
  rw [signed, signed, hplus, hspace]

theorem length_le_signed (d : Directive) (s : List Char) : s.length ≤ (d.signed s).length := by
  rw [signed]
  split_ifs
  · exact le_rfl
  · exact Nat.le_succ _
  · exact Nat.le_succ _
  · exact le_rfl

end Directive

/-! Numbers by a conversion -/

namespace Conversion

variable {c : Conversion} {n : Decimal} {v : Value} {p : Precision}

theorem percent_notMem (c : Conversion) : '%' ∉ c.chars := by
  have hdigits {ds : List Char} (hd : ds.all Char.isDigit = true) : '%' ∉ ds := fun hmem =>
    absurd (List.all_eq_true.1 hd _ hmem) (by decide)
  intro hmem
  rw [chars, List.mem_append, List.mem_append, List.mem_append, List.mem_map, List.mem_singleton] at hmem
  obtain ⟨f, -, hf⟩ | hmem | hmem | hmem := hmem
  · cases f <;> cases hf
  · exact hdigits c.width_digits hmem
  · rw [point] at hmem
    split at hmem
    · rename_i ds hp
      obtain hmem | hmem := List.mem_cons.1 hmem
      · cases hmem
      · exact hdigits (c.places_digits ds hp) hmem
    · cases hmem
  · cases hl : c.letter <;> rw [hl] at hmem <;> cases hmem

/-- A width of which only zeros are written is none. It would not be wider than the number. -/
theorem max_fullWidth {d : Directive} {ws : List Char} {l : Nat}
    (hwidth : d.width = if ws = [] then none else some (Digits.value ws))
    (hvalue : Digits.value ws = Digits.value c.width) (hnone : c.width = [] → ws = [])
    (hprecision : d.precision = c.precision) (hletter : d.conversion = c.letter.char)
    (hl : c.decimals = 0 ∨ c.decimals + 2 ≤ l) : max l d.fullWidth = max l c.fullWidth := by
  have hpoint : (d.conversion = 'd' ∧ 0 < d.precision.getD 0) ↔ c.letter = .d ∧ 0 < c.decimals := by
    rw [hletter, hprecision, decimals]
    cases c.letter <;> simp [Letter.char]
  have hplaces : c.letter = .d → d.precision.getD 0 = c.decimals := by
    intro hd
    rw [hprecision, decimals, hd]
  rw [Directive.fullWidth, fullWidth, hwidth]
  by_cases hws : ws = []
  · have hzero : Digits.value c.width = 0 := by rw [← hvalue, hws]; rfl
    rw [if_pos hws, hzero]
    dsimp only
    split_ifs <;> omega
  · have hne : c.width ≠ [] := fun h => hws (hnone h)
    rw [if_neg hws, if_neg hne, hvalue]
    dsimp only
    by_cases hd : c.letter = .d ∧ 0 < c.decimals
    · rw [if_pos (hpoint.2 hd), if_pos hd, hplaces hd.1]
    · rw [if_neg (hpoint.not.2 hd), if_neg hd]

theorem digits_eq {d : Directive} (hprecision : d.precision = c.precision)
    (hletter : d.conversion = c.letter.char) (n : Decimal) (p : Precision) :
    d.digits n p = (n.renderFixed c.decimals p.rounding).toList := by
  rw [Directive.digits, decimals, hletter, hprecision]
  cases c.letter <;> rfl

/-- A number that is written by a conversion is padded by what was read of the conversion. -/
theorem exists_directive (c : Conversion) (hv : v.number? = some n) (p : Precision) : ∃ d : Directive,
    d.plus = decide (.plus ∈ c.flags) ∧ d.space = decide (.space ∈ c.flags) ∧
    (∀ l, c.decimals = 0 ∨ c.decimals + 2 ≤ l → max l d.fullWidth = max l c.fullWidth) ∧
    format (String.ofList ('%' :: c.chars)) [v] p =
      .text (String.ofList (d.pad (n.renderFixed c.decimals p.rounding).toList d.fullWidth)) := by
  obtain ⟨d, ws, hread, hplus, hspace, hwidth, hvalue, hnone, hprecision, hletter⟩ := c.read?_chars
  have hkind := Value.kind_of_number? hv
  have haccepts : d.accepts v.kind = true := by
    rw [hkind, Directive.accepts, hletter]
    cases c.letter <;> rfl
  have hrender : d.render v p = d.pad (n.renderFixed c.decimals p.rounding).toList d.fullWidth := by
    rw [Directive.render, hv]
    dsimp only
    rw [Directive.renderNumber, digits_eq hprecision hletter]
  have hconsume : consume v p ('%' :: c.chars) =
      .ok (d.pad (n.renderFixed c.decimals p.rounding).toList d.fullWidth, []) := by
    rw [consume_conversion, convert, hread]
    · dsimp only
      rw [if_pos haccepts, hrender]
    · intro hnil
      rw [chars] at hnil
      simp at hnil
    · intro t ht
      exact c.percent_notMem (ht ▸ List.mem_cons_self)
    · rw [hkind]
      decide
  refine ⟨d, hplus, hspace, fun l => max_fullWidth hwidth hvalue hnone hprecision hletter, ?_⟩
  rw [format, String.toList_ofList, formatChars_cons (Value.isError_of_number? hv) hconsume, formatChars]
  simp [closing, Except.map]

/-- The text of a number, its length, and what it is read as. -/
theorem exists_format (c : Conversion) (hv : v.number? = some n) (hn : Significant p.digits n.toRat) :
    ∃ (s t : String) (y : Decimal), format (String.ofList ('%' :: c.chars)) [v] p = .text s ∧
      format (String.ofList ('%' :: c.unpadded.chars)) [v] p = .text t ∧
      s.length = max t.length c.fullWidth ∧ y.toRat = (n.roundPlaces c.decimals p.rounding).toRat ∧
      parse? s.toList p = if y.inRange then some y else none := by
  obtain ⟨d, hplus, hspace, hmax, hs⟩ := c.exists_directive hv p
  obtain ⟨d', hplus', hspace', hmax', ht⟩ := c.unpadded.exists_directive hv p
  obtain ⟨negative, whole, fraction, hne, hw, hlength, htext, y, hy, hparse⟩ :=
    parse?_renderFixed c.decimals_le hn
  have hsigned : d'.signed (plainText negative whole fraction) = d.signed (plainText negative whole fraction) :=
    Directive.signed_congr (hplus'.trans hplus.symm) (hspace'.trans hspace.symm) _
  have hnatural : c.decimals = 0 ∨ c.decimals + 2 ≤ (d.signed (plainText negative whole fraction)).length := by
    obtain hzero | hpos := Nat.eq_zero_or_pos c.decimals
    · exact .inl hzero
    · right
      have hwhole := List.length_pos_of_ne_nil hne
      have hfraction : fraction ≠ [] := List.ne_nil_of_length_pos (by omega)
      have hshort : c.decimals + 2 ≤ (plainText negative whole fraction).length := by
        rw [plainText, if_neg hfraction, List.length_append, List.length_append, List.length_cons]
        omega
      exact hshort.trans (d.length_le_signed _)
  refine ⟨_, _, y, hs, ht, ?_, hy, ?_⟩
  · have hunpadded : c.unpadded.decimals = c.decimals := rfl
    rw [String.length_ofList, String.length_ofList, hunpadded, htext, Directive.length_pad,
      Directive.length_pad, hsigned, hmax _ hnatural, hmax' _ hnatural]
    exact congrArg (max · c.fullWidth) (Nat.max_zero _).symm
  · obtain ⟨before, zeros, after, plus, hpad⟩ := d.exists_pad negative fraction hne hw d.fullWidth
    rw [String.toList_ofList, htext, hpad, hparse]

/-- A number that is written by a decimal conversion is read back as the number rounded to the decimals of the
conversion, for every choice of flags, width and decimals. The text has the length that it has without a width, or
the width where that is more. Rounding may carry a number out of range, and the text is then not read; it does not
do so in a precision with no more digits than a number in range can have before its point. -/
theorem format_conversion (c : Conversion) (hv : v.number? = some n) (hn : Significant p.digits n.toRat) :
    ∃ (s t : String) (r : ℚ), format (String.ofList ('%' :: c.chars)) [v] p = .text s ∧
      format (String.ofList ('%' :: c.unpadded.chars)) [v] p = .text t ∧
      s.length = max t.length c.fullWidth ∧
      RoundsTens p.rounding (-c.decimals) n.toRat r ∧
      (|r| < 10 ^ ((maxExponent : Int) + 1) → ∃ x, parse? s.toList p = some x ∧ x.toRat = r) ∧
      (10 ^ ((maxExponent : Int) + 1) ≤ |r| → parse? s.toList p = none) ∧
      (n.inRange = true → p.digits ≤ maxExponent + 1 → |r| < 10 ^ ((maxExponent : Int) + 1)) := by
  obtain ⟨s, t, y, hs, ht, hlength, hy, hparse⟩ := c.exists_format hv hn
  refine ⟨s, t, y.toRat, hs, ht, hlength, ?_, fun hlt => ?_, fun hge => ?_, fun hrange hdigits => ?_⟩
  · rw [hy]
    exact n.roundsTens_roundPlaces c.decimals p.rounding
  · exact ⟨y, hparse.trans (if_pos (inRange_iff.2 hlt)), rfl⟩
  · rw [hparse, if_neg fun h => (inRange_iff.1 h).not_ge hge]
  · rw [hy]
    exact abs_roundPlaces_lt hrange p.digits_pos hdigits hn c.decimals p.rounding

/-- A negative number half way between two, with more flags than can be followed. -/
theorem format_conversion_of_zeros :
    let p : Precision := { digits := 4, rounding := .nearest }
    let n : Decimal := ⟨-2675, 3⟩
    Significant p.digits n.toRat ∧ format "%+ 08.2d" [.number n] p = .text "-0000002.68" ∧
      ∃ x, parse? "-0000002.68".toList p = some x ∧ RoundsTens .nearest (-2) n.toRat x.toRat := by
  intro p n
  let c : Conversion := { flags := [.plus, .space, .zero], width := ['8'], places := some ['2'], letter := .d }
  have hsig : Significant p.digits n.toRat := significant_toRat (by decide +kernel)
  have htext : format "%+ 08.2d" [.number n] p = .text "-0000002.68" := by decide +kernel
  obtain ⟨s, t, r, hs, -, -, hround, hparse, -, hrange⟩ :=
    c.format_conversion (v := .number n) (n := n) (by decide +kernel) hsig
  have hsame : s = "-0000002.68" := by
    have h := hs.symm.trans htext
    injection h with _ _ h
    injection h
  obtain ⟨x, hx, rfl⟩ := hparse (hrange (by decide +kernel) (by decide))
  rw [hsame] at hx
  exact ⟨hsig, htext, x, hx, hround⟩

/-! A carry out of range -/

/-- A tenth less than a power of ten. -/
def belowPower (k : Nat) : Decimal := ⟨10 ^ (k + 1) - 1, 1⟩

theorem toRat_belowPower (k : Nat) : (belowPower k).toRat = 10 ^ k - 1 / 10 := by
  rw [belowPower, toRat]
  push_cast
  rw [zpow_neg_one, pow_succ]
  ring

theorem significant_belowPower {k digits : Nat} (h : k + 1 ≤ digits) : Significant digits (belowPower k).toRat := by
  refine ⟨10 ^ (k + 1) - 1, -1, ?_, rfl⟩
  have hpos : 0 < 10 ^ (k + 1) := Nat.pow_pos (by decide)
  have hcast : ((10 ^ (k + 1) : Nat) : Int) = 10 ^ (k + 1) := Nat.cast_pow 10 (k + 1)
  have hle : 10 ^ (k + 1) ≤ 10 ^ digits := Nat.pow_le_pow_right (by decide) h
  omega

theorem roundPlaces_belowPower (k : Nat) : ((belowPower k).roundPlaces 0 .nearest).toRat = 10 ^ k := by
  obtain ⟨z, hz, hround⟩ := (belowPower k).exists_roundsTo_zero .nearest
  rw [toRat_belowPower] at hround
  have hceil : ⌈(10 ^ k - 1 / 10 : ℚ)⌉ = 10 ^ k := by
    rw [Int.ceil_eq_iff]
    push_cast
    constructor <;> linarith
  have hfloor : ⌊(10 ^ k - 1 / 10 : ℚ)⌋ = 10 ^ k - 1 := by
    rw [Int.floor_eq_iff]
    push_cast
    constructor <;> linarith
  obtain hexact | ⟨-, hnearer⟩ := hround
  · have htenths : ((10 * 10 ^ k - 1 : Int) : ℚ) = (10 * z : Int) := by
      push_cast
      linarith
    have : (10 * 10 ^ k - 1 : Int) = 10 * z := by exact_mod_cast htenths
    omega
  · rw [hceil, hfloor] at hnearer
    rw [hz]
    have hhi := hnearer.2.1 (by push_cast; linarith)
    rw [hhi]
    push_cast
    rfl

/-- A number of 100002 digits that is in range and is written rounded, and so not read back. -/
theorem format_conversion_not_read :
    let p := Config.precision { precisionBits := 332200 }
    let n := belowPower (maxExponent + 1)
    n.inRange = true ∧ Significant p.digits n.toRat ∧
      RoundsTens p.rounding 0 n.toRat (10 ^ ((maxExponent : Int) + 1)) ∧
      ∃ s, format "%d" [.number n] p = .text s ∧ parse? s.toList p = none := by
  intro p n
  have hsig : Significant p.digits n.toRat := significant_belowPower (by decide +kernel)
  have hpower : ((10 : ℚ) ^ (maxExponent + 1)) = 10 ^ ((maxExponent : Int) + 1) := by
    rw [← zpow_natCast, Nat.cast_succ]
  have hrange : n.inRange = true := by
    have hone : (1 : ℚ) ≤ 10 ^ (maxExponent + 1) := one_le_pow₀ (by norm_num)
    rw [inRange_iff, toRat_belowPower, ← hpower, abs_of_pos (by linarith)]
    linarith
  have hround : (n.roundPlaces 0 .nearest).toRat = 10 ^ ((maxExponent : Int) + 1) := by
    rw [roundPlaces_belowPower, hpower]
  let c : Conversion := { flags := [], width := [], places := none, letter := .d }
  obtain ⟨s, t, y, hs, -, -, hy, hparse⟩ := c.exists_format (Value.number?_number hrange) hsig
  have hy' : y.toRat = 10 ^ ((maxExponent : Int) + 1) := hy.trans hround
  refine ⟨hrange, hsig, ?_, s, hs, ?_⟩
  · have htens := n.roundsTens_roundPlaces 0 .nearest
    rwa [hround, neg_zero] at htens
  · rw [hparse, if_neg]
    rw [inRange_iff, hy', abs_of_pos (pow_ten_pos _)]
    exact lt_irrefl _

end Conversion
end Reporting.Formatting
