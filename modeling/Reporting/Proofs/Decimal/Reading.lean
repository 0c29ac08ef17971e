import Reporting.Decimal.Reader
import Reporting.Proofs.Decimal.Digits
/-!
Numbers in plain notation, without an exponent, are read as the numbers that their digits write.
-/
namespace Reporting.Decimal

variable {whole fraction ds : List Char} {negative : Bool} {p : Precision}

/-- A sign, digits, and a point with further digits if there are any. -/
def plainText (negative : Bool) (whole fraction : List Char) : List Char :=
  (if negative then ['-'] else []) ++ whole ++ if fraction = [] then [] else '.' :: fraction

/-- An integer with a sign that is given apart. -/
def withSign (negative : Bool) (n : Nat) : Int := if negative then -n else n

theorem ne_of_isDigit {c d : Char} (h : c.isDigit = true) (hd : d.isDigit = false) : c ≠ d := by
  rintro rfl
  rw [h] at hd
  cases hd

theorem mem_plainText (hw : whole.all Char.isDigit = true) (hf : fraction.all Char.isDigit = true)
    {c : Char} (hc : c ∈ plainText negative whole fraction) : c.isDigit = true ∨ c = '-' ∨ c = '.' := by
  rw [plainText, List.mem_append, List.mem_append] at hc
  obtain (hc | hc) | hc := hc
  · split at hc
    · exact .inr (.inl (List.mem_singleton.1 hc))
    · cases hc
  · exact .inl (List.all_eq_true.1 hw c hc)
  · split at hc
    · cases hc
    · obtain rfl | hc := List.mem_cons.1 hc
      · exact .inr (.inr rfl)
      · exact .inl (List.all_eq_true.1 hf c hc)

theorem plainText_eq_cons (negative : Bool) (fraction : List Char) (hne : whole ≠ [])
    (hw : whole.all Char.isDigit = true) : ∃ d t, d.isDigit = true ∧
      plainText negative whole fraction = if negative then '-' :: d :: t else d :: t := by
  obtain ⟨d, whole, rfl⟩ := List.exists_cons_of_ne_nil hne
  rw [List.all_cons, Bool.and_eq_true] at hw
  cases negative with
  | false => exact ⟨d, _, hw.1, rfl⟩
  | true => exact ⟨d, _, hw.1, rfl⟩

theorem trim_plainText (hw : whole.all Char.isDigit = true) (hf : fraction.all Char.isDigit = true) :
    Text.trim (plainText negative whole fraction) = plainText negative whole fraction := by
  have hblank (c : Char) (hc : c ∈ plainText negative whole fraction) : Text.isBlank c = false := by
    obtain hd | rfl | rfl := mem_plainText hw hf hc
    · exact Text.isBlank_of_isDigit hd
    · decide
    · decide
  exact Text.Trimmed.trim ⟨fun c hc => hblank c (List.mem_of_mem_head? hc),
    fun c hc => hblank c (List.mem_of_mem_getLast? hc)⟩

theorem leadingZero_plainText (hne : whole ≠ []) (hw : whole.all Char.isDigit = true) :
    leadingZero (plainText negative whole fraction) = plainText negative whole fraction := by
  obtain ⟨d, t, hd, h⟩ := plainText_eq_cons negative fraction hne hw
  have hdot : d ≠ '.' := ne_of_isDigit hd rfl
  have hminus : d ≠ '-' := ne_of_isDigit hd rfl
  rw [h]
  cases negative with
  | false =>
    change leadingZero (d :: t) = d :: t
    unfold leadingZero
    split
    · exact absurd (List.cons.inj ‹_›).1 hminus
    · exact absurd (List.cons.inj ‹_›).1 hdot
    · rfl
  | true =>
    change leadingZero ('-' :: d :: t) = '-' :: d :: t
    unfold leadingZero
    split
    · exact absurd (List.cons.inj (List.cons.inj ‹_›).2).1 hdot
    · cases ‹_›
    · rfl

theorem integer?_withSign (negative : Bool) (hne : ds ≠ []) (hd : ds.all Char.isDigit = true) :
    integer? true ((if negative then ['-'] else []) ++ ds) = some (withSign negative (Digits.value ds)) := by
  cases negative with
  | true =>
    change integer? true ('-' :: ds) = _
    rw [integer?, if_pos ⟨hne, hd⟩]
    rfl
  | false =>
    change integer? true ds = _
    unfold integer?
    split
    · cases hd
    · cases hd
    · rw [if_pos ⟨hne, hd⟩]
      rfl

theorem splitPoint_plainText (hw : whole.all Char.isDigit = true) :
    splitPoint (plainText negative whole fraction) =
      ((if negative then ['-'] else []) ++ (whole ++ fraction), fraction.length) := by
  have hfront : ((if negative then ['-'] else []) ++ whole).all (· ≠ '.') = true := by
    rw [List.all_append, Bool.and_eq_true]
    constructor
    · cases negative <;> decide
    · rw [List.all_eq_true]
      intro c hc
      simpa using ne_of_isDigit (List.all_eq_true.1 hw c hc) rfl
  have hsplit := Text.splitWhile_of_all (t := if fraction = [] then [] else '.' :: fraction) hfront (by
    split <;> simp)
  rw [splitPoint, plainText, hsplit]
  by_cases hf : fraction = []
  · subst hf
    simp
  · obtain ⟨d, fraction, rfl⟩ := List.exists_cons_of_ne_nil hf
    simp

/-- Plain notation without the bounds of the reader: the number that the digits write. -/
theorem ofChars?_plainText (hne : whole ≠ []) (hw : whole.all Char.isDigit = true)
    (hf : fraction.all Char.isDigit = true) (hplaces : fits64 fraction.length = true) :
    ofChars? (plainText negative whole fraction) =
      some ⟨withSign negative (Digits.value (whole ++ fraction)), fraction.length⟩ := by
  have hbody : Text.splitWhile (fun c => c ≠ 'e' && c ≠ 'E') (plainText negative whole fraction) =
      (plainText negative whole fraction, []) := by
    have hall : (plainText negative whole fraction).all (fun c => c ≠ 'e' && c ≠ 'E') = true := by
      rw [List.all_eq_true]
      intro c hc
      obtain hd | rfl | rfl := mem_plainText hw hf hc
      · simp [ne_of_isDigit hd]
      · decide
      · decide
    have hsplit := Text.splitWhile_of_all (t := []) hall nofun
    rwa [List.append_nil] at hsplit
  have hdigits : (whole ++ fraction).all Char.isDigit = true := by
    rw [List.all_append, hw, hf]
    rfl
  have hint := integer?_withSign negative (List.append_ne_nil_of_left_ne_nil hne fraction) hdigits
  have hrange : (fits128 0 && fits64 (fraction.length - 0)) = true := by
    rw [Int.sub_zero, hplaces]
    rfl
  unfold ofChars?
  rw [hbody]
  dsimp only
  rw [splitPoint_plainText hw, hint]
  simp only [Option.bind_eq_bind, Option.bind_eq_some_iff]
  refine ⟨0, rfl, _, rfl, ?_⟩
  rw [if_pos hrange, Int.sub_zero]

theorem parse?_plainText (hne : whole ≠ []) (hw : whole.all Char.isDigit = true)
    (hf : fraction.all Char.isDigit = true) (hplaces : fits64 fraction.length = true) (p : Precision) :
    parse? (plainText negative whole fraction) p =
      let x := Decimal.rounded ⟨withSign negative (Digits.value (whole ++ fraction)), fraction.length⟩ p
      if x.inRange then some x else none := by
  obtain ⟨d, t, hd, hcons⟩ := plainText_eq_cons negative fraction hne hw
  have hnumeral : ((plainText negative whole fraction).all isNumeral &&
      (plainText negative whole fraction).any Char.isDigit) = true := by
    rw [Bool.and_eq_true, List.all_eq_true, List.any_eq_true]
    refine ⟨fun c hc => ?_, d, ?_, hd⟩
    · obtain hd | rfl | rfl := mem_plainText hw hf hc
      · simp [isNumeral, hd]
      · decide
      · decide
    · rw [hcons]
      split <;> simp
  unfold parse?
  rw [trim_plainText hw hf]
  split
  · rename_i hplus
    rw [hcons] at hplus
    split at hplus
    · cases hplus
    · exact absurd (List.cons.inj hplus).1 (ne_of_isDigit hd rfl)
  · simp only [hnumeral, leadingZero_plainText hne hw, ofChars?_plainText hne hw hf hplaces, if_true]

/-- Digits are read as the number that they write. -/
theorem parse?_digits (hne : ds ≠ []) (hd : ds.all Char.isDigit = true)
    (hk : Fits p (Digits.value ds)) :
    ∃ x, parse? ds p = some x ∧ x.toRat = ((Digits.value ds : Int) : ℚ) := by
  have hround := toRat_rounded (toRat_ofInt (Digits.value ds)) hk
  have hplain : plainText false ds [] = ds := by simp [plainText]
  have hparse := @parse?_plainText ds [] false hne hd rfl rfl p
  rw [hplain, List.append_nil] at hparse
  exact ⟨_, hparse.trans (if_pos (inRange_of_whole hround hk)), hround⟩

end Reporting.Decimal
