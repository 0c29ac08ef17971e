import Mathlib.Data.List.DropRight
import Reporting.Text.Blank
import Reporting.Text.Letter
/-!
Which characters are blank, and what trimming and splitting do to texts.
-/
namespace Reporting

namespace Text

theorem isAlpha_iff {c : Char} :
    c.isAlpha = true ↔ (65 ≤ c.toNat ∧ c.toNat ≤ 90) ∨ (97 ≤ c.toNat ∧ c.toNat ≤ 122) := by
  change (decide (65 ≤ c.val ∧ c.val ≤ 90) || (decide (97 ≤ c.val) && decide (c.val ≤ 122))) = true ↔ _
  simp only [Bool.or_eq_true, Bool.and_eq_true, decide_eq_true_eq, UInt32.le_iff_toNat_le]
  rfl

theorem letterRanges_contains_of_isLetter {c : Char} (h : isLetter c = true) :
    letterRanges.contains c.toNat = true := by
  rw [isLetter, Bool.or_eq_true, Bool.and_eq_true] at h
  obtain h | h := h
  · rw [Ranges.contains_iff]
    obtain h | h := isAlpha_iff.1 h
    · exact ⟨(0x41, 0x5A), by decide, h⟩
    · exact ⟨(0x61, 0x7A), by decide, h⟩
  · exact h.2

/-- No blank lies in a range that all ranges of blanks are apart from. -/
theorem isBlank_of_range {c : Char} {l : Nat × Nat} (hc : l.1 ≤ c.toNat ∧ c.toNat ≤ l.2)
    (apart : ∀ b ∈ blankRanges, b.2 < l.1 ∨ l.2 < b.1) : isBlank c = false := by
  rw [Bool.eq_false_iff]
  intro h
  obtain ⟨b, hb, hb₁, hb₂⟩ := Ranges.contains_iff.1 h
  have := apart b hb
  omega

theorem isBlank_of_isLetter {c : Char} (h : isLetter c = true) : isBlank c = false := by
  have apart : ∀ l ∈ letterRanges, ∀ b ∈ blankRanges, b.2 < l.1 ∨ l.2 < b.1 := by decide +kernel
  obtain ⟨l, hl, hc⟩ := Ranges.contains_iff.1 (letterRanges_contains_of_isLetter h)
  exact isBlank_of_range hc (apart l hl)

theorem isDigit_iff {c : Char} : c.isDigit = true ↔ 48 ≤ c.toNat ∧ c.toNat ≤ 57 := by
  simp only [Char.isDigit, Bool.and_eq_true, decide_eq_true_eq, ge_iff_le, UInt32.le_iff_toNat_le]
  rfl

theorem isBlank_of_isDigit {c : Char} (h : c.isDigit = true) : isBlank c = false :=
  isBlank_of_range (l := (48, 57)) (isDigit_iff.1 h) (by decide)

theorem isLetter_of_isDigit {c : Char} (h : c.isDigit = true) : isLetter c = false := by
  obtain ⟨hlo, hhi⟩ := isDigit_iff.1 h
  have halpha : c.isAlpha = false := by
    rw [Bool.eq_false_iff]
    intro ha
    have := isAlpha_iff.1 ha
    omega
  have hascii : ¬ c.toNat > 0x7F := by omega
  rw [isLetter, halpha, decide_eq_false hascii]
  rfl

/-- No blank stands at either end. -/
def Trimmed (s : List Char) : Prop :=
  (∀ c ∈ s.head?, isBlank c = false) ∧ ∀ c ∈ s.getLast?, isBlank c = false

theorem trimmed_of_forall {s : List Char} (h : ∀ c ∈ s, isBlank c = false) : Trimmed s :=
  ⟨fun c hc => h c (List.mem_of_mem_head? hc), fun c hc => h c (List.mem_of_mem_getLast? hc)⟩

/-- What stands between two texts has no part in their ends. -/
theorem Trimmed.append {s r : List Char} (hs : Trimmed s) (hr : Trimmed r) (hne : s ≠ [])
    (hne' : r ≠ []) (between : List Char) : Trimmed (s ++ (between ++ r)) := by
  constructor
  · intro c hc
    rw [List.head?_append_of_ne_nil _ hne] at hc
    exact hs.1 c hc
  · intro c hc
    rw [List.getLast?_append_of_ne_nil _ (List.append_ne_nil_of_right_ne_nil _ hne'),
      List.getLast?_append_of_ne_nil _ hne'] at hc
    exact hr.2 c hc

theorem trimStart_of_head {s : List Char} (h : ∀ c ∈ s.head?, isBlank c = false) :
    trimStart s = s := by
  cases s with
  | nil => rfl
  | cons c s => exact List.dropWhile_cons_of_neg (Bool.eq_false_iff.1 (h c rfl))

theorem Trimmed.trim {s : List Char} (h : Trimmed s) : trim s = s := by
  have hlast : trimStart s.reverse = s.reverse := by
    refine trimStart_of_head fun c hc => h.2 c ?_
    rwa [List.head?_reverse] at hc
  rw [Text.trim, trimStart_of_head h.1, trimEnd]
  rw [trimStart] at hlast
  rw [hlast, List.reverse_reverse]

theorem trimStart_replicate (k : Nat) (s : List Char) : trimStart (List.replicate k ' ' ++ s) = trimStart s := by
  apply List.dropWhile_append_of_pos
  intro c hc
  rw [List.eq_of_mem_replicate hc]
  decide

theorem trimEnd_replicate (k : Nat) (s : List Char) : trimEnd (s ++ List.replicate k ' ') = trimEnd s := by
  rw [trimEnd, trimEnd, List.reverse_append, List.reverse_replicate]
  exact congrArg List.reverse (trimStart_replicate k s.reverse)

theorem trim_replicate {s : List Char} (hs : Trimmed s) (hne : s ≠ []) (j k : Nat) :
    trim (List.replicate j ' ' ++ s ++ List.replicate k ' ') = s := by
  have hhead : ∀ c ∈ (s ++ List.replicate k ' ').head?, isBlank c = false := by
    intro c hc
    rw [List.head?_append_of_ne_nil _ hne] at hc
    exact hs.1 c hc
  rw [trim, List.append_assoc, trimStart_replicate, trimStart_of_head hhead, trimEnd_replicate]
  have htrim := hs.trim
  rwa [trim, trimStart_of_head hs.1] at htrim

theorem head_trimStart (s : List Char) : ∀ c ∈ (trimStart s).head?, isBlank c = false := by
  intro c hc
  have h := List.head?_dropWhile_not isBlank s
  rw [trimStart] at hc
  rw [hc] at h
  exact h

theorem trimEnd_shorter (s : List Char) : trimEnd s <+: s := List.rdropWhile_prefix isBlank s

theorem trim_trimmed (s : List Char) : Trimmed (Text.trim s) := by
  constructor
  · intro c hc
    obtain ⟨t, ht⟩ := trimEnd_shorter (trimStart s)
    refine head_trimStart s c ?_
    rw [← ht, List.head?_append]
    rw [Text.trim] at hc
    rw [hc]
    rfl
  · intro c hc
    refine head_trimStart (trimStart s).reverse c ?_
    rw [Text.trim, trimEnd, List.getLast?_reverse] at hc
    exact hc

theorem trim_subset (s : List Char) : Text.trim s ⊆ s := by
  intro c hc
  exact (List.dropWhile_sublist _).subset ((trimEnd_shorter _).subset hc)

theorem splitWhile_of_all {p : Char → Bool} {s t : List Char} (hs : s.all p = true)
    (ht : ∀ d ∈ t.head?, p d = false) : splitWhile p (s ++ t) = (s, t) := by
  rw [splitWhile, List.takeWhile_append_of_pos (by simpa using hs),
    List.dropWhile_append_of_pos (by simpa using hs)]
  cases t with
  | nil => simp
  | cons d t =>
    have hd := Bool.eq_false_iff.1 (ht d rfl)
    rw [List.takeWhile_cons_of_neg hd, List.dropWhile_cons_of_neg hd, List.append_nil]

end Text
end Reporting
