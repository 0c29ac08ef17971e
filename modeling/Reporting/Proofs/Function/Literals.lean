import Reporting.Proofs.Function.Strict
/-!
What stands between the conversions of a pattern is copied. With its percent signs doubled, any text without
exclamation marks stands for itself, before and after every conversion.
-/
namespace Reporting.Formatting
open Operands

variable {s t r : List Char} {c : Char} {v : Value} {p : Precision}

/-- A text as it stands in patterns: its percent signs are doubled. -/
def escape (s : List Char) : List Char := s.flatMap fun c => if c = '%' then ['%', '%'] else [c]

theorem escape_percent (s : List Char) : escape ('%' :: s) = '%' :: '%' :: escape s := rfl

theorem escape_other (hc : c ≠ '%') (s : List Char) : escape (c :: s) = c :: escape s := by
  rw [escape, List.flatMap_cons, if_neg hc]
  rfl

theorem closing_escape (s : List Char) : closing (escape s) = s := by
  induction s with
  | nil => rfl
  | cons c s ih =>
    by_cases hc : c = '%'
    · subst hc
      rw [escape_percent, closing, ih]
    · rw [escape_other hc, closing.eq_2 _ _ fun _ h => absurd h hc, ih]

theorem cons_cons (s t : List Char) (out : Except Value (List Char × List Char)) :
    cons s (cons t out) = cons (s ++ t) out := by
  cases out with
  | error e => rfl
  | ok out => exact congrArg (fun s => Except.ok (s, out.2)) (List.append_assoc s t out.1).symm

/-- What is neither a percent sign nor an exclamation mark is copied. -/
theorem consume_other (hpercent : c ≠ '%') (hmark : c ≠ '!') (r : List Char) :
    consume v p (c :: r) = cons [c] (consume v p r) :=
  consume.eq_8 v p c r (fun _ h => absurd h hpercent) (fun _ h => absurd h hmark) (fun _ h => absurd h hmark)
    (fun _ h => absurd h hmark) (fun h => absurd h hpercent) hpercent

theorem consume_escape (hs : '!' ∉ s) (r : List Char) :
    consume v p (escape s ++ r) = cons s (consume v p r) := by
  induction s with
  | nil =>
    change consume v p r = cons [] (consume v p r)
    cases consume v p r <;> rfl
  | cons c s ih =>
    rw [List.mem_cons, not_or] at hs
    by_cases hc : c = '%'
    · subst hc
      rw [escape_percent, List.cons_append, List.cons_append, consume, ih hs.2, cons_cons]
      rfl
    · rw [escape_other hc, List.cons_append, consume_other hc (Ne.symm hs.1), ih hs.2, cons_cons]
      rfl

/-- A lone percent sign begins a conversion. -/
theorem consume_conversion (hr : r ≠ []) (hpercent : ∀ t, r ≠ '%' :: t) (hv : v.kind ≠ .datetime) :
    consume v p ('%' :: r) = convert v p r := by
  rw [consume.eq_7 v p r (fun t h => hpercent t h) hr, if_neg hv]

theorem consume_text (s : String) (r : List Char) :
    consume (.text s) p ('%' :: 's' :: r) = .ok (s.toList, r) := by
  have hkind : (Value.text s).kind ≠ .datetime := by
    rw [Value.text, Value.kind, Payload.kind]
    decide
  rw [consume_conversion (List.cons_ne_nil _ _) (fun _ h => absurd (List.cons.inj h).1 (by decide)) hkind]
  rfl

theorem formatChars_cons {out : List Char} {vs : List Value} {pattern : List Char} (he : v.isError = false)
    (h : consume v p pattern = .ok (out, r)) :
    formatChars p pattern (v :: vs) = (formatChars p r vs).map (out ++ ·) := by
  have herrors : surfaceErrors [v] = .ok () := by
    apply surfaceErrors_eq_ok
    intro w hw
    rwa [List.mem_singleton.1 hw]
  rw [formatChars, herrors, h]
  change (formatChars p r vs >>= fun rest => .ok (out ++ rest)) = _
  cases formatChars p r vs <;> rfl

/-- Texts, each with the text that follows it. -/
theorem formatChars_escape (ht : '!' ∉ t) (parts : List (List Char × List Char))
    (hparts : ∀ x ∈ parts, '!' ∉ x.2) :
    formatChars p (escape t ++ parts.flatMap fun x => '%' :: 's' :: escape x.2)
      (parts.map fun x => .text (String.ofList x.1)) = .ok (t ++ parts.flatMap fun x => x.1 ++ x.2) := by
  induction parts generalizing t with
  | nil => rw [List.flatMap_nil, List.flatMap_nil, List.append_nil, List.append_nil, List.map_nil, formatChars,
      closing_escape]
  | cons x parts ih =>
    have hrest := ih (hparts x List.mem_cons_self) fun y hy => hparts y (List.mem_cons_of_mem x hy)
    have hconsume : consume (.text (String.ofList x.1)) p
        (escape t ++ '%' :: 's' :: (escape x.2 ++ parts.flatMap fun x => '%' :: 's' :: escape x.2)) =
        .ok (t ++ x.1, escape x.2 ++ parts.flatMap fun x => '%' :: 's' :: escape x.2) := by
      rw [consume_escape ht, consume_text, String.toList_ofList]
      rfl
    rw [List.flatMap_cons, List.cons_append, List.cons_append, List.map_cons, formatChars_cons rfl hconsume,
      hrest, List.flatMap_cons, List.append_assoc, ← List.append_assoc]
    rfl

/-- Texts are put between texts. Every text without exclamation marks stands for itself in a pattern, once its
percent signs are doubled, and the values between them are written as they are. -/
theorem format_escape (t : List Char) (parts : List (List Char × List Char)) (p : Precision)
    (ht : '!' ∉ t) (hparts : ∀ x ∈ parts, '!' ∉ x.2) :
    format (String.ofList (escape t ++ parts.flatMap fun x => '%' :: 's' :: escape x.2))
      (parts.map fun x => .text (String.ofList x.1)) p =
      .text (String.ofList (t ++ parts.flatMap fun x => x.1 ++ x.2)) := by
  rw [format, String.toList_ofList, formatChars_escape ht parts hparts]

/-- Percent signs before a conversion, behind one, and in what is put in. -/
theorem format_escape_of_percents :
    let p : Precision := { digits := 3, rounding := .nearest }
    format "100%%%s%%s%%%s" [.text "%d!", .text ""] p = .text "100%%d!%s%" ∧ '!' ∉ "100%".toList := by
  have ht : '!' ∉ "100%".toList := by decide
  exact ⟨format_escape "100%".toList [("%d!".toList, "%s%".toList), ([], [])] _ ht (by decide), ht⟩

end Reporting.Formatting
