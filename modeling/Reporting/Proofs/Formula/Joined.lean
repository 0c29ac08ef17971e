import Reporting.Proofs.Formula.Spelling
/-!
Tokens that are shown one after another, with a space between two of them, are read back as they
were, and after the last of them only the end is read.
-/
namespace Reporting

/-- Whether a token is read back from what it is shown as. The text of a name or a number says what
it is; that of a date ends at the first closing brace. -/
def Token.Displayable : Token → Prop
  | .number n => Lexer.IsNumeral n.toList
  | .text _ => True
  | .datetime content => Text.Trimmed content.toList ∧ '\x7d' ∉ content.toList
  | .identifier name => Lexer.isPlain name = true
  | .symbol _ => True
  | .illegal _ => False

/-- Tokens as messages show them, with a space between two of them. -/
def Token.joined (ts : List Token) : String := " ".intercalate (ts.map Token.display)

namespace Lexer

variable {s t : List Char} {x : Token} {ts : List Token}

/-! Asking for tokens one by one -/

/-- One request for a token: the token and what it leaves of the text, or no token at the end. -/
def next (s : List Char) : Option Token × List Char :=
  match token? (Text.trimStart s) with
  | some (x, t) => (some x, t)
  | none => (none, Text.trimStart s)

/-- What the first requests for a token are answered with. -/
def answers : Nat → List Char → List (Option Token)
  | 0, _ => []
  | n + 1, s => (next s).1 :: answers n (next s).2

theorem next_of_none (h : token? (Text.trimStart s) = none) : next s = (none, Text.trimStart s) := by
  rw [next, h]

theorem next_of_some (h : token? (Text.trimStart s) = some (x, t)) : next s = (some x, t) := by
  rw [next, h]

theorem trimStart_trimStart (s : List Char) : Text.trimStart (Text.trimStart s) = Text.trimStart s :=
  List.dropWhile_idempotent _ s

/-- The end of a text stays its end. -/
theorem answers_of_none (h : token? (Text.trimStart s) = none) (k : Nat) :
    answers k s = List.replicate k none := by
  induction k generalizing s with
  | zero => rfl
  | succ k ih =>
    have hrest : token? (Text.trimStart (Text.trimStart s)) = none := by rwa [trimStart_trimStart]
    rw [answers, next_of_none h, ih hrest, List.replicate_succ]

/-- The tokens of a text are what is answered, in order, and after them the end is. -/
theorem answers_length_add (s : List Char) (k : Nat) :
    answers ((tokens s).length + k) s = (tokens s).map some ++ List.replicate k none := by
  induction s using tokens.induct with
  | case1 s h =>
    rw [tokens_of_none h, List.length_nil, Nat.zero_add, answers_of_none h]
    rfl
  | case2 s x t h ih =>
    rw [tokens_of_some h, List.length_cons, Nat.add_right_comm, answers, next_of_some h, ih]
    rfl

/-! Reading what is shown -/

/-- A token is read from the front of what shows it, if a space or nothing follows. -/
theorem tokens_display (hx : x.Displayable) (hs : ∀ c ∈ s.head?, c = ' ') :
    tokens (x.display.toList ++ s) = x :: tokens s := by
  -- a space goes on with no token
  have hapart : ∀ p : Char → Prop, p ' ' → ∀ c ∈ s.head?, p c := fun p hp c hc => hs c hc ▸ hp
  cases x with
  | number n => exact tokens_numeral hx (hapart _ (by decide))
  | text content => exact tokens_quoted content (hapart _ (by decide))
  | datetime content => exact tokens_braced hx.1 hx.2
  | identifier name => exact tokens_name hx (hapart _ (by decide))
  | symbol sign => exact tokens_symbol (hapart _ (apart_blank (t := []) _ rfl))
  | illegal c => exact hx.elim

theorem joined_cons (x : Token) (ts : List Token) : ∃ s, (∀ c ∈ s.head?, c = ' ') ∧
    tokens s = tokens (Token.joined ts).toList ∧
    (Token.joined (x :: ts)).toList = x.display.toList ++ s := by
  cases ts with
  | nil =>
    refine ⟨[], fun c hc => absurd hc (Option.not_mem_none c), rfl, ?_⟩
    rw [Token.joined, List.map_singleton, String.intercalate_singleton, List.append_nil]
  | cons y ts =>
    refine ⟨' ' :: (Token.joined (y :: ts)).toList, ?_, tokens_blank (by decide), ?_⟩
    · rintro c ⟨⟩
      rfl
    · simp only [Token.joined, List.map_cons, String.intercalate_cons_cons, String.toList_append,
        List.append_assoc]
      rfl

/-- No two tokens are read together across a space, and none is split. -/
theorem tokens_joined (h : ∀ x ∈ ts, x.Displayable) : tokens (Token.joined ts).toList = ts := by
  induction ts with
  | nil => exact tokens_nil
  | cons x ts ih =>
    obtain ⟨hx, hts⟩ := List.forall_mem_cons.1 h
    obtain ⟨s, hs, hrest, hjoined⟩ := joined_cons x ts
    rw [hjoined, tokens_display hx hs, hrest, ih hts]

/-- Tokens that can be shown are read back from what is shown of them, in order; after them every
further request for a token is answered with the end. -/
theorem reads_back_joined (ts : List Token) (h : ∀ x ∈ ts, x.Displayable) :
    tokens (Token.joined ts).toList = ts ∧
      ∀ k, answers (ts.length + k) (Token.joined ts).toList = ts.map some ++ List.replicate k none := by
  have hts := tokens_joined h
  refine ⟨hts, fun k => ?_⟩
  have hanswers := answers_length_add (Token.joined ts).toList k
  rwa [hts] at hanswers

/-- A letter after a number and a point before one stay apart from it. -/
theorem reads_back_apart :
    (∀ x ∈ [Token.number "2", .identifier "e5", .symbol .dot, .number "5e1", .text "it's"],
      x.Displayable) ∧
    ∀ k, answers (5 + k) "2 e5 . 5e1 'it\x27\x27s'".toList
      = [.number "2", .identifier "e5", .symbol .dot, .number "5e1", .text "it's"].map some
        ++ List.replicate k none := by
  have hwhole : IsNumeral (numeral "2".toList).1 := isNumeral_numeral rfl
  have hexponent : IsNumeral (numeral "5e1".toList).1 := isNumeral_numeral rfl
  have hall : ∀ x ∈ [Token.number "2", .identifier "e5", .symbol .dot, .number "5e1", .text "it's"],
      x.Displayable := by
    simp only [List.forall_mem_cons]
    exact ⟨hwhole, rfl, trivial, hexponent, trivial, fun x hx => absurd hx List.not_mem_nil⟩
  exact ⟨hall, (reads_back_joined _ hall).2⟩

end Lexer
end Reporting
