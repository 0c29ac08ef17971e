import Mathlib
import Reporting.Formula.Printer
import Reporting.Proofs.Formula.Derivations
import Reporting.Proofs.Formula.Everywhere
import Reporting.Proofs.Formula.Spelling
/-!
A formula that is written out and read again is the same formula. No parentheses are added, so this
rests on what the grammar lets stand where: the text of what one nonterminal derives is again derived
from it, if what follows in the text does not go on with it.
-/
namespace Reporting
open Grammar Lexer

namespace Formula

/-- The names that a formula itself holds need no quotes. -/
def PlainlyNamed : Formula → Prop
  | .column (.plain name) | .column (.dotted name) | .named _ name | .call name _ =>
    isPlain name = true
  | .column (.qualified query name) => isPlain query = true ∧ isPlain name = true
  | _ => True

/-- No sign stands directly before one that it would be read together with. -/
def SinglySigned : Formula → Prop
  | .unary .negate (.unary .negate _) | .unary .negate (.unary .preDecrement _) => False
  | .unary .plus (.unary .plus _) | .unary .plus (.unary .preIncrement _) => False
  | _ => True

/-- A formula itself can be written so that it is read back. -/
def Printable (f : Formula) : Prop := f.PlainlyNamed ∧ f.SinglySigned

end Formula

variable {P : Formula → Prop} {f : Formula} {fs : List Formula} {os : List (BinaryOp × Formula)}
  {us : List UnaryOp} {c : Char} {s : Symbol} {t X Y : List Char} {nt : Nonterminal}
  {ts rest : List Token} {n : Nat}

/-! Chains and suffixes -/

/-- Operators with their right operands as text. -/
def Grammar.operationsText (os : List (BinaryOp × Formula)) : List Char :=
  os.flatMap fun (op, f) => ' ' :: (op.symbol.text.toList ++ ' ' :: f.render.toList)

/-- Operators after an operand as text. -/
def Grammar.suffixesText (us : List UnaryOp) : List Char :=
  us.flatMap fun u => u.symbol.text.toList

theorem render_chain : (chain f os).render.toList = f.render.toList ++ operationsText os := by
  induction os generalizing f with
  | nil => exact (List.append_nil _).symm
  | cons o os ih =>
    rw [chain, List.foldl_cons]
    refine ih.trans ?_
    simp [operationsText, Formula.render]

theorem render_withSuffixes (h : ∀ u ∈ us, u.isPost = true) :
    (withSuffixes f us).render.toList = f.render.toList ++ suffixesText us := by
  induction us generalizing f with
  | nil => exact (List.append_nil _).symm
  | cons u us ih =>
    rw [withSuffixes, List.foldl_cons]
    refine (ih fun v hv => h v (List.mem_cons_of_mem _ hv)).trans ?_
    simp [suffixesText, Formula.render, h u List.mem_cons_self]

theorem everywhere_chain (h : (chain f os).Everywhere P) :
    f.Everywhere P ∧ ∀ o ∈ os, o.2.Everywhere P := by
  induction os generalizing f with
  | nil => exact ⟨h, fun o ho => absurd ho List.not_mem_nil⟩
  | cons o os ih =>
    obtain ⟨hbinary, hos⟩ := ih h
    rw [Formula.Everywhere] at hbinary
    exact ⟨hbinary.2.1, List.forall_mem_cons.2 ⟨hbinary.2.2, hos⟩⟩

theorem everywhere_withSuffixes (h : (withSuffixes f us).Everywhere P) : f.Everywhere P := by
  induction us generalizing f with
  | nil => exact h
  | cons u us ih =>
    have hunary := ih h
    rw [Formula.Everywhere] at hunary
    exact hunary.2

/-! What may follow -/

/-- A character that follows an operand in a written formula. -/
def isSeparator (c : Char) : Bool := c == ' ' || c == ')' || c == ',' || c == '+' || c == '-'

/-- What follows an operand in a written formula. -/
structure Follows (X : List Char) : Prop where
  head : ∀ c ∈ X.head?, isSeparator c = true
  noArguments : ¬ BeginsArguments (tokens X)

theorem isSeparator_iff : isSeparator c = true ↔ c = ' ' ∨ c = ')' ∨ c = ',' ∨ c = '+' ∨ c = '-' := by
  simp only [isSeparator, Bool.or_eq_true, beq_iff_eq, or_assoc]

/-- No separator goes on with a word or a number, and none is a quote. -/
theorem apart_of_isSeparator (h : isSeparator c = true) :
    isNameRest c = false ∧ goesOnWithNumeral c = false ∧ c ≠ '\x27' := by
  obtain rfl | rfl | rfl | rfl | rfl := isSeparator_iff.1 h <;> decide

theorem tokens_spaced (s : Symbol) (X : List Char) :
    tokens (' ' :: (s.text.toList ++ ' ' :: X)) = .symbol s :: tokens X := by
  rw [tokens_blank (by decide), tokens_symbol apart_blank, tokens_blank (by decide)]

theorem follows_nil : Follows [] where
  head := by simp
  noArguments := by
    rw [tokens_nil]
    exact id

theorem follows_spaced (hs : s ≠ .leftParen) : Follows (' ' :: (s.text.toList ++ ' ' :: X)) where
  head := by
    rintro c ⟨⟩
    decide
  noArguments := by
    rw [tokens_spaced]
    cases s <;> first | exact id | exact absurd rfl hs

theorem tokens_delimiter (hs : s = .rightParen ∨ s = .comma ∨ s = .leftParen) :
    tokens (s.text.toList ++ X) = .symbol s :: tokens X := by
  refine tokens_symbol fun d _ => ?_
  obtain rfl | rfl | rfl := hs <;> refine ⟨?_, Symbol.noConfusion⟩ <;> rintro c ⟨⟩ <;> rfl

theorem follows_delimiter (hs : s = .rightParen ∨ s = .comma) :
    Follows (s.text.toList ++ X) where
  head := by
    obtain rfl | rfl := hs <;> rintro c ⟨⟩ <;> decide
  noArguments := by
    obtain rfl | rfl := hs <;> rw [tokens_delimiter (by decide)] <;> exact id

theorem tokens_doubled {u : UnaryOp} (hu : u.isPost = true) :
    tokens (u.symbol.text.toList ++ X) = .symbol u.symbol :: tokens X := by
  refine tokens_symbol fun d _ => ⟨?_, ?_⟩
  · cases u with
    | postIncrement | postDecrement => rintro c ⟨⟩
    | _ => cases hu
  · cases u <;> exact Symbol.noConfusion

theorem follows_doubled {u : UnaryOp} (hu : u.isPost = true) :
    Follows (u.symbol.text.toList ++ X) where
  head := by
    cases u with
    | postIncrement | postDecrement => rintro c ⟨⟩; decide
    | _ => cases hu
  noArguments := by
    rw [tokens_doubled hu]
    cases u <;> exact id

/-- Operators after an operand do not go on with it as a text. -/
theorem follows_suffixes (hus : ∀ u ∈ us, u.isPost = true) (hX : Follows X) :
    Follows (suffixesText us ++ X) := by
  cases us with
  | nil => exact hX
  | cons u us =>
    rw [suffixesText, List.flatMap_cons, List.append_assoc]
    exact follows_doubled (hus u List.mem_cons_self)

theorem binaryOp_symbol_ne (op : BinaryOp) : op.symbol ≠ .leftParen := by
  cases op <;> decide

theorem operationsText_cons {op : BinaryOp} : operationsText ((op, f) :: os) ++ X =
    ' ' :: (op.symbol.text.toList ++ ' ' :: (f.render.toList ++ (operationsText os ++ X))) := by
  simp [operationsText]

/-- Operators with their right operands do not go on with what stands before them as a text. -/
theorem follows_operations (os : List (BinaryOp × Formula)) (hX : Follows X) : Follows (operationsText os ++ X) := by
  cases os with
  | nil => exact hX
  | cons o os =>
    obtain ⟨op, f⟩ := o
    rw [operationsText_cons]
    exact follows_spaced (binaryOp_symbol_ne op)

/-! Names -/

theorem letter_plain (scope : NameScope) : isPlain scope.letter = true := by
  cases scope <;> decide

theorem letter_of_ofLetter? {q : String} {scope : NameScope} (h : NameScope.ofLetter? q = some scope) :
    scope.letter = q := by
  unfold NameScope.ofLetter? at h
  split at h <;> first | (cases h; rfl) | cases h

theorem render_ofQualified (q name : String) :
    (Formula.ofQualified q name).render = q ++ "." ++ name := by
  rw [Formula.ofQualified]
  split
  · rename_i h
    rw [Formula.render, letter_of_ofLetter? h]
  · rfl

theorem plain_of_ofQualified {q name : String} (h : (Formula.ofQualified q name).PlainlyNamed) :
    isPlain q = true ∧ isPlain name = true := by
  rw [Formula.ofQualified] at h
  split at h
  · rename_i hq
    rw [← letter_of_ofLetter? hq]
    exact ⟨letter_plain _, h⟩
  · exact h

theorem printable_ofQualified {q name : String} (h : (Formula.ofQualified q name).Everywhere P) :
    P (Formula.ofQualified q name) := by
  rw [Formula.ofQualified] at h ⊢
  split at h <;> exact h

/-- The first character of a name is no digit. -/
theorem head_of_isPlain {name : String} (h : isPlain name = true) :
    ∃ c r, name.toList = c :: r ∧ isNameStart c = true := by
  rw [isPlain] at h
  split at h
  · rename_i c r hcr
    rw [Bool.and_eq_true] at h
    exact ⟨c, r, hcr, h.1⟩
  · cases h

theorem tokens_dot {name : String} (h : isPlain name = true) :
    tokens ('.' :: (name.toList ++ X)) = .symbol .dot :: tokens (name.toList ++ X) := by
  obtain ⟨c, r, hcr, hc⟩ := head_of_isPlain h
  refine tokens_symbol (s := .dot) ?_
  rw [hcr]
  rintro d ⟨⟩
  refine ⟨?_, fun _ => ?_⟩
  · rintro a ⟨⟩
    rfl
  · rw [Bool.eq_false_iff]
    intro hd
    rw [isNameStart_of_isDigit hd] at hc
    cases hc

/-! Signs -/

/-- A character that a primary begins with. -/
def startsPrimary (c : Char) : Bool :=
  isNameStart c || c.isDigit || c == '.' || c == '(' || c == '\x27' || c == '\x7b'

/-- The second character of a symbol of two. -/
def endsPair (c : Char) : Bool :=
  c == '+' || c == '-' || c == '&' || c == '|' || c == '^' || c == '=' || c == '>' || c == '<'

theorem endsPair_of_pair? {a c : Char} (h : pair? a c = some s) : endsPair c = true := by
  unfold pair? at h
  split at h <;> first | decide | cases h

theorem not_startsPrimary_of_endsPair (h : endsPair c = true) : startsPrimary c = false := by
  simp only [endsPair, Bool.or_eq_true, beq_iff_eq] at h
  obtain (((((((rfl | rfl) | rfl) | rfl) | rfl) | rfl) | rfl) | rfl) := h <;> decide

theorem apart_startsPrimary (hc : startsPrimary c = true) (hs : s ≠ .dot) : Apart s (c :: X) := by
  rintro d ⟨⟩
  refine ⟨fun a _ => ?_, fun h => absurd h hs⟩
  cases hp : pair? a c with
  | none => rfl
  | some s =>
    rw [not_startsPrimary_of_endsPair (endsPair_of_pair? hp)] at hc
    cases hc

theorem sign_symbol {u : UnaryOp} (hu : (s, u) ∈ signs) : s = u.symbol ∧ u.isPost = false := by
  have h := Parser.mem_signs.1 hu
  cases s <;> cases h <;> exact ⟨rfl, rfl⟩

theorem suffix_symbol {u : UnaryOp} (hu : (s, u) ∈ suffixes) : s = u.symbol ∧ u.isPost = true := by
  have h := Parser.mem_suffixes.1 hu
  cases s <;> cases h <;> exact ⟨rfl, rfl⟩

theorem operation_symbol {op : BinaryOp} (hop : (s, op) ∈ operatorsOf n) : s = op.symbol := by
  have h := (mem_operatorsOf.1 hop).1
  cases s <;> cases h <;> rfl

/-- What a written operand of a sign begins with: a character of a primary, or another sign. -/
inductive BeginsText : Formula → List Char → Prop
  | primary {f : Formula} {t : List Char} (c : Char) (r : List Char) : t = c :: r →
      startsPrimary c = true → BeginsText f t
  | signed {u : UnaryOp} {operand : Formula} {t : List Char} (r : List Char) : u.isPost = false →
      t = u.symbol.text.toList ++ r → BeginsText (.unary u operand) t

/-- A sign is read on its own before an operand that does not begin with the same sign. -/
theorem apart_sign {u : UnaryOp} (hu : u.isPost = false) (h : BeginsText f t)
    (hsign : (Formula.unary u f).SinglySigned) : Apart u.symbol (t ++ X) := by
  have hdot : u.symbol ≠ .dot := by cases u <;> decide
  cases h with
  | primary c r ht hc =>
    subst ht
    exact apart_startsPrimary hc hdot
  | @signed v operand _ r hv ht =>
    subst ht
    rintro d hd
    refine ⟨?_, fun h => absurd h hdot⟩
    cases u <;> cases v <;> cases hd <;>
      first
        | (rintro c ⟨⟩ <;> rfl)
        | exact hsign.elim
        | cases hv

/-! Reading again -/

namespace Grammar

/-- What a nonterminal derives, as text. -/
def Nonterminal.text : (nt : Nonterminal) → nt.Meaning → List Char
  | .operations _, os => operationsText os
  | .suffixes, us => suffixesText us
  | .arguments, args => (Formula.renderAll args).toList
  | .expression, f | .level _, f | .unary, f | .power, f | .suffixed, f | .primary, f =>
    (Formula.render f).toList

/-- What is left of the tokens is among them. -/
theorem Derivation.mem_of_mem_rest {x : Token} (d : Derivation nt ts rest) (hx : x ∈ rest) :
    x ∈ ts := by
  induction d <;> simp_all

/-- The operators that are derived after an operand stand after it. -/
def Nonterminal.Fits : (nt : Nonterminal) → nt.Meaning → Prop
  | .suffixes, (us : List UnaryOp) => ∀ u ∈ us, u.isPost = true
  | .arguments, args => args ≠ ([] : List Formula)
  | _, _ => True

theorem Derivation.fits (d : Derivation nt ts rest) : nt.Fits d.meaning := by
  induction d with
  | noSuffix => exact fun u hu => absurd hu List.not_mem_nil
  | suffix s u hs _ ih => exact List.forall_mem_cons.2 ⟨(suffix_symbol hs).2, ih⟩
  | argument | arguments => exact List.cons_ne_nil _ _
  | _ => trivial

theorem renderAll_cons (hfs : fs ≠ []) :
    Formula.renderAll (f :: fs) = f.render ++ ", " ++ Formula.renderAll fs := by
  cases fs with
  | nil => exact absurd rfl hfs
  | cons g fs => rfl

/-- A text begins as a primary does. -/
def StartsPrimary (t : List Char) : Prop := ∃ c r, t = c :: r ∧ startsPrimary c = true

theorem StartsPrimary.append (h : StartsPrimary t) : StartsPrimary (t ++ X) := by
  obtain ⟨c, r, rfl, hc⟩ := h
  exact ⟨c, r ++ X, rfl, hc⟩

theorem startsPrimary_of_isPlain {name : String} (h : isPlain name = true) :
    StartsPrimary name.toList := by
  obtain ⟨c, r, hcr, hc⟩ := head_of_isPlain h
  exact ⟨c, r, hcr, by simp only [startsPrimary, hc, Bool.true_or]⟩

theorem startsPrimary_of_isNumeral (h : IsNumeral t) : StartsPrimary t := by
  obtain ⟨c, r, rfl, hc⟩ | ⟨d, r, rfl, -⟩ := startsNumeral_iff.1 h.starts
  · exact ⟨c, r, rfl, by simp only [startsPrimary, hc, Bool.or_true, Bool.true_or]⟩
  · exact ⟨'.', d :: r, rfl, by decide⟩

/-- What is written for a power begins as a primary does. -/
def Nonterminal.Starts : (nt : Nonterminal) → nt.Meaning → Prop
  | .power, f | .suffixed, f | .primary, f => StartsPrimary f.render.toList
  | _, _ => True

theorem Derivation.starts (d : Derivation nt ts rest) (hts : ∀ x ∈ ts, IsSpelled x)
    (hm : nt.Everywhere Formula.Printable d.meaning) : nt.Starts d.meaning := by
  induction d with
  | base d ih => exact ih hts hm
  | power d e ih _ =>
    show StartsPrimary (Formula.binary .power d.meaning e.meaning).render.toList
    simp only [Formula.render, String.toList_append, List.append_assoc]
    exact (ih hts hm.2.1).append
  | suffixed d us ih _ =>
    show StartsPrimary (withSuffixes d.meaning us.meaning).render.toList
    rw [render_withSuffixes us.fits]
    exact (ih hts (everywhere_withSuffixes hm)).append
  | number n => exact startsPrimary_of_isNumeral (hts _ List.mem_cons_self)
  | text content =>
    show StartsPrimary (Text.quoted content).toList
    rw [Text.quoted, String.append_assoc, String.toList_append]
    exact ⟨'\x27', _, rfl, by decide⟩
  | datetime content =>
    show StartsPrimary (Text.braced content).toList
    rw [Text.braced, String.append_assoc, String.toList_append]
    exact ⟨'\x7b', _, rfl, by decide⟩
  | plain name _ => exact startsPrimary_of_isPlain hm.1
  | qualified q name =>
    show StartsPrimary (Formula.ofQualified q name).render.toList
    rw [render_ofQualified, String.append_assoc, String.toList_append]
    exact (startsPrimary_of_isPlain (plain_of_ofQualified (printable_ofQualified hm).1).1).append
  | dotted name =>
    show StartsPrimary ("." ++ name).toList
    rw [String.toList_append]
    exact ⟨'.', _, rfl, by decide⟩
  | emptyCall name =>
    show StartsPrimary (Formula.call name []).render.toList
    rw [Formula.render, String.append_assoc, String.append_assoc, String.toList_append]
    exact (startsPrimary_of_isPlain hm.1.1).append
  | call name args _ =>
    show StartsPrimary (Formula.call name args.meaning).render.toList
    rw [Formula.render, String.append_assoc, String.append_assoc, String.toList_append]
    exact (startsPrimary_of_isPlain hm.1.1).append
  | grouped d _ =>
    show StartsPrimary (Formula.grouped d.meaning).render.toList
    rw [Formula.render, String.append_assoc, String.toList_append]
    exact ⟨'(', _, rfl, by decide⟩
  | _ => trivial

theorem Derivation.beginsText (d : Derivation .unary ts rest) (hts : ∀ x ∈ ts, IsSpelled x)
    (hm : Formula.Everywhere Formula.Printable d.meaning) :
    BeginsText d.meaning d.meaning.render.toList := by
  cases d with
  | signed s u hs d =>
    have hu := (sign_symbol hs).2
    refine .signed d.meaning.render.toList hu ?_
    simp [Derivation.meaning, Formula.render, hu]
  | unsigned d =>
    obtain ⟨c, r, hcr, hc⟩ := d.starts hts hm
    exact .primary c r hcr hc

/-- Tokens up to `rest` derive from a nonterminal with a meaning. -/
def Derives (nt : Nonterminal) (ts : List Token) (m : nt.Meaning) (rest : List Token) : Prop :=
  ∃ d : Derivation nt ts rest, d.meaning = m

/-- What a nonterminal derives is derived from it again from its text, if what follows in the text
does not go on with it. -/
def Rereads (nt : Nonterminal) (m : nt.Meaning) : Prop :=
  ∀ ⦃X : List Char⦄, Follows X → Derives nt (tokens (nt.text m ++ X)) m (tokens X)

section

variable {left right condition yes no : Formula} {args : List Formula} {op : BinaryOp} {u : UnaryOp}
  {name : String}

theorem rereads_conditional (hc : Rereads (.level 0) condition) (hy : Rereads .expression yes)
    (hn : Rereads .expression no) : Rereads .expression (Formula.conditional condition yes no) := by
  intro X hX
  have htext : (Formula.conditional condition yes no).render.toList ++ X =
      condition.render.toList ++ ' ' :: (Symbol.question.text.toList ++ ' ' ::
        (yes.render.toList ++ ' ' :: (Symbol.colon.text.toList ++ ' ' ::
          (no.render.toList ++ X)))) := by
    simp [Formula.render, Symbol.text]
  have hcondition := hc (follows_spaced (X := yes.render.toList ++ ' ' ::
    (Symbol.colon.text.toList ++ ' ' :: (no.render.toList ++ X))) (s := .question) (by decide))
  have hyes := hy (follows_spaced (X := no.render.toList ++ X) (s := .colon) (by decide))
  rw [tokens_spaced] at hcondition hyes
  obtain ⟨dc, hdc⟩ := hcondition
  obtain ⟨dy, hdy⟩ := hyes
  obtain ⟨dn, hdn⟩ := hn hX
  show Derives .expression (tokens ((Formula.conditional condition yes no).render.toList ++ X)) _ _
  rw [htext]
  refine ⟨.conditional dc dy dn, ?_⟩
  show Formula.conditional dc.meaning dy.meaning dn.meaning = _
  rw [hdc, hdy, hdn]

theorem rereads_chain (hn : n < operators.length) (hf : Rereads (.level (n + 1)) f)
    (hos : Rereads (.operations n) os) : Rereads (.level n) (chain f os) := by
  intro X hX
  have htext : (chain f os).render.toList ++ X =
      f.render.toList ++ (operationsText os ++ X) := by
    rw [render_chain, List.append_assoc]
  obtain ⟨df, hdf⟩ := hf (follows_operations os hX)
  obtain ⟨dos, hdos⟩ := hos hX
  show Derives (.level n) (tokens ((chain f os).render.toList ++ X)) _ _
  rw [htext]
  refine ⟨.level hn df dos, ?_⟩
  show chain df.meaning dos.meaning = _
  rw [hdf, hdos]

theorem rereads_operation (hop : (op.symbol, op) ∈ operatorsOf n) (hf : Rereads (.level (n + 1)) f)
    (hos : Rereads (.operations n) os) :
    Rereads (.operations n) ((op, f) :: os : List (BinaryOp × Formula)) := by
  intro X hX
  obtain ⟨df, hdf⟩ := hf (follows_operations os hX)
  obtain ⟨dos, hdos⟩ := hos hX
  show Derives _ (tokens (operationsText ((op, f) :: os) ++ X)) _ _
  rw [operationsText_cons, tokens_spaced]
  refine ⟨.operation op.symbol op hop df dos, ?_⟩
  show (op, df.meaning) :: dos.meaning = _
  rw [hdf, hdos]

theorem rereads_signed (hs : (u.symbol, u) ∈ signs) (hu : u.isPost = false)
    (hbegins : BeginsText f f.render.toList) (hsign : (Formula.unary u f).SinglySigned)
    (hf : Rereads .unary f) : Rereads .unary (Formula.unary u f) := by
  intro X hX
  have htext : (Formula.unary u f).render.toList ++ X =
      u.symbol.text.toList ++ (f.render.toList ++ X) := by
    simp [Formula.render, hu]
  have happart := apart_sign (X := X) hu hbegins hsign
  obtain ⟨df, hdf⟩ := hf hX
  show Derives .unary (tokens ((Formula.unary u f).render.toList ++ X)) _ _
  rw [htext, tokens_symbol happart]
  refine ⟨.signed u.symbol u hs df, ?_⟩
  show Formula.unary u df.meaning = _
  rw [hdf]

theorem rereads_power (hl : Rereads .suffixed left) (hr : Rereads .unary right) :
    Rereads .power (Formula.binary .power left right) := by
  intro X hX
  have htext : (Formula.binary .power left right).render.toList ++ X =
      left.render.toList ++ ' ' :: (Symbol.caret.text.toList ++ ' ' ::
        (right.render.toList ++ X)) := by
    simp [Formula.render, Symbol.text, BinaryOp.symbol]
  have hleft := hl (follows_spaced (X := right.render.toList ++ X) (s := .caret) (by decide))
  rw [tokens_spaced] at hleft
  obtain ⟨dl, hdl⟩ := hleft
  obtain ⟨dr, hdr⟩ := hr hX
  show Derives .power (tokens ((Formula.binary .power left right).render.toList ++ X)) _ _
  rw [htext]
  refine ⟨.power dl dr, ?_⟩
  show Formula.binary .power dl.meaning dr.meaning = _
  rw [hdl, hdr]

theorem rereads_withSuffixes (hus : ∀ u ∈ us, u.isPost = true) (hf : Rereads .primary f)
    (hsuffixes : Rereads .suffixes us) : Rereads .suffixed (withSuffixes f us) := by
  intro X hX
  have htext : (withSuffixes f us).render.toList ++ X =
      f.render.toList ++ (suffixesText us ++ X) := by
    rw [render_withSuffixes hus, List.append_assoc]
  obtain ⟨df, hdf⟩ := hf (follows_suffixes hus hX)
  obtain ⟨dus, hdus⟩ := hsuffixes hX
  show Derives .suffixed (tokens ((withSuffixes f us).render.toList ++ X)) _ _
  rw [htext]
  refine ⟨.suffixed df dus, ?_⟩
  show withSuffixes df.meaning dus.meaning = _
  rw [hdf, hdus]

theorem rereads_suffix (hs : (u.symbol, u) ∈ suffixes) (hu : u.isPost = true)
    (hus : Rereads .suffixes us) : Rereads .suffixes (u :: us : List UnaryOp) := by
  intro X hX
  have htext : suffixesText (u :: us) ++ X =
      u.symbol.text.toList ++ (suffixesText us ++ X) := by
    rw [suffixesText, List.flatMap_cons, List.append_assoc]
    rfl
  obtain ⟨dus, hdus⟩ := hus hX
  show Derives .suffixes (tokens (suffixesText (u :: us) ++ X)) _ _
  rw [htext, tokens_doubled hu]
  refine ⟨.suffix u.symbol u hs dus, ?_⟩
  show u :: dus.meaning = _
  rw [hdus]

/-! Primaries -/

theorem rereads_number {numeral : String} (hn : IsNumeral numeral.toList) :
    Rereads .primary (Formula.literal (.number numeral)) := by
  intro X hX
  show Derives .primary (tokens (numeral.toList ++ X)) _ _
  rw [tokens_numeral hn fun c hc => (apart_of_isSeparator (hX.head c hc)).2.1]
  exact ⟨.number numeral, rfl⟩

theorem rereads_text (content : String) :
    Rereads .primary (Formula.literal (.text content)) := by
  intro X hX
  show Derives .primary (tokens ((Text.quoted content).toList ++ X)) _ _
  rw [tokens_quoted _ fun c hc => (apart_of_isSeparator (hX.head c hc)).2.2]
  exact ⟨.text content, rfl⟩

theorem rereads_datetime {content : String} (h : IsSpelled (.datetime content)) :
    Rereads .primary (Formula.literal (.datetime content)) := by
  intro X _
  obtain ⟨htrim, hclose⟩ := h
  show Derives .primary (tokens ((Text.braced content).toList ++ X)) _ _
  rw [tokens_braced htrim hclose]
  exact ⟨.datetime content, rfl⟩

theorem rereads_plain (hname : isPlain name = true) :
    Rereads .primary (Formula.column (.plain name)) := by
  intro X hX
  show Derives .primary (tokens (name.toList ++ X)) _ _
  rw [tokens_name hname fun c hc => (apart_of_isSeparator (hX.head c hc)).1]
  exact ⟨.plain name hX.noArguments, rfl⟩

theorem rereads_qualified {qualifier : String} (hq : isPlain qualifier = true)
    (hname : isPlain name = true) : Rereads .primary (Formula.ofQualified qualifier name) := by
  intro X hX
  have htext : (Formula.ofQualified qualifier name).render.toList ++ X =
      qualifier.toList ++ '.' :: (name.toList ++ X) := by
    simp [render_ofQualified]
  show Derives .primary (tokens ((Formula.ofQualified qualifier name).render.toList ++ X)) _ _
  rw [htext, tokens_name hq (by rintro c ⟨⟩; decide), tokens_dot hname,
    tokens_name hname fun c hc => (apart_of_isSeparator (hX.head c hc)).1]
  exact ⟨.qualified qualifier name, rfl⟩

theorem rereads_dotted (hname : isPlain name = true) :
    Rereads .primary (Formula.column (.dotted name)) := by
  intro X hX
  have htext : ("." ++ name).toList ++ X = '.' :: (name.toList ++ X) := by simp
  show Derives .primary (tokens (("." ++ name).toList ++ X)) _ _
  rw [htext, tokens_dot hname,
    tokens_name hname fun c hc => (apart_of_isSeparator (hX.head c hc)).1]
  exact ⟨.dotted name, rfl⟩

theorem rereads_emptyCall (hname : isPlain name = true) :
    Rereads .primary (Formula.call name []) := by
  intro X _
  have htext : (Formula.call name []).render.toList ++ X = name.toList ++
      (Symbol.leftParen.text.toList ++ (Symbol.rightParen.text.toList ++ X)) := by
    simp [Formula.render, Formula.renderAll, Symbol.text]
  show Derives .primary (tokens ((Formula.call name []).render.toList ++ X)) _ _
  rw [htext, tokens_name hname (by rintro c ⟨⟩; decide), tokens_delimiter (by decide),
    tokens_delimiter (by decide)]
  exact ⟨.emptyCall name, rfl⟩

theorem rereads_call (hname : isPlain name = true) (hargs : Rereads .arguments args) :
    Rereads .primary (Formula.call name args) := by
  intro X _
  have htext : (Formula.call name args).render.toList ++ X = name.toList ++
      (Symbol.leftParen.text.toList ++ ((Formula.renderAll args).toList ++
        (Symbol.rightParen.text.toList ++ X))) := by
    simp [Formula.render, Symbol.text]
  have harguments := hargs (follows_delimiter (s := .rightParen) (X := X) (by decide))
  rw [tokens_delimiter (by decide)] at harguments
  obtain ⟨dargs, hdargs⟩ := harguments
  show Derives .primary (tokens ((Formula.call name args).render.toList ++ X)) _ _
  rw [htext, tokens_name hname (by rintro c ⟨⟩; decide), tokens_delimiter (by decide)]
  refine ⟨.call name dargs, ?_⟩
  show Formula.call name dargs.meaning = _
  rw [hdargs]

theorem rereads_grouped (hf : Rereads .expression f) : Rereads .primary (Formula.grouped f) := by
  intro X _
  have htext : (Formula.grouped f).render.toList ++ X = Symbol.leftParen.text.toList ++
      (f.render.toList ++ (Symbol.rightParen.text.toList ++ X)) := by
    simp [Formula.render, Symbol.text]
  have hinner := hf (follows_delimiter (s := .rightParen) (X := X) (by decide))
  rw [tokens_delimiter (by decide)] at hinner
  obtain ⟨df, hdf⟩ := hinner
  show Derives .primary (tokens ((Formula.grouped f).render.toList ++ X)) _ _
  rw [htext, tokens_delimiter (by decide)]
  refine ⟨.grouped df, ?_⟩
  show Formula.grouped df.meaning = _
  rw [hdf]

theorem rereads_argument (hf : Rereads .expression f) :
    Rereads .arguments ([f] : List Formula) := by
  intro X hX
  obtain ⟨df, hdf⟩ := hf hX
  refine ⟨.argument df, ?_⟩
  show [df.meaning] = _
  rw [hdf]

theorem rereads_arguments (hfs : fs ≠ []) (hf : Rereads .expression f)
    (hargs : Rereads .arguments fs) : Rereads .arguments (f :: fs : List Formula) := by
  intro X hX
  have htext : (Formula.renderAll (f :: fs)).toList ++ X =
      f.render.toList ++ (Symbol.comma.text.toList ++ ' ' ::
        ((Formula.renderAll fs).toList ++ X)) := by
    rw [renderAll_cons hfs]
    simp [Symbol.text]
  have hfirst := hf (follows_delimiter (s := .comma)
    (X := ' ' :: ((Formula.renderAll fs).toList ++ X)) (by decide))
  rw [tokens_delimiter (by decide), tokens_blank (by decide)] at hfirst
  obtain ⟨df, hdf⟩ := hfirst
  obtain ⟨dfs, hdfs⟩ := hargs hX
  show Derives .arguments (tokens ((Formula.renderAll (f :: fs)).toList ++ X)) _ _
  rw [htext]
  refine ⟨.arguments df dfs, ?_⟩
  show df.meaning :: dfs.meaning = _
  rw [hdf, hdfs]

end

/-- Whatever is derived from tokens is derived again from its text. -/
theorem Derivation.reread (d : Derivation nt ts rest) (hts : ∀ x ∈ ts, IsSpelled x)
    (hm : nt.Everywhere Formula.Printable d.meaning) : Rereads nt d.meaning := by
  induction d with
  | simple d ih =>
    intro X hX
    obtain ⟨d', hd⟩ := ih hts hm hX
    exact ⟨.simple d', hd⟩
  | conditional c y m ihc ihy ihm =>
    obtain ⟨-, hmc, hmy, hmm⟩ := hm
    have hyts := fun x hx => hts x (c.mem_of_mem_rest (List.mem_cons_of_mem _ hx))
    have hmts := fun x hx => hyts x (y.mem_of_mem_rest (List.mem_cons_of_mem _ hx))
    exact rereads_conditional (ihc hts hmc) (ihy hyts hmy) (ihm hmts hmm)
  | level hn d os ihd ihos =>
    obtain ⟨hf, hos⟩ := everywhere_chain hm
    exact rereads_chain hn (ihd hts hf) (ihos (fun x hx => hts x (d.mem_of_mem_rest hx)) hos)
  | tightest hn d ih =>
    intro X hX
    obtain ⟨d', hd⟩ := ih hts hm hX
    exact ⟨.tightest hn d', hd⟩
  | noOperation => exact fun X _ => ⟨.noOperation, rfl⟩
  | operation s op hs d os ihd ihos =>
    obtain ⟨hf, hos⟩ := List.forall_mem_cons.1 hm
    obtain rfl := operation_symbol hs
    have hdts := fun x hx => hts x (List.mem_cons_of_mem _ hx)
    exact rereads_operation hs (ihd hdts hf)
      (ihos (fun x hx => hdts x (d.mem_of_mem_rest hx)) hos)
  | product hn _ d os ihd ihos =>
    -- a product without a sign is written with one
    obtain ⟨hf, hos⟩ := List.forall_mem_cons.1 hm
    have hop : (BinaryOp.multiply.symbol, BinaryOp.multiply) ∈ operatorsOf _ :=
      mem_operatorsOf.2 ⟨rfl, congrArg some (Nat.succ.inj hn).symm⟩
    apply rereads_operation hop ?_ (ihos (fun x hx => hts x (d.mem_of_mem_rest hx)) hos)
    intro X hX
    obtain ⟨d', hd⟩ := ihd hts hf hX
    exact ⟨.tightest hn d', hd⟩
  | signed s u hs d ih =>
    obtain ⟨hprint, hf⟩ := hm
    obtain ⟨rfl, hu⟩ := sign_symbol hs
    have hdts := fun x hx => hts x (List.mem_cons_of_mem _ hx)
    exact rereads_signed hs hu (d.beginsText hdts hf) hprint.2 (ih hdts hf)
  | unsigned d ih =>
    intro X hX
    obtain ⟨d', hd⟩ := ih hts hm hX
    exact ⟨.unsigned d', hd⟩
  | base d ih =>
    intro X hX
    obtain ⟨d', hd⟩ := ih hts hm hX
    exact ⟨.base d', hd⟩
  | power d e ihd ihe =>
    obtain ⟨-, hmd, hme⟩ := hm
    have hets := fun x hx => hts x (d.mem_of_mem_rest (List.mem_cons_of_mem _ hx))
    exact rereads_power (ihd hts hmd) (ihe hets hme)
  | suffixed d us ihd ihus =>
    exact rereads_withSuffixes us.fits (ihd hts (everywhere_withSuffixes hm))
      (ihus (fun x hx => hts x (d.mem_of_mem_rest hx)) trivial)
  | noSuffix => exact fun X _ => ⟨.noSuffix, rfl⟩
  | suffix s u hs us ih =>
    obtain ⟨rfl, hu⟩ := suffix_symbol hs
    exact rereads_suffix hs hu (ih (fun x hx => hts x (List.mem_cons_of_mem _ hx)) trivial)
  | number n => exact rereads_number (hts _ List.mem_cons_self)
  | text content => exact rereads_text content
  | datetime content => exact rereads_datetime (hts _ List.mem_cons_self)
  | plain name _ => exact rereads_plain hm.1
  | qualified q name =>
    have hm' : (Formula.ofQualified q name).Everywhere Formula.Printable := hm
    obtain ⟨hq, hname⟩ := plain_of_ofQualified (printable_ofQualified hm').1
    exact rereads_qualified hq hname
  | dotted name => exact rereads_dotted hm.1
  | emptyCall name => exact rereads_emptyCall hm.1.1
  | call name args ih =>
    obtain ⟨⟨hname, -⟩, hargs⟩ := hm
    exact rereads_call hname (ih (fun x hx => hts x (by simp [hx])) hargs)
  | grouped d ih =>
    obtain ⟨-, hf⟩ := hm
    exact rereads_grouped (ih (fun x hx => hts x (List.mem_cons_of_mem _ hx)) hf)
  | argument d ih => exact rereads_argument (ih hts hm.1)
  | arguments d ds ihd ihds =>
    obtain ⟨hf, hfs⟩ := hm
    have hdts := fun x hx => hts x (d.mem_of_mem_rest (List.mem_cons_of_mem _ hx))
    exact rereads_arguments ds.fits (ihd hts hf) (ihds hdts hfs)

end Grammar

/-- A formula that is read, written and read again is the same, if its names need no quotes and no
sign stands before one that it would be read together with. -/
theorem Formula.parse_render {text : String} {e : Formula} (h : Formula.parse text = .ok e)
    (he : e.Everywhere fun f => f.PlainlyNamed ∧ f.SinglySigned) :
    Formula.parse e.render = .ok e := by
  obtain ⟨d, rfl⟩ := ofTokens_eq_ok_iff.1 h
  have hd := d.reread (isSpelled_of_mem_tokens _) he follows_nil
  rw [List.append_nil, tokens_nil] at hd
  exact ofTokens_eq_ok_iff.2 hd

set_option maxRecDepth 8000 in
/-- `-f(.5 x, 'it''s')^y++` is written as `-f(.5 * x, 'it''s') ^ y++`. -/
theorem Formula.parse_render_call : ∃ e, Formula.parse "-f(.5 x, 'it''s')^y++" = .ok e ∧
    e.render = "-f(.5 * x, 'it''s') ^ y++" ∧ Formula.parse e.render = .ok e := by
  have h : Formula.parse "-f(.5 x, 'it''s')^y++" = .ok (.unary .negate (.binary .power
      (.call "f" [.binary .multiply (.literal (.number ".5")) (.column (.plain "x")),
        .literal (.text "it's")])
      (.unary .postIncrement (.column (.plain "y"))))) := by cbv
  refine ⟨_, h, by decide, parse_render h ?_⟩
  simp only [Everywhere, EverywhereAll, PlainlyNamed, SinglySigned]
  decide

end Reporting
