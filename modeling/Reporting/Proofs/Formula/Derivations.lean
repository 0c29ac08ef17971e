import Reporting.Proofs.Formula.Readers
/-!
The readers take what the grammar derives. What a reader takes has a derivation with the tree it
yields; what has a derivation is taken, if nothing follows that would go on with it; and there is
one derivation only.
-/
namespace Reporting
namespace Grammar
open Reporting.Parser

/-! What is taken has a derivation. -/

theorem exists_suffixes {operand f : Formula} {ts rest : List Token}
    (h : Suffixed operand ts f rest) :
    ∃ d : Derivation .suffixes ts rest, withSuffixes operand d.meaning = f := by
  induction ts generalizing operand with
  | nil =>
    obtain ⟨rfl, rfl⟩ | ⟨s, u, ts', hts, -, -⟩ := cases_suffixed h
    · exact ⟨.noSuffix, rfl⟩
    · cases hts
  | cons t ts ih =>
    obtain ⟨rfl, rfl⟩ | ⟨s, u, ts', hts, hs, h⟩ := cases_suffixed h
    · exact ⟨.noSuffix, rfl⟩
    · cases hts
      obtain ⟨d, hd⟩ := ih h
      exact ⟨.suffix s u hs d, hd⟩

mutual

theorem exists_expression {ts rest : List Token} {f : Formula}
    (h : Reads (expression ts) f rest) :
    ∃ d : Derivation .expression ts rest, d.meaning = f := by
  obtain h | ⟨condition, yes, no, r₁, r₂, hc, hy, hn, rfl⟩ := cases_expression h
  · obtain ⟨d, hd⟩ := exists_level (Nat.zero_le _) h
    exact ⟨.simple d, hd⟩
  · have h₁ : r₁.length + 1 < ts.length := hc.length_lt
    have h₂ : r₂.length + 1 < r₁.length := hy.length_lt
    obtain ⟨c, rfl⟩ := exists_level (Nat.zero_le _) hc
    obtain ⟨y, rfl⟩ := exists_expression hy
    obtain ⟨m, rfl⟩ := exists_expression hn
    exact ⟨.conditional c y m, rfl⟩
termination_by (ts.length, 20)
decreasing_by
  all_goals first
    | (apply Prod.Lex.right; decide)
    | (apply Prod.Lex.left; omega)

theorem exists_level {n : Nat} {ts rest : List Token} {f : Formula} (hn : n ≤ BinaryOp.levels)
    (h : Reads (binary n ts) f rest) :
    ∃ d : Derivation (.level n) ts rest, d.meaning = f := by
  obtain hlt | rfl := Nat.lt_or_eq_of_le hn
  · obtain ⟨left, r, hleft, h⟩ := (reads_binary hlt).1 h
    have h₁ := hleft.length_lt
    obtain ⟨d, rfl⟩ := exists_level hlt hleft
    obtain ⟨os, hos⟩ := exists_operations hlt h
    exact ⟨.level hlt d os, hos⟩
  · rw [binary_levels] at h
    obtain ⟨d, hd⟩ := exists_unary h
    exact ⟨.tightest rfl d, hd⟩
termination_by (ts.length, 3 + (BinaryOp.levels - n))
decreasing_by
  · apply Prod.Lex.right
    omega
  · apply Prod.Lex.left
    exact h₁
  · apply Prod.Lex.right
    omega

theorem exists_operations {n : Nat} {ts rest : List Token} {left f : Formula}
    (hn : n < BinaryOp.levels) (h : Reads (binaryRest n left ts) f rest) :
    ∃ d : Derivation (.operations n) ts rest, chain left d.meaning = f := by
  obtain ⟨rfl, rfl⟩ | ⟨s, op, right, ts', r, rfl, hs, hright, h⟩ | ⟨hlast, hts, right, r, hright, h⟩ :=
    cases_binaryRest h
  · exact ⟨.noOperation, rfl⟩
  · have h₁ := hright.length_lt
    obtain ⟨d, rfl⟩ := exists_level hn hright
    obtain ⟨os, hos⟩ := exists_operations hn h
    exact ⟨.operation s op hs d os, hos⟩
  · have h₁ := hright.length_lt
    obtain ⟨d, rfl⟩ := exists_unary hright
    obtain ⟨os, hos⟩ := exists_operations hn h
    exact ⟨.product hlast hts d os, hos⟩
termination_by (ts.length, 19)
decreasing_by
  all_goals simp_wf
  · apply Prod.Lex.left
    subst_vars
    exact Nat.lt_succ_self _
  · apply Prod.Lex.left
    subst_vars
    exact Nat.lt_succ_of_lt h₁
  · apply Prod.Lex.right
    decide
  · apply Prod.Lex.left
    exact h₁

theorem exists_unary {ts rest : List Token} {f : Formula} (h : Reads (unary ts) f rest) :
    ∃ d : Derivation .unary ts rest, d.meaning = f := by
  obtain ⟨s, u, operand, ts', rfl, hs, hoperand, rfl⟩ | h := cases_unary h
  · obtain ⟨d, rfl⟩ := exists_unary hoperand
    exact ⟨.signed s u hs d, rfl⟩
  · obtain ⟨d, hd⟩ := exists_power h
    exact ⟨.unsigned d, hd⟩
termination_by (ts.length, 2)
decreasing_by
  all_goals first
    | (apply Prod.Lex.right; decide)
    | (apply Prod.Lex.left; subst_vars; simp only [List.length_cons]; omega)

theorem exists_power {ts rest : List Token} {f : Formula} (h : Reads (power ts) f rest) :
    ∃ d : Derivation .power ts rest, d.meaning = f := by
  obtain ⟨operand, base, r, r', hoperand, hbase, h⟩ := cases_power h
  have h₁ := hoperand.length_lt
  have h₂ : r'.length ≤ r.length := hbase.1
  obtain ⟨d, rfl⟩ := exists_primary hoperand
  obtain ⟨us, rfl⟩ := exists_suffixes hbase
  obtain ⟨rfl, rfl⟩ | ⟨r₁, right, rfl, hright, rfl⟩ := h
  · exact ⟨.base (.suffixed d us), rfl⟩
  · obtain ⟨e, rfl⟩ := exists_unary hright
    exact ⟨.power (.suffixed d us) e, rfl⟩
termination_by (ts.length, 1)
decreasing_by
  all_goals first
    | (apply Prod.Lex.right; decide)
    | (apply Prod.Lex.left; subst_vars; simp only [List.length_cons] at h₂; omega)

theorem exists_primary {ts rest : List Token} {f : Formula} (h : Reads (primary ts) f rest) :
    ∃ d : Derivation .primary ts rest, d.meaning = f := by
  obtain ⟨m, rfl, rfl⟩ | ⟨s, rfl, rfl⟩ | ⟨s, rfl, rfl⟩ | ⟨name, rfl, rfl⟩ | ⟨name, rfl, rfl⟩ |
    ⟨name, first, others, ts', r, rfl, hfirst, hothers, rfl⟩ | ⟨qualifier, name, rfl, rfl⟩ |
    ⟨name, rfl, hr, rfl⟩ | ⟨inner, ts', rfl, hinner, rfl⟩ := cases_primary h
  · exact ⟨.number m, rfl⟩
  · exact ⟨.text s, rfl⟩
  · exact ⟨.datetime s, rfl⟩
  · exact ⟨.dotted name, rfl⟩
  · exact ⟨.emptyCall name, rfl⟩
  · obtain ⟨args, hargs⟩ := exists_arguments hfirst hothers
    refine ⟨.call name args, ?_⟩
    rw [Derivation.meaning, hargs]
  · exact ⟨.qualified qualifier name, rfl⟩
  · exact ⟨.plain name hr, rfl⟩
  · obtain ⟨d, rfl⟩ := exists_expression hinner
    exact ⟨.grouped d, rfl⟩
termination_by (ts.length, 0)
decreasing_by
  all_goals (apply Prod.Lex.left; subst_vars; simp only [List.length_cons]; omega)

theorem exists_arguments {ts r rest : List Token} {first : Formula} {others : List Formula}
    (hf : Reads (expression ts) first r)
    (ha : Reads (arguments r) others rest) :
    ∃ d : Derivation .arguments ts rest, d.meaning = first :: others := by
  have h₁ := hf.length_lt
  obtain ⟨d, rfl⟩ := exists_expression hf
  obtain ⟨rfl, rfl⟩ | ⟨second, more, ts', r', rfl, hsecond, hmore, rfl⟩ := cases_arguments ha
  · exact ⟨.argument d, rfl⟩
  · obtain ⟨ds, hds⟩ := exists_arguments hsecond hmore
    refine ⟨.arguments d ds, ?_⟩
    rw [Derivation.meaning, hds]
termination_by (ts.length, 21)
decreasing_by
  all_goals first
    | (apply Prod.Lex.right; decide)
    | (apply Prod.Lex.left; subst_vars; simp only [List.length_cons] at h₁; omega)

end

/-! What has a derivation is taken. -/

variable {n : Nat} {nt : Nonterminal} {ts r r₁ r₂ rest : List Token}

/-- The rank of what a nonterminal derives: only tokens of at least this tightness go on with it. -/
def Nonterminal.rank : Nonterminal → Nat
  | .arguments => 1
  | .expression => 2
  | .level n | .operations n => n + 3
  | .unary | .power => 13
  | .suffixed | .suffixes => 14
  | .primary => 15

/-- The reader of a nonterminal takes what `ts` begins with, up to `rest`. -/
def Nonterminal.Accepts : (nt : Nonterminal) → List Token → nt.Meaning → List Token → Prop
  | .expression, ts, f, rest => Reads (Parser.expression ts) f rest
  | .level n, ts, f, rest => Reads (binary n ts) f rest
  | .operations n, ts, others, rest =>
    ∀ left, Reads (binaryRest n left ts) (chain left others) rest
  | .unary, ts, f, rest => Reads (Parser.unary ts) f rest
  | .power, ts, f, rest => Reads (Parser.power ts) f rest
  | .suffixed, ts, f, rest => ∃ operand r, Reads (Parser.primary ts) operand r ∧
      Suffixed operand r f rest
  | .suffixes, ts, ops, rest => ∀ operand, Suffixed operand ts (withSuffixes operand ops) rest
  | .primary, ts, f, rest => Reads (Parser.primary ts) f rest
  | .arguments, ts, args, rest => ∃ first others r, args = first :: others ∧
      Reads (Parser.expression ts) first r ∧ Reads (Parser.arguments r) others rest

/-- Whether a literal, a name, a point or an opening parenthesis stands first. -/
def BeginsPrimary : List Token → Prop
  | .number _ :: _ | .text _ :: _ | .datetime _ :: _ | .identifier _ :: _ => True
  | .symbol .dot :: _ | .symbol .leftParen :: _ => True
  | _ => False

/-- What stands first in what a nonterminal derives. -/
def Nonterminal.Begins : Nonterminal → List Token → Prop
  | .operations _, _ | .suffixes, _ => True
  | .power, ts | .suffixed, ts | .primary, ts => BeginsPrimary ts
  | _, ts => BeginsSigned ts ∨ BeginsPrimary ts

theorem BeginsPrimary.not_signed (h : BeginsPrimary ts) : ¬ BeginsSigned ts := by
  unfold BeginsPrimary at h
  split at h
  · exact id
  · exact id
  · exact id
  · exact id
  · exact Bool.noConfusion
  · exact Bool.noConfusion
  · exact h.elim

theorem Derivation.begins (d : Derivation nt ts rest) : nt.Begins ts := by
  induction d with
  | simple _ ih => exact ih
  | conditional _ _ _ ih _ _ => exact ih
  | level _ _ _ ih _ => exact ih
  | tightest _ _ ih => exact ih
  | noOperation | operation | product | noSuffix | suffix => trivial
  | signed s u hs _ _ => exact .inl (Option.isSome_of_eq_some (mem_signs.1 hs))
  | unsigned _ ih => exact .inr ih
  | base _ ih => exact ih
  | power _ _ ih _ => exact ih
  | suffixed _ _ ih _ => exact ih
  | number | text | datetime | plain | qualified | dotted | emptyCall | call | grouped => trivial
  | argument _ ih => exact ih
  | arguments _ _ ih _ => exact ih

theorem Derivation.ne_rightParen (d : Derivation .arguments ts rest) (r : List Token) :
    ts ≠ .symbol .rightParen :: r := by
  rintro rfl
  obtain h | h := d.begins
  · exact Bool.noConfusion h
  · exact h

theorem tightness_of_operation {s : Symbol} {op : BinaryOp} (hs : (s, op) ∈ operatorsOf n) :
    s.tightness = n + 3 :=
  Symbol.tightness_of_level (mem_operatorsOf.1 hs).1 (mem_operatorsOf.1 hs).2

theorem tightness_of_factor {t : Token} (hn : n + 1 = operators.length)
    (ht : BeginsFactor (t :: ts)) : t.tightness = n + 3 := by
  rw [Token.tightness_of_multiplies (beginsFactor_iff.1 ht)]
  exact (congrArg (· + 2) hn).symm

theorem tightness_of_suffix {s : Symbol} {op : UnaryOp} (hs : (s, op) ∈ suffixes) :
    s.tightness = 14 :=
  Symbol.tightness_of_postOp? (mem_suffixes.1 hs)

theorem not_stops_operation {s : Symbol} {op : BinaryOp} (hs : (s, op) ∈ operatorsOf n) :
    ¬ Stops (n + 3) (.symbol s :: ts) :=
  fun h => Nat.ne_of_lt h (tightness_of_operation hs)

theorem not_stops_factor (hn : n + 1 = operators.length) (hts : BeginsFactor ts) :
    ¬ Stops (n + 3) ts := by
  cases ts with
  | nil => exact hts.elim
  | cons t ts => exact fun h => Nat.ne_of_lt h (tightness_of_factor hn hts)

theorem not_stops_suffix {s : Symbol} {op : UnaryOp} (hs : (s, op) ∈ suffixes) :
    ¬ Stops 14 (.symbol s :: ts) :=
  fun h => Nat.ne_of_lt h (tightness_of_suffix hs)

/-- Operators of a level, or what follows them, do not go on with an operand of this level. -/
theorem Derivation.stops_operations (d : Derivation (.operations n) ts rest)
    (hr : Stops (n + 3) rest) : Stops (n + 4) ts := by
  cases d with
  | noOperation => exact hr.mono (Nat.le_succ _)
  | operation s op hs _ _ => exact Nat.lt_succ_of_le (Nat.le_of_eq (tightness_of_operation hs))
  | product hn hts _ _ =>
    cases ts with
    | nil => cases hts
    | cons t ts => exact Nat.lt_succ_of_le (Nat.le_of_eq (tightness_of_factor hn hts))

theorem Derivation.stops_suffixes (d : Derivation .suffixes ts rest) (hr : Stops 14 rest) :
    Stops 15 ts := by
  cases d with
  | noSuffix => exact hr.mono (Nat.le_succ _)
  | suffix s op hs _ => exact Nat.lt_succ_of_le (Nat.le_of_eq (tightness_of_suffix hs))

/-- No token is both an operator of a level and the first one of a factor. -/
theorem not_beginsFactor {s : Symbol} {op : BinaryOp} (hs : (s, op) ∈ operatorsOf n) :
    ¬ BeginsFactor (.symbol s :: ts) := by
  intro h
  have hnone := binaryOp?_of_multiplies (beginsFactor_iff.1 h)
  rw [(mem_operatorsOf.1 hs).1] at hnone
  cases hnone

/-- The operators of a product without a sign, like those with one, end before what follows. -/
theorem Derivation.stops_factor (d : Derivation (.operations n) ts rest)
    (hn : n + 1 = operators.length) (hr : Stops (n + 3) rest) : Stops 13 ts := by
  have h := d.stops_operations hr
  rw [show n + 4 = 13 from congrArg (· + 3) hn] at h
  exact h

theorem stops_symbol {s : Symbol} {k : Nat} (h : s.tightness < k) : Stops k (.symbol s :: r) := h

/-- What has a derivation is taken, with the tree that the derivation denotes, if what follows does
not go on with it. -/
theorem Derivation.accepts (d : Derivation nt ts rest) (hr : Stops nt.rank rest) :
    nt.Accepts ts d.meaning rest := by
  induction d with
  | simple _ ih => exact reads_simple (ih (hr.mono (by decide))) hr
  | conditional _ _ _ ihc ihy ihn =>
    exact reads_conditional (ihc (stops_symbol (by decide))) (ihy (stops_symbol (by decide))) (ihn hr)
  | level hn _ os ihleft ihos =>
    exact (reads_binary hn).2 ⟨_, _, ihleft (os.stops_operations hr), ihos hr _⟩
  | tightest hn _ ih =>
    subst hn
    have h : Reads (Parser.unary _) _ _ := ih hr
    rw [← binary_levels] at h
    exact h
  | noOperation => exact fun _ => reads_noOperation hr
  | operation s op hs _ os ihright ihos =>
    exact fun _ => reads_operation hs (ihright (os.stops_operations hr)) (ihos hr _)
  | product hn hts _ os ihright ihos =>
    exact fun _ => reads_product hn hts (ihright (os.stops_factor hn hr)) (ihos hr _)
  | signed s u hs _ ih => exact reads_signed hs (ih hr)
  | unsigned d ih => exact reads_unsigned d.begins.not_signed (ih hr)
  | base _ ih =>
    obtain ⟨operand, r, h, hs⟩ := ih (hr.mono (by decide))
    exact reads_base h hs hr
  | power _ _ ihbase ihexponent =>
    obtain ⟨operand, r, h, hs⟩ := ihbase (stops_symbol (by decide))
    exact reads_power h hs (ihexponent hr)
  | suffixed _ us ih ihs =>
    exact ⟨_, _, ih (us.stops_suffixes hr), ihs hr _⟩
  | noSuffix => exact fun _ => suffixed_noSuffix hr
  | suffix s u hs _ ih => exact fun _ => (suffixed_suffix hs).2 (ih hr _)
  | number | text | datetime =>
    show Reads (Parser.primary _) _ _
    rw [Parser.primary]
    exact ⟨_, rfl⟩
  | plain name h => exact reads_plain h hr
  | qualified qualifier name => exact reads_qualified
  | dotted name => exact reads_dotted
  | emptyCall name => exact reads_emptyCall
  | call name args ih =>
    obtain ⟨first, others, r, hargs, hfirst, hothers⟩ := ih (stops_symbol (by decide))
    unfold Derivation.meaning
    rw [hargs]
    exact reads_call args.ne_rightParen hfirst hothers
  | grouped _ ih => exact reads_grouped (ih (stops_symbol (by decide)))
  | argument _ ih => exact ⟨_, _, _, rfl, ih (hr.mono (by decide)), reads_noArgument hr⟩
  | arguments _ _ ihfirst ihothers =>
    obtain ⟨first, others, r, hargs, hfirst, hothers⟩ := ihothers hr
    refine ⟨_, first :: others, _, ?_, ihfirst (stops_symbol (by decide)), reads_arguments hfirst hothers⟩
    rw [← hargs]
    rfl

/-! There is one derivation. -/

/-- Two derivations from one nonterminal that begin at the same tokens agree on where they end and
on every step, if what follows either does not go on with it. -/
theorem Derivation.unique (d₁ : Derivation nt ts r₁) (h₁ : Stops nt.rank r₁)
    (d₂ : Derivation nt ts r₂) (h₂ : Stops nt.rank r₂) :
    (⟨r₁, d₁⟩ : (r : List Token) × Derivation nt ts r) = ⟨r₂, d₂⟩ := by
  induction d₁ generalizing r₂ with
  | simple d ih =>
    cases d₂ with
    | simple d' =>
      cases ih (h₁.mono (by decide)) d' (h₂.mono (by decide))
      rfl
    | conditional c' _ _ =>
      cases ih (h₁.mono (by decide)) c' (stops_symbol (by decide))
      exact absurd h₁ (Nat.lt_irrefl 2)
  | conditional c y m ihc ihy ihm =>
    cases d₂ with
    | simple d' =>
      cases ihc (stops_symbol (by decide)) d' (h₂.mono (by decide))
      exact absurd h₂ (Nat.lt_irrefl 2)
    | conditional c' y' m' =>
      cases ihc (stops_symbol (by decide)) c' (stops_symbol (by decide))
      cases ihy (stops_symbol (by decide)) y' (stops_symbol (by decide))
      cases ihm h₁ m' h₂
      rfl
  | level hn d os ihd ihos =>
    cases d₂ with
    | level hn' d' os' =>
      cases ihd (os.stops_operations h₁) d' (os'.stops_operations h₂)
      cases ihos h₁ os' h₂
      rfl
    | tightest hn' d' => exact absurd (hn' ▸ hn) (Nat.lt_irrefl _)
  | tightest hn d ih =>
    cases d₂ with
    | level hn' d' os' => exact absurd (hn ▸ hn') (Nat.lt_irrefl _)
    | tightest hn' d' =>
      subst hn
      cases ih h₁ d' h₂
      rfl
  | noOperation =>
    cases d₂ with
    | noOperation => rfl
    | operation s op hs d' os' => exact absurd h₁ (not_stops_operation hs)
    | product hn hts d' os' => exact absurd h₁ (not_stops_factor hn hts)
  | operation s op hs d os ihd ihos =>
    cases d₂ with
    | noOperation => exact absurd h₂ (not_stops_operation hs)
    | operation s' op' hs' d' os' =>
      obtain rfl : op = op' :=
        Option.some.inj ((mem_operatorsOf.1 hs).1.symm.trans (mem_operatorsOf.1 hs').1)
      cases ihd (os.stops_operations h₁) d' (os'.stops_operations h₂)
      cases ihos h₁ os' h₂
      rfl
    | product hn hts d' os' => exact absurd hts (not_beginsFactor hs)
  | product hn hts d os ihd ihos =>
    cases d₂ with
    | noOperation => exact absurd h₂ (not_stops_factor hn hts)
    | operation s' op' hs' d' os' => exact absurd hts (not_beginsFactor hs')
    | product hn' hts' d' os' =>
      cases ihd (os.stops_factor hn h₁) d' (os'.stops_factor hn h₂)
      cases ihos h₁ os' h₂
      rfl
  | signed s u hs d ih =>
    cases d₂ with
    | signed s' u' hs' d' =>
      obtain rfl : u = u' := Option.some.inj ((mem_signs.1 hs).symm.trans (mem_signs.1 hs'))
      cases ih h₁ d' h₂
      rfl
    | unsigned d' =>
      exact absurd (Option.isSome_of_eq_some (mem_signs.1 hs)) d'.begins.not_signed
  | unsigned d ih =>
    cases d₂ with
    | signed s u hs d' =>
      exact absurd (Option.isSome_of_eq_some (mem_signs.1 hs)) d.begins.not_signed
    | unsigned d' =>
      cases ih h₁ d' h₂
      rfl
  | base d ih =>
    cases d₂ with
    | base d' =>
      cases ih (h₁.mono (by decide)) d' (h₂.mono (by decide))
      rfl
    | power d' e' =>
      cases ih (h₁.mono (by decide)) d' (stops_symbol (by decide))
      exact absurd h₁ (Nat.lt_irrefl 13)
  | power d e ihd ihe =>
    cases d₂ with
    | base d' =>
      cases ihd (stops_symbol (by decide)) d' (h₂.mono (by decide))
      exact absurd h₂ (Nat.lt_irrefl 13)
    | power d' e' =>
      cases ihd (stops_symbol (by decide)) d' (stops_symbol (by decide))
      cases ihe h₁ e' h₂
      rfl
  | suffixed d us ihd ihus =>
    cases d₂ with
    | suffixed d' us' =>
      cases ihd (us.stops_suffixes h₁) d' (us'.stops_suffixes h₂)
      cases ihus h₁ us' h₂
      rfl
  | noSuffix =>
    cases d₂ with
    | noSuffix => rfl
    | suffix s u hs us' => exact absurd h₁ (not_stops_suffix hs)
  | suffix s u hs us ih =>
    cases d₂ with
    | noSuffix => exact absurd h₂ (not_stops_suffix hs)
    | suffix s' u' hs' us' =>
      obtain rfl : u = u' := Option.some.inj ((mem_suffixes.1 hs).symm.trans (mem_suffixes.1 hs'))
      cases ih h₁ us' h₂
      rfl
  | number | text | datetime | dotted =>
    cases d₂
    rfl
  | plain name hr =>
    cases d₂ with
    | plain name' hr' => rfl
    | qualified qualifier name' => exact absurd h₁ (Nat.lt_irrefl 15)
    | emptyCall name' => exact absurd trivial hr
    | call name' args' => exact absurd trivial hr
  | qualified qualifier name =>
    cases d₂ with
    | plain name' hr' => exact absurd h₂ (Nat.lt_irrefl 15)
    | qualified qualifier' name' => rfl
  | emptyCall name =>
    cases d₂ with
    | plain name' hr' => exact absurd trivial hr'
    | emptyCall name' => rfl
    | call name' args' => exact absurd rfl (args'.ne_rightParen _)
  | call name args ih =>
    cases d₂ with
    | plain name' hr' => exact absurd trivial hr'
    | emptyCall name' => exact absurd rfl (args.ne_rightParen _)
    | call name' args' =>
      cases ih (stops_symbol (by decide)) args' (stops_symbol (by decide))
      rfl
  | grouped d ih =>
    cases d₂ with
    | grouped d' =>
      cases ih (stops_symbol (by decide)) d' (stops_symbol (by decide))
      rfl
  | argument d ih =>
    cases d₂ with
    | argument d' =>
      cases ih (h₁.mono (by decide)) d' (h₂.mono (by decide))
      rfl
    | arguments d' ds' =>
      cases ih (h₁.mono (by decide)) d' (stops_symbol (by decide))
      exact absurd h₁ (Nat.lt_irrefl 1)
  | arguments d ds ihd ihds =>
    cases d₂ with
    | argument d' =>
      cases ihd (stops_symbol (by decide)) d' (h₂.mono (by decide))
      exact absurd h₂ (Nat.lt_irrefl 1)
    | arguments d' ds' =>
      cases ihd (stops_symbol (by decide)) d' (stops_symbol (by decide))
      cases ihds h₁ ds' h₂
      rfl

/-- The grammar is unambiguous. -/
theorem subsingleton_expression (ts : List Token) :
    Subsingleton (Derivation .expression ts []) where
  allEq d₁ d₂ := by
    cases d₁.unique trivial d₂ trivial
    rfl

/-- No token of a derivation is illegal. -/
theorem Derivation.illegal_mem {c : Char} (d : Derivation nt ts rest) (h : .illegal c ∈ ts) :
    .illegal c ∈ rest := by
  induction d <;> simp_all

/-! Whole formulas -/

theorem ofTokens_eq_ok {f : Formula} :
    Formula.ofTokens ts = .ok f ↔ Reads (expression ts) f [] := by
  rw [Formula.ofTokens.eq_def]
  split
  · constructor
    · exact fun h => by cases h
    · exact fun h => absurd h.length_lt (Nat.lt_irrefl 0)
  · constructor
    · intro h
      obtain ⟨⟨f', rest, hlt⟩, hf, h⟩ := bind_eq_ok.1 h
      dsimp only at h
      split at h
      · cases h
        exact ⟨hlt, hf⟩
      · cases h
    · rintro ⟨hlt, h⟩
      simp only [h, bind, Except.bind]
      rfl

/-- What is read from tokens is what a derivation of them denotes. -/
theorem ofTokens_eq_ok_iff {f : Formula} :
    Formula.ofTokens ts = .ok f ↔ ∃ d : Derivation .expression ts [], d.meaning = f := by
  rw [ofTokens_eq_ok]
  constructor
  · exact exists_expression
  · rintro ⟨d, rfl⟩
    exact d.accepts trivial

/-- The text of a formula is read just if none of its tokens is illegal and they derive from the
grammar. They do so in one way at most, and what is read is the tree that this derivation denotes. -/
theorem parse_accepts_grammar (text : String) :
    ((∃ f, Formula.parse text = .ok f) ↔
      (∀ c, .illegal c ∉ tokens text.toList) ∧
        Nonempty (Derivation .expression (tokens text.toList) [])) ∧
    Subsingleton (Derivation .expression (tokens text.toList) []) ∧
    ∀ d : Derivation .expression (tokens text.toList) [], Formula.parse text = .ok d.meaning := by
  refine ⟨⟨?_, ?_⟩, subsingleton_expression _, fun d => ofTokens_eq_ok_iff.2 ⟨d, rfl⟩⟩
  · rintro ⟨f, hf⟩
    obtain ⟨d, -⟩ := ofTokens_eq_ok_iff.1 hf
    exact ⟨fun c hc => List.not_mem_nil (d.illegal_mem hc), ⟨d⟩⟩
  · rintro ⟨-, ⟨d⟩⟩
    exact ⟨d.meaning, ofTokens_eq_ok_iff.2 ⟨d, rfl⟩⟩

end Grammar
end Reporting
