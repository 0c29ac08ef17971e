import Reporting.Proofs.Formula.Grammar
/-!
What each reader takes, in terms of what the readers that it calls take. A reader goes on as long as
the next token binds what it has read, so how tightly a token binds decides where it stops.
-/
namespace Reporting

/-- How tightly a symbol binds what stands before it; 0 if it cannot go on with it. -/
def Symbol.tightness : Symbol → Nat
  | comma => 1
  | question => 2
  | doublePipe => 3
  | doubleAmpersand => 4
  | pipe => 5
  | doubleCaret => 6
  | ampersand => 7
  | equals | notEqual => 8
  | lessThan | lessEqual | greaterThan | greaterEqual => 9
  | shiftLeft | shiftRight => 10
  | plus | minus => 11
  | asterisk | slash | percent | leftParen => 12
  | caret => 13
  | increment | decrement => 14
  | dot => 15
  | bang | tilde | rightParen | colon => 0

/-- How tightly a token binds what stands before it. A token that multiplies without a sign binds
as the signs of products do. -/
def Token.tightness : Token → Nat
  | symbol s => s.tightness
  | number _ | datetime _ | identifier _ => 12
  | text _ | illegal _ => 0

theorem Symbol.tightness_of_level {s : Symbol} {op : BinaryOp} {n : Nat}
    (hs : s.binaryOp? = some op) (hop : op.level? = some n) : s.tightness = n + 3 := by
  cases s <;> simp only [binaryOp?, reduceCtorEq, Option.some.injEq] at hs <;> subst hs <;>
    simp only [BinaryOp.level?, reduceCtorEq, Option.some.injEq] at hop <;> subst hop <;> rfl

theorem Symbol.tightness_of_postOp? {s : Symbol} {op : UnaryOp} (hs : s.postOp? = some op) :
    s.tightness = 14 := by
  cases s <;> first | rfl | cases hs

theorem Token.tightness_of_multiplies {t : Token} (h : t.multiplies = true) : t.tightness = 12 := by
  cases t with
  | symbol s => cases s <;> first | rfl | cases h
  | text | illegal => cases h
  | _ => rfl

theorem Grammar.mem_operatorsOf {s : Symbol} {op : BinaryOp} {n : Nat} :
    (s, op) ∈ operatorsOf n ↔ s.binaryOp? = some op ∧ op.level? = some n := by
  constructor
  · intro h
    have listed : ∀ n < 10, ∀ p ∈ operatorsOf n,
        p.1.binaryOp? = some p.2 ∧ p.2.level? = some n := by decide
    by_cases hn : n < 10
    · exact listed n hn _ h
    · rw [operatorsOf, List.getD, List.getElem?_eq_none (Nat.not_lt.1 hn)] at h
      cases h
  · rintro ⟨hs, hop⟩
    cases s <;> simp only [Symbol.binaryOp?, reduceCtorEq, Option.some.injEq] at hs <;> subst hs <;>
      simp only [BinaryOp.level?, reduceCtorEq, Option.some.injEq] at hop <;> subst hop <;> decide

namespace Parser
open Grammar

variable {α β : Type} {P : List Token → Prop} {a : α} {n k : Nat} {s : Symbol}
  {name qualifier : String} {op : BinaryOp} {u : UnaryOp} {t : Token}
  {ts r r₁ r₂ rest : List Token} {f first left right condition yes no operand base : Formula}
  {args : List Formula}

/-- What follows does not go on with anything that only tokens of tightness `k` go on with. -/
def Stops (k : Nat) : List Token → Prop
  | [] => True
  | t :: _ => t.tightness < k

theorem Stops.mono {m : Nat} (h : Stops k ts) (hk : k ≤ m) : Stops m ts := by
  cases ts with
  | nil => trivial
  | cons t ts => exact Nat.lt_of_lt_of_le h hk

/-- A reader yields a value and leaves `rest`. -/
def Reads (outcome : Except ParseError (α × { r : List Token // P r })) (a : α)
    (rest : List Token) : Prop :=
  ∃ h, outcome = .ok (a, ⟨rest, h⟩)

theorem Reads.length_lt {outcome : Taken α ts} (h : Reads outcome a rest) :
    rest.length < ts.length :=
  h.1

theorem Reads.length_le {outcome : Left α ts} (h : Reads outcome a rest) :
    rest.length ≤ ts.length :=
  h.1

theorem bind_eq_ok {x : Except ParseError α} {k : α → Except ParseError β} {b : β} :
    x >>= k = .ok b ↔ ∃ a, x = .ok a ∧ k a = .ok b := by
  cases x with
  | error e => simp only [bind, Except.bind, reduceCtorEq, false_and, exists_false]
  | ok a => simp only [bind, Except.bind, Except.ok.injEq, exists_eq_left']

theorem expect_eq_ok {h : r.length < ts.length} :
    expect s ts = .ok ⟨r, h⟩ ↔ ts = .symbol s :: r := by
  cases ts with
  | nil => simp [expect]
  | cons t ts =>
    cases t <;> simp [expect]
    split <;> simp_all

theorem expectName_eq_ok {h : r.length < ts.length} :
    expectName qualifier ts = .ok (name, ⟨r, h⟩) ↔ ts = .identifier name :: r := by
  cases ts with
  | nil => simp [expectName]
  | cons t ts => cases t <;> simp [expectName]

/-! Expressions -/

theorem reads_simple (h : Reads (binary 0 ts) f rest) (hr : Stops 2 rest) :
    Reads (expression ts) f rest := by
  obtain ⟨hlt, hc⟩ := h
  rw [expression, hc]
  refine ⟨hlt, ?_⟩
  simp only [bind, Except.bind]
  split
  · exact absurd hr (Nat.lt_irrefl 2)
  · rfl

theorem reads_conditional (hc : Reads (binary 0 ts) condition (.symbol .question :: r₁))
    (hy : Reads (expression r₁) yes (.symbol .colon :: r₂)) (hn : Reads (expression r₂) no rest) :
    Reads (expression ts) (.conditional condition yes no) rest := by
  obtain ⟨_, hc⟩ := hc
  obtain ⟨_, hy⟩ := hy
  obtain ⟨_, hn⟩ := hn
  rw [expression, hc]
  simp only [bind, Except.bind, hy, expect, hn, if_true]
  exact ⟨_, rfl⟩

theorem cases_expression (h : Reads (expression ts) f rest) :
    Reads (binary 0 ts) f rest ∨
      ∃ condition yes no r₁ r₂, Reads (binary 0 ts) condition (.symbol .question :: r₁) ∧
        Reads (expression r₁) yes (.symbol .colon :: r₂) ∧ Reads (expression r₂) no rest ∧
        f = .conditional condition yes no := by
  obtain ⟨hlt, h⟩ := h
  rw [expression] at h
  obtain ⟨⟨c, r, hr⟩, hc, h⟩ := bind_eq_ok.1 h
  dsimp only at h
  split at h
  · obtain ⟨⟨yes, r₂, h₂⟩, hy, h⟩ := bind_eq_ok.1 h
    obtain ⟨⟨r₃, h₃⟩, hcolon, h⟩ := bind_eq_ok.1 h
    obtain ⟨⟨no, r₄, h₄⟩, hn, h⟩ := bind_eq_ok.1 h
    cases h
    obtain rfl := expect_eq_ok.1 hcolon
    exact .inr ⟨c, yes, no, _, _, ⟨_, hc⟩, ⟨_, hy⟩, ⟨_, hn⟩, rfl⟩
  · cases h
    exact .inl ⟨_, hc⟩

/-! Binary levels -/

theorem reads_binary (hn : n < BinaryOp.levels) : Reads (binary n ts) f rest ↔
    ∃ left r, Reads (binary (n + 1) ts) left r ∧ Reads (binaryRest n left r) f rest := by
  rw [binary, dif_pos hn]
  constructor
  · rintro ⟨hlt, h⟩
    obtain ⟨⟨left, r, hr⟩, hleft, h⟩ := bind_eq_ok.1 h
    obtain ⟨⟨f', r', hr'⟩, hrest, h⟩ := bind_eq_ok.1 h
    cases h
    exact ⟨left, r, ⟨_, hleft⟩, _, hrest⟩
  · rintro ⟨left, r, ⟨_, hleft⟩, _, hrest⟩
    rw [hleft]
    simp only [bind, Except.bind, hrest]
    exact ⟨_, rfl⟩

theorem binary_levels (ts : List Token) : binary BinaryOp.levels ts = unary ts := by
  rw [binary, dif_neg (Nat.lt_irrefl _)]

theorem reads_operation (hs : (s, op) ∈ operatorsOf n) (hright : Reads (binary (n + 1) ts) right r)
    (hrest : Reads (binaryRest n (.binary op left right) r) f rest) :
    Reads (binaryRest n left (.symbol s :: ts)) f rest := by
  obtain ⟨hs, hop⟩ := mem_operatorsOf.1 hs
  obtain ⟨_, hright⟩ := hright
  obtain ⟨_, hrest⟩ := hrest
  rw [binaryRest.eq_def]
  simp only [hs, hop, if_true, hright, bind, Except.bind, hrest]
  exact ⟨_, rfl⟩

theorem beginsFactor_iff : BeginsFactor (t :: ts) ↔ t.multiplies = true := by
  cases t with
  | symbol s => cases s <;> simp [BeginsFactor, Token.multiplies]
  | _ => simp [BeginsFactor, Token.multiplies]

/-- No token that multiplies is a binary operator. -/
theorem binaryOp?_of_multiplies (h : (Token.symbol s).multiplies = true) : s.binaryOp? = none := by
  cases s <;> first | rfl | cases h

theorem reads_product (hn : n + 1 = BinaryOp.levels) (hts : BeginsFactor ts)
    (hright : Reads (unary ts) right r)
    (hrest : Reads (binaryRest n (.binary .multiply left right) r) f rest) :
    Reads (binaryRest n left ts) f rest := by
  cases ts with
  | nil => cases hts
  | cons t ts =>
    have hm := beginsFactor_iff.1 hts
    obtain ⟨_, hright⟩ := hright
    obtain ⟨_, hrest⟩ := hrest
    rw [binaryRest.eq_def]
    cases t with
    | symbol s =>
      simp only [binaryOp?_of_multiplies hm, hn, hm, and_self, if_true, hright, bind, Except.bind,
        hrest]
      exact ⟨_, rfl⟩
    | _ =>
      simp only [hn, hm, and_self, if_true, hright, bind, Except.bind, hrest]
      exact ⟨_, rfl⟩

theorem reads_noOperation (hr : Stops (n + 3) rest) : Reads (binaryRest n left rest) left rest := by
  rw [binaryRest.eq_def]
  cases rest with
  | nil => exact ⟨_, rfl⟩
  | cons t rest =>
    have hm : ¬ (n + 1 = BinaryOp.levels ∧ t.multiplies = true) := by
      rintro ⟨hn, hm⟩
      have ht : t.tightness < n + 3 := hr
      rw [Token.tightness_of_multiplies hm] at ht
      simp only [BinaryOp.levels] at hn
      omega
    cases t with
    | symbol s =>
      cases hs : s.binaryOp? with
      | none =>
        simp only [hs, if_neg hm]
        exact ⟨_, rfl⟩
      | some op =>
        have hop : op.level? ≠ some n := by
          intro hop
          have ht : s.tightness < n + 3 := hr
          rw [Symbol.tightness_of_level hs hop] at ht
          exact Nat.lt_irrefl _ ht
        simp only [hs, if_neg hop]
        exact ⟨_, rfl⟩
    | _ =>
      simp only [if_neg hm]
      exact ⟨_, rfl⟩

theorem cases_binaryRest (h : Reads (binaryRest n left ts) f rest) :
    (f = left ∧ rest = ts) ∨
    (∃ s op right ts' r, ts = .symbol s :: ts' ∧ (s, op) ∈ operatorsOf n ∧
      Reads (binary (n + 1) ts') right r ∧
      Reads (binaryRest n (.binary op left right) r) f rest) ∨
    (n + 1 = BinaryOp.levels ∧ BeginsFactor ts ∧ ∃ right r, Reads (unary ts) right r ∧
      Reads (binaryRest n (.binary .multiply left right) r) f rest) := by
  obtain ⟨hle, h⟩ := h
  rw [binaryRest.eq_def] at h
  dsimp only at h
  split at h
  · cases h
    exact .inl ⟨rfl, rfl⟩
  · rename_i t ts'
    split at h
    · rename_i op hop
      split at h
      · rename_i hlevel
        obtain ⟨⟨right, r, hr⟩, hright, h⟩ := bind_eq_ok.1 h
        obtain ⟨⟨f', r', hr'⟩, hrest, h⟩ := bind_eq_ok.1 h
        cases h
        cases t with
        | symbol s =>
          exact .inr (.inl ⟨s, op, right, ts', r, rfl, mem_operatorsOf.2 ⟨hop, hlevel⟩,
            ⟨_, hright⟩, _, hrest⟩)
        | _ => cases hop
      · cases h
        exact .inl ⟨rfl, rfl⟩
    · split at h
      · rename_i hm
        obtain ⟨⟨right, r, hr⟩, hright, h⟩ := bind_eq_ok.1 h
        obtain ⟨⟨f', r', hr'⟩, hrest, h⟩ := bind_eq_ok.1 h
        cases h
        exact .inr (.inr ⟨hm.1, beginsFactor_iff.2 hm.2, right, r, ⟨_, hright⟩, _, hrest⟩)
      · cases h
        exact .inl ⟨rfl, rfl⟩

/-! Operators before an operand -/

theorem mem_signs : (s, u) ∈ signs ↔ s.preOp? = some u := by
  cases s <;> cases u <;> decide

theorem reads_signed (hs : (s, u) ∈ signs) (h : Reads (unary ts) operand rest) :
    Reads (unary (.symbol s :: ts)) (.unary u operand) rest := by
  obtain ⟨_, h⟩ := h
  rw [unary]
  simp only [mem_signs.1 hs, h, bind, Except.bind]
  exact ⟨_, rfl⟩

/-- Whether a sign stands first. -/
def BeginsSigned : List Token → Prop
  | .symbol s :: _ => s.preOp?.isSome
  | _ => False

theorem reads_unsigned (hts : ¬ BeginsSigned ts) (h : Reads (power ts) f rest) :
    Reads (unary ts) f rest := by
  rw [unary.eq_def]
  split
  · rename_i s ts'
    have hs : s.preOp? = none := Option.not_isSome_iff_eq_none.1 hts
    simp only [hs]
    exact h
  · exact h

theorem cases_unary (h : Reads (unary ts) f rest) :
    (∃ s u operand ts', ts = .symbol s :: ts' ∧ (s, u) ∈ signs ∧
      Reads (unary ts') operand rest ∧ f = .unary u operand) ∨
    Reads (power ts) f rest := by
  obtain ⟨hlt, h⟩ := h
  rw [unary.eq_def] at h
  split at h
  · rename_i s ts'
    split at h
    · rename_i u hu
      obtain ⟨⟨operand, r, hr⟩, hoperand, h⟩ := bind_eq_ok.1 h
      cases h
      exact .inl ⟨s, u, operand, ts', rfl, mem_signs.2 hu, ⟨_, hoperand⟩, rfl⟩
    · exact .inr ⟨hlt, h⟩
  · exact .inr ⟨hlt, h⟩

/-! Powers and operators after an operand -/

/-- The operators after an operand make it `f` and leave `rest`. -/
def Suffixed (operand : Formula) (ts : List Token) (f : Formula) (rest : List Token) : Prop :=
  ∃ h, postfixes operand ts = (f, ⟨rest, h⟩)

theorem mem_suffixes : (s, u) ∈ suffixes ↔ s.postOp? = some u := by
  cases s <;> cases u <;> decide

theorem suffixed_suffix (hs : (s, u) ∈ suffixes) :
    Suffixed operand (.symbol s :: ts) f rest ↔ Suffixed (.unary u operand) ts f rest := by
  rw [Suffixed, postfixes]
  simp only [mem_suffixes.1 hs]
  constructor
  · rintro ⟨_, h⟩
    cases h
    exact ⟨_, rfl⟩
  · rintro ⟨hle, h⟩
    rw [h]
    exact ⟨Nat.le_succ_of_le hle, rfl⟩

theorem suffixed_noSuffix (hr : Stops 14 rest) : Suffixed operand rest operand rest := by
  rw [Suffixed, postfixes.eq_def]
  split
  · rename_i s r
    split
    · rename_i u hu
      have ht : s.tightness < 14 := hr
      rw [Symbol.tightness_of_postOp? hu] at ht
      exact absurd ht (Nat.lt_irrefl _)
    · exact ⟨Nat.le_refl _, rfl⟩
  · exact ⟨Nat.le_refl _, rfl⟩

theorem cases_suffixed (h : Suffixed operand ts f rest) :
    (f = operand ∧ rest = ts) ∨
    ∃ s u ts', ts = .symbol s :: ts' ∧ (s, u) ∈ suffixes ∧
      Suffixed (.unary u operand) ts' f rest := by
  cases ts with
  | nil =>
    obtain ⟨_, h⟩ := h
    cases h
    exact .inl ⟨rfl, rfl⟩
  | cons t ts =>
    cases t with
    | symbol s =>
      cases hs : s.postOp? with
      | none =>
        obtain ⟨_, h⟩ := h
        rw [postfixes] at h
        simp only [hs] at h
        cases h
        exact .inl ⟨rfl, rfl⟩
      | some u =>
        have hu := mem_suffixes.2 hs
        exact .inr ⟨s, u, ts, rfl, hu, (suffixed_suffix hu).1 h⟩
    | _ =>
      obtain ⟨_, h⟩ := h
      cases h
      exact .inl ⟨rfl, rfl⟩

theorem reads_base (h : Reads (primary ts) operand r) (hs : Suffixed operand r f rest)
    (hr : Stops 13 rest) : Reads (power ts) f rest := by
  obtain ⟨_, h⟩ := h
  obtain ⟨_, hs⟩ := hs
  rw [power, h]
  simp only [bind, Except.bind]
  generalize postfixes operand r = p at hs
  subst hs
  dsimp only
  split
  · exact absurd (hr : 13 < 13) (Nat.lt_irrefl 13)
  · exact ⟨_, rfl⟩

theorem reads_power (h : Reads (primary ts) operand r)
    (hs : Suffixed operand r base (.symbol .caret :: r₁)) (he : Reads (unary r₁) right rest) :
    Reads (power ts) (.binary .power base right) rest := by
  obtain ⟨_, h⟩ := h
  obtain ⟨_, hs⟩ := hs
  obtain ⟨_, he⟩ := he
  rw [power, h]
  simp only [bind, Except.bind]
  generalize postfixes operand r = p at hs
  subst hs
  simp only [he]
  exact ⟨_, rfl⟩

theorem cases_power (h : Reads (power ts) f rest) :
    ∃ operand base r r', Reads (primary ts) operand r ∧ Suffixed operand r base r' ∧
      ((f = base ∧ rest = r') ∨
        ∃ r₁ right, r' = .symbol .caret :: r₁ ∧ Reads (unary r₁) right rest ∧
          f = .binary .power base right) := by
  obtain ⟨hlt, h⟩ := h
  rw [power] at h
  obtain ⟨⟨operand, r, hr⟩, hoperand, h⟩ := bind_eq_ok.1 h
  obtain ⟨p, hp⟩ : ∃ p, postfixes operand r = p := ⟨_, rfl⟩
  simp only at h
  rw [hp] at h
  obtain ⟨base, r', hr'⟩ := p
  refine ⟨operand, base, r, r', ⟨_, hoperand⟩, ⟨_, hp⟩, ?_⟩
  dsimp only at h
  split at h
  · obtain ⟨⟨right, r₂, h₂⟩, hright, h⟩ := bind_eq_ok.1 h
    cases h
    exact .inr ⟨_, right, rfl, ⟨_, hright⟩, rfl⟩
  · cases h
    exact .inl ⟨rfl, rfl⟩

/-! Primaries and arguments -/

theorem reads_plain (hr : ¬ BeginsArguments rest) (hdot : Stops 15 rest) :
    Reads (primary (.identifier name :: rest)) (.column (.plain name)) rest := by
  rw [primary]
  · exact ⟨_, rfl⟩
  · rintro r rfl
    exact hr trivial
  · rintro r rfl
    exact hr trivial
  · rintro r rfl
    exact absurd (hdot : 15 < 15) (Nat.lt_irrefl 15)

theorem reads_qualified :
    Reads (primary (.identifier qualifier :: .symbol .dot :: .identifier name :: rest))
      (.ofQualified qualifier name) rest := by
  rw [primary]
  exact ⟨_, rfl⟩

theorem reads_dotted :
    Reads (primary (.symbol .dot :: .identifier name :: rest)) (.column (.dotted name)) rest := by
  rw [primary]
  exact ⟨_, rfl⟩

theorem reads_emptyCall :
    Reads (primary (.identifier name :: .symbol .leftParen :: .symbol .rightParen :: rest))
      (.call name []) rest := by
  rw [primary]
  exact ⟨_, rfl⟩

theorem reads_call (hts : ∀ r, ts ≠ .symbol .rightParen :: r) (hf : Reads (expression ts) first r)
    (ha : Reads (arguments r) args (.symbol .rightParen :: rest)) :
    Reads (primary (.identifier name :: .symbol .leftParen :: ts)) (.call name (first :: args))
      rest := by
  obtain ⟨_, hf⟩ := hf
  obtain ⟨_, ha⟩ := ha
  rw [primary]
  · simp only [bind, Except.bind, hf, ha, expect, if_true]
    exact ⟨_, rfl⟩
  · exact hts

theorem reads_grouped (h : Reads (expression ts) f (.symbol .rightParen :: rest)) :
    Reads (primary (.symbol .leftParen :: ts)) (.grouped f) rest := by
  obtain ⟨_, h⟩ := h
  rw [primary]
  simp only [bind, Except.bind, h, expect, if_true]
  exact ⟨_, rfl⟩

theorem reads_arguments (hf : Reads (expression ts) f r) (ha : Reads (arguments r) args rest) :
    Reads (arguments (.symbol .comma :: ts)) (f :: args) rest := by
  obtain ⟨_, hf⟩ := hf
  obtain ⟨_, ha⟩ := ha
  rw [arguments]
  simp only [bind, Except.bind, hf, ha]
  exact ⟨_, rfl⟩

theorem reads_noArgument (hr : Stops 1 rest) : Reads (arguments rest) [] rest := by
  rw [arguments]
  · exact ⟨_, rfl⟩
  · rintro r rfl
    exact absurd (hr : 1 < 1) (Nat.lt_irrefl 1)

theorem cases_arguments (h : Reads (arguments ts) args rest) :
    (args = [] ∧ rest = ts) ∨ ∃ f others ts' r, ts = .symbol .comma :: ts' ∧
      Reads (expression ts') f r ∧ Reads (arguments r) others rest ∧ args = f :: others := by
  obtain ⟨hle, h⟩ := h
  rw [arguments.eq_def] at h
  split at h
  · obtain ⟨⟨f, r₁, h₁⟩, hf, h⟩ := bind_eq_ok.1 h
    obtain ⟨⟨others, r₂, h₂⟩, ha, h⟩ := bind_eq_ok.1 h
    cases h
    exact .inr ⟨f, others, _, r₁, rfl, ⟨_, hf⟩, ⟨_, ha⟩, rfl⟩
  · cases h
    exact .inl ⟨rfl, rfl⟩

/-- A primary is a literal, a name, a call or a formula in parentheses. -/
theorem cases_primary (h : Reads (primary ts) f rest) :
    (∃ n, ts = .number n :: rest ∧ f = .literal (.number n)) ∨
    (∃ s, ts = .text s :: rest ∧ f = .literal (.text s)) ∨
    (∃ s, ts = .datetime s :: rest ∧ f = .literal (.datetime s)) ∨
    (∃ name, ts = .symbol .dot :: .identifier name :: rest ∧ f = .column (.dotted name)) ∨
    (∃ name, ts = .identifier name :: .symbol .leftParen :: .symbol .rightParen :: rest ∧
      f = .call name []) ∨
    (∃ name first others ts' r, ts = .identifier name :: .symbol .leftParen :: ts' ∧
      Reads (expression ts') first r ∧
      Reads (arguments r) others (.symbol .rightParen :: rest) ∧
      f = .call name (first :: others)) ∨
    (∃ qualifier name, ts = .identifier qualifier :: .symbol .dot :: .identifier name :: rest ∧
      f = .ofQualified qualifier name) ∨
    (∃ name, ts = .identifier name :: rest ∧ ¬ BeginsArguments rest ∧
      f = .column (.plain name)) ∨
    (∃ inner ts', ts = .symbol .leftParen :: ts' ∧
      Reads (expression ts') inner (.symbol .rightParen :: rest) ∧ f = .grouped inner) := by
  obtain ⟨hlt, h⟩ := h
  rw [primary.eq_def] at h
  split at h
  · cases h
    exact .inl ⟨_, rfl, rfl⟩
  · cases h
    exact .inr (.inl ⟨_, rfl, rfl⟩)
  · cases h
    exact .inr (.inr (.inl ⟨_, rfl, rfl⟩))
  · obtain ⟨⟨name, r₁, h₁⟩, hname, h⟩ := bind_eq_ok.1 h
    cases h
    obtain rfl := expectName_eq_ok.1 hname
    exact .inr (.inr (.inr (.inl ⟨_, rfl, rfl⟩)))
  · cases h
    exact .inr (.inr (.inr (.inr (.inl ⟨_, rfl, rfl⟩))))
  · obtain ⟨⟨first, r₁, h₁⟩, hfirst, h⟩ := bind_eq_ok.1 h
    obtain ⟨⟨others, r₂, h₂⟩, hothers, h⟩ := bind_eq_ok.1 h
    obtain ⟨⟨r₃, h₃⟩, hclose, h⟩ := bind_eq_ok.1 h
    cases h
    obtain rfl := expect_eq_ok.1 hclose
    exact .inr (.inr (.inr (.inr (.inr (.inl
      ⟨_, first, others, _, r₁, rfl, ⟨_, hfirst⟩, ⟨_, hothers⟩, rfl⟩)))))
  · obtain ⟨⟨name, r₁, h₁⟩, hname, h⟩ := bind_eq_ok.1 h
    cases h
    obtain rfl := expectName_eq_ok.1 hname
    exact .inr (.inr (.inr (.inr (.inr (.inr (.inl ⟨_, _, rfl, rfl⟩))))))
  · rename_i hcall _
    cases h
    have hr : ¬ BeginsArguments rest := by
      intro hr
      unfold BeginsArguments at hr
      split at hr
      · exact hcall _ rfl
      · exact hr
    exact .inr (.inr (.inr (.inr (.inr (.inr (.inr (.inl ⟨_, rfl, hr, rfl⟩)))))))
  · obtain ⟨⟨inner, r₁, h₁⟩, hinner, h⟩ := bind_eq_ok.1 h
    obtain ⟨⟨r₂, h₂⟩, hclose, h⟩ := bind_eq_ok.1 h
    cases h
    obtain rfl := expect_eq_ok.1 hclose
    exact .inr (.inr (.inr (.inr (.inr (.inr (.inr (.inr
      ⟨inner, _, rfl, ⟨_, hinner⟩, rfl⟩)))))))
  all_goals cases h

end Parser
end Reporting
