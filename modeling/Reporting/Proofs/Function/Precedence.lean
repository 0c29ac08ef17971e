import Reporting.Proofs.Function.Leading
/-!
Which operands of a function win: an error before operands of the wrong kinds, and these before a
null.
-/
namespace Reporting
open Operands

/-- The kinds of operands that a function takes. -/
inductive Signature
  /-- Operands of one kind. -/
  | all (operand result : Kind)
  /-- Numbers, texts, or numbers and dates of which one at least is a date. -/
  | sum
  /-- Numbers, or numbers and dates of which one at least is a date. -/
  | difference
  /-- A number or a date. -/
  | step
  /-- A text that numbers follow. -/
  | textAndNumbers
  /-- A text or a number, and a number. -/
  | fixedPoint
  deriving DecidableEq, Repr

namespace Signature

/-- The kind of numbers and dates together, if there is a date. -/
def mixed? (ks : List Kind) : Option Kind :=
  if ks.all (fun k => k == .number || k == .datetime) && ks.contains .datetime then
    some .datetime
  else none

/-- The kind of the result, for operands of kinds that are admitted. -/
def result? : Signature → List Kind → Option Kind
  | all operand result, ks => if ks.all (· == operand) then some result else none
  | sum, ks =>
    if ks.all (· == .number) then some .number
    else if ks.all (· == .text) then some .text
    else mixed? ks
  | difference, ks => if ks.all (· == .number) then some .number else mixed? ks
  | step, [.number] => some .number
  | step, [.datetime] => some .datetime
  | textAndNumbers, .text :: ks => if ks.all (· == .number) then some .text else none
  | fixedPoint, [.text, .number] => some .number
  | fixedPoint, [.number, .number] => some .number
  | _, _ => none

end Signature

/-- The operands of the functions of numbers, of texts, and of both. -/
def Builtin.signature? : Builtin → Option Signature
  | add => some .sum
  | sub => some .difference
  | inc | dec => some .step
  | mul | div | remainder | fmod | pow | land | lor | and | or | xor | shl | shr =>
    some (.all .number .number)
  | uminus | abs | factorial | sqr | sqrt | ceil | floor | round | trunc | rint | lnot | not =>
    some (.all .number .number)
  | sin | cos | tan | asin | acos | atan | sec | csc | cot | log | log2 | log10 | exp | exp2
  | exp10 => some (.all .number .number)
  | concat | lower | upper | proper => some (.all .text .text)
  | strlen => some (.all .text .number)
  | str => some (.all .number .text)
  | left | right | mid => some .textAndNumbers
  | fxpval => some .fixedPoint
  | _ => none

variable {α β : Type} {args : List Value} {r? : Option Kind} {x : Except Value α} {p : Precision}
  {c : Context}

/-- A computation that looks for errors first, for wrong kinds then, and for nulls last. -/
structure InOrder (args : List Value) (r? : Option Kind) (x : Except Value α) : Prop where
  errors : ∀ m, args.findSome? Value.errorMessage? = some m → x = .error (.error m)
  kinds : surfaceErrors args = .ok () → r? = none → x = invalid
  nulls : surfaceErrors args = .ok () → ∀ k, r? = some k → args.any Value.isNull = true →
    x = .error (.null k)

namespace InOrder

/-- What comes after the checks is not looked at. -/
theorem bind (h : InOrder args r? x) (f : α → Except Value β) : InOrder args r? (x >>= f) where
  errors m hm := by
    rw [h.errors m hm]
    rfl
  kinds hok hr := by
    rw [h.kinds hok hr]
    rfl
  nulls hok k hk hn := by
    rw [h.nulls hok k hk hn]
    rfl

theorem atLeast (h : InOrder args r? x) {n : Nat} (hn : n ≤ args.length) :
    InOrder args r? (Operands.atLeast args n >>= fun _ => x) := by
  rw [atLeast_of_le hn]
  exact h

/-- A check of kinds and nulls after errors were looked for. -/
theorem surface {f : Unit → Except Value α} (hkinds : r? = none → f () = invalid)
    (hnulls : surfaceErrors args = .ok () → ∀ k, r? = some k → args.any Value.isNull = true →
      f () = .error (.null k)) :
    InOrder args r? (surfaceErrors args >>= f) where
  errors m hm := by
    rw [surfaceErrors, hm]
    rfl
  kinds hok hr := by
    rw [hok]
    exact hkinds hr
  nulls hok k hk hn := by
    rw [hok]
    exact hnulls hok k hk hn

end InOrder

theorem Operands.nullIfAny_of_any {k : Kind} (h : args.any Value.isNull = true) :
    nullIfAny args k = .error (.null k) := if_pos h

namespace Signature

theorem all_kind (args : List Value) (k : Kind) :
    (args.map Value.kind).all (· == k) = args.all (fun a => a.kind == k) := List.all_map

theorem all_kind_iff {k : Kind} :
    (args.map Value.kind).all (· == k) = true ↔ countKind args k = args.length := by
  rw [all_kind, countKind_eq_length, List.all_eq_true]
  simp only [beq_iff_eq]

/-- Numbers and dates are counted apart. -/
theorem countKind_add_eq (args : List Value) :
    countKind args .datetime + countKind args .number =
      args.countP fun v => v.kind == .number || v.kind == .datetime := by
  induction args with
  | nil => rfl
  | cons v args ih =>
    rw [countKind_cons, countKind_cons, List.countP_cons, ← ih]
    cases v.kind <;> simp <;> omega

theorem contains_kind {k : Kind} : (args.map Value.kind).contains k = true ↔ countKind args k ≠ 0 := by
  rw [List.contains_iff_mem, List.mem_map, countKind, ← Nat.pos_iff_ne_zero, List.countP_pos_iff]
  simp only [beq_iff_eq]

theorem mixed?_eq (args : List Value) :
    mixed? (args.map Value.kind) =
      if countKind args .datetime = 0 ∨
          countKind args .datetime + countKind args .number ≠ args.length then none
      else some .datetime := by
  have hall : (args.map Value.kind).all (fun k => k == .number || k == .datetime) = true ↔
      countKind args .datetime + countKind args .number = args.length := by
    rw [countKind_add_eq, List.countP_eq_length, List.all_map, List.all_eq_true]
    rfl
  unfold mixed?
  split
  · rename_i h
    rw [Bool.and_eq_true, hall, contains_kind] at h
    rw [if_neg (not_or.2 ⟨h.2, not_not.2 h.1⟩)]
  · rename_i h
    rw [Bool.and_eq_true, hall, contains_kind, not_and_or, not_not] at h
    rw [if_pos h.symm]

theorem eq_of_mixed? {ks : List Kind} {k : Kind} (h : mixed? ks = some k) : k = .datetime := by
  unfold mixed? at h
  split at h <;> cases h
  rfl

end Signature

/-! Functions of one kind of operands -/

theorem InOrder.check (args : List Value) (k r : Kind) :
    InOrder args ((Signature.all k r).result? (args.map Value.kind)) (Operands.check args k r) := by
  apply InOrder.surface
  all_goals rw [Signature.result?, Signature.all_kind, requireKind]
  · intro hr
    split at hr
    · cases hr
    · rename_i hk
      rw [if_neg hk]
      rfl
  · intro _ l hl hn
    split at hl
    · rename_i hk
      cases hl
      rw [if_pos hk]
      exact nullIfAny_of_any hn
    · cases hl

theorem Operands.inOrder_unary (f : Decimal → Option Decimal) :
    InOrder args ((Signature.all .number .number).result? (args.map Value.kind)) (unary args f) :=
  (InOrder.check args _ _).bind _

theorem Operands.inOrder_binary (f : Decimal → Decimal → Option Decimal) (failure : Value) :
    InOrder args ((Signature.all .number .number).result? (args.map Value.kind))
      (binary args f failure) := (InOrder.check args _ _).bind _

variable (h2 : 2 ≤ args.length)

namespace Arithmetic

theorem inOrder_complement :
    InOrder args ((Signature.all .number .number).result? (args.map Value.kind))
      (complement args) := (InOrder.check args _ _).bind _

theorem inOrder_shift (f : Int → Nat → Int) :
    InOrder args ((Signature.all .number .number).result? (args.map Value.kind)) (shift args f) :=
  (InOrder.check args _ _).bind _

include h2

theorem inOrder_mul :
    InOrder args ((Signature.all .number .number).result? (args.map Value.kind)) (mul args p) :=
  ((InOrder.check args _ _).bind _).atLeast h2

theorem inOrder_div :
    InOrder args ((Signature.all .number .number).result? (args.map Value.kind)) (div args p) :=
  ((InOrder.check args _ _).bind _).atLeast h2

theorem inOrder_logical (f : List Bool → Bool) :
    InOrder args ((Signature.all .number .number).result? (args.map Value.kind))
      (logical args f) := ((InOrder.check args _ _).bind _).atLeast h2

theorem inOrder_bitwise (f : BitVec 64 → BitVec 64 → BitVec 64) :
    InOrder args ((Signature.all .number .number).result? (args.map Value.kind))
      (bitwise args f) := ((InOrder.check args _ _).bind _).atLeast h2

omit h2

/-! Sums and differences -/

variable {step : Term → Term → Except Value Term}

theorem foldMixed_of_none (h : Signature.mixed? (args.map Value.kind) = none) :
    foldMixed step args = invalid := by
  rw [Signature.mixed?_eq] at h
  split at h
  · rename_i hmixed
    exact if_pos hmixed
  · cases h

theorem foldMixed_of_null {k : Kind} (h : Signature.mixed? (args.map Value.kind) = some k)
    (hn : args.any Value.isNull = true) : foldMixed step args = .error (.null k) := by
  rw [Signature.mixed?_eq] at h
  split at h
  · cases h
  · rename_i hmixed
    cases h
    rw [foldMixed, if_neg hmixed, nullIfAny_of_any hn]
    rfl

/-- Numbers that are combined give a null if there is one among them. -/
theorem foldNumbers_of_null {f : Decimal → Decimal → Decimal} (hok : surfaceErrors args = .ok ())
    (hall : countKind args .number = args.length) (hn : args.any Value.isNull = true) :
    foldNumbers f args = .error (.null .number) :=
  ((InOrder.check args _ _).bind _).nulls hok .number
    (if_pos (Signature.all_kind_iff.2 hall)) hn

theorem inOrder_add (h2 : 2 ≤ args.length) :
    InOrder args (Signature.sum.result? (args.map Value.kind)) (add args p) := by
  refine (InOrder.surface ?_ ?_).atLeast h2
  all_goals simp only [Signature.result?, Signature.all_kind_iff]
  · split
    · nofun
    split
    · nofun
    · exact foldMixed_of_none
  · intro hok k hk hn
    split at hk
    · rename_i hnum
      cases hk
      rw [if_pos hnum]
      exact foldNumbers_of_null hok hnum hn
    rename_i hnum
    rw [if_neg hnum]
    split at hk
    · rename_i htext
      cases hk
      rw [if_pos htext]
      exact ((InOrder.check args .text .text).bind _).nulls hok .text
        (if_pos (Signature.all_kind_iff.2 htext)) hn
    · rename_i htext
      rw [if_neg htext]
      exact foldMixed_of_null hk hn

theorem inOrder_sub (h2 : 2 ≤ args.length) :
    InOrder args (Signature.difference.result? (args.map Value.kind)) (sub args p) := by
  refine (InOrder.surface ?_ ?_).atLeast h2
  all_goals simp only [Signature.result?, Signature.all_kind_iff]
  · split
    · nofun
    · exact foldMixed_of_none
  · intro hok k hk hn
    split at hk
    · rename_i hnum
      cases hk
      rw [if_pos hnum]
      exact foldNumbers_of_null hok hnum hn
    · rename_i hnum
      rw [if_neg hnum]
      exact foldMixed_of_null hk hn

theorem inOrder_step (h1 : args.length = 1) (n : Int) :
    InOrder args (Signature.step.result? (args.map Value.kind)) (Arithmetic.step args n p) := by
  obtain ⟨v, rfl⟩ := List.length_eq_one_iff.1 h1
  obtain ⟨declared, isNull, payload⟩ := v
  apply InOrder.surface
  · cases payload with
    | error m => exact fun _ => rfl
    | text s => exact fun _ => rfl
    | number n => nofun
    | datetime t => nofun
  · intro _ k hk hn
    obtain rfl : isNull = true := by
      simpa only [List.any_cons, List.any_nil, Bool.or_false] using hn
    cases payload with
    | error m => cases hk
    | text s => cases hk
    | number n =>
      cases hk
      rfl
    | datetime t =>
      cases hk
      rfl

end Arithmetic

namespace Texts

theorem inOrder_concat (h2 : 2 ≤ args.length) :
    InOrder args ((Signature.all .text .text).result? (args.map Value.kind)) (concat args) :=
  ((InOrder.check args _ _).bind _).atLeast h2

theorem inOrder_map (f : List Char → List Char) :
    InOrder args ((Signature.all .text .text).result? (args.map Value.kind)) (map args f) :=
  (InOrder.check args _ _).bind _

theorem inOrder_length :
    InOrder args ((Signature.all .text .number).result? (args.map Value.kind)) (length args) :=
  (InOrder.check args _ _).bind _

theorem inOrder_str :
    InOrder args ((Signature.all .number .text).result? (args.map Value.kind)) (str args p) :=
  (InOrder.check args _ _).bind _

theorem inOrder_textAndNumbers (args : List Value) :
    InOrder args (Signature.textAndNumbers.result? (args.map Value.kind)) (textAndNumbers args) := by
  cases args with
  | nil => exact .surface (fun _ => rfl) nofun
  | cons v vs =>
    have hcond : Signature.textAndNumbers.result? ((v :: vs).map Value.kind) =
        if v.kind ≠ .text ∨ (vs.any fun n => n.kind != .number) = true then none
        else some .text := by
      rw [List.map_cons]
      cases hk : v.kind with
      | text =>
        rw [Signature.result?, Signature.all_kind, List.any_eq_not_all_not]
        simp only [bne, Bool.not_not]
        cases vs.all fun v => v.kind == .number <;> rfl
      | error | number | datetime => rfl
    rw [hcond]
    apply InOrder.surface
    · dsimp only
      split
      · exact fun _ => rfl
      · nofun
    · intro _ k hk hn
      dsimp only
      split at hk
      · cases hk
      · rename_i hfit
        cases hk
        rw [if_neg hfit, nullIfAny_of_any hn]
        rfl

theorem inOrder_fixedPoint (h2 : args.length = 2) :
    InOrder args (Signature.fixedPoint.result? (args.map Value.kind)) (fixedPoint args p) := by
  obtain ⟨v, w, rfl⟩ := List.length_eq_two.1 h2
  have hcond : Signature.fixedPoint.result? ([v, w].map Value.kind) =
      if (v.kind ≠ .text ∧ v.kind ≠ .number) ∨ w.kind ≠ .number then none else some .number := by
    simp only [List.map_cons, List.map_nil]
    cases v.kind <;> cases w.kind <;> rfl
  rw [hcond]
  apply InOrder.surface
  · dsimp only
    split
    · exact fun _ => rfl
    · nofun
  · intro _ k hk hn
    dsimp only
    split at hk
    · cases hk
    · rename_i hfit
      cases hk
      rw [if_neg hfit, nullIfAny_of_any hn]
      rfl

end Texts

/-- Functions of any number of operands take two at least, a step takes one, and a number with
fixed decimals is read from two. -/
theorem Entry.arity_of_signature : ∀ e ∈ Entry.all,
    (e.builtin ∈ [.add, .sub, .mul, .div, .land, .lor, .and, .or, .xor, .concat] →
      e.arity = .variadic) ∧
    (e.builtin ∈ [.inc, .dec] → e.arity = .exact 1) ∧
    (e.builtin = .fxpval → e.arity = .exact 2) := by
  decide

theorem Builtin.inOrder_apply {e : Entry} {s : Signature} (he : e ∈ Entry.all)
    (hs : e.builtin.signature? = some s) (hlen : e.arity.accepts args.length = true)
    (h2 : e.arity = .variadic → 2 ≤ args.length) :
    InOrder args (s.result? (args.map Value.kind)) (e.builtin.apply args c) := by
  obtain ⟨hvariadic, hone, htwo⟩ := Entry.arity_of_signature e he
  have hexact : ∀ n, e.arity = .exact n → args.length = n := by
    intro n hn
    rw [hn, Arity.accepts, beq_iff_eq] at hlen
    exact hlen.symm
  generalize e.builtin = b at *
  unfold Builtin.apply
  cases b with
  | add => cases hs; exact Arithmetic.inOrder_add (h2 (hvariadic (by decide)))
  | sub => cases hs; exact Arithmetic.inOrder_sub (h2 (hvariadic (by decide)))
  | mul => cases hs; exact Arithmetic.inOrder_mul (h2 (hvariadic (by decide)))
  | div => cases hs; exact Arithmetic.inOrder_div (h2 (hvariadic (by decide)))
  | land | lor => cases hs; exact Arithmetic.inOrder_logical (h2 (hvariadic (by decide))) _
  | and | or | xor => cases hs; exact Arithmetic.inOrder_bitwise (h2 (hvariadic (by decide))) _
  | concat => cases hs; exact Texts.inOrder_concat (h2 (hvariadic (by decide)))
  | inc | dec => cases hs; exact Arithmetic.inOrder_step (hexact 1 (hone (by decide))) _
  | fxpval => cases hs; exact Texts.inOrder_fixedPoint (hexact 2 (htwo rfl))
  | uminus | abs | factorial | sqr | sqrt | ceil | floor | round | trunc | rint | lnot =>
    cases hs; exact inOrder_unary _
  | sin | cos | tan | asin | acos | atan | sec | csc | cot => cases hs; exact inOrder_unary _
  | log | log2 | log10 | exp | exp2 | exp10 => cases hs; exact inOrder_unary _
  | remainder | fmod | pow => cases hs; exact inOrder_binary _ _
  | not => cases hs; exact Arithmetic.inOrder_complement
  | shl | shr => cases hs; exact Arithmetic.inOrder_shift _
  | left | right | mid => cases hs; exact (Texts.inOrder_textAndNumbers args).bind _
  | lower | upper | proper => cases hs; exact Texts.inOrder_map _
  | strlen => cases hs; exact Texts.inOrder_length
  | str => cases hs; exact Texts.inOrder_str
  | _ => cases hs

/-- No function has errors as the results that operands of fitting kinds call for. -/
theorem Builtin.result_ne_error {b : Builtin} {s : Signature} {ks : List Kind} {k : Kind}
    (hs : b.signature? = some s) (hk : s.result? ks = some k) : k ≠ .error := by
  have hall : ∀ operand result, s = .all operand result → result ≠ .error := by
    intro operand result h
    subst h
    cases b <;> cases hs <;> decide
  unfold Signature.result? at hk
  split at hk
  · split at hk
    · cases hk
      exact hall _ _ rfl
    · cases hk
  · split at hk
    · cases hk
      decide
    split at hk
    · cases hk
      decide
    · cases Signature.eq_of_mixed? hk
      decide
  · split at hk
    · cases hk
      decide
    · cases Signature.eq_of_mixed? hk
      decide
  · cases hk
    decide
  · cases hk
    decide
  · split at hk
    · cases hk
      decide
    · cases hk
  · cases hk
    decide
  · cases hk
    decide
  · cases hk

/-- What a function of numbers, of texts or of both gives for operands that it has no value for:
the first error among them; the failure of operands that do not fit, if their kinds are not
admitted; and otherwise, if there is a null, a null of the kind that the result would have. -/
theorem Function.apply_in_order {e : Entry} {s : Signature} (he : e ∈ Entry.all)
    (hs : e.builtin.signature? = some s) (hlen : e.arity.accepts args.length = true)
    (h2 : e.arity = .variadic → 2 ≤ args.length) (c : Context) :
    (∀ before v after m, args = before ++ v :: after → (∀ u ∈ before, u.isError = false) →
      v.errorMessage? = some m → (builtin e).apply args c = .error m) ∧
    ((∀ v ∈ args, v.isError = false) → s.result? (args.map Value.kind) = none →
      (builtin e).apply args c = .invalidOperands) ∧
    ((∀ v ∈ args, v.isError = false) → ∀ k, s.result? (args.map Value.kind) = some k →
      (∃ v ∈ args, v.isNull = true) → (builtin e).apply args c = .null k ∧ k ≠ .error) := by
  have h := Builtin.inOrder_apply (c := c) he hs hlen h2
  have happly : (builtin e).apply args c = (e.builtin.apply args c).value := if_pos hlen
  rw [happly]
  refine ⟨?_, ?_, ?_⟩
  · rintro before v after m rfl hbefore hv
    have hfirst : (before ++ v :: after).findSome? Value.errorMessage? = some m := by
      rw [List.findSome?_append, findSome?_errorMessage? hbefore, Option.none_or,
        List.findSome?_cons, hv]
    rw [h.errors m hfirst]
    rfl
  · intro hok hk
    rw [h.kinds (surfaceErrors_eq_ok hok) hk]
    rfl
  · intro hok k hk hn
    rw [h.nulls (surfaceErrors_eq_ok hok) k hk (List.any_eq_true.2 hn)]
    exact ⟨rfl, Builtin.result_ne_error hs hk⟩

/-- A quotient of the operands `"a"`, an error and another error, of a null and a text, and of a
null and zero. -/
theorem Function.apply_in_order_div :
    let e : Entry := ⟨"div", .div, .variadic, .leftAssoc⟩
    let c : Context := ⟨.ofBits 128 .nearest, .dayFirst, {}, .empty, .current⟩
    (builtin e).apply [.text "a", .error "first", .error "second"] c = .error "first" ∧
      (builtin e).apply [.null .number, .text "a"] c = .invalidOperands ∧
      (builtin e).apply [.null .number, .ofInt 0] c = .null .number := by
  intro e c
  have he : e ∈ Entry.all := by decide
  have h (args : List Value) (h2 : 2 ≤ args.length) :=
    apply_in_order he rfl (show e.arity.accepts args.length = true from rfl) (fun _ => h2) c
  refine ⟨?_, ?_, ?_⟩
  · exact (h _ (by decide)).1 [.text "a"] _ _ _ rfl (by decide) rfl
  · exact (h _ (by decide)).2.1 (by decide) rfl
  · exact ((h _ (by decide)).2.2 (by decide) _ rfl ⟨_, List.mem_cons_self, rfl⟩).1

end Reporting
