import Reporting.Proofs.Expr.Memory
import Reporting.Proofs.Function.Traits
/-!
How simplifying lays out the operands of a call: what is joined is not joined again, and number
constants are moved to the place of the first one.
-/
namespace Reporting.Expr

variable {c : Context} {self : Option Value} {e : Expr} {es before : List Expr} {f g : Function}
  {ring : Ring (Option Cell)} {grouped first : Bool} {v : Value}

@[simp] theorem simplifyAll_eq_map (c : Context) (es : List Expr) :
    simplifyAll c es = es.map (simplify c) := by
  induction es with
  | nil => rfl
  | cons e es ih =>
    change simplify c e :: simplifyAll c es = _
    rw [ih, List.map_cons]

/-- A call is simplified when its operands are. -/
theorem simplify_call (c : Context) (f : Function) (es : List Expr) (ring : Ring (Option Cell))
    (grouped : Bool) :
    simplify c (call f es ring grouped) = simplifyCall c f (es.map (simplify c)) ring grouped := by
  rw [← simplifyAll_eq_map]
  rfl

theorem joinAll_nil (f : Function) (before : List Expr) : joinAll f before [] = before := rfl

theorem joinAll_cons (f : Function) (before : List Expr) (e : Expr) (es : List Expr) :
    joinAll f before (e :: es) = joinAll f (join f before e) es := rfl

theorem joinAll_append (f : Function) (before xs ys : List Expr) :
    joinAll f before (xs ++ ys) = joinAll f (joinAll f before xs) ys := by
  induction xs generalizing before with
  | nil => rfl
  | cons e es ih => rw [List.cons_append, joinAll_cons, joinAll_cons, ih]

theorem joinAll_singleton (f : Function) (before : List Expr) (e : Expr) :
    joinAll f before [e] = join f before e := rfl

@[simp] theorem join_constant (f : Function) (before : List Expr) (v : Value) (grouped : Bool) :
    join f before (constant v grouped) = before ++ [constant v grouped] := rfl

@[simp] theorem join_reference (f : Function) (before : List Expr) (r : Reference)
    (t : Option Source) (grouped : Bool) :
    join f before (reference r t grouped) = before ++ [reference r t grouped] := rfl

theorem join_call (f : Function) (before : List Expr) (g : Function) (es : List Expr)
    (ring : Ring (Option Cell)) (grouped : Bool) :
    join f before (call g es ring grouped) =
      if g.sameAs f && joins f before.isEmpty grouped then joinAll f before es
      else before ++ [call g es ring grouped] := rfl

theorem join_call_of_joins (h : (g.sameAs f && joins f before.isEmpty grouped) = true) :
    join f before (call g es ring grouped) = joinAll f before es := by
  rw [join_call, if_pos h]

theorem join_call_of_not_joins (h : ¬(g.sameAs f && joins f before.isEmpty grouped) = true) :
    join f before (call g es ring grouped) = before ++ [call g es ring grouped] := by
  rw [join_call, if_neg h]

/-- Whether an expression calls a function. -/
def callsSame (f : Function) : Expr → Bool
  | call g _ _ _ => g.sameAs f
  | _ => false

/-- An operand that does not call the function is appended as it is. -/
theorem join_other (h : e.callsSame f = false) (before : List Expr) :
    join f before e = before ++ [e] := by
  cases e with
  | constant => exact join_constant ..
  | reference => exact join_reference ..
  | call g operands ring grouped =>
    have hg : g.sameAs f = false := h
    exact join_call_of_not_joins (by rw [hg, Bool.false_and]; exact Bool.false_ne_true)

/-- What appending an operand keeps, appending operands keeps. -/
theorem joinAll_of_join {P : List Expr → Prop}
    (h : ∀ e ∈ es, ∀ before, P before → P (join f before e)) (hP : P before) :
    P (joinAll f before es) := by
  induction es generalizing before with
  | nil => exact hP
  | cons e es ih =>
    exact ih (fun e he => h e (List.mem_cons_of_mem _ he)) (h e List.mem_cons_self before hP)

/-- Operands that were joined stay as they are when they are joined again. -/
theorem joinAll_join (f : Function) (e : Expr) (before : List Expr)
    (h : joinAll f [] before = before) : joinAll f [] (join f before e) = join f before e := by
  have hlast (hj : join f before e = before ++ [e]) :
      joinAll f [] (join f before e) = join f before e := by
    conv_lhs => rw [hj, joinAll_append, h, joinAll_singleton]
  induction e using tree_induction generalizing before with
  | constant v grouped => exact hlast (join_constant ..)
  | reference r t grouped => exact hlast (join_reference ..)
  | call g operands ring grouped ih =>
    by_cases hj : (g.sameAs f && joins f before.isEmpty grouped) = true
    · rw [join_call_of_joins hj]
      refine joinAll_of_join (P := fun es => joinAll f [] es = es) (fun e he before h => ?_) h
      refine ih e he before h fun hj => ?_
      conv_lhs => rw [hj, joinAll_append, h, joinAll_singleton]
    · exact hlast (join_call_of_not_joins hj)

theorem joinAll_joinAll (f : Function) (es : List Expr) :
    joinAll f [] (joinAll f [] es) = joinAll f [] es :=
  joinAll_of_join (P := fun es => joinAll f [] es = es) (fun e _ before h => joinAll_join f e before h) rfl

theorem flatMap_join_of_not_callsSame (h : ∀ e ∈ es, callsSame f e = false) :
    es.flatMap (join f []) = es := by
  induction es with
  | nil => rfl
  | cons e es ih =>
    rw [List.flatMap_cons, join_other (h e List.mem_cons_self),
      ih fun e he => h e (List.mem_cons_of_mem _ he)]
    rfl

theorem joinAll_of_not_joins (hf : ∀ first grouped, joins f first grouped = false)
    (before es : List Expr) : joinAll f before es = before ++ es := by
  induction es generalizing before with
  | nil => rw [joinAll_nil, List.append_nil]
  | cons e es ih =>
    have hjoin : join f before e = before ++ [e] := by
      cases e with
      | constant => exact join_constant ..
      | reference => exact join_reference ..
      | call g operands ring grouped =>
        exact join_call_of_not_joins (by rw [hf, Bool.and_false]; exact Bool.false_ne_true)
    rw [joinAll_cons, hjoin, ih, List.append_assoc, List.singleton_append]

section Free

variable (hf : ∀ first grouped, joins f first grouped = true)
include hf

theorem join_eq_append (before : List Expr) (e : Expr) :
    join f before e = before ++ join f [] e := by
  induction e using tree_induction generalizing before with
  | constant => simp only [join_constant, List.nil_append]
  | reference => simp only [join_reference, List.nil_append]
  | call g operands ring grouped ih =>
    cases hg : g.sameAs f with
    | false =>
      have hcall : callsSame f (call g operands ring grouped) = false := hg
      rw [join_other hcall, join_other hcall, List.nil_append]
    | true =>
      have hj (before : List Expr) : (g.sameAs f && joins f before.isEmpty grouped) = true := by
        rw [hg, hf, Bool.true_and]
      rw [join_call_of_joins (hj before), join_call_of_joins (hj [])]
      clear hj
      induction operands generalizing before with
      | nil => rw [joinAll_nil, joinAll_nil, List.append_nil]
      | cons e es ihs =>
        have ihs := ihs fun e he => ih e (List.mem_cons_of_mem _ he)
        rw [joinAll_cons, joinAll_cons, ihs, ih e List.mem_cons_self before, ihs (join f [] e),
          List.append_assoc]

theorem joinAll_eq_flatMap (before es : List Expr) :
    joinAll f before es = before ++ es.flatMap (join f []) := by
  induction es generalizing before with
  | nil => rw [joinAll_nil, List.flatMap_nil, List.append_nil]
  | cons e es ih =>
    rw [joinAll_cons, ih, join_eq_append hf, List.flatMap_cons, List.append_assoc]

theorem join_call_free (hg : g.sameAs f = true) :
    join f [] (call g es ring grouped) = es.flatMap (join f []) := by
  rw [join_call_of_joins (by rw [hg, hf, Bool.true_and]), joinAll_eq_flatMap hf, List.nil_append]

/-- What is joined contains no call of the function. -/
theorem callsSame_of_mem_join (e : Expr) : ∀ x ∈ join f [] e, callsSame f x = false := by
  induction e using tree_induction with
  | constant =>
    simp only [join_constant, List.nil_append, List.mem_singleton, forall_eq, callsSame]
  | reference =>
    simp only [join_reference, List.nil_append, List.mem_singleton, forall_eq, callsSame]
  | call g operands ring grouped ih =>
    cases hg : g.sameAs f with
    | false =>
      have hcall : callsSame f (call g operands ring grouped) = false := hg
      rw [join_other hcall, List.nil_append]
      exact List.forall_mem_singleton.2 hcall
    | true =>
      rw [join_call_free hf hg]
      intro x hx
      obtain ⟨e, he, hx⟩ := List.mem_flatMap.1 hx
      exact ih e he x hx

end Free

/-! Putting number constants together -/

/-- The operands that are not constants. -/
def nonConstants (es : List Expr) : List Expr := es.filter fun e => !e.isConstant

theorem replaceConstants_found (v : Value) (es : List Expr) :
    replaceConstants v true es = nonConstants es := by
  induction es with
  | nil => rfl
  | cons e es ih =>
    cases e with
    | constant => exact ih
    | reference => exact congrArg _ ih
    | call => exact congrArg _ ih

/-- The first constant is replaced, and the later ones are dropped. -/
theorem replaceConstants_eq (v : Value) (h : es.filterMap constant? ≠ []) :
    ∃ first k grouped rest, es = first ++ constant k grouped :: rest ∧
      first.filterMap constant? = [] ∧ nonConstants first = first ∧
      replaceConstants v false es = first ++ constant v false :: nonConstants rest := by
  induction es with
  | nil => contradiction
  | cons e es ih =>
    cases e with
    | constant k grouped =>
      refine ⟨[], k, grouped, es, rfl, rfl, rfl, ?_⟩
      exact congrArg _ (replaceConstants_found v es)
    | reference r t grouped =>
      obtain ⟨first, k, g, rest, rfl, hnone, hvars, heq⟩ := ih h
      exact ⟨reference r t grouped :: first, k, g, rest, rfl, hnone, congrArg _ hvars,
        congrArg _ heq⟩
    | call f operands ring grouped =>
      obtain ⟨first, k, g, rest, rfl, hnone, hvars, heq⟩ := ih h
      exact ⟨call f operands ring grouped :: first, k, g, rest, rfl, hnone, congrArg _ hvars,
        congrArg _ heq⟩

/-- Number constants move in front of the other operands. -/
theorem regroups_constants {F : List Value → Value}
    (h : ∀ k ∈ es.filterMap constant?, isPlainNumber k = true) :
    Regroups F (es.map (meaning c self))
      (es.filterMap constant? ++ (nonConstants es).map (meaning c self)) := by
  induction es with
  | nil => exact Regroups.refl _
  | cons e es ih =>
    have hother (hc : constant? e = none) (hv : nonConstants (e :: es) = e :: nonConstants es) :
        Regroups F ((e :: es).map (meaning c self))
          ((e :: es).filterMap constant? ++ (nonConstants (e :: es)).map (meaning c self)) := by
      rw [List.filterMap_cons_none hc] at h ⊢
      rw [hv, List.map_cons, List.map_cons]
      have hrest := (ih h).within [e.meaning c self] []
      have hbehind := (Regroups.behind (f := F) (v := e.meaning c self) h).within []
        ((nonConstants es).map (meaning c self))
      simp only [List.append_nil, List.nil_append, List.cons_append, List.append_assoc]
        at hrest hbehind
      exact hrest.trans hbehind
    cases e with
    | constant k grouped =>
      have hrest := (ih fun k hk => h k (List.mem_cons_of_mem _ hk)).within [k] []
      simp only [List.append_nil, List.cons_append, List.nil_append] at hrest
      exact hrest
    | reference => exact hother rfl rfl
    | call => exact hother rfl rfl

theorem length_nonConstants (es : List Expr) :
    (es.filterMap constant?).length + (nonConstants es).length = es.length := by
  induction es with
  | nil => rfl
  | cons e es ih =>
    cases e with
    | constant k grouped =>
      change (es.filterMap constant?).length + 1 + (nonConstants es).length = _
      rw [List.length_cons]
      omega
    | reference r t grouped =>
      change (es.filterMap constant?).length + ((nonConstants es).length + 1) = _
      rw [List.length_cons]
      omega
    | call f operands ring grouped =>
      change (es.filterMap constant?).length + ((nonConstants es).length + 1) = _
      rw [List.length_cons]
      omega

theorem nonConstants_append (xs ys : List Expr) :
    nonConstants (xs ++ ys) = nonConstants xs ++ nonConstants ys := List.filter_append ..

theorem gather_cases (c : Context) (f : Function) (es : List Expr) :
    gather c f es = es ∨
      2 ≤ (es.filterMap constant?).length ∧ (es.filterMap constant?).length ≠ es.length ∧
        (∀ k ∈ es.filterMap constant?, isPlainNumber k = true) ∧
        (f.apply (es.filterMap constant?) c).isError = false ∧
        gather c f es = replaceConstants (f.apply (es.filterMap constant?) c) false es := by
  simp only [gather]
  split
  · rename_i hcond
    simp only [Bool.and_eq_true, decide_eq_true_eq, bne_iff_ne, List.all_eq_true] at hcond
    obtain ⟨⟨⟨-, htwo⟩, hmixed⟩, hplain⟩ := hcond
    split
    · exact .inl rfl
    · rename_i hv
      exact .inr ⟨htwo, hmixed, hplain, Bool.eq_false_iff.2 hv, rfl⟩
  · exact .inl rfl

theorem mem_replaceConstants {x : Expr} {found : Bool} (h : x ∈ replaceConstants v found es) :
    x ∈ es ∨ x = constant v false := by
  induction es generalizing found with
  | nil => cases h
  | cons e es ih =>
    have hrest {found : Bool} (h : x ∈ replaceConstants v found es) :
        x ∈ e :: es ∨ x = constant v false := (ih h).imp_left (List.mem_cons_of_mem e)
    have hcons {found : Bool} (h : x ∈ e :: replaceConstants v found es) :
        x ∈ e :: es ∨ x = constant v false := by
      rcases List.mem_cons.1 h with rfl | h
      · exact .inl List.mem_cons_self
      · exact hrest h
    cases e with
    | constant k grouped =>
      cases found with
      | true => exact hrest h
      | false =>
        rcases List.mem_cons.1 h with rfl | h
        · exact .inr rfl
        · exact hrest h
    | reference => exact hcons h
    | call => exact hcons h

theorem mem_gather {x : Expr} (h : x ∈ gather c f es) : x ∈ es ∨ ∃ v, x = constant v false := by
  rcases gather_cases c f es with heq | ⟨-, -, -, -, heq⟩
  · exact .inl (heq ▸ h)
  · rw [heq] at h
    exact (mem_replaceConstants h).imp_right fun h => ⟨_, h⟩

theorem gather_of_not_commAssoc (h : f.traits.isCommAssoc = false) (c : Context)
    (es : List Expr) : gather c f es = es := by
  simp only [gather, h, Bool.and_false, Bool.false_and, Bool.false_eq_true, if_false]

/-- Putting constants together regroups the operands, and leaves two of them. -/
theorem regroups_gather {c₀ : Context} (hF : ∀ vs, f.apply vs c₀ = f.apply vs c)
    (h : 2 ≤ es.length) (self : Option Value) :
    Regroups (fun vs => f.apply vs c) (es.map (meaning c self))
        ((gather c₀ f es).map (meaning c self)) ∧
      2 ≤ (gather c₀ f es).length := by
  rcases gather_cases c₀ f es with heq | ⟨htwo, hmixed, hplain, hv, heq⟩
  · rw [heq]
    exact ⟨Regroups.refl _, h⟩
  have hne : es.filterMap constant? ≠ [] := List.ne_nil_of_length_pos (by omega)
  obtain ⟨first, k, grouped, rest, hes, hnone, hvars, hrep⟩ :=
    replaceConstants_eq (f.apply (es.filterMap constant?) c₀) hne
  have hks : es.filterMap constant? = k :: rest.filterMap constant? := by
    rw [hes, List.filterMap_append, hnone]
    rfl
  have hmap : es.map (meaning c self) =
      first.map (meaning c self) ++ k :: rest.map (meaning c self) := by
    rw [hes, List.map_append]
    rfl
  rw [heq, hrep]
  constructor
  · have hmove : Regroups (fun vs => f.apply vs c) (es.map (meaning c self))
        (first.map (meaning c self) ++ es.filterMap constant? ++
          (nonConstants rest).map (meaning c self)) := by
      have hrest : ∀ k' ∈ rest.filterMap constant?, isPlainNumber k' = true :=
        fun k' hk' => hplain k' (by rw [hks]; exact List.mem_cons_of_mem _ hk')
      have hmove : Regroups (fun vs => f.apply vs c) (rest.map (meaning c self))
          (rest.filterMap constant? ++ (nonConstants rest).map (meaning c self)) :=
        regroups_constants hrest
      have hmove := hmove.within (first.map (meaning c self) ++ [k]) []
      simpa only [hmap, hks, List.append_nil, List.append_assoc, List.cons_append,
        List.nil_append] using hmove
    have hgroup := Regroup.group (f := fun vs => f.apply vs c)
      (first.map (meaning c self)) (es.filterMap constant?)
      ((nonConstants rest).map (meaning c self)) htwo (by rw [← hF]; exact hv)
    rw [hF, List.map_append, List.map_cons]
    exact hmove.trans (Relation.ReflTransGen.single hgroup)
  · have hlen := length_nonConstants es
    have hnon : nonConstants es = first ++ nonConstants rest := by
      rw [hes, nonConstants_append, hvars]
      rfl
    rw [hnon, List.length_append] at hlen
    rw [List.length_append, List.length_cons]
    omega

end Reporting.Expr
