import Reporting.Proofs.Expr.Compiled
/-!
Binding and simplifying once more. A tree that was bound and simplified stays as it is, unless
simplifying has found the name of a counter; and the values that its calls hold have no part in this.
-/
namespace Reporting.Expr

variable {c : Context} {e : Expr} {es : List Expr} {f : Function} {ring : Ring (Option Cell)}
  {g : Bool} {s : Scope} {v : Value} {name : Option String}

/-! Simplifying once more -/

/-- A call that is not simplified any further. -/
def Simplified (c : Context) : Expr → Prop
  | call f operands _ _ =>
    flat f operands = operands ∧ folds f operands = false ∧ gather c f operands = operands
  | _ => True

theorem simplify_of_simplified (h : e.Every (Simplified c)) : e.simplify c = e := by
  induction e using tree_induction with
  | constant => rfl
  | reference => rfl
  | call f es ring g ih =>
    obtain ⟨hflat, hfolds, hgather⟩ := h.node
    have hops : es.map (simplify c) = es := by
      conv_rhs => rw [← List.map_id es]
      exact List.map_congr_left fun e he => ih e he (h.operand he)
    unfold flat at hflat
    rw [simplify_call, hops]
    unfold simplifyCall
    dsimp only
    rw [hflat, hfolds, hgather, if_neg Bool.false_ne_true]

theorem nonConstants_replaceConstants (v : Value) (found : Bool) (es : List Expr) :
    nonConstants (replaceConstants v found es) = nonConstants es := by
  induction es generalizing found with
  | nil => rfl
  | cons e es ih =>
    cases e with
    | constant =>
      cases found with
      | false => exact ih true
      | true => exact ih true
    | reference r t g => exact congrArg (reference r t g :: ·) (ih found)
    | call f es ring g => exact congrArg (call f es ring g :: ·) (ih found)

theorem constants_replaceConstants (v : Value) (es : List Expr) :
    ((replaceConstants v true es).filterMap constant?).length = 0 ∧
      ((replaceConstants v false es).filterMap constant?).length ≤ 1 := by
  induction es with
  | nil => exact ⟨rfl, Nat.zero_le 1⟩
  | cons e es ih =>
    cases e with
    | constant => exact ⟨ih.1, Nat.succ_le_succ (Nat.le_of_eq ih.1)⟩
    | reference => exact ih
    | call => exact ih

theorem gather_of_few (h : (es.filterMap constant?).length < 2) (c : Context) (f : Function) :
    gather c f es = es := by
  rcases gather_cases c f es with heq | ⟨htwo, -⟩
  · exact heq
  · omega

theorem gather_gather (c : Context) (f : Function) (es : List Expr) :
    gather c f (gather c f es) = gather c f es := by
  rcases gather_cases c f es with heq | ⟨-, -, -, -, heq⟩
  · rw [heq, heq]
  · rw [heq]
    exact gather_of_few (Nat.lt_succ_of_le (constants_replaceConstants _ es).2) c f

theorem gather_of_volatile (h : f.traits.volatileCall = true) (c : Context) (es : List Expr) :
    gather c f es = es := by
  simp only [gather, h, Bool.not_true, Bool.false_and, Bool.false_eq_true, if_false]

theorem folds_gather (h : folds f es = false) (c : Context) : folds f (gather c f es) = false := by
  rcases gather_cases c f es with heq | ⟨-, hmixed, -, -, heq⟩
  · rw [heq, h]
  · -- an operand that is no constant stays
    have hlength := length_nonConstants es
    have hsome : nonConstants es ≠ [] := by
      intro hnil
      rw [hnil, List.length_nil] at hlength
      exact hmixed hlength
    rw [← nonConstants_replaceConstants (f.apply (es.filterMap constant?) c) false, ← heq] at hsome
    obtain ⟨e, he⟩ := List.exists_mem_of_ne_nil _ hsome
    obtain ⟨hmem, hconstant⟩ := List.mem_filter.1 he
    have hall : (gather c f es).all isConstant = false :=
      List.all_eq_false.2 ⟨e, hmem, by simpa using hconstant⟩
    rw [folds, hall, Bool.and_false]

theorem flat_flat (f : Function) (es : List Expr) : flat f (flat f es) = flat f es :=
  joinAll_joinAll f es

/-- The constant that takes the place of others joins nothing. -/
theorem flat_gather (h : flat f es = es) (c : Context) : flat f (gather c f es) = gather c f es := by
  cases hv : f.traits.volatileCall with
  | true => rw [gather_of_volatile hv, h]
  | false =>
    cases hc : f.traits.isCommAssoc with
    | false => rw [gather_of_not_commAssoc hc, h]
    | true =>
      have hfree (first grouped : Bool) : joins f first grouped = true := by
        rw [joins, hv, hc]
        rfl
      have hflat (es : List Expr) : flat f es = es.flatMap (join f []) := by
        rw [flat, joinAll_eq_flatMap hfree, List.nil_append]
      rw [hflat]
      apply flatMap_join_of_not_callsSame
      intro e he
      rcases mem_gather he with he | ⟨v, rfl⟩
      · rw [← h, hflat] at he
        obtain ⟨x, -, hx⟩ := List.mem_flatMap.1 he
        exact callsSame_of_mem_join hfree x e hx
      · rfl

/-- Simplifying leaves nothing to simplify. -/
theorem simplified_simplify (c : Context) (e : Expr) : (e.simplify c).Every (Simplified c) := by
  induction e using tree_induction with
  | constant => trivial
  | reference => trivial
  | call f es ring g ih =>
    have hops : ∀ x ∈ flat f (es.map (simplify c)), x.Every (Simplified c) := by
      apply joinAll_of_join (P := fun es => ∀ x ∈ es, x.Every (Simplified c))
      · intro x hx before hb
        obtain ⟨e, he, rfl⟩ := List.mem_map.1 hx
        exact every_join hb (ih e he)
      · exact List.forall_mem_nil _
    rw [simplify_call]
    unfold simplifyCall
    dsimp only
    change (if folds f (flat f _) then _ else call f (gather c f (flat f _)) ring g).Every _
    generalize hes : flat f (es.map (simplify c)) = flattened at hops
    have hflat : flat f flattened = flattened := by rw [← hes, flat_flat]
    cases hfolds : folds f flattened with
    | true => trivial
    | false =>
      rw [if_neg Bool.false_ne_true]
      apply every_call.2
      constructor
      · exact ⟨flat_gather hflat c, folds_gather hfolds c, gather_gather c f flattened⟩
      · intro x hx
        rcases mem_gather hx with hx | ⟨v, rfl⟩
        · exact hops x hx
        · trivial

/-! Binding once more -/

/-- The name by which a counter is found before evaluation, given its operands. -/
def counterName? : List Expr → Option (Option String)
  | [] => some none
  | [e] => (e.constant?.bind Value.text?).map some
  | _ => none

theorem resolveCounter_eq (s : Scope) (kind : CounterKind) (f : Function) (es : List Expr)
    (ring : Ring (Option Cell)) (g : Bool) :
    resolveCounter s kind f es ring g = match counterName? es with
      | some name => match counterSource? s kind name with
        | some source => call f es (.fill (some (.borrowed source))) g
        | none => constant (missingCounter kind) false
      | none => call f es ring g := by
  unfold resolveCounter counterName?
  match es with
  | [] => rfl
  | [e] =>
    dsimp only
    cases e.constant?.bind Value.text? <;> rfl
  | _ :: _ :: _ => rfl

theorem bind_call (s : Scope) (f : Function) (es : List Expr) (ring : Ring (Option Cell)) (g : Bool) :
    bind s (call f es ring g) = match counter? f with
      | some kind => resolveCounter s kind f (es.map (bind s)) ring g
      | none => call f (es.map (bind s)) ring g := by
  rw [← resolveAll_fst]
  rfl

/-- The operands that name a counter are constants, which stay. -/
theorem counterName?_map {F : Expr → Expr} (hF : ∀ v g, F (constant v g) = constant v g)
    (h : counterName? es = some name) : counterName? (es.map F) = some name := by
  match es with
  | [] => exact h
  | [e] =>
    cases e with
    | constant v g =>
      rw [List.map_singleton, hF]
      exact h
    | reference => cases h
    | call => cases h
  | _ :: _ :: _ => cases h

theorem counterName?_gather (h : counterName? es = some name) (c : Context) :
    counterName? (gather c f (flat f es)) = some name := by
  match es with
  | [] =>
    have hfew : (([] : List Expr).filterMap constant?).length < 2 := Nat.two_pos
    rw [show flat f [] = [] from rfl, gather_of_few hfew]
    exact h
  | [e] =>
    cases e with
    | constant v g =>
      have hflat : flat f [constant v g] = [constant v g] := join_constant f [] v g
      have hfew : ([constant v g].filterMap constant?).length < 2 := Nat.one_lt_two
      rw [hflat, gather_of_few hfew]
      exact h
    | reference => cases h
    | call => cases h
  | _ :: _ :: _ => cases h

/-- What is bound is a counter with a name that is known. -/
def Named : Expr → Prop
  | call f operands ring _ =>
    (boundTo? ring).isSome → (counter? f).isSome ∧ (counterName? operands).isSome
  | _ => True

/-- A name is bound to what it stands for in a scope. -/
def Settled (s : Scope) : Expr → Prop
  | constant .. => True
  | reference r target _ => s.find? r = target
  | call f operands ring _ => ∀ source, boundTo? ring = some source → ∃ kind name,
      counter? f = some kind ∧ counterName? operands = some name ∧
        counterSource? s kind name = some source

theorem Settled.named (h : e.Settled s) : e.Named := by
  cases e with
  | constant => trivial
  | reference => trivial
  | call f es ring g =>
    intro hb
    obtain ⟨source, hsource⟩ := Option.isSome_iff_exists.1 hb
    obtain ⟨kind, name, hkind, hname, -⟩ := h source hsource
    rw [hkind, hname]
    exact ⟨rfl, rfl⟩

theorem named_of_fresh (h : e.Fresh) : e.Named := by
  cases e with
  | constant => trivial
  | reference => trivial
  | call f es ring g =>
    intro hb
    rw [h.1] at hb
    cases hb

theorem settled_bind (h : e.Every Named) : (bind s e).Every (Settled s) := by
  induction e using tree_induction with
  | constant => trivial
  | reference => rfl
  | call f es ring g ih =>
    have hops : ∀ e ∈ es.map (bind s), e.Every (Settled s) := by
      intro x hx
      obtain ⟨e, he, rfl⟩ := List.mem_map.1 hx
      exact ih e he (h.operand he)
    -- a call that stays as it was is not bound
    have hstays (hne : counter? f = none ∨ counterName? (es.map (bind s)) = none) :
        (call f (es.map (bind s)) ring g).Every (Settled s) := by
      apply every_call.2
      constructor
      · intro source hsource
        obtain ⟨hkind, hname⟩ := h.node (by rw [hsource]; rfl)
        obtain ⟨name, hname⟩ := Option.isSome_iff_exists.1 hname
        rw [counterName?_map (fun _ _ => rfl) hname] at hne
        rcases hne with hne | hne
        · rw [hne] at hkind
          cases hkind
        · cases hne
      · exact hops
    rw [bind_call]
    cases hkind : counter? f with
    | none => exact hstays (.inl hkind)
    | some kind =>
      dsimp only
      rw [resolveCounter_eq]
      cases hname : counterName? (es.map (bind s)) with
      | none => exact hstays (.inr hname)
      | some name =>
        dsimp only
        cases hsource : counterSource? s kind name with
        | none => trivial
        | some source =>
          apply every_call.2
          constructor
          · intro source' hsource'
            cases hsource'
            exact ⟨kind, name, hkind, hname, hsource⟩
          · exact hops

/-- A property of nodes that looks at no operands but those that name a counter, and that constants
have, is kept. -/
theorem every_simplify_of_names {P : Expr → Prop} (hconst : ∀ v g, P (constant v g))
    (hcall : ∀ f es es' ring g,
      (∀ name, counterName? es = some name → counterName? es' = some name) →
        P (call f es ring g) → P (call f es' ring g))
    (h : e.Every P) : (e.simplify c).Every P := by
  induction e using tree_induction with
  | constant => exact h
  | reference => exact h
  | call f es ring g ih =>
    have hops : ∀ x ∈ flat f (es.map (simplify c)), x.Every P := by
      apply joinAll_of_join (P := fun es => ∀ x ∈ es, x.Every P)
      · intro x hx before hb
        obtain ⟨e, he, rfl⟩ := List.mem_map.1 hx
        exact every_join hb (ih e he (h.operand he))
      · exact List.forall_mem_nil _
    rw [simplify_call]
    rcases simplifyCall_cases c f (es.map (simplify c)) ring g with ⟨-, heq⟩ | heq
    · rw [heq]
      exact hconst _ _
    · rw [heq]
      apply every_call.2
      constructor
      · refine hcall f es _ ring g (fun name hname => ?_) h.node
        exact counterName?_gather (counterName?_map (F := simplify c) (fun _ _ => rfl) hname) c
      · intro x hx
        rcases mem_gather hx with hx | ⟨v, rfl⟩
        · exact hops x hx
        · exact hconst _ _

theorem settled_simplify (h : e.Every (Settled s)) : (e.simplify c).Every (Settled s) := by
  refine every_simplify_of_names (fun _ _ => trivial) (fun f es es' ring g hnames hb => ?_) h
  intro source hsource
  obtain ⟨kind, name, hkind, hname, hfound⟩ := hb source hsource
  exact ⟨kind, name, hkind, hnames name hname, hfound⟩

theorem named_bind (h : e.Every Named) : (bind s e).Every Named :=
  (settled_bind h).imp fun _ he => he.named

theorem named_simplify (h : e.Every Named) : (e.simplify c).Every Named := by
  refine every_simplify_of_names (fun _ _ => trivial) (fun f es es' ring g hnames hb => ?_) h
  intro hbound
  obtain ⟨hkind, hname⟩ := hb hbound
  obtain ⟨name, hname⟩ := Option.isSome_iff_exists.1 hname
  exact ⟨hkind, Option.isSome_iff_exists.2 ⟨name, hnames name hname⟩⟩

/-- A counter whose name is known is bound. -/
def BoundByName : Expr → Prop
  | call f operands ring _ =>
    (counter? f).isSome → (counterName? operands).isSome → (boundTo? ring).isSome
  | _ => True

/-- A tree that is bound stays as it is when it is bound again. -/
theorem bind_of_settled (h : e.Every (Settled s)) (hn : e.Every BoundByName)
    (hw : e.Every BoundWhole) : bind s e = e := by
  induction e using tree_induction with
  | constant => rfl
  | reference r t g =>
    have ht : s.find? r = t := h
    rw [bind, resolve, ht]
  | call f es ring g ih =>
    have hops : es.map (bind s) = es := by
      conv_rhs => rw [← List.map_id es]
      exact List.map_congr_left fun e he => ih e he (h.operand he) (hn.operand he) (hw.operand he)
    rw [bind_call, hops]
    cases hkind : counter? f with
    | none => rfl
    | some kind =>
      dsimp only
      rw [resolveCounter_eq]
      cases hname : counterName? es with
      | none => rfl
      | some name =>
        obtain ⟨source, hsource⟩ := Option.isSome_iff_exists.1
          (hn.node (by rw [hkind]; rfl) (by rw [hname]; rfl))
        obtain ⟨kind', name', hkind', hname', hfound⟩ := h.node source hsource
        cases hkind.symm.trans hkind'
        cases hname.symm.trans hname'
        dsimp only
        rw [hfound, hw.node source hsource]

/-! Names that stand for nothing -/

/-- A name that stands for something. -/
def Found : Expr → Prop
  | reference _ target _ => target.isSome
  | _ => True

theorem resolveAll_snd (s : Scope) (es : List Expr) :
    (resolveAll s es).2 = es.flatMap fun e => (e.resolve s).2 := by
  induction es with
  | nil => rfl
  | cons e es ih => rw [resolveAll, List.flatMap_cons, ← ih]

theorem found_bind (h : (e.resolve s).2 = []) : (bind s e).Every Found := by
  induction e using tree_induction with
  | constant => trivial
  | reference r t g =>
    rw [resolve] at h
    split at h
    · assumption
    · cases h
  | call f es ring g ih =>
    rw [resolve, resolveAll_snd, List.flatMap_eq_nil_iff] at h
    have hops : ∀ e ∈ es.map (bind s), e.Every Found := by
      intro x hx
      obtain ⟨e, he, rfl⟩ := List.mem_map.1 hx
      exact ih e he (h e he)
    rcases bind_call_cases s f es ring g with ⟨-, v, heq⟩ | ⟨-, -, -, source, -, heq⟩ | heq
    · rw [heq]
      trivial
    · rw [heq]
      exact every_call.2 ⟨trivial, hops⟩
    · rw [heq]
      exact every_call.2 ⟨trivial, hops⟩

theorem found_simplify (h : e.Every Found) : (e.simplify c).Every Found :=
  every_simplify (fun _ _ => trivial) (fun _ _ _ _ _ _ => trivial) h

theorem missing_of_found (h : e.Every (Settled s)) (hf : e.Every Found) : (e.resolve s).2 = [] := by
  induction e using tree_induction with
  | constant => rfl
  | reference r t g =>
    have ht : s.find? r = t := h
    have hsome : t.isSome := hf
    rw [resolve, ht, if_pos hsome]
  | call f es ring g ih =>
    rw [resolve, resolveAll_snd, List.flatMap_eq_nil_iff]
    exact fun e he => ih e he (h.operand he) (hf.operand he)

/-! What calls hold has no part in this -/

theorem constant?_forget (e : Expr) : e.forget.constant? = e.constant? := by
  cases e with
  | constant => rfl
  | reference => rfl
  | call =>
    rw [forget_call]
    rfl

theorem isConstant_forget (e : Expr) : e.forget.isConstant = e.isConstant := by
  cases e with
  | constant => rfl
  | reference => rfl
  | call =>
    rw [forget_call]
    rfl

theorem constants_forget (es : List Expr) :
    (es.map forget).filterMap constant? = es.filterMap constant? := by
  rw [List.filterMap_map]
  congr 1
  exact funext constant?_forget

theorem joinAll_forget_of {before : List Expr} (h : ∀ e ∈ es, ∀ before,
    join f (before.map forget) e.forget = (join f before e).map forget) :
    joinAll f (before.map forget) (es.map forget) = (joinAll f before es).map forget := by
  induction es generalizing before with
  | nil => rfl
  | cons e es ih =>
    rw [List.map_cons, joinAll_cons, joinAll_cons, h e List.mem_cons_self]
    exact ih fun e he => h e (List.mem_cons_of_mem _ he)

theorem join_forget (f : Function) (before : List Expr) (e : Expr) :
    join f (before.map forget) e.forget = (join f before e).map forget := by
  induction e using tree_induction generalizing before with
  | constant v g =>
    change join f (before.map forget) (constant v g) = _
    rw [join_constant, join_constant, List.map_append]
    rfl
  | reference r t g =>
    change join f (before.map forget) (reference r t g) = _
    rw [join_reference, join_reference, List.map_append]
    rfl
  | call h es ring g ih =>
    rw [forget_call]
    by_cases hj : (h.sameAs f && joins f before.isEmpty g) = true
    · have hj' : (h.sameAs f && joins f (before.map forget).isEmpty g) = true := by
        rw [List.isEmpty_map, hj]
      rw [join_call_of_joins hj, join_call_of_joins hj']
      exact joinAll_forget_of ih
    · have hj' : ¬ (h.sameAs f && joins f (before.map forget).isEmpty g) = true := by
        rw [List.isEmpty_map]
        exact hj
      rw [join_call_of_not_joins hj, join_call_of_not_joins hj', List.map_append,
        List.map_singleton, forget_call]

theorem replaceConstants_forget (v : Value) (found : Bool) (es : List Expr) :
    replaceConstants v found (es.map forget) = (replaceConstants v found es).map forget := by
  induction es generalizing found with
  | nil => rfl
  | cons e es ih =>
    rw [List.map_cons, replaceConstants, replaceConstants, isConstant_forget, ih, ih]
    split
    · split <;> rfl
    · rfl

theorem gather_forget (c : Context) (f : Function) (es : List Expr) :
    gather c f (es.map forget) = (gather c f es).map forget := by
  unfold gather
  dsimp only
  rw [constants_forget, List.length_map, replaceConstants_forget]
  split
  · split <;> rfl
  · rfl

theorem folds_forget (f : Function) (es : List Expr) : folds f (es.map forget) = folds f es := by
  rw [folds, folds, List.isEmpty_map, List.all_map]
  congr 2
  exact funext isConstant_forget

theorem simplify_forget (c : Context) (e : Expr) : e.forget.simplify c = (e.simplify c).forget := by
  induction e using tree_induction with
  | constant => rfl
  | reference => rfl
  | call f es ring g ih =>
    have hops : (es.map forget).map (simplify c) = (es.map (simplify c)).map forget := by
      rw [List.map_map, List.map_map]
      exact List.map_congr_left ih
    have hjoin (before : List Expr) :
        joinAll f (before.map forget) ((es.map (simplify c)).map forget) =
          (joinAll f before (es.map (simplify c))).map forget :=
      joinAll_forget_of fun e _ before => join_forget f before e
    have hflat := hjoin []
    rw [List.map_nil] at hflat
    rw [forget_call, simplify_call, simplify_call, hops]
    unfold simplifyCall
    dsimp only
    rw [hflat, folds_forget, constants_forget, gather_forget]
    split
    · rfl
    · rw [forget_call]

theorem counterName?_forget (es : List Expr) : counterName? (es.map forget) = counterName? es := by
  match es with
  | [] => rfl
  | [e] =>
    unfold counterName?
    rw [List.map_singleton]
    dsimp only
    rw [constant?_forget]
  | _ :: _ :: _ => rfl

theorem bind_forget (s : Scope) (e : Expr) : bind s e.forget = (bind s e).forget := by
  induction e using tree_induction with
  | constant => rfl
  | reference => rfl
  | call f es ring g ih =>
    have hops : (es.map forget).map (bind s) = (es.map (bind s)).map forget := by
      rw [List.map_map, List.map_map]
      exact List.map_congr_left ih
    rw [forget_call, bind_call, bind_call, hops]
    cases counter? f with
    | none =>
      dsimp only
      rw [forget_call]
    | some kind =>
      dsimp only
      rw [resolveCounter_eq, resolveCounter_eq, counterName?_forget]
      cases counterName? (es.map (bind s)) with
      | none =>
        dsimp only
        rw [forget_call]
      | some name =>
        dsimp only
        cases counterSource? s kind name with
        | none => rfl
        | some source =>
          dsimp only
          rw [forget_call]
          rfl

theorem missing_forget (s : Scope) (e : Expr) : (e.forget.resolve s).2 = (e.resolve s).2 := by
  induction e using tree_induction with
  | constant => rfl
  | reference => rfl
  | call f es ring g ih =>
    rw [forget_call, resolve, resolve, resolveAll_snd, resolveAll_snd, List.flatMap_map]
    exact List.flatMap_congr ih

theorem named_of_forget {e' : Expr} (h : e.forget = e'.forget) (he : e.Every Named) :
    e'.Every Named := by
  apply every_of_forget ?_ h he
  intro f es ring g
  simp only [Named, boundTo?_forgetRing, counterName?_forget]

theorem boundByName_of_forget {e' : Expr} (h : e.forget = e'.forget) (he : e.Every BoundByName) :
    e'.Every BoundByName := by
  apply every_of_forget ?_ h he
  intro f es ring g
  simp only [BoundByName, boundTo?_forgetRing, counterName?_forget]

end Reporting.Expr
