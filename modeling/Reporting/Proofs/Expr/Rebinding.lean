import Reporting.Proofs.Expr.Normal
/-!
Binding an expression that was bound before. The names in an expression are there to be bound again,
and so are the row counters that were found by their names; but a row counter that was not found has
become an error, and stays one.
-/
namespace Reporting

/-- What there is to bind in an expression: a name, or a row counter that is found by its name. -/
inductive Mention
  | name (ref : Reference)
  | counter (kind : CounterKind) (name : Option String)

/-- Where what is mentioned is found in a scope. -/
def Scope.place? (s : Scope) : Mention → Option Source
  | .name ref => s.find? ref
  | .counter kind name => Expr.counterSource? s kind name

/-- A mention that is still there when it was bound in a scope. -/
def Scope.keeps (s : Scope) : Mention → Bool
  | .name _ => true
  | .counter kind name => (Expr.counterSource? s kind name).isSome

/-- The name that is told when it stands for nothing. -/
def Scope.missing? (s : Scope) : Mention → Option Reference
  | .name ref => if (s.find? ref).isSome then none else some ref
  | .counter .. => none

namespace Expr

variable {c : Context} {e : Expr} {es : List Expr} {f : Function} {ring : Ring (Option Cell)}
  {g : Bool} {s s₁ s₂ : Scope}

/-- What a node mentions itself. -/
def mention : Expr → List Mention
  | constant .. => []
  | reference r _ _ => [.name r]
  | call f operands _ _ => match counter? f, counterName? operands with
    | some kind, some name => [.counter kind name]
    | _, _ => []

/-- What there is to bind in an expression, from left to right. -/
def mentions (e : Expr) : List Mention := e.collect mention

theorem mentions_call (f : Function) (es : List Expr) (ring : Ring (Option Cell)) (g : Bool) :
    (call f es ring g).mentions = mention (call f es ring g) ++ es.flatMap mentions :=
  collect_call _ f es ring g

/-- The operands that name a counter mention nothing. -/
theorem mentions_of_name {name : Option String} (h : counterName? es = some name) :
    es.flatMap mentions = [] := by
  match es with
  | [] => rfl
  | [e] =>
    cases e with
    | constant v g => rfl
    | reference => cases h
    | call => cases h
  | _ :: _ :: _ => cases h

/-- Binding makes no name of a counter known, and none unknown: an error is no text. -/
theorem counterName?_bind (s : Scope) (es : List Expr) :
    counterName? (es.map (bind s)) = counterName? es := by
  match es with
  | [] => rfl
  | [e] =>
    cases e with
    | constant v g => rfl
    | reference r t g => rfl
    | call f es ring g =>
      rw [List.map_singleton, bind_call]
      cases counter? f with
      | none => rfl
      | some kind =>
        dsimp only
        rw [resolveCounter_eq]
        cases counterName? (es.map (bind s)) with
        | none => rfl
        | some name =>
          dsimp only
          cases counterSource? s kind name with
          | none => cases kind <;> rfl
          | some source => rfl
  | _ :: _ :: _ => rfl

theorem map_bind_of_name {name : Option String} (h : counterName? es = some name) :
    es.map (bind s) = es := by
  match es with
  | [] => rfl
  | [e] =>
    cases e with
    | constant v g => rfl
    | reference => cases h
    | call => cases h
  | _ :: _ :: _ => cases h

/-- A row counter that is found by its name, or is not. -/
theorem bind_counter {kind : CounterKind} {name : Option String} (hkind : counter? f = some kind)
    (hname : counterName? es = some name) :
    bind s (call f es ring g) = match counterSource? s kind name with
      | some source => call f es (.fill (some (.borrowed source))) g
      | none => constant (missingCounter kind) false := by
  have hresolve := resolveCounter_eq s kind f es ring g
  rw [hname] at hresolve
  rw [bind_call, hkind]
  dsimp only
  rw [map_bind_of_name hname]
  exact hresolve

theorem bind_other (h : mention (call f es ring g) = []) :
    bind s (call f es ring g) = call f (es.map (bind s)) ring g := by
  rw [bind_call]
  cases hkind : counter? f with
  | none => rfl
  | some kind =>
    dsimp only
    rw [resolveCounter_eq, counterName?_bind]
    cases hname : counterName? es with
    | none => rfl
    | some name =>
      rw [mention, hkind, hname] at h
      cases h

/-- A call mentions a counter or nothing. -/
theorem mention_call_cases (f : Function) (es : List Expr) (ring : Ring (Option Cell)) (g : Bool) :
    (∃ kind name, counter? f = some kind ∧ counterName? es = some name ∧
      mention (call f es ring g) = [.counter kind name]) ∨ mention (call f es ring g) = [] := by
  cases hkind : counter? f with
  | none =>
    right
    rw [mention, hkind]
  | some kind =>
    cases hname : counterName? es with
    | none =>
      right
      rw [mention, hkind, hname]
    | some name =>
      left
      refine ⟨kind, name, rfl, rfl, ?_⟩
      rw [mention, hkind, hname]

theorem mention_call_congr {es' : List Expr} {ring' : Ring (Option Cell)} {g' : Bool}
    (h : counterName? es' = counterName? es) :
    mention (call f es' ring' g') = mention (call f es ring g) := by
  rw [mention, mention, h]

/-! Binding twice -/

/-- What was bound still mentions all names, and the counters that were found. -/
theorem mentions_bind (s : Scope) (e : Expr) :
    (bind s e).mentions = e.mentions.filter s.keeps := by
  induction e using tree_induction with
  | constant => rfl
  | reference => rfl
  | call f es ring g ih =>
    rcases mention_call_cases f es ring g with ⟨kind, name, hkind, hname, hmention⟩ | hmention
    · rw [bind_counter hkind hname, mentions_call, hmention, mentions_of_name hname]
      cases hsource : counterSource? s kind name with
      | none =>
        rw [List.append_nil, List.filter_cons_of_neg (by rw [Scope.keeps, hsource]; decide)]
        rfl
      | some source =>
        dsimp only
        rw [mentions_call, mention_call_congr rfl, hmention, mentions_of_name hname,
          List.append_nil, List.filter_cons_of_pos (by rw [Scope.keeps, hsource]; rfl)]
        rfl
    · have hcongr : mention (call f (es.map (bind s)) ring g) = [] := by
        rw [mention_call_congr (counterName?_bind s es), hmention]
      rw [bind_other hmention, mentions_call, mentions_call, hcongr, hmention, List.flatMap_map,
        List.nil_append, List.nil_append, List.filter_flatMap]
      exact List.flatMap_congr ih

/-- The names that are missing are told from what is mentioned. -/
theorem missing_eq (s : Scope) (e : Expr) : (e.resolve s).2 = e.mentions.filterMap s.missing? := by
  induction e using tree_induction with
  | constant => rfl
  | reference r t g =>
    change (if (s.find? r).isSome then [] else [r]) = List.filterMap s.missing? [.name r]
    rw [List.filterMap_cons, Scope.missing?]
    split <;> rfl
  | call f es ring g ih =>
    have hnone : (mention (call f es ring g)).filterMap s.missing? = [] := by
      rcases mention_call_cases f es ring g with ⟨kind, name, -, -, hmention⟩ | hmention
      · rw [hmention]
        rfl
      · rw [hmention]
        rfl
    rw [resolve, resolveAll_snd, mentions_call, List.filterMap_append, hnone, List.nil_append,
      List.filterMap_flatMap]
    exact List.flatMap_congr ih

/-- The same names are missing whether or not an expression was bound before. -/
theorem missing_bind (s₁ s₂ : Scope) (e : Expr) :
    ((bind s₁ e).resolve s₂).2 = (e.resolve s₂).2 := by
  rw [missing_eq, missing_eq, mentions_bind, List.filterMap_filter]
  congr 1
  funext m
  cases m with
  | name ref => rfl
  | counter kind name =>
    split <;> rfl

/-- Binding depends on the last scope alone exactly if each counter that was not found before is not
found now. -/
theorem bind_bind_iff (s₁ s₂ : Scope) (e : Expr) : bind s₂ (bind s₁ e) = bind s₂ e ↔
    ∀ m ∈ e.mentions, s₁.keeps m = false → s₂.keeps m = false := by
  induction e using tree_induction with
  | constant => exact ⟨fun _ => List.forall_mem_nil _, fun _ => rfl⟩
  | reference r t g =>
    refine ⟨fun _ m hm => ?_, fun _ => rfl⟩
    rw [List.mem_singleton.1 hm]
    nofun
  | call f es ring g ih =>
    rw [mentions_call]
    rcases mention_call_cases f es ring g with ⟨kind, name, hkind, hname, hmention⟩ | hmention
    · rw [hmention, mentions_of_name hname, List.append_nil, List.forall_mem_singleton,
        bind_counter hkind hname, bind_counter hkind hname, Scope.keeps, Scope.keeps]
      cases counterSource? s₁ kind name with
      | some source => exact ⟨fun _ => nofun, fun _ => bind_counter hkind hname⟩
      | none =>
        cases counterSource? s₂ kind name with
        | some source => exact ⟨nofun, fun h => nomatch h rfl⟩
        | none => exact ⟨fun _ _ => rfl, fun _ => rfl⟩
    · have hcongr : mention (call f (es.map (bind s₁)) ring g) = [] := by
        rw [mention_call_congr (counterName?_bind s₁ es), hmention]
      rw [bind_other hmention, bind_other hcongr, bind_other hmention, hmention, List.nil_append,
        List.map_map, call.injEq]
      simp only [true_and, and_true, List.map_inj_left, List.mem_flatMap, forall_exists_index,
        and_imp]
      constructor
      · exact fun h m e he hm => (ih e he).1 (h e he) m hm
      · exact fun h e he => (ih e he).2 fun m hm => h m e he hm

/-! What is bound where -/

/-- What a node is bound to itself. -/
def binding : Expr → List (Mention × Option Source)
  | constant .. => []
  | reference r target _ => [(.name r, target)]
  | call f operands ring g => match boundTo? ring with
    | some source => (mention (call f operands ring g)).map fun m => (m, some source)
    | none => []

/-- What is mentioned in an expression and bound, from left to right, with the places. -/
def bindings (e : Expr) : List (Mention × Option Source) := e.collect binding

theorem bindings_call (f : Function) (es : List Expr) (ring : Ring (Option Cell)) (g : Bool) :
    (call f es ring g).bindings = binding (call f es ring g) ++ es.flatMap bindings :=
  collect_call _ f es ring g

theorem binding_of_unbound (h : boundTo? ring = none) : binding (call f es ring g) = [] := by
  rw [binding, h]

theorem binding_of_bound {source : Source} (h : boundTo? ring = some source) :
    binding (call f es ring g) = (mention (call f es ring g)).map fun m => (m, some source) := by
  rw [binding, h]

theorem bindings_of_name {name : Option String} (h : counterName? es = some name) :
    es.flatMap bindings = [] := by
  match es with
  | [] => rfl
  | [e] =>
    cases e with
    | constant v g => rfl
    | reference => cases h
    | call => cases h
  | _ :: _ :: _ => cases h

/-- What is bound is what stands for something, where the scope has it. -/
theorem bindings_bind (h : e.Every Named) (s : Scope) :
    (bind s e).bindings = (e.mentions.filter s.keeps).map fun m => (m, s.place? m) := by
  induction e using tree_induction with
  | constant => rfl
  | reference => rfl
  | call f es ring g ih =>
    rw [mentions_call]
    rcases mention_call_cases f es ring g with ⟨kind, name, hkind, hname, hmention⟩ | hmention
    · rw [bind_counter hkind hname, hmention, mentions_of_name hname, List.append_nil]
      cases hsource : counterSource? s kind name with
      | none =>
        rw [List.filter_cons_of_neg (by rw [Scope.keeps, hsource]; decide)]
        rfl
      | some source =>
        dsimp only
        rw [bindings_call, binding_of_bound rfl, mention_call_congr rfl, hmention,
          bindings_of_name hname, List.append_nil,
          List.filter_cons_of_pos (by rw [Scope.keeps, hsource]; rfl), ← hsource]
        rfl
    · -- a call without a name that is known is not bound
      have hunbound : boundTo? ring = none := by
        by_contra hb
        obtain ⟨hkind, hname⟩ := h.node (Option.isSome_iff_ne_none.2 hb)
        obtain ⟨kind, hkind⟩ := Option.isSome_iff_exists.1 hkind
        obtain ⟨name, hname⟩ := Option.isSome_iff_exists.1 hname
        rw [mention, hkind, hname] at hmention
        cases hmention
      rw [bind_other hmention, bindings_call, binding_of_unbound hunbound, hmention,
        List.nil_append, List.nil_append, List.flatMap_map, List.filter_flatMap, List.map_flatMap]
      exact List.flatMap_congr fun e he => ih e he (h.operand he)

/-- A call that is bound, if it is, to a row counter with a name that is known. -/
def Regular (e : Expr) : Prop := e.BindsCounters ∧ e.Named

theorem Every.named_of_regular (h : e.Every Regular) : e.Every Named := h.imp fun _ he => he.2

theorem regular_of_fresh (h : e.Fresh) : e.Regular := ⟨bindsCounters_of_fresh h, named_of_fresh h⟩

theorem regular_bind (h : e.Every Regular) : (bind s e).Every Regular :=
  (Computation.bindsCounters_bind s (h.imp fun _ he => he.1)).and (named_bind h.named_of_regular)

theorem regular_simplify (h : e.Every Regular) : (e.simplify c).Every Regular :=
  (bindsCounters_simplify (h.imp fun _ he => he.1)).and (named_simplify h.named_of_regular)

theorem regular_of_forget {e' : Expr} (h : e.forget = e'.forget) (he : e.Every Regular) :
    e'.Every Regular := by
  apply every_of_forget ?_ h he
  intro f es ring g
  simp only [Regular, BindsCounters, Named, boundTo?_forgetRing, counterName?_forget]

theorem collects_binding : Collects Regular binding where
  constant _ _ := rfl
  unbound _ _ _ _ h := binding_of_unbound h
  bound f es es' ring g h hnames := by
    cases hb : boundTo? ring with
    | none => rw [binding_of_unbound hb, binding_of_unbound hb]
    | some source =>
      obtain ⟨-, hname⟩ := h.2 (by rw [hb]; rfl)
      obtain ⟨name, hname⟩ := Option.isSome_iff_exists.1 hname
      have hsame : counterName? es' = counterName? es := by rw [hname, hnames name hname]
      rw [binding_of_bound hb, binding_of_bound hb, mention_call_congr hsame]
  binds _ h := h.1
  kept _ _ h := regular_simplify h

/-- Simplifying keeps what is bound. -/
theorem bindings_simplify (h : e.Every Regular) (c : Context) :
    (e.simplify c).bindings = e.bindings := collects_binding.collect_simplify c h

/-- If exactly those counters are bound whose names are known, what is bound is what is mentioned. -/
theorem map_bindings (hn : e.Every Named) (hb : e.Every BoundByName) :
    e.bindings.map Prod.fst = e.mentions := by
  induction e using tree_induction with
  | constant => rfl
  | reference => rfl
  | call f es ring g ih =>
    have hnode : (binding (call f es ring g)).map Prod.fst = mention (call f es ring g) := by
      cases hbound : boundTo? ring with
      | some source =>
        rw [binding_of_bound hbound, List.map_map]
        exact List.map_id _
      | none =>
        rw [binding_of_unbound hbound]
        rcases mention_call_cases f es ring g with ⟨kind, name, hkind, hname, -⟩ | hmention
        · have := hb.node (by rw [hkind]; rfl) (by rw [hname]; rfl)
          rw [hbound] at this
          cases this
        · rw [hmention]
          rfl
    rw [bindings_call, mentions_call, List.map_append, hnode, List.map_flatMap]
    exact congrArg _ (List.flatMap_congr fun e he => ih e he (hn.operand he) (hb.operand he))

/-- An expression that was bound and simplified still mentions its names, and those of its counters
that were found, if simplifying has found no name of a counter. -/
theorem mentions_simplify_bind (h : e.Every Regular)
    (hb : ((bind s e).simplify c).Every BoundByName) :
    ((bind s e).simplify c).mentions = e.mentions.filter s.keeps := by
  rw [← map_bindings (regular_simplify (regular_bind h)).named_of_regular hb,
    bindings_simplify (regular_bind h), bindings_bind h.named_of_regular, List.map_map]
  exact List.map_id _

theorem mentions_forget (e : Expr) : e.forget.mentions = e.mentions := by
  induction e using tree_induction with
  | constant => rfl
  | reference => rfl
  | call f es ring g ih =>
    rw [forget_call, mentions_call, mentions_call, mention_call_congr (counterName?_forget es),
      List.flatMap_map]
    exact congrArg _ (List.flatMap_congr ih)

end Expr
end Reporting
