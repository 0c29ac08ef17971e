import Reporting.Proofs.Expr.Normal
/-!
How many operands calls have. Compiling checks it once; simplifying joins and drops operands by the
traits of functions alone, and so may leave a call of a function of a fixed number of operands with
more or fewer than it takes.
-/
namespace Reporting

/-! Tables of functions -/

namespace FunctionTable

/-- The tables that there can be. -/
inductive Registered : FunctionTable → Prop
  | empty : Registered {}
  | register {t : FunctionTable} (name : String) (arity : Arity) (traits : Traits)
      (body : List Value → Context → Value) :
      Registered t → Registered (t.register name arity traits body)

variable {t : FunctionTable} {f g : Function} {u w : UserFunction} {a b : String}

theorem Registered.lt (h : t.Registered) (hu : u ∈ t.users) : u.registration < t.users.length := by
  induction h with
  | empty => cases hu
  | register name arity traits body _ ih =>
    rcases List.mem_cons.1 hu with rfl | hu
    · exact Nat.lt_succ_self _
    · exact (ih hu).trans (Nat.lt_succ_self _)

theorem Registered.eq_of_registration (h : t.Registered) (hu : u ∈ t.users) (hw : w ∈ t.users)
    (heq : u.registration = w.registration) : u = w := by
  induction h with
  | empty => cases hu
  | @register t name arity traits body ht ih =>
    rcases List.mem_cons.1 hu with rfl | hu
    · rcases List.mem_cons.1 hw with rfl | hw
      · rfl
      · exact absurd heq (Nat.ne_of_gt (ht.lt hw))
    · rcases List.mem_cons.1 hw with rfl | hw
      · exact absurd heq (Nat.ne_of_lt (ht.lt hu))
      · exact ih hu hw

theorem mem_of_find? (h : t.find? a = some (.user u)) : u ∈ t.users := by
  unfold find? at h
  dsimp only at h
  split at h
  · rename_i hfind
    cases h
    exact List.mem_of_find?_eq_some hfind
  · obtain ⟨e, -, he⟩ := Option.map_eq_some_iff.1 h
    cases he

theorem entry_arity_of_builtin : ∀ a ∈ Entry.all, ∀ b ∈ Entry.all, a.builtin = b.builtin →
    a.arity = b.arity := by
  decide +kernel

/-- Two names of one function. -/
theorem arity_of_sameAs (ht : t.Registered) (hf : t.find? a = some f) (hg : t.find? b = some g)
    (h : g.sameAs f = true) : g.arity = f.arity := by
  cases g with
  | builtin y =>
    cases f with
    | builtin x =>
      exact entry_arity_of_builtin y (Compiler.fromTable_of_find? hg) x
        (Compiler.fromTable_of_find? hf) (beq_iff_eq.1 h)
    | user u => cases h
  | user w =>
    cases f with
    | builtin x => cases h
    | user u =>
      rw [ht.eq_of_registration (mem_of_find? hg) (mem_of_find? hf) (beq_iff_eq.1 h)]

end FunctionTable

theorem Function.apply_of_not_accepts {f : Function} {vs : List Value}
    (h : f.arity.accepts vs.length = false) (c : Context) : f.apply vs c = .invalidOperands := by
  unfold apply
  rw [h, if_neg Bool.false_ne_true]

/-- Whether calls of a function are joined at all. -/
def Function.Regroups (f : Function) : Prop :=
  f.traits.volatileCall = false ∧ (f.traits.isCommAssoc || f.traits.leftAssociative) = true

namespace Expr

variable {c : Context} {e : Expr} {es : List Expr} {f : Function} {n : Nat}
  {ring : Ring (Option Cell)} {g : Bool} {s : Scope} {t : FunctionTable}

/-- A call that is not joined with its operands, unless its function takes any number of operands, one
or none. -/
def Unnested : Expr → Prop
  | call f operands _ _ => ∀ n, f.arity = .exact n → 2 ≤ n → Apart f operands
  | _ => True

theorem joins_eq_false (h : ¬f.Regroups) (first grouped : Bool) : joins f first grouped = false := by
  rw [Bool.eq_false_iff]
  intro hjoins
  obtain ⟨hv, hkind⟩ := Bool.and_eq_true_iff.1 hjoins
  refine h ⟨Bool.not_eq_true' _ ▸ hv, ?_⟩
  rcases Bool.or_eq_true_iff.1 hkind with hfree | hleft
  · rw [hfree, Bool.true_or]
  · rw [(Bool.and_eq_true_iff.1 hleft).1, Bool.or_true]

theorem apart_of_not_regroups (h : ¬f.Regroups) (es : List Expr) : Apart f es :=
  ⟨fun _ _ _ => joins_eq_false h _ _, fun _ _ _ => joins_eq_false h _ _⟩

theorem apart_map {F : Expr → Expr} (hF : ∀ e, callsSame f (F e) = true →
    callsSame f e = true ∧ (F e).isGrouped = e.isGrouped) (h : Apart f es) :
    Apart f (es.map F) := by
  have himage {first : Bool} {e : Expr}
      (he : callsSame f e = true → joins f first e.isGrouped = false)
      (hsame : callsSame f (F e) = true) : joins f first (F e).isGrouped = false := by
    obtain ⟨hsame, hgrouped⟩ := hF e hsame
    rw [hgrouped]
    exact he hsame
  constructor
  · rw [List.head?_map]
    intro x hx
    obtain ⟨e, he, rfl⟩ := Option.map_eq_some_iff.1 hx
    exact himage (h.1 e he)
  · exact List.forall_mem_map.2 fun e he => himage (h.2 e he)

theorem apart_simplify (h : Apart f es) (c : Context) : Apart f (es.map (simplify c)) :=
  apart_map (fun e he => ⟨callsSame_simplify he, isGrouped_simplify c e⟩) h

/-! Binding -/

theorem accepted_bind (h : e.Every Accepted) : (bind s e).Every Accepted := by
  have hmap {f : Function} {es : List Expr} (h : f.arity.accepts es.length = true) :
      f.arity.accepts (es.map (bind s)).length = true := by rw [List.length_map, h]
  exact every_bind (fun _ _ => trivial) (fun _ _ _ _ _ => trivial) (fun _ _ _ _ h => hmap h)
    (fun _ _ _ _ _ _ h => hmap h) h

theorem unnested_bind (h : e.Every Unnested) : (bind s e).Every Unnested := by
  have hmap {f : Function} {es : List Expr} {ring ring' : Ring (Option Cell)} {g : Bool}
      (h : Unnested (call f es ring g)) : Unnested (call f (es.map (bind s)) ring' g) :=
    fun n hn htwo => apart_map (fun _ => callsSame_bind) (h n hn htwo)
  exact every_bind (fun _ _ => trivial) (fun _ _ _ _ _ => trivial) (fun _ _ _ _ h => hmap h)
    (fun _ _ _ _ _ _ h => hmap h) h

theorem calling_bind (h : e.Every (Calling t)) : (bind s e).Every (Calling t) :=
  every_bind (fun _ _ => trivial) (fun _ _ _ _ _ => trivial) (fun _ _ _ _ h => h)
    (fun _ _ _ _ _ _ h => h) h

/-! Simplifying -/

/-- Constants are only put together where their number is accepted, so never in a call of a fixed
number of operands. -/
theorem gather_of_exact (h : f.arity = .exact n) (hn : es.length = n) (c : Context) :
    gather c f es = es := by
  rcases gather_cases c f es with heq | ⟨-, hmixed, -, hvalue, -⟩
  · exact heq
  · have hrejects : f.arity.accepts (es.filterMap constant?).length = false := by
      rw [h, Arity.accepts, beq_eq_false_iff_ne, ← hn]
      exact hmixed.symm
    rw [Function.apply_of_not_accepts hrejects] at hvalue
    cases hvalue

/-- A chain of calls with one operand each has one operand when it is joined. -/
theorem length_join_of_one (ht : t.Registered) {a : String} (hf : t.find? a = some f)
    (hone : f.arity = .exact 1) (hcalling : e.Every (Calling t)) (haccepted : e.Every Accepted) :
    (join f [] e).length = 1 := by
  induction e using tree_induction with
  | constant => rfl
  | reference => rfl
  | call h operands ring grouped ih =>
    by_cases hj : (h.sameAs f && joins f ([] : List Expr).isEmpty grouped) = true
    · rw [join_call_of_joins hj]
      obtain ⟨b, hb⟩ := hcalling.node
      have hlength : h.arity.accepts operands.length = true := haccepted.node
      rw [FunctionTable.arity_of_sameAs ht hf hb (Bool.and_eq_true_iff.1 hj).1, hone] at hlength
      obtain ⟨e, rfl⟩ := List.length_eq_one_iff.1 (beq_iff_eq.1 hlength).symm
      exact ih e List.mem_cons_self (hcalling.operand List.mem_cons_self)
        (haccepted.operand List.mem_cons_self)
    · rw [join_call_of_not_joins hj]
      rfl

theorem length_flat (ht : t.Registered) {a : String} (hf : t.find? a = some f)
    (hn : f.arity = .exact n) (hlength : es.length = n) (hapart : 2 ≤ n → Apart f es)
    (hcalling : ∀ e ∈ es, e.Every (Calling t)) (haccepted : ∀ e ∈ es, e.Every Accepted) :
    (flat f es).length = n := by
  match n with
  | 0 =>
    rw [List.eq_nil_of_length_eq_zero hlength]
    rfl
  | 1 =>
    obtain ⟨e, rfl⟩ := List.length_eq_one_iff.1 hlength
    exact length_join_of_one ht hf hn (hcalling e List.mem_cons_self)
      (haccepted e List.mem_cons_self)
  | n + 2 => rw [flat_of_apart (hapart (Nat.le_add_left 2 n)), hlength]

theorem calling_simplify (h : e.Every (Calling t)) : (e.simplify c).Every (Calling t) :=
  every_simplify (fun _ _ => trivial) (fun _ _ _ _ _ h => h) h

theorem accepted_simplify (ht : t.Registered) (hcalling : e.Every (Calling t))
    (haccepted : e.Every Accepted) (hunnested : e.Every Unnested) :
    (e.simplify c).Every Accepted := by
  induction e using tree_induction with
  | constant => trivial
  | reference => trivial
  | call f es ring g ih =>
    have hops : ∀ x ∈ es.map (simplify c), x.Every Accepted :=
      List.forall_mem_map.2 fun e he =>
        ih e he (hcalling.operand he) (haccepted.operand he) (hunnested.operand he)
    have hcalls : ∀ x ∈ es.map (simplify c), x.Every (Calling t) :=
      List.forall_mem_map.2 fun e he => calling_simplify (hcalling.operand he)
    have hflat : ∀ x ∈ flat f (es.map (simplify c)), x.Every Accepted :=
      joinAll_of_join (P := fun es => ∀ x ∈ es, x.Every Accepted)
        (fun x hx before hb => every_join hb (hops x hx)) (List.forall_mem_nil _)
    rw [simplify_call]
    rcases simplifyCall_cases c f (es.map (simplify c)) ring g with ⟨-, heq⟩ | heq
    · rw [heq]
      trivial
    · rw [heq]
      refine every_call.2 ⟨?_, fun x hx => ?_⟩
      · have hnode : f.arity.accepts es.length = true := haccepted.node
        obtain ⟨a, hf⟩ := hcalling.node
        cases hn : f.arity with
        | variadic =>
          rw [Accepted, hn]
          rfl
        | exact n =>
          rw [hn] at hnode
          have hlength : (es.map (simplify c)).length = n := by
            rw [List.length_map]
            exact (beq_iff_eq.1 hnode).symm
          have hflat := length_flat ht hf hn hlength
            (fun htwo => apart_simplify (hunnested.node n hn htwo) c) hcalls hops
          rw [Accepted, hn, gather_of_exact hn hflat, hflat]
          exact beq_self_eq_true n
      · rcases mem_gather hx with hx | ⟨v, rfl⟩
        · exact hflat x hx
        · trivial

/-- A tree that is simplified has no calls that are joined with their operands. -/
theorem unnested_simplify (c : Context) (e : Expr) : (e.simplify c).Every Unnested := by
  apply (simplified_simplify c e).imp
  intro e he
  cases e with
  | constant => trivial
  | reference => trivial
  | call f es ring g => exact fun _ _ _ => apart_of_flat he.1

/-- What becomes of a tree when its names are bound and it is optimized, in any order and any number of
times. -/
inductive Reworked (e : Expr) : Expr → Prop
  | refl : Reworked e e
  | bind {e' : Expr} (s : Scope) : Reworked e e' → Reworked e (bind s e')
  | optimize {e' : Expr} (p : Precision) (order : DateOrder) :
      Reworked e e' → Reworked e (e'.optimize p order)

theorem Reworked.accepted {e' : Expr} (h : Reworked e e') (ht : t.Registered)
    (hcompiled : e.Every (Compiled t)) (hunnested : e.Every Unnested) : e'.Every Accepted := by
  have hkeeps : e'.Every (Calling t) ∧ e'.Every Accepted ∧ e'.Every Unnested := by
    induction h with
    | refl => exact ⟨hcompiled.imp fun _ h => h.calling, hcompiled.imp fun _ h => h.accepted, hunnested⟩
    | bind s _ ih => exact ⟨calling_bind ih.1, accepted_bind ih.2.1, unnested_bind ih.2.2⟩
    | optimize p order _ ih =>
      exact ⟨calling_simplify ih.1, accepted_simplify ht ih.1 ih.2.1 ih.2.2, unnested_simplify _ _⟩
  exact hkeeps.2.1

/-! A call in a call of the same function -/

/-- The operand of the nested calls. -/
def nestedOperand : Expr := .reference (.named .environment "x") none true

/-- A call of a function with so many operands, the first of which calls it as well. -/
def nestedCall (f : Function) (n : Nat) : Expr :=
  .ofCall f ((Expr.ofCall f (List.replicate (n + 1) nestedOperand)).group ::
    List.replicate n nestedOperand)

theorem eq_of_mem_references (h : e ∈ List.replicate n nestedOperand) : e = nestedOperand :=
  (List.mem_replicate.1 h).2

theorem apart_references (f : Function) (n : Nat) : Apart f (List.replicate n nestedOperand) := by
  have hother {e : Expr} (he : e ∈ List.replicate n nestedOperand) : ¬callsSame f e = true := by
    rw [eq_of_mem_references he]
    exact Bool.false_ne_true
  exact ⟨fun e he hsame => absurd hsame (hother (List.mem_of_mem_head? he)),
    fun e he hsame => absurd hsame (hother he)⟩

theorem simplifyCall_references (c : Context) (f : Function) (es : List Expr) (g : Bool)
    (hflat : flat f es = List.replicate (n + 1) nestedOperand) :
    simplifyCall c f es (.fill none) g =
      call f (List.replicate (n + 1) nestedOperand) (.fill none) g := by
  have hconstants : (List.replicate (n + 1) nestedOperand).filterMap constant? = [] :=
    List.filterMap_eq_nil_iff.2 fun e he => by rw [eq_of_mem_references he]; rfl
  have hfolds : folds f (List.replicate (n + 1) nestedOperand) = false := by
    rw [folds, List.replicate_succ, List.all_cons]
    exact Bool.and_false _
  rcases simplifyCall_cases c f es (.fill none) g with ⟨htrue, -⟩ | heq
  · rw [hflat, hfolds] at htrue
    cases htrue
  · rw [heq, hflat, gather_of_few]
    rw [hconstants]
    exact Nat.two_pos

/-- The inner call goes, and its operands are counted together with those of the outer call. -/
theorem simplify_nestedCall (h : f.Regroups) (c : Context) (n : Nat) :
    (nestedCall f n).simplify c = .ofCall f (List.replicate (n + 1 + n) nestedOperand) := by
  have hinner : ((Expr.ofCall f (List.replicate (n + 1) nestedOperand)).group).simplify c =
      call f (List.replicate (n + 1) nestedOperand) (.fill none) true := by
    have hops : (List.replicate (n + 1) nestedOperand).map (simplify c) =
        List.replicate (n + 1) nestedOperand := List.map_replicate
    change simplify c (call f _ _ true) = _
    rw [simplify_call, hops]
    exact simplifyCall_references c f _ true (flat_of_apart (apart_references f _))
  have hrest : (List.replicate n nestedOperand).map (simplify c) =
      List.replicate n nestedOperand := List.map_replicate
  have hsame : f.sameAs f = true := by cases f <;> exact beq_self_eq_true _
  have hjoins : joins f true true = true := by
    rw [joins, h.1, Bool.not_false, Bool.true_and, Bool.true_or, Bool.and_true]
    exact h.2
  have hflat : flat f (call f (List.replicate (n + 1) nestedOperand) (.fill none) true ::
      List.replicate n nestedOperand) = List.replicate (n + n + 1) nestedOperand := by
    obtain ⟨hhead, hlater⟩ := apart_references f (n + 1)
    have hlater' := (apart_references f n).2
    rw [flat, joinAll_cons, join_call_of_joins (by rw [hsame]; exact hjoins),
      joinAll_of_apart hhead hlater, List.nil_append, joinAll_of_apart ?_ hlater',
      ← List.replicate_add]
    · congr 1
      omega
    · exact fun e he => hlater' e (List.mem_of_mem_head? he)
  rw [nestedCall, ofCall, simplify_call, List.map_cons, hinner, hrest,
    simplifyCall_references c f _ false hflat, show n + 1 + n = n + n + 1 by omega]
  rfl

end Expr

namespace Compiler
open Reporting.Expr

variable {c : Compiler} {f : Function} {n : Nat} {name : String}

/-- The formula of a call in a call of the same function. -/
def nestedFormula (name : String) (n : Nat) : Formula :=
  .call name (.call name (List.replicate (n + 1) (.named .environment "x")) ::
    List.replicate n (.named .environment "x"))

theorem compileAll_references (c : Compiler) (n : Nat) :
    c.compileAll (List.replicate n (.named .environment "x")) =
      .ok (List.replicate n nestedOperand) := by
  induction n with
  | zero => rfl
  | succ n ih =>
    rw [List.replicate_succ, compileAll, ih, List.replicate_succ]
    rfl

theorem call_of_exact {es : List Expr} (hf : c.functions.find? name = some f)
    (hn : f.arity = .exact es.length) : c.call name es = .ok (.ofCall f es) := by
  rw [call, hf]
  dsimp only
  rw [hn]
  dsimp only
  rw [if_pos rfl]

theorem compile_nestedFormula (hf : c.functions.find? name = some f)
    (hn : f.arity = .exact (n + 1)) : c.compile (nestedFormula name n) = .ok (nestedCall f n) := by
  have hinner : c.compile (.call name (List.replicate (n + 1) (.named .environment "x"))) =
      .ok (.ofCall f (List.replicate (n + 1) nestedOperand)) := by
    rw [compile, compileAll_references]
    exact call_of_exact hf (by rw [List.length_replicate, hn])
  rw [nestedFormula, compile, compileAll, hinner, compileAll_references]
  apply call_of_exact hf
  rw [List.length_cons, List.length_replicate, hn]

/-- Every call of a compiled tree has as many operands as its function takes. Binding and optimizing keep
that, if no function of a fixed number of operands, two or more, has a call among them that is joined to
its own. Without this condition they keep it just in those tables where the calls of no such function
are joined. -/
theorem accepted_reworked (hc : c.functions.Registered) :
    (∀ F e, c.compile F = .ok e → e.Every Accepted) ∧
      (∀ F e, c.compile F = .ok e → e.Every Unnested → ∀ e', Reworked e e' → e'.Every Accepted) ∧
      ((∀ F e, c.compile F = .ok e → ∀ e', Reworked e e' → e'.Every Accepted) ↔
        ∀ name f n, c.functions.find? name = some f → f.Regroups → f.arity = .exact n → n ≤ 1) := by
  refine ⟨fun F e he => (compiled_compile F he).imp fun _ h => h.accepted,
    fun F e he hunnested e' h => h.accepted hc (compiled_compile F he) hunnested,
    fun hall name f n hf hregroups hn => ?_, fun hone F e he e' h => ?_⟩
  · by_contra hmany
    obtain ⟨n, rfl⟩ : ∃ k, n = k + 2 := ⟨n - 2, by omega⟩
    have hcompile := compile_nestedFormula hf hn
    have haccepted := hall _ _ hcompile _ (.optimize c.precision c.dateOrder .refl)
    rw [Expr.optimize, simplify_nestedCall hregroups] at haccepted
    have hnode : f.arity.accepts (List.replicate (n + 1 + 1 + (n + 1)) nestedOperand).length = true :=
      haccepted.node
    rw [hn, List.length_replicate] at hnode
    have := beq_iff_eq.1 hnode
    omega
  · have hcompiled := compiled_compile F he
    refine h.accepted hc hcompiled (hcompiled.imp fun e he => ?_)
    cases e with
    | constant => trivial
    | reference => trivial
    | call f es ring g =>
      intro n hn htwo
      obtain ⟨name, hf⟩ := he.calling
      apply apart_of_not_regroups
      intro hregroups
      exact absurd (hone name f n hf hregroups hn) (by omega)

/-! Samples -/

/-- A sum of exactly two operands. -/
def pairBody (vs : List Value) (c : Context) : Value :=
  .number ((vs.filterMap Value.number?).foldl (fun a b => a.add b c.precision) .zero)

/-- A document with one function, `pair`. -/
def pairCompiler : Compiler where
  functions := FunctionTable.register {} "pair" (.exact 2) .commAssoc pairBody
  precision := .ofBits 128 .nearest
  dateOrder := .dayFirst

theorem pairCompiler_registered : pairCompiler.functions.Registered :=
  .register "pair" (.exact 2) .commAssoc pairBody .empty

def pair : Function := .user ⟨"pair", .exact 2, .commAssoc, 0, pairBody⟩

def absolute : Function := .builtin ⟨"abs", .abs, .exact 1, .plain⟩

/-- The formula `pair(m.x, abs(pair(m.y, m.z)))`. -/
def apartFormula : Formula :=
  .call "pair" [.named .environment "x",
    .call "abs" [.call "pair" [.named .environment "y", .named .environment "z"]]]

/-- An argument that is a name. -/
def argument (name : String) : Expr := .reference (.named .environment name) none true

/-- The tree of `pair(m.x, abs(pair(m.y, m.z)))`. -/
def apartTree : Expr :=
  .ofCall pair [argument "x",
    (Expr.ofCall absolute [(Expr.ofCall pair [argument "y", argument "z"]).group]).group]

theorem unnested_apartTree : apartTree.Every Unnested := by
  have hapart : ∀ es : List Expr, (∀ e ∈ es, callsSame pair e = false) → Apart pair es := by
    intro es hes
    constructor
    · intro e he hsame
      rw [hes e (List.mem_of_mem_head? he)] at hsame
      cases hsame
    · intro e he hsame
      rw [hes e he] at hsame
      cases hsame
  have hone : ∀ n, absolute.arity = .exact n → 2 ≤ n → Apart absolute
      [(Expr.ofCall pair [argument "y", argument "z"]).group] := by
    rintro n ⟨⟩ htwo
    omega
  have hinner : ∀ e ∈ [argument "y", argument "z"], callsSame pair e = false := by
    simp [argument, callsSame]
  have houter : ∀ e ∈ [argument "x",
      (Expr.ofCall absolute [(Expr.ofCall pair [argument "y", argument "z"]).group]).group],
      callsSame pair e = false := by
    simp [argument, callsSame, Expr.ofCall, Expr.group, pair, absolute, Function.sameAs]
  exact ⟨fun _ _ _ => hapart _ houter, trivial,
    ⟨hone, ⟨fun _ _ _ => hapart _ hinner, trivial, trivial, trivial⟩, trivial⟩, trivial⟩

/-- A `pair` in an `abs` in a `pair` stays where it is, whatever becomes of the tree. -/
theorem accepted_reworked_of_apart :
    pairCompiler.functions.Registered ∧ pairCompiler.compile apartFormula = .ok apartTree ∧
      apartTree.Every Unnested ∧ ∀ e, Reworked apartTree e → e.Every Accepted := by
  have hcompile : pairCompiler.compile apartFormula = .ok apartTree := rfl
  obtain ⟨-, hkeeps, -⟩ := accepted_reworked pairCompiler_registered
  exact ⟨pairCompiler_registered, hcompile, unnested_apartTree,
    hkeeps apartFormula apartTree hcompile unnested_apartTree⟩

/-- The formula `pair(pair(m.x, m.y), m.z)`. -/
def pairsFormula : Formula :=
  .call "pair" [.call "pair" [.named .environment "x", .named .environment "y"],
    .named .environment "z"]

/-- The tree of `pair(pair(m.x, m.y), m.z)`. -/
def pairsTree : Expr :=
  .ofCall pair [(Expr.ofCall pair [argument "x", argument "y"]).group, argument "z"]

/-- A context in which `m.x`, `m.y` and `m.z` are one, two and three. -/
def pairsContext : Context :=
  Computation.sampleContext pairCompiler.precision fun name =>
    if name = "x" then 1 else if name = "y" then 2 else 3

set_option maxRecDepth 8000 in
/-- A `pair` in a `pair` is six as it is written, and optimizing leaves one `pair` of three operands,
which is not computed. -/
theorem not_accepted_of_pairs :
    Formula.parse "pair(pair(m.x, m.y), m.z)" = .ok pairsFormula ∧
      pairCompiler.functions.Registered ∧ pairCompiler.compile pairsFormula = .ok pairsTree ∧
      pairsTree.Every Accepted ∧
      ((bind {} pairsTree).optimize pairCompiler.precision pairCompiler.dateOrder).render =
        "pair(m.'x',m.'y',m.'z')" ∧
      ¬((bind {} pairsTree).optimize pairCompiler.precision pairCompiler.dateOrder).Every Accepted ∧
      ((Computation.sample (bind {} pairsTree)).evaluate pairsContext).2 = .plain (.ofInt 6) ∧
      ((Computation.sample ((bind {} pairsTree).optimize pairCompiler.precision
        pairCompiler.dateOrder)).evaluate pairsContext).2 = .invalidOperands := by
  refine ⟨by cbv, pairCompiler_registered, rfl, ?_, by decide +kernel, ?_, by decide +kernel,
    by decide +kernel⟩
  · exact ⟨rfl, ⟨rfl, trivial, trivial, trivial⟩, trivial, trivial⟩
  · intro h
    have hnode : (Arity.exact 2).accepts 3 = true := h.node
    cases hnode

end Compiler
end Reporting
