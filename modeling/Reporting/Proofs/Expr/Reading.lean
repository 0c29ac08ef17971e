import Reporting.Proofs.Expr.Memory
/-!
What an expression reads of its context: two contexts that give the same values to the sources of an
expression make it worth the same.
-/
namespace Reporting

/-- Contexts with the same settings and the same clock. -/
structure Context.SameSettings (c c' : Context) : Prop where
  precision : c.precision = c'.precision
  dateOrder : c.dateOrder = c'.dateOrder
  clock : c.clock = c'.clock

/-- A function whose values are decided by its operands, the settings and the clock. -/
def Function.Pure : Function → Prop
  | builtin e => e.builtin ≠ .prevval ∧ e.builtin ≠ .random
  | user f => ∀ args c c', c.SameSettings c' → f.body args c = f.body args c'

/-- Contexts that give the same values to the sources in `P`. Where counters may be looked up by
their names (`lookups`), they find the same ones in both, and these are in `P`. -/
structure Context.Agree (P : Source → Prop) (lookups : Prop) (c c' : Context) : Prop
    extends c.SameSettings c' where
  lookup : ∀ s, P s → c.scope.lookup? s c.slot = c'.scope.lookup? s c'.slot
  rowNumber : lookups → c.scope.rowNumber? = c'.scope.rowNumber?
  breakRowNumber : lookups → c.scope.breakRowNumber? = c'.scope.breakRowNumber?
  ofRowNumber : lookups → ∀ name s, c.scope.rowNumber? name = some s → P s
  ofBreakRowNumber : lookups → ∀ name s, c.scope.breakRowNumber? name = some s → P s

namespace Expr

/-- The expression itself reads no other sources than those in `P`. -/
def ReadsOnly (P : Source → Prop) : Expr → Prop
  | constant .. => True
  | reference _ target _ => ∀ s ∈ target, P s
  | call _ _ ring _ => ∀ s, boundTo? ring = some s → P s

/-- The expression itself looks no counter up by its name, unless this is allowed. -/
def LooksUp (lookups : Prop) : Expr → Prop
  | call f _ ring _ => boundTo? ring = none → (counter? f).isSome → lookups
  | _ => True

end Expr

variable {P : Source → Prop} {lookups : Prop} {c c' : Context} {self self' : Option Value}

/-- The row counter of a name, as it is looked up when an expression is evaluated. -/
def Context.counter (c : Context) (kind : CounterKind) (name : Option String) : Outcome :=
  Counter.read c (Expr.counterSource? c.scope kind name) (Expr.missingCounter kind)

theorem Context.Agree.counter (ha : Context.Agree P lookups c c') (h : lookups) (kind : CounterKind)
    (name : Option String) : c.counter kind name = c'.counter kind name := by
  have hread (source : Option Source) (hs : ∀ s, source = some s → P s) (missing : Value) :
      Counter.read c source missing = Counter.read c' source missing := by
    cases source with
    | none => rfl
    | some s => simp only [Counter.read, Option.bind_some, ha.lookup s (hs s rfl)]
  cases kind with
  | ofQuery =>
    simp only [Context.counter, Expr.counterSource?, ← ha.rowNumber h]
    exact hread _ (fun s hs => ha.ofRowNumber h name s hs) _
  | ofBreak =>
    simp only [Context.counter, Expr.counterSource?, ← ha.breakRowNumber h]
    apply hread
    intro s hs
    obtain ⟨n, -, hn⟩ := Option.bind_eq_some_iff.1 hs
    exact ha.ofBreakRowNumber h n s hn

theorem Counter.ofQuery_congr (h : ∀ name, c.counter .ofQuery name = c'.counter .ofQuery name)
    (args : List Value) : Counter.ofQuery args c = Counter.ofQuery args c' := by
  unfold Counter.ofQuery
  split
  · exact h none
  · exact congrArg (Counter.name _ >>= ·) (funext h)
  · rfl

theorem Counter.ofBreak_congr (h : ∀ name, c.counter .ofBreak name = c'.counter .ofBreak name)
    (args : List Value) : Counter.ofBreak args c = Counter.ofBreak args c' := by
  unfold Counter.ofBreak
  split
  · exact congrArg (Counter.name _ >>= ·) (funext h)
  · rfl

/-- Apart from the counters no built-in function looks at the scope. -/
theorem Builtin.apply_congr (h : c.SameSettings c') {f : Builtin} (hq : f ≠ .rownum)
    (hb : f ≠ .brrownum) (args : List Value) : f.apply args c = f.apply args c' := by
  obtain ⟨precision, dateOrder, clock, scope, slot⟩ := c
  obtain ⟨precision', dateOrder', clock', scope', slot'⟩ := c'
  obtain ⟨rfl, rfl, rfl⟩ := h
  cases f <;> first | rfl | contradiction

/-- A function sees the settings and the row counters that it looks up. -/
theorem Function.apply_congr (h : c.SameSettings c') {f : Function} (hf : f.Pure)
    (hl : ∀ kind, Expr.counter? f = some kind → ∀ name, c.counter kind name = c'.counter kind name)
    (args : List Value) : f.apply args c = f.apply args c' := by
  unfold Function.apply
  split
  · cases f with
    | builtin e =>
      obtain ⟨name, b, arity, traits⟩ := e
      simp only
      congr 1
      by_cases hq : b = .rownum
      · subst hq
        exact Counter.ofQuery_congr (hl .ofQuery rfl) args
      · by_cases hb : b = .brrownum
        · subst hb
          exact Counter.ofBreak_congr (hl .ofBreak rfl) args
        · exact Builtin.apply_congr h hq hb args
    | user u => exact hf args c c' h
  · rfl

theorem Function.Pure.ne_prevval {f : Function} (h : f.Pure) : f.builtin? ≠ some .prevval := by
  cases f with
  | builtin e => exact fun he => h.1 (Option.some.inj he)
  | user u => exact nofun

namespace Expr

theorem noPrevval_of_pure {e : Expr} (h : e.Every (Calls Function.Pure)) :
    e.Every (Calls fun f => f.builtin? ≠ some .prevval) := by
  refine h.imp fun e he => ?_
  cases e with
  | constant => trivial
  | reference => trivial
  | call => exact Function.Pure.ne_prevval he

theorem readSource_congr {slot slot' : Slot} {scope scope' : Scope} {s : Source}
    (hlookup : scope.lookup? s slot = scope'.lookup? s slot') (hself : s = .self → self = self') :
    readSource scope self slot s = readSource scope' self' slot' s := by
  cases s with
  | self => rw [readSource, readSource, hself rfl]
  | _ => exact hlookup

theorem readsOnly_of_forget {e e' : Expr} (h : e.forget = e'.forget) (he : e.Every (ReadsOnly P)) :
    e'.Every (ReadsOnly P) := by
  refine every_of_forget ?_ h he
  intro f es ring g
  simp only [ReadsOnly, boundTo?_forgetRing]

/-- The expression itself looks up counters of such kinds only by their names. -/
def LooksUpOnly (K : CounterKind → Prop) : Expr → Prop
  | call f _ ring _ => boundTo? ring = none → ∀ kind, counter? f = some kind → K kind
  | _ => True

/-- An expression is worth the same in contexts that give the same values to what it reads. -/
theorem meaning_of_reads {e : Expr} (h : c.SameSettings c') (hf : e.Every (Calls Function.Pure))
    (hr : e.Every (ReadsOnly fun s => c.scope.lookup? s c.slot = c'.scope.lookup? s c'.slot ∧
      (s = .self → self = self')))
    (hl : e.Every (LooksUpOnly fun kind => ∀ name, c.counter kind name = c'.counter kind name)) :
    e.meaning c self = e.meaning c' self' := by
  induction e using tree_induction with
  | constant => rfl
  | reference r t g =>
    cases t with
    | none => rfl
    | some s =>
      obtain ⟨hlookup, hself⟩ := hr.node s rfl
      simp only [meaning, value, readSource_congr hlookup hself]
  | call f es ring g ih =>
    cases hb : boundTo? ring with
    | some s =>
      obtain ⟨hlookup, hself⟩ := hr.node s hb
      rw [meaning_bound hb, meaning_bound hb, readSource_congr hlookup hself]
    | none =>
      have hops : es.map (meaning c self) = es.map (meaning c' self') :=
        List.map_congr_left fun e he => ih e he (hf.operand he) (hr.operand he) (hl.operand he)
      rw [meaning_call hb, meaning_call hb, hops]
      exact Function.apply_congr h hf.node (hl.node hb) _

/-- An expression is worth the same in contexts that agree on what it reads. -/
theorem meaning_congr {e : Expr} (ha : Context.Agree P lookups c c')
    (hself : P .self → self = self') (hf : e.Every (Calls Function.Pure))
    (hr : e.Every (ReadsOnly P)) (hl : e.Every (LooksUp lookups)) :
    e.meaning c self = e.meaning c' self' := by
  apply meaning_of_reads ha.toSameSettings hf
  · apply hr.imp
    have hread (s : Source) (hs : P s) :
        c.scope.lookup? s c.slot = c'.scope.lookup? s c'.slot ∧ (s = .self → self = self') :=
      ⟨ha.lookup s hs, fun h => hself (h ▸ hs)⟩
    intro e he
    cases e with
    | constant => trivial
    | reference r t g => exact fun s hs => hread s (he s hs)
    | call f es ring g => exact fun s hs => hread s (he s hs)
  · apply hl.imp
    intro e he
    cases e with
    | constant => trivial
    | reference => trivial
    | call f es ring g =>
      intro hb kind hkind
      exact ha.counter (he hb (by rw [hkind]; rfl)) kind

end Expr

namespace Computation

variable {x y : Computation}

theorem root_of_forget (h : x.forget = y.forget) (hs : y.startsWithInitial = false) :
    x.startsWithInitial = false ∧ x.root.forget = y.root.forget := by
  have hx : x.startsWithInitial = y.startsWithInitial := by
    change x.forget.startsWithInitial = y.forget.startsWithInitial
    rw [h]
  have hroot := congrArg Computation.root h
  simp only [forget, hx, hs, Bool.false_eq_true, if_false] at hroot
  exact ⟨hx.trans hs, hroot⟩

/-- An expression that is computed anew from the sources in `P`. -/
structure Reads (P : Source → Prop) (lookups : Prop) (x : Computation) : Prop where
  computed : x.startsWithInitial = false
  pure : x.root.Every (Expr.Calls Function.Pure)
  whole : x.root.Every Expr.BoundWhole
  reads : x.root.Every (Expr.ReadsOnly P)
  bound : x.root.Every (Expr.LooksUp lookups)

theorem Reads.of_forget (hy : y.Reads P lookups) (h : x.forget = y.forget) : x.Reads P lookups := by
  obtain ⟨hs, hroot⟩ := root_of_forget h hy.computed
  refine ⟨hs, ?_, Expr.boundWhole_of_forget hroot.symm hy.whole,
    Expr.readsOnly_of_forget hroot.symm hy.reads, ?_⟩
  · exact Expr.every_of_forget (fun _ _ _ _ => Iff.rfl) hroot.symm hy.pure
  · refine Expr.every_of_forget ?_ hroot.symm hy.bound
    intro f es ring g
    simp only [Expr.LooksUp, Expr.boundTo?_forgetRing]

theorem Reads.value_evaluate (hx : x.Reads P lookups) :
    (x.evaluate c).2 = x.root.meaning c (some (x.before c)) := by
  exact Computation.value_evaluate hx.computed (Expr.noPrevval_of_pure hx.pure) hx.whole

/-- Two states of one expression have the same value in contexts that agree on what it reads. -/
theorem Reads.value_congr (hy : y.Reads P lookups) (h : x.forget = y.forget)
    (ha : Context.Agree P lookups c c') (hself : P .self → x.before c = y.before c') :
    (x.evaluate c).2 = (y.evaluate c').2 := by
  have hx := hy.of_forget h
  rw [hx.value_evaluate, hy.value_evaluate,
    Expr.meaning_eq_of_forget (root_of_forget h hy.computed).2]
  exact Expr.meaning_congr ha (fun hp => congrArg some (hself hp)) hy.pure hy.reads hy.bound

end Computation
end Reporting
