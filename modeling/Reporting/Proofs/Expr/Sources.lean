import Reporting.Proofs.Expr.Again
import Reporting.Proofs.Expr.Optimized
/-!
The names in an expression and the places that it reads. Binding and simplifying bring in no names,
and what is bound in a scope reads what its names stand for there.
-/
namespace Reporting.Expr

variable {e : Expr} {es : List Expr} {f : Function} {ring : Ring (Option Cell)} {g : Bool}
  {s : Scope} {P : Source → Prop} {Q : Reference → Prop}

/-! Names -/

/-- A name has a property. -/
def Names (Q : Reference → Prop) : Expr → Prop
  | reference r _ _ => Q r
  | _ => True

theorem referencesAll_eq_flatMap (es : List Expr) : referencesAll es = es.flatMap references := by
  induction es with
  | nil => rfl
  | cons e es ih => rw [referencesAll, ih, List.flatMap_cons]

theorem every_names : e.Every (Names Q) ↔ ∀ r ∈ e.references, Q r := by
  induction e using tree_induction with
  | constant => exact ⟨fun _ => List.forall_mem_nil _, fun _ => trivial⟩
  | reference r t g => exact (List.forall_mem_singleton (p := Q)).symm
  | call f es ring g ih =>
    rw [every_call, references, referencesAll_eq_flatMap]
    simp only [Names, true_and, List.mem_flatMap, forall_exists_index, and_imp]
    constructor
    · exact fun h r e he hr => (ih e he).1 (h e he) r hr
    · exact fun h e he => (ih e he).2 fun r hr => h r e he hr

theorem names_bind (h : e.Every (Names Q)) : (bind s e).Every (Names Q) :=
  every_bind (fun _ _ => trivial) (fun _ _ _ _ h => h) (fun _ _ _ _ _ => trivial)
    (fun _ _ _ _ _ _ _ => trivial) h

theorem names_simplify {c : Context} (h : e.Every (Names Q)) : (e.simplify c).Every (Names Q) :=
  every_simplify (fun _ _ => trivial) (fun _ _ _ _ _ _ => trivial) h

/-- In an expression whose names are all found, each stands for something in its scope. -/
theorem names_of_found (h : e.Every (Settled s)) (hf : e.Every Found) :
    e.Every (Names fun r => ∃ source, s.find? r = some source) := by
  refine (h.and hf).imp fun e he => ?_
  cases e with
  | constant => trivial
  | reference r t g =>
    obtain ⟨hfind, hsome⟩ := he
    obtain ⟨source, ht⟩ := Option.isSome_iff_exists.1 hsome
    exact ⟨source, hfind.trans ht⟩
  | call => trivial

/-- What is bound in a scope is bound in each scope in which its names stand for the same. -/
theorem settled_mono {s' : Scope} (h : e.Every (Settled s)) (hf : e.Every Found)
    (hnames : ∀ r source, s.find? r = some source → s'.find? r = some source)
    (hcounters : ∀ kind name source,
      counterSource? s kind name = some source → counterSource? s' kind name = some source) :
    e.Every (Settled s') := by
  refine (h.and hf).imp fun e he => ?_
  cases e with
  | constant => trivial
  | reference r t g =>
    obtain ⟨hfind, hsome⟩ := he
    obtain ⟨source, rfl⟩ := Option.isSome_iff_exists.1 hsome
    exact hnames r source hfind
  | call f es ring g =>
    intro source hb
    obtain ⟨kind, name, hkind, hname, hsource⟩ := he.1 source hb
    exact ⟨kind, name, hkind, hname, hcounters kind name source hsource⟩

theorem settled_of_forget {e' : Expr} (h : e.forget = e'.forget) (he : e.Every (Settled s)) :
    e'.Every (Settled s) := by
  apply every_of_forget ?_ h he
  intro f es ring g
  simp only [Settled, boundTo?_forgetRing, counterName?_forget]

theorem references_forget (e : Expr) : e.forget.references = e.references := by
  induction e using tree_induction with
  | constant => rfl
  | reference => rfl
  | call f es ring g ih =>
    rw [forget_call, references, references, referencesAll_eq_flatMap, referencesAll_eq_flatMap,
      List.flatMap_map]
    exact List.flatMap_congr ih

theorem references_unbind (e : Expr) : e.unbind.references = e.references := by
  cases e <;> rfl

/-! Places -/

theorem every_readsOnly : e.Every (ReadsOnly P) ↔ ∀ source ∈ e.sources, P source := by
  refine ⟨fun h => ?_, every_readsOnly_of_sources⟩
  induction e using tree_induction with
  | constant => exact List.forall_mem_nil _
  | reference r t g => exact fun source hs => h source (Option.mem_toList.1 hs)
  | call f es ring g ih =>
    rw [sources, sourcesAll_eq_flatMap, List.forall_mem_append]
    constructor
    · exact fun source hs => h.node source (Option.mem_toList.1 hs)
    · intro source hs
      obtain ⟨e, he, hs⟩ := List.mem_flatMap.1 hs
      exact ih e he (h.operand he) source hs

/-- What is bound in a scope reads what names stand for there. -/
theorem readsOnly_of_settled (h : e.Every (Settled s))
    (hnames : ∀ r source, s.find? r = some source → P source)
    (hcounters : ∀ kind name source, counterSource? s kind name = some source → P source) :
    e.Every (ReadsOnly P) := by
  refine h.imp fun e he => ?_
  cases e with
  | constant => trivial
  | reference r t g =>
    intro source hs
    obtain rfl := Option.mem_def.1 hs
    exact hnames r source he
  | call f es ring g =>
    intro source hs
    obtain ⟨kind, name, -, -, hfound⟩ := he source hs
    exact hcounters kind name source hfound

/-- A place that is read and is no counter is what a name in the expression stands for. -/
theorem exists_reference {source : Source} (h : e.Every (Settled s))
    (hcounters : ∀ kind name, counterSource? s kind name ≠ some source) (hm : source ∈ e.sources) :
    ∃ r ∈ e.references, s.find? r = some source := by
  have hnames : e.Every (Names (· ∈ e.references)) := every_names.2 fun _ hr => hr
  have hreads : e.Every (ReadsOnly fun t => t = source → ∃ r ∈ e.references, s.find? r = some t) := by
    refine (h.and hnames).imp fun e' he => ?_
    cases e' with
    | constant => trivial
    | reference r t g =>
      rintro source' rfl rfl
      exact ⟨r, he.2, he.1⟩
    | call f es ring g =>
      rintro source' hb rfl
      obtain ⟨kind, name, -, -, hfound⟩ := he.1 source' hb
      exact absurd hfound (hcounters kind name)
  exact every_readsOnly.1 hreads source hm rfl

/-- What a name in an expression stands for is a place that is read. -/
theorem mem_sources_of_reference {r : Reference} {source : Source} (h : e.Every (Settled s))
    (hr : r ∈ e.references) (hfind : s.find? r = some source) : source ∈ e.sources := by
  have hreads : e.Every (ReadsOnly (· ∈ e.sources)) := every_readsOnly.2 fun _ hs => hs
  have hnames : e.Every (Names fun r => ∀ t, s.find? r = some t → t ∈ e.sources) := by
    refine (h.and hreads).imp fun e' he => ?_
    cases e' with
    | constant => trivial
    | reference r t g =>
      obtain ⟨hfound, hread⟩ := he
      exact fun t ht => hread t (hfound.symm.trans ht)
    | call => trivial
  exact every_names.1 hnames r hr source hfind

theorem sources_forget (e : Expr) : e.forget.sources = e.sources := by
  induction e using tree_induction with
  | constant => rfl
  | reference => rfl
  | call f es ring g ih =>
    rw [forget_call, sources, sources, sourcesAll_eq_flatMap, sourcesAll_eq_flatMap,
      List.flatMap_map, source?_call, source?_call, boundTo?_forgetRing]
    exact congrArg _ (List.flatMap_congr ih)

theorem sources_of_forget {e' : Expr} (h : e.forget = e'.forget) : e.sources = e'.sources := by
  rw [← sources_forget, h, sources_forget]

theorem found_of_forget {e' : Expr} (h : e.forget = e'.forget) (he : e.Every Found) :
    e'.Every Found :=
  every_of_forget (fun _ _ _ _ => Iff.rfl) h he

end Reporting.Expr
