import Reporting.Proofs.Expr.Normal
import Reporting.Proofs.Expr.Sources
import Reporting.Settings
/-!
An expression and what was done with it before. A call keeps its last values in a ring, and operands
are read from such rings; but whatever they hold, the next evaluation gives what the tree is worth.
-/
namespace Reporting

namespace Expr

variable {e e' : Expr} {s : Scope} {K : CounterKind → Prop}

theorem boundWhole_bind (h : e.Every BoundWhole) : (bind s e).Every BoundWhole := by
  refine every_bind (fun _ _ => trivial) (fun _ _ _ _ _ => trivial) (fun _ _ _ _ h => h) ?_ h
  intro f es ring source g _ _ source' hs
  cases hs
  rfl

theorem boundWhole_of_fresh (h : e.Every Fresh) : e.Every BoundWhole := by
  apply h.imp
  intro e he
  cases e with
  | constant => trivial
  | reference => trivial
  | call f es ring g =>
    intro source hs
    rw [he.1] at hs
    cases hs

mutual

/-- The kinds of row counters that an expression looks up by their names when it is evaluated. -/
def lookups : Expr → List CounterKind
  | call f operands ring _ =>
    (if (boundTo? ring).isNone then (counter? f).toList else []) ++ lookupsAll operands
  | _ => []

def lookupsAll : List Expr → List CounterKind
  | [] => []
  | e :: es => e.lookups ++ lookupsAll es

end

theorem lookupsAll_eq_flatMap (es : List Expr) : lookupsAll es = es.flatMap lookups := by
  induction es with
  | nil => rfl
  | cons e es ih => rw [lookupsAll, ih, List.flatMap_cons]

theorem every_looksUpOnly (h : ∀ kind ∈ e.lookups, K kind) : e.Every (LooksUpOnly K) := by
  induction e using tree_induction with
  | constant => trivial
  | reference => trivial
  | call f es ring g ih =>
    rw [lookups, lookupsAll_eq_flatMap] at h
    refine every_call.2 ⟨fun hb kind hkind => ?_, fun e he => ih e he fun kind hk => ?_⟩
    · rw [hb, hkind] at h
      exact h kind (List.mem_append_left _ List.mem_cons_self)
    · exact h kind (List.mem_append_right _ (List.mem_flatMap.2 ⟨e, he, hk⟩))

end Expr

namespace Computation

variable {x y : Computation}

/-- What is done with an expression again and again: it is evaluated, or its iteration starts over. -/
inductive Use
  | evaluate (c : Context)
  | restart

def use (x : Computation) : Use → Computation
  | .evaluate c => (x.evaluate c).1
  | .restart => x.restart

/-- An expression with which something was done. -/
def after (x : Computation) (history : List Use) : Computation := history.foldl use x

theorem forget_use (x : Computation) (u : Use) : (x.use u).forget = x.forget := by
  cases u with
  | evaluate c => exact x.forget_evaluate c
  | restart => rfl

/-- Whatever was done, all that is left of it are values that calls hold. -/
theorem forget_after (x : Computation) (history : List Use) :
    (x.after history).forget = x.forget := by
  induction history generalizing x with
  | nil => rfl
  | cons u history ih => exact (ih (x.use u)).trans (x.forget_use u)

/-- The expressions that are computed whenever they are evaluated: they are compiled, and then bound,
optimized and used in any order, but none is told to start with an initial value. -/
inductive Computed : Computation → Prop
  | compileText {x : Computation} {c : Compiler} {text : String} :
      c.compileText text = .ok x → Computed x
  | withInitial {x : Computation} (initial : Option Value) : Computed x → Computed { x with initial }
  | resolve {x : Computation} (s : Scope) : Computed x → Computed (x.resolve s).1
  | optimize {x : Computation} (p : Precision) (order : DateOrder) :
      Computed x → Computed (x.optimize p order)
  | use {x : Computation} (u : Use) : Computed x → Computed (x.use u)

/-- Counters are bound in all slots, so that no value that is stored takes their place. -/
theorem Computed.whole (h : x.Computed) :
    x.startsWithInitial = false ∧ x.root.Every Expr.BoundWhole := by
  induction h with
  | compileText h =>
    unfold Compiler.compileText at h
    split at h
    · cases h
    · obtain ⟨e, he, h⟩ := Compiler.bind_eq_ok h
      cases h
      exact ⟨rfl, Expr.boundWhole_of_fresh (Compiler.fresh_compile _ he)⟩
  | withInitial initial _ ih => exact ih
  | resolve s _ ih => exact ⟨ih.1, Expr.boundWhole_bind ih.2⟩
  | optimize p order _ ih =>
    exact ⟨ih.1, Expr.every_simplify (fun _ _ => trivial) (fun _ _ _ _ _ h => h) ih.2⟩
  | use u _ ih =>
    obtain ⟨hs, hroot⟩ := root_of_forget (forget_use _ u) ih.1
    exact ⟨hs, Expr.boundWhole_of_forget hroot.symm ih.2⟩

/-- Evaluating an expression that asks neither chance nor its evaluation before gives the same
value whatever was done with the expression, and in whatever scope: it depends on what the sources of
the expression, and the row counters that are looked up by name, are worth in the slot. -/
theorem evaluate_of_histories (hx : x.Computed)
    (hpure : x.root.Every (Expr.Calls Function.Pure)) (hself : .self ∉ x.sources)
    (history history' : List Use) (settings : Settings) (s s' : Scope) (slot : Slot)
    (hsources : ∀ source ∈ x.sources, s.lookup? source slot = s'.lookup? source slot)
    (hcounters : ∀ kind ∈ x.root.lookups, ∀ name,
      (settings.context s slot).counter kind name = (settings.context s' slot).counter kind name) :
    ((x.after history).evaluate (settings.context s slot)).2 =
      ((x.after history').evaluate (settings.context s' slot)).2 := by
  obtain ⟨hcomputed, hwhole⟩ := hx.whole
  have hprevval := Expr.noPrevval_of_pure hpure
  have hvalue (history : List Use) (c : Context) : ((x.after history).evaluate c).2 =
      x.root.meaning c (some ((x.after history).before c)) := by
    obtain ⟨hs, hroot⟩ := root_of_forget (x.forget_after history) hcomputed
    have hprevval' := Expr.every_of_forget (fun _ _ _ _ => Iff.rfl) hroot.symm hprevval
    rw [value_evaluate hs hprevval' (Expr.boundWhole_of_forget hroot.symm hwhole),
      Expr.meaning_eq_of_forget hroot]
  have hsame : (settings.context s slot).SameSettings (settings.context s' slot) := ⟨rfl, rfl, rfl⟩
  rw [hvalue, hvalue]
  apply Expr.meaning_of_reads hsame hpure
  · apply Expr.every_readsOnly.2
    intro source hs
    exact ⟨hsources source hs, fun h => absurd (h ▸ hs) hself⟩
  · exact Expr.every_looksUpOnly hcounters

/-- The sum of a column and a row counter whose name is in another column. -/
def countedSum : Computation where
  root := .ofCall (.builtin ⟨"add", .add, .variadic, .commAssoc⟩)
    [.reference (.column (.plain "k")) none false,
      .ofCall (.builtin ⟨"rownum", .rownum, .variadic, .volatile⟩)
        [.reference (.column (.plain "t")) none true]]
  source := "k + rownum(t)"

/-- A scope with a row counter, in which the column `k` has a value. -/
def countedScope (counter : QueryId) (k : Int) : Scope where
  column? name := some (.column ⟨0⟩ (if name = .plain "k" then 0 else 1))
  rowNumber? _ := some (.rowNumber counter)
  lookup? source _ := match source with
    | .column _ 0 => some (.ofInt k)
    | .column _ _ => some (.text "q")
    | .rowNumber id => if id = counter then some (.ofInt 5) else none
    | _ => none

def countedSettings : Settings := ⟨.ofBits 64 .nearest, .dayFirst, false, {}⟩

set_option maxRecDepth 20000 in
/-- An expression that has never been evaluated, and one that has been with another value of the
column; the counter in the second scope is another one with the same value. -/
theorem evaluate_of_histories_of_sum :
    let x := (countedSum.resolve (countedScope ⟨0⟩ 2)).1
    let earlier := countedSettings.context (countedScope ⟨0⟩ 9)
    let history : List Use := [.evaluate (earlier .current), .evaluate (earlier .previous), .restart]
    ((x.after []).evaluate (countedSettings.context (countedScope ⟨0⟩ 2) .previous)).2 = .ofInt 7 ∧
      ((x.after history).evaluate (countedSettings.context (countedScope ⟨3⟩ 2) .previous)).2 =
        .ofInt 7 := by
  intro x earlier history
  have hcompile : (sampleCompiler countedSettings.precision).compileText "k + rownum(t)" =
      .ok countedSum := by
    have hparse : Formula.parse "k + rownum(t)" = .ok (.binary .add (.column (.plain "k"))
        (.call "rownum" [.column (.plain "t")])) := by cbv
    rw [Compiler.compileText, hparse]
    rfl
  have hseven : ((x.after []).evaluate
      (countedSettings.context (countedScope ⟨0⟩ 2) .previous)).2 = .ofInt 7 := by
    decide +kernel
  refine ⟨hseven, ?_⟩
  rw [← hseven]
  apply evaluate_of_histories (.resolve _ (.compileText hcompile))
  · exact ⟨⟨by decide, by decide⟩, trivial, ⟨⟨by decide, by decide⟩, trivial, trivial⟩, trivial⟩
  · decide +kernel
  · decide +kernel
  · intro kind hkind name
    cases kind with
    | ofQuery => rfl
    | ofBreak => cases name <;> rfl

end Computation
end Reporting
