import Mathlib
import Reporting.Proofs.Expr.Compiled
import Reporting.Proofs.Expr.Reading
import Reporting.Proofs.Function.Exact
/-!
Optimizing keeps the values of expressions, whatever the row, as far as sums and products do not depend
on how their operands are grouped.
-/
namespace Reporting

namespace Expr

variable {c c₀ : Context} {self self' : Option Value} {e : Expr} {f : Function} {en : Entry}

theorem sourcesAll_eq_flatMap (es : List Expr) : sourcesAll es = es.flatMap sources := by
  induction es with
  | nil => rfl
  | cons e es ih => rw [sourcesAll, ih, List.flatMap_cons]

theorem every_readsOnly_of_sources {P : Source → Prop} (h : ∀ s ∈ e.sources, P s) :
    e.Every (ReadsOnly P) := by
  induction e using tree_induction with
  | constant => trivial
  | reference r t g => exact fun s hs => h s (Option.mem_toList.2 hs)
  | call f es ring g ih =>
    rw [sources, sourcesAll_eq_flatMap] at h
    refine every_call.2 ⟨fun s hs => ?_, fun e he => ?_⟩
    · exact h s (List.mem_append_left _ (Option.mem_toList.2 hs))
    · exact ih e he fun s hs => h s (List.mem_append_right _ (List.mem_flatMap.2 ⟨e, he, hs⟩))

end Expr

/-- A built-in function that neither draws by chance nor reads an earlier value. -/
def Function.Plain : Function → Prop
  | builtin e => e.builtin ≠ .random ∧ e.builtin ≠ .prevval
  | user _ => False

namespace Computation

variable {compiler : Compiler} {F : Formula} {e : Expr} {x plain optimized : Computation}
  {s : Scope} {c : Context}

theorem value_of_forget (hx : x.root.forget = e.forget) (hs : x.startsWithInitial = false)
    (hf : e.Every (Expr.Calls fun f => f.builtin? ≠ some .prevval))
    (hw : e.Every Expr.BoundWhole) :
    (x.evaluate c).2 = e.meaning c (some (x.before c)) := by
  rw [value_evaluate hs (Expr.every_of_forget (fun _ _ _ _ => Iff.rfl) hx.symm hf)
    (Expr.boundWhole_of_forget hx.symm hw), Expr.meaning_eq_of_forget hx]

/-- Addition. -/
def addition : Function := .builtin ⟨"add", .add, .variadic, .commAssoc⟩

def sampleCompiler (p : Precision) : Compiler :=
  { functions := {}, precision := p, dateOrder := .dayFirst }

/-- A context whose environment holds integers. -/
def sampleContext (p : Precision) (env : String → Int) : Context where
  precision := p
  dateOrder := .dayFirst
  clock := {}
  scope := { lookup? := fun s _ => match s with
    | .environment name => some (.plain (.ofInt (env name)))
    | _ => none }

/-- An expression that was never evaluated. -/
def sample (root : Expr) : Computation := { root, source := "" }

/-- The formula `1 + m.x + 2`. -/
def sumFormula : Formula :=
  .binary .add (.binary .add (.literal (.number "1")) (.named .environment "x"))
    (.literal (.number "2"))

/-- The tree of `1 + m.x + 2`, with a name that is resolved or not. -/
def sumTree (target : Option Source) : Expr :=
  .ofCall addition [.ofCall addition [.constant (.plain (.ofInt 1)) false,
    .reference (.named .environment "x") target false], .constant (.plain (.ofInt 2)) false]

/-- A context in which `m.x` is four. -/
def sumContext : Context := sampleContext (.ofBits 128 .nearest) fun _ => 4

theorem compile_sumFormula :
    (sampleCompiler sumContext.precision).compile sumFormula = .ok (sumTree none) := by
  have hone : (sampleCompiler sumContext.precision).literal (.number "1") =
      .ok (.plain (.ofInt 1)) := by decide +kernel
  have htwo : (sampleCompiler sumContext.precision).literal (.number "2") =
      .ok (.plain (.ofInt 2)) := by decide +kernel
  simp only [sumFormula, Compiler.compile, hone, htwo]
  rfl

/-- The formula `m.x + (m.y + m.z)`. -/
def nestedFormula : Formula :=
  .binary .add (.named .environment "x")
    (.grouped (.binary .add (.named .environment "y") (.named .environment "z")))

end Computation
end Reporting
