import Reporting.Proofs.Formula.Derivations
import Reporting.Proofs.Formula.Everywhere
/-!
The operators of a level group to the left: the right operand of an operator is no operator of the
same level or a looser one, unless it stands in parentheses.
-/
namespace Reporting
open Grammar

namespace Formula

/-- The level of the operator that a formula applies last. -/
def level? : Formula → Option Nat
  | .binary op _ _ => op.level?
  | _ => none

/-- The right operand of a formula is tighter than the formula. -/
def LeftGrouped : Formula → Prop
  | .binary op _ right => ∀ m, op.level? = some m → ∀ n, right.level? = some n → m < n
  | _ => True

end Formula

namespace Grammar

variable {nt : Nonterminal} {ts rest : List Token} {f : Formula} {n m : Nat}
  {os : List (BinaryOp × Formula)} {us : List UnaryOp}

/-- The levels of what a nonterminal derives. -/
def Nonterminal.Tight : (nt : Nonterminal) → nt.Meaning → Prop
  | .level n, (f : Formula) => ∀ m, f.level? = some m → n ≤ m
  | .operations n, (os : List (BinaryOp × Formula)) =>
    ∀ o ∈ os, o.1.level? = some n ∧ ∀ m, o.2.level? = some m → n < m
  | .unary, (f : Formula) | .power, (f : Formula) | .suffixed, (f : Formula)
    | .primary, (f : Formula) => f.level? = none
  | _, _ => True

theorem level?_chain (hf : ∀ m, f.level? = some m → n ≤ m) (hos : ∀ o ∈ os, o.1.level? = some n)
    (h : (chain f os).level? = some m) : n ≤ m := by
  induction os generalizing f with
  | nil => exact hf m h
  | cons o os ih =>
    refine ih (fun m hm => ?_) (fun o ho => hos o (List.mem_cons_of_mem _ ho)) h
    rw [Formula.level?, hos o List.mem_cons_self, Option.some.injEq] at hm
    exact Nat.le_of_eq hm

theorem everywhere_chain_leftGrouped (hf : f.Everywhere Formula.LeftGrouped)
    (hos : ∀ o ∈ os, o.2.Everywhere Formula.LeftGrouped)
    (hlevel : ∀ o ∈ os, o.1.level? = some n ∧ ∀ m, o.2.level? = some m → n < m) :
    (chain f os).Everywhere Formula.LeftGrouped := by
  induction os generalizing f with
  | nil => exact hf
  | cons o os ih =>
    obtain ⟨ho, hright⟩ := hlevel o List.mem_cons_self
    refine ih ⟨fun m hm k hk => ?_, hf, hos o List.mem_cons_self⟩
      (fun o h => hos o (List.mem_cons_of_mem _ h)) fun o h => hlevel o (List.mem_cons_of_mem _ h)
    cases ho.symm.trans hm
    exact hright k hk

theorem level?_withSuffixes (hf : f.level? = none) : (withSuffixes f us).level? = none := by
  induction us generalizing f with
  | nil => exact hf
  | cons u us ih => exact ih rfl

theorem everywhere_withSuffixes_leftGrouped (hf : f.Everywhere Formula.LeftGrouped) :
    (withSuffixes f us).Everywhere Formula.LeftGrouped := by
  induction us generalizing f with
  | nil => exact hf
  | cons u us ih => exact ih ⟨trivial, hf⟩

theorem Derivation.tight (d : Derivation nt ts rest) : nt.Tight d.meaning := by
  induction d with
  | @level n _ _ _ _ d os ihd ihos =>
    exact fun m => level?_chain (fun m hm => Nat.le_of_succ_le (ihd m hm)) fun o ho => (ihos o ho).1
  | tightest _ _ ih =>
    intro m hm
    rw [Derivation.meaning, ih] at hm
    cases hm
  | noOperation => exact List.forall_mem_nil _
  | operation s op hs d os ihd ihos =>
    exact List.forall_mem_cons.2 ⟨⟨(mem_operatorsOf.1 hs).2, fun m hm => ihd m hm⟩, ihos⟩
  | product hn _ d os ihd ihos =>
    have hop : BinaryOp.multiply.level? = some _ := congrArg some (Nat.succ.inj hn).symm
    refine List.forall_mem_cons.2 ⟨⟨hop, fun m hm => ?_⟩, ihos⟩
    rw [ihd] at hm
    cases hm
  | unsigned _ ih => exact ih
  | base _ ih => exact ih
  | suffixed d us ihd _ => exact level?_withSuffixes ihd
  | qualified q name =>
    show (Formula.ofQualified q name).level? = none
    rw [Formula.ofQualified]
    split <;> rfl
  | signed | power | number | text | datetime | plain | dotted | emptyCall | call | grouped => rfl
  | _ => trivial

theorem Derivation.leftGrouped (d : Derivation nt ts rest) :
    nt.Everywhere Formula.LeftGrouped d.meaning := by
  induction d with
  | conditional _ _ _ ihc ihy ihn => exact ⟨trivial, ihc, ihy, ihn⟩
  | level _ d os ihd ihos => exact everywhere_chain_leftGrouped ihd ihos os.tight
  | noOperation => exact List.forall_mem_nil _
  | operation _ _ _ _ _ ihd ihos => exact List.forall_mem_cons.2 ⟨ihd, ihos⟩
  | product _ _ _ _ ihd ihos => exact List.forall_mem_cons.2 ⟨ihd, ihos⟩
  | signed _ _ _ _ ih => exact ⟨trivial, ih⟩
  | power _ _ ihd ihe => exact ⟨nofun, ihd, ihe⟩
  | suffixed _ _ ihd _ => exact everywhere_withSuffixes_leftGrouped ihd
  | qualified q name =>
    show (Formula.ofQualified q name).Everywhere Formula.LeftGrouped
    rw [Formula.ofQualified]
    split <;> trivial
  | emptyCall => exact ⟨trivial, trivial⟩
  | call _ _ ih => exact ⟨trivial, ih⟩
  | grouped _ ih => exact ⟨trivial, ih⟩
  | argument _ ih => exact ⟨ih, trivial⟩
  | arguments _ _ ihd ihds => exact ⟨ihd, ihds⟩
  | simple _ ih => exact ih
  | tightest _ _ ih => exact ih
  | unsigned _ ih => exact ih
  | base _ ih => exact ih
  | _ => trivial

end Grammar

/-- What is read groups to the left everywhere. -/
theorem Formula.leftGrouped_of_parse {text : String} {f : Formula} (h : Formula.parse text = .ok f) :
    f.Everywhere Formula.LeftGrouped := by
  obtain ⟨d, rfl⟩ := ofTokens_eq_ok_iff.1 h
  exact d.leftGrouped

end Reporting
