import Reporting.Proofs.Decimal.Order
import Reporting.Proofs.Value.Held
import Reporting.Function.Operands
import Reporting.Report.Accumulator
/-!
What an accumulator makes of a list of numbers and nulls: their count, their sum, their mean, and the
first of the lowest or highest of them.
-/
namespace Reporting
open Operands

variable {v x : Value} {vs : List Value} {n m : Decimal} {ns : List Decimal} {p : Precision}

namespace Value

/-- A number, or a null of another kind than that of errors. -/
def Numeric (v : Value) : Prop := v.number?.isSome ∨ v.isNull = true ∧ v.isError = false

theorem number?_of_null (h : v.isNull = true) : v.number? = none := by
  cases hn : v.number? with
  | none => rfl
  | some n =>
    rw [(number?_eq_some.1 hn).2] at h
    cases h

end Value

/-! The definitions of the aggregates -/

/-- How many of some values are not null. -/
def countIn (vs : List Value) : Nat := vs.countP fun v => !v.isNull

/-- The sum of numbers from left to right, if there are any. -/
def total? (p : Precision) : List Decimal → Option Decimal
  | [] => none
  | n :: ns => some (ns.foldl (fun s m => s.add m p) n)

/-- A sum divided by a number of values, or null if nothing was summed. -/
def IsMean (p : Precision) (vs : List Value) (k : Nat) (x : Value) : Prop :=
  match total? p (numbers vs) with
  | none => x = .null .number
  | some t => ∃ q, t.div? (.ofInt k) p = some q ∧ x = .number q

/-- The first of the numbers that go before all others, if there are any. -/
def IsFirst (before : ℚ → ℚ → Prop) (vs : List Value) : Option Value → Prop
  | none => numbers vs = []
  | some x => ∃ earlier later n, vs = earlier ++ x :: later ∧ x.number? = some n ∧
      (∀ m ∈ numbers earlier, before n.toRat m.toRat) ∧
      ∀ m ∈ numbers later, ¬ before m.toRat n.toRat

/-- What an aggregate of some values is. -/
def VariableKind.Aggregates (k : VariableKind) (p : Precision) (vs : List Value) (x : Value) : Prop :=
  match k with
  | .count => x = .ofInt (countIn vs)
  | .countAll => x = .ofInt vs.length
  | .sum => x = .number ((total? p (numbers vs)).getD .zero)
  | .average => IsMean p vs (countIn vs) x
  | .averageAll => IsMean p vs vs.length x
  | .lowest => ∃ first?, IsFirst (· < ·) vs first? ∧ x = first?.getD (.null .number)
  | .highest => ∃ first?, IsFirst (· > ·) vs first? ∧ x = first?.getD (.null .number)
  | .expression | .custom => False

theorem numbers_concat_number (h : v.number? = some n) (vs : List Value) :
    numbers (vs ++ [v]) = numbers vs ++ [n] := by
  simp only [numbers, List.filterMap_append, List.filterMap_cons, h, List.filterMap_nil]

theorem numbers_concat_null (h : v.number? = none) (vs : List Value) :
    numbers (vs ++ [v]) = numbers vs := by
  simp only [numbers, List.filterMap_append, List.filterMap_cons, h, List.filterMap_nil,
    List.append_nil]

theorem countIn_concat (vs : List Value) (v : Value) :
    countIn (vs ++ [v]) = countIn vs + if v.isNull then 0 else 1 := by
  rw [countIn, List.countP_append, List.countP_singleton, countIn]
  cases v.isNull <;> rfl

theorem total?_concat (ns : List Decimal) (n : Decimal) :
    total? p (ns ++ [n]) = some (((total? p ns).map fun s => s.add n p).getD n) := by
  cases ns with
  | nil => rfl
  | cons m ns =>
    rw [List.cons_append, total?, total?, List.foldl_append]
    rfl

theorem countIn_pos (h : numbers vs ≠ []) : 0 < countIn vs ∧ 0 < vs.length := by
  obtain ⟨n, hn⟩ := List.exists_mem_of_ne_nil _ h
  obtain ⟨v, hv, hnumber⟩ := List.mem_filterMap.1 hn
  refine ⟨List.countP_pos_iff.2 ⟨v, hv, ?_⟩, List.length_pos_of_mem hv⟩
  rw [(Value.number?_eq_some.1 hnumber).2]
  rfl

theorem div?_ofInt {k : Nat} (hk : 0 < k) (t : Decimal) : ∃ q, t.div? (.ofInt k) p = some q := by
  have hzero : (Decimal.ofInt (k : Int)).isZero = false := by
    rw [Decimal.isZero, beq_eq_false_iff_ne]
    exact Int.natCast_ne_zero.2 (Nat.ne_of_gt hk)
  unfold Decimal.div?
  rw [hzero]
  exact ⟨_, rfl⟩

/-! The first of the best -/

section

variable {before : ℚ → ℚ → Prop}

theorem IsFirst.null (h : v.number? = none) {first? : Option Value} (hf : IsFirst before vs first?) :
    IsFirst before (vs ++ [v]) first? := by
  cases first? with
  | none =>
    rw [IsFirst, numbers_concat_null h]
    exact hf
  | some x =>
    obtain ⟨earlier, later, n, rfl, hx, hearlier, hlater⟩ := hf
    refine ⟨earlier, later ++ [v], n, ?_, hx, hearlier, ?_⟩
    · rw [List.append_assoc, List.cons_append]
    · rw [numbers_concat_null h]
      exact hlater

/-- A number takes the place of the first one if it goes before it. -/
theorem IsFirst.better {wanted : Ordering}
    (horder : ∀ a b : Decimal, a.compare b = wanted ↔ before a.toRat b.toRat)
    (htrans : ∀ {a b c}, before a b → before b c → before a c)
    (hnot : ∀ {a b c}, before a b → ¬ before c b → before a c)
    (hv : v.number? = some m) {first? : Option Value} (hf : IsFirst before vs first?) :
    ∃ w, Accumulator.better wanted v first? = .ok w ∧ IsFirst before (vs ++ [v]) (some w) := by
  obtain ⟨hpayload, -⟩ := Value.number?_eq_some.1 hv
  cases first? with
  | none =>
    have hnone : numbers vs = [] := hf
    refine ⟨v, rfl, vs, [], m, rfl, hv, ?_, ?_⟩
    · rw [hnone]
      exact List.forall_mem_nil _
    · exact List.forall_mem_nil _
  | some x =>
    obtain ⟨earlier, later, n, rfl, hx, hearlier, hlater⟩ := hf
    have hrank : Accumulator.rank v x = .ok (m.compare n) := by
      unfold Accumulator.rank
      rw [hpayload, (Value.number?_eq_some.1 hx).1]
    have hbetter : Accumulator.better wanted v (some x) =
        .ok (if m.compare n = wanted then v else x) := by
      simp only [Accumulator.better, hrank]
      rfl
    refine ⟨_, hbetter, ?_⟩
    split
    · rename_i hwanted
      have hmn := (horder m n).1 hwanted
      refine ⟨earlier ++ x :: later, [], m, rfl, hv, ?_, List.forall_mem_nil _⟩
      intro k hk
      rw [show numbers (earlier ++ x :: later) = numbers earlier ++ numbers (x :: later) from
        List.filterMap_append, List.mem_append] at hk
      rcases hk with hk | hk
      · exact htrans hmn (hearlier k hk)
      · rw [numbers, List.filterMap_cons, hx] at hk
        rcases List.mem_cons.1 hk with rfl | hk
        · exact hmn
        · exact hnot hmn (hlater k hk)
    · rename_i hwanted
      refine ⟨earlier, later ++ [v], n, ?_, hx, hearlier, ?_⟩
      · rw [List.append_assoc, List.cons_append]
      · rw [numbers_concat_number hv]
        intro k hk
        rcases List.mem_append.1 hk with hk | hk
        · exact hlater k hk
        · rw [List.mem_singleton.1 hk]
          exact fun h => hwanted ((horder m n).2 h)

end

theorem IsFirst.lower (hv : v.number? = some m) {first? : Option Value}
    (hf : IsFirst (· < ·) vs first?) :
    ∃ w, Accumulator.better .lt v first? = .ok w ∧ IsFirst (· < ·) (vs ++ [v]) (some w) :=
  hf.better (fun _ _ => Decimal.compare_eq_lt) lt_trans
    (fun hab hcb => lt_of_lt_of_le hab (not_lt.1 hcb)) hv

theorem IsFirst.higher (hv : v.number? = some m) {first? : Option Value}
    (hf : IsFirst (· > ·) vs first?) :
    ∃ w, Accumulator.better .gt v first? = .ok w ∧ IsFirst (· > ·) (vs ++ [v]) (some w) := by
  refine hf.better (fun _ _ => Decimal.compare_eq_gt) ?_ ?_ hv
  · exact fun hab hbc => lt_trans hbc hab
  · exact fun hab hcb => lt_of_le_of_lt (not_lt.1 hcb) hab

/-! Accumulators -/

namespace Accumulator

variable {a : Accumulator} {k : VariableKind}

/-- An accumulator that has taken in some values, as far as a kind of variable needs them. -/
structure Holds (a : Accumulator) (k : VariableKind) (p : Precision) (vs : List Value) : Prop where
  rows : a.rows = vs.length
  count : a.count = countIn vs
  sum : k = .sum ∨ k = .average ∨ k = .averageAll → a.sum = total? p (numbers vs)
  lowest : k = .lowest → IsFirst (· < ·) vs a.lowest
  highest : k = .highest → IsFirst (· > ·) vs a.highest

theorem holds_nil (k : VariableKind) (p : Precision) : Holds {} k p [] :=
  ⟨rfl, rfl, fun _ => rfl, fun _ => rfl, fun _ => rfl⟩

/-- A null is one more row and nothing else. -/
theorem Holds.null (h : a.Holds k p vs) (hv : v.isNull = true) :
    { a with rows := a.rows + 1 }.Holds k p (vs ++ [v]) := by
  have hn := Value.number?_of_null hv
  refine ⟨?_, ?_, fun hk => ?_, fun hk => (h.lowest hk).null hn, fun hk => (h.highest hk).null hn⟩
  · rw [List.length_append, ← h.rows]
    rfl
  · rw [countIn_concat, if_pos hv, ← h.count]
    rfl
  · rw [numbers_concat_null hn, ← h.sum hk]

/-- A number is taken in by all kinds of aggregates. -/
theorem Holds.take (h : a.Holds k p vs) (hv : v.number? = some n) :
    ∃ a', { a with rows := a.rows + 1, count := a.count + 1 }.take k v p = .ok a' ∧
      a'.Holds k p (vs ++ [v]) := by
  have hrows : a.rows + 1 = (vs ++ [v]).length := by
    rw [List.length_append, ← h.rows]
    rfl
  have hcount : a.count + 1 = countIn (vs ++ [v]) := by
    rw [countIn_concat, (Value.number?_eq_some.1 hv).2, ← h.count]
    rfl
  have hsum (hk : k = .sum ∨ k = .average ∨ k = .averageAll) :
      { a with rows := a.rows + 1, count := a.count + 1 }.take k v p =
        .ok { a with
          rows := a.rows + 1
          count := a.count + 1
          sum := some ((a.sum.map fun s => s.add n p).getD n) } ∧
      some ((a.sum.map fun s => s.add n p).getD n) = total? p (numbers (vs ++ [v])) := by
    constructor
    · rcases hk with rfl | rfl | rfl <;> simp only [Accumulator.take, hv]
    · rw [numbers_concat_number hv, total?_concat, h.sum hk]
  cases k with
  | count => exact ⟨_, rfl, hrows, hcount, nofun, nofun, nofun⟩
  | countAll => exact ⟨_, rfl, hrows, hcount, nofun, nofun, nofun⟩
  | expression => exact ⟨_, rfl, hrows, hcount, nofun, nofun, nofun⟩
  | custom => exact ⟨_, rfl, hrows, hcount, nofun, nofun, nofun⟩
  | sum =>
    obtain ⟨htake, htotal⟩ := hsum (.inl rfl)
    exact ⟨_, htake, hrows, hcount, fun _ => htotal, nofun, nofun⟩
  | average =>
    obtain ⟨htake, htotal⟩ := hsum (.inr (.inl rfl))
    exact ⟨_, htake, hrows, hcount, fun _ => htotal, nofun, nofun⟩
  | averageAll =>
    obtain ⟨htake, htotal⟩ := hsum (.inr (.inr rfl))
    exact ⟨_, htake, hrows, hcount, fun _ => htotal, nofun, nofun⟩
  | lowest =>
    obtain ⟨w, hw, hfirst⟩ := (h.lowest rfl).lower hv
    refine ⟨{ a with rows := a.rows + 1, count := a.count + 1, lowest := some w }, ?_, hrows, hcount,
      nofun, fun _ => hfirst, nofun⟩
    simp only [Accumulator.take, hw]
    rfl
  | highest =>
    obtain ⟨w, hw, hfirst⟩ := (h.highest rfl).higher hv
    refine ⟨{ a with rows := a.rows + 1, count := a.count + 1, highest := some w }, ?_, hrows, hcount,
      nofun, nofun, fun _ => hfirst⟩
    simp only [Accumulator.take, hw]
    rfl

/-- The value of a row is taken in, and the new result is that of all values together. -/
theorem Holds.add (h : a.Holds k p vs) (hk : k.isAggregate = true) (hv : v.Numeric) :
    (a.add k v p).2 = (a.add k v p).1.result k p ∧ (a.add k v p).1.Holds k p (vs ++ [v]) := by
  have hexpression : (k = .expression) = False := by
    apply eq_false
    rintro rfl
    cases hk
  rcases hv with hnumber | ⟨hnull, herror⟩
  · obtain ⟨n, hn⟩ := Option.isSome_iff_exists.1 hnumber
    obtain ⟨a', htake, hholds⟩ := h.take hn
    have hadd : a.add k v p = (a', a'.result k p) := by
      simp only [Accumulator.add, Value.isError_of_number? hn, hexpression, decide_false, Bool.or_false,
        Bool.false_eq_true, if_false, (Value.number?_eq_some.1 hn).2, htake]
    rw [hadd]
    exact ⟨rfl, hholds⟩
  · have hadd : a.add k v p =
        ({ a with rows := a.rows + 1 }, { a with rows := a.rows + 1 }.result k p) := by
      simp only [Accumulator.add, herror, hexpression, decide_false, Bool.or_false,
        Bool.false_eq_true, if_false, hnull, if_true]
    rw [hadd]
    exact ⟨rfl, h.null hnull⟩

theorem mean_isMean {j : Nat} (hsum : a.sum = total? p (numbers vs))
    (hj : numbers vs ≠ [] → 0 < j) : IsMean p vs j (a.mean j p) := by
  unfold IsMean mean
  rw [hsum]
  cases hns : numbers vs with
  | nil =>
    change (if j = 0 then Value.null .number else Value.null .number) = Value.null .number
    exact ite_self _
  | cons n ns =>
    have hpos := hj (by rw [hns]; exact List.cons_ne_nil n ns)
    obtain ⟨q, hq⟩ := div?_ofInt (p := p) hpos (ns.foldl (fun s m => s.add m p) n)
    refine ⟨q, hq, ?_⟩
    rw [if_neg (Nat.ne_of_gt hpos), total?, Option.bind_some, hq]

theorem Holds.result (h : a.Holds k p vs) (hk : k.isAggregate = true) :
    k.Aggregates p vs (a.result k p) := by
  cases k with
  | count => exact congrArg (fun n : Nat => Value.ofInt n) h.count
  | countAll => exact congrArg (fun n : Nat => Value.ofInt n) h.rows
  | sum => exact congrArg (fun s : Option Decimal => Value.number (s.getD .zero)) (h.sum (.inl rfl))
  | average =>
    rw [Accumulator.result, h.count]
    exact mean_isMean (h.sum (.inr (.inl rfl))) fun hne => (countIn_pos hne).1
  | averageAll =>
    rw [Accumulator.result, h.rows]
    exact mean_isMean (h.sum (.inr (.inr rfl))) fun hne => (countIn_pos hne).2
  | lowest => exact ⟨a.lowest, h.lowest rfl, rfl⟩
  | highest => exact ⟨a.highest, h.highest rfl, rfl⟩
  | expression => cases hk
  | custom => cases hk

end Accumulator
end Reporting
