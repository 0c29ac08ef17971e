import Reporting.Proofs.Report.Aggregates
/-!
What the mean of a variable is among values of any kinds: errors leave no trace in it, and values
that can not be summed count as if they were zero.
-/
namespace Reporting
open Operands

variable {v : Value} {vs : List Value} {p : Precision}

/-- A value that is there and can not be summed. -/
def Value.isMisfit (v : Value) : Bool := !v.isError && !v.isNull && v.number?.isNone

/-- How many of some values can not be summed. -/
def misfits (vs : List Value) : Nat := vs.countP Value.isMisfit

theorem misfits_concat (vs : List Value) (v : Value) :
    misfits (vs ++ [v]) = misfits vs + if v.isMisfit then 1 else 0 := by
  rw [misfits, List.countP_append, List.countP_singleton, misfits]

theorem Value.isMisfit_of_numeric (h : v.Numeric) : v.isMisfit = false := by
  unfold isMisfit
  rcases h with h | ⟨h, -⟩
  · rw [← Option.not_isSome, h, Bool.not_true, Bool.and_false]
  · rw [h, Bool.not_true, Bool.and_false, Bool.false_and]

theorem Value.number?_of_isError (h : v.isError = true) : v.number? = none := by
  cases hn : v.number? with
  | none => rfl
  | some n =>
    rw [isError_of_number? hn] at h
    cases h

/-- A value is an error, a number or a null, or it can not be summed. -/
theorem Value.trichotomy (v : Value) : v.isError = true ∨ v.Numeric ∨ v.isMisfit = true := by
  unfold Numeric isMisfit
  cases v.isError <;> cases v.isNull <;> cases v.number? <;> simp

/-- Values have one mean. -/
theorem IsMean.unique {k : Nat} {x y : Value} (hx : IsMean p vs k x) (hy : IsMean p vs k y) :
    x = y := by
  unfold IsMean at hx hy
  split at hx
  · rename_i hnone
    rw [hnone] at hy
    exact hx.trans hy.symm
  · rename_i t ht
    rw [ht] at hy
    obtain ⟨q, hq, rfl⟩ := hx
    obtain ⟨q', hq', rfl⟩ := hy
    rw [hq] at hq'
    cases hq'
    rfl

namespace Accumulator

variable {a : Accumulator}

/-- An accumulator of a mean that has taken in some values. -/
structure Averages (a : Accumulator) (p : Precision) (vs : List Value) : Prop where
  sum : a.sum = total? p (numbers vs)
  count : a.count = (numbers vs).length + misfits vs

theorem averages_nil (p : Precision) : Averages {} p [] := ⟨rfl, rfl⟩

namespace Averages

/-- A value that is not counted changes neither the sum nor the number of values. -/
theorem skip (h : a.Averages p vs) (hn : v.number? = none) (hm : v.isMisfit = false) :
    { a with rows := a.rows + 1 }.Averages p (vs ++ [v]) := by
  constructor
  · rw [numbers_concat_null hn]
    exact h.sum
  · rw [numbers_concat_null hn, misfits_concat, hm]
    exact h.count

theorem error (h : a.Averages p vs) (hv : v.isError = true) :
    (a.add .average v p).2 = v ∧ (a.add .average v p).1.Averages p (vs ++ [v]) := by
  have hadd : a.add .average v p = ({ a with rows := a.rows + 1 }, v) := by
    simp only [Accumulator.add, hv, Bool.true_or, if_true]
  rw [hadd]
  refine ⟨rfl, h.skip (Value.number?_of_isError hv) ?_⟩
  rw [Value.isMisfit, hv, Bool.not_true, Bool.false_and, Bool.false_and]

/-- A value that can not be summed is counted before it is refused. -/
theorem misfit (h : a.Averages p vs) (hv : v.isMisfit = true) :
    (a.add .average v p).2 = .invalidOperands ∧
      (a.add .average v p).1.Averages p (vs ++ [v]) := by
  have hcases := hv
  simp only [Value.isMisfit, Bool.and_eq_true, Bool.not_eq_true', Option.isNone_iff_eq_none] at hcases
  obtain ⟨⟨herror, hnull⟩, hn⟩ := hcases
  have hadd : a.add .average v p =
      ({ a with rows := a.rows + 1, count := a.count + 1 }, .invalidOperands) := by
    simp only [Accumulator.add, herror, hnull, Accumulator.take, hn]
    rfl
  rw [hadd]
  refine ⟨rfl, ?_, ?_⟩
  · rw [numbers_concat_null hn]
    exact h.sum
  · rw [numbers_concat_null hn, misfits_concat, hv]
    exact congrArg (· + 1) h.count

theorem numeric (h : a.Averages p vs) (hv : v.Numeric) :
    (a.add .average v p).2 = (a.add .average v p).1.result .average p ∧
      (a.add .average v p).1.Averages p (vs ++ [v]) := by
  rcases hv with hnumber | ⟨hnull, herror⟩
  · obtain ⟨n, hn⟩ := Option.isSome_iff_exists.1 hnumber
    obtain ⟨b, hadd, hsum, hcount⟩ : ∃ b, a.add .average v p = (b, b.result .average p) ∧
        b.sum = some ((a.sum.map fun s => s.add n p).getD n) ∧ b.count = a.count + 1 := by
      refine ⟨⟨a.rows + 1, a.count + 1, _, a.lowest, a.highest⟩, ?_, rfl, rfl⟩
      simp only [Accumulator.add, Value.isError_of_number? hn, (Value.number?_eq_some.1 hn).2,
        Accumulator.take, hn]
      rfl
    rw [hadd]
    refine ⟨rfl, ?_, ?_⟩
    · rw [numbers_concat_number hn, total?_concat, ← h.sum, hsum]
    · rw [numbers_concat_number hn, misfits_concat, Value.isMisfit_of_numeric (.inl hnumber),
        List.length_append, List.length_singleton, hcount, h.count]
      exact Nat.add_right_comm _ _ _
  · have hadd : a.add .average v p =
        ({ a with rows := a.rows + 1 }, { a with rows := a.rows + 1 }.result .average p) := by
      simp only [Accumulator.add, herror, hnull]
      rfl
    rw [hadd]
    exact ⟨rfl, h.skip (Value.number?_of_null hnull) (Value.isMisfit_of_numeric (.inr ⟨hnull, herror⟩))⟩

/-- Whatever is added, the sum is that of the numbers, and they and the misfits are counted. -/
theorem add (h : a.Averages p vs) (v : Value) : (a.add .average v p).1.Averages p (vs ++ [v]) := by
  rcases v.trichotomy with hv | hv | hv
  · exact (h.error hv).2
  · exact (h.numeric hv).2
  · exact (h.misfit hv).2

theorem result (h : a.Averages p vs) :
    IsMean p vs ((numbers vs).length + misfits vs) (a.result .average p) := by
  rw [Accumulator.result, h.count]
  exact mean_isMean h.sum fun hne => Nat.add_pos_left (List.length_pos_iff.2 hne) _

end Averages

theorem averages_addAll (p : Precision) (vs : List Value) :
    (addAll .average p vs).1.Averages p vs := by
  induction vs using List.reverseRecOn with
  | nil => exact averages_nil p
  | append_singleton vs v ih =>
    rw [addAll_concat]
    exact ih.add v

/-- Sums and numbers of values determine a mean. -/
theorem Averages.result_eq {b : Accumulator} {us : List Value} (ha : a.Averages p vs)
    (hb : b.Averages p us) (hn : numbers vs = numbers us) (hm : misfits vs = misfits us) :
    a.result .average p = b.result .average p := by
  have hcount : a.count = b.count := by rw [ha.count, hb.count, hn, hm]
  simp only [Accumulator.result, mean, hcount, ha.sum, hb.sum, hn]

theorem numbers_filter (vs : List Value) :
    numbers (vs.filter fun v => !v.isError) = numbers vs := by
  rw [numbers, List.filterMap_filter, numbers]
  congr 1
  funext v
  cases hv : v.isError with
  | false => rfl
  | true =>
    rw [Value.number?_of_isError hv]
    rfl

theorem misfits_filter (vs : List Value) :
    misfits (vs.filter fun v => !v.isError) = misfits vs := by
  rw [misfits, List.countP_filter, misfits]
  congr 1
  funext v
  unfold Value.isMisfit
  cases v.isError with
  | false => rw [Bool.not_false, Bool.and_true]
  | true => rw [Bool.not_true, Bool.and_false, Bool.false_and, Bool.false_and]

/-- A mean among values of any kinds. An error is the result of its row, and later means are as if
it had not been there. A value that is neither an error nor a null nor a number is refused, and yet
each later mean is the sum of the numbers divided by how many numbers and such values there were. -/
theorem addAll_average (p : Precision) (vs : List Value) (v : Value) :
    (v.isError = true → (addAll .average p (vs ++ [v])).2 = v) ∧
    (v.isMisfit = true → (addAll .average p (vs ++ [v])).2 = .invalidOperands) ∧
    (v.Numeric →
      IsMean p (vs ++ [v]) ((numbers (vs ++ [v])).length + misfits vs)
        (addAll .average p (vs ++ [v])).2 ∧
      (addAll .average p (vs ++ [v])).2 =
        (addAll .average p ((vs.filter fun v => !v.isError) ++ [v])).2) := by
  have h := averages_addAll p vs
  rw [addAll_concat, addAll_concat]
  refine ⟨fun hv => (h.error hv).1, fun hv => (h.misfit hv).1, fun hv => ?_⟩
  obtain ⟨hshown, hadd⟩ := h.numeric hv
  obtain ⟨hshown', hadd'⟩ := (averages_addAll p (vs.filter fun v => !v.isError)).numeric hv
  constructor
  · have hresult := hadd.result
    rw [misfits_concat, Value.isMisfit_of_numeric hv] at hresult
    rw [hshown]
    exact hresult
  · rw [hshown, hshown']
    apply hadd.result_eq hadd'
    · rw [numbers_append, numbers_append, numbers_filter]
    · rw [misfits_concat, misfits_concat, misfits_filter]

/-- Two numbers with a text between them. -/
def parted : List Value := [.ofInt 5, .text "x", .ofInt 7]

/-- After the text the mean of five and seven is shown as four, and without the text as six. -/
theorem average_of_parted :
    let p := Precision.ofBits 128 .nearest
    let shown := (addAll .average p parted).2
    (shown.number?.map fun n => n.compare (.ofInt 4)) = some .eq ∧
      ((addAll .average p [.ofInt 5, .ofInt 7]).2.number?.map fun n => n.compare (.ofInt 6)) =
        some .eq ∧
      ¬ IsMean p parted (numbers parted).length shown := by
  intro p shown
  refine ⟨by decide +kernel, by decide +kernel, fun h => ?_⟩
  have hmean : IsMean p parted (numbers parted).length
      (mean { sum := total? p (numbers parted) } (numbers parted).length p) :=
    mean_isMean rfl List.length_pos_iff.2
  have hne : shown ≠ mean { sum := total? p (numbers parted) } (numbers parted).length p := by
    decide +kernel
  exact hne (h.unique hmean)

/-- An error, a text, and a number behind an error and a null. -/
theorem addAll_average_of_mixed :
    let p := Precision.ofBits 128 .nearest
    let vs := [Value.ofInt 5, .error "e", .null .number]
    (addAll .average p [.ofInt 5, .error "e"]).2 = .error "e" ∧
      (addAll .average p [.ofInt 5, .text "x"]).2 = .invalidOperands ∧
      IsMean p (vs ++ [.ofInt 7]) 2 (addAll .average p (vs ++ [.ofInt 7])).2 := by
  intro p vs
  refine ⟨?_, ?_, ?_⟩
  · exact (addAll_average p [.ofInt 5] (.error "e")).1 rfl
  · exact (addAll_average p [.ofInt 5] (.text "x")).2.1 rfl
  · have hlength : (numbers (vs ++ [.ofInt 7])).length + misfits vs = 2 := by decide +kernel
    have hmean := ((addAll_average p vs (.ofInt 7)).2.2 (.inl (by decide +kernel))).1
    rw [hlength] at hmean
    exact hmean

end Accumulator
end Reporting
