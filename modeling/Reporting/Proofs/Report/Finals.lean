import Reporting.Proofs.Report.Aggregates
import Reporting.Proofs.Report.Lockstep
/-!
The last values of groups: the pass in advance collects them group by group, and the final pass reads
them one after another.
-/
namespace Reporting

/-- The last values of the groups that rows make. A row is whether it starts a new group, and its
value; the first group goes on from a value. -/
def lastOfGroups (x : Value) : List (Bool × Value) → List Value
  | [] => [x]
  | (true, y) :: rows => x :: lastOfGroups y rows
  | (false, y) :: rows => lastOfGroups y rows

/-- The last value of the first of the groups. -/
def lastOfGroup (x : Value) : List (Bool × Value) → Value
  | (false, y) :: rows => lastOfGroup y rows
  | _ => x

theorem getElem?_lastOfGroups (x : Value) (rows : List (Bool × Value)) :
    (lastOfGroups x rows)[0]? = some (lastOfGroup x rows) := by
  induction rows generalizing x with
  | nil => rfl
  | cons row rows ih =>
    obtain ⟨starts, y⟩ := row
    cases starts with
    | true => rfl
    | false => exact ih y

/-- The value of the last row before the one that starts the next group. -/
theorem lastOfGroup_eq {rows rest : List (Bool × Value)} {row last : Bool × Value} {k : Nat}
    (hrows : rows = row :: rest) (hlast : rows[k]? = some last)
    (hgoes : ∀ j row, 0 < j → j ≤ k → rows[j]? = some row → row.1 = false)
    (hend : ∀ row, rows[k + 1]? = some row → row.1 = true) : lastOfGroup row.2 rest = last.2 := by
  induction k generalizing rows rest row with
  | zero =>
    subst hrows
    cases hlast
    cases rest with
    | nil => rfl
    | cons next rest =>
      obtain ⟨starts, z⟩ := next
      obtain rfl : starts = true := hend _ rfl
      rfl
  | succ k ih =>
    subst hrows
    cases rest with
    | nil => cases hlast
    | cons next rest =>
      obtain ⟨starts, z⟩ := next
      obtain rfl : starts = false := hgoes 1 _ Nat.one_pos (Nat.le_add_left 1 k) rfl
      have hrest : ((false, z) :: rest) = (false, z) :: rest := rfl
      have hgoes' : ∀ j row, 0 < j → j ≤ k → ((false, z) :: rest)[j]? = some row →
          row.1 = false :=
        fun j row hj hjk => hgoes (j + 1) row (Nat.succ_pos j) (Nat.succ_le_succ hjk)
      change lastOfGroup z rest = last.2
      exact ih hrest hlast hgoes' hend

namespace Progress

variable {i n e : Nat} {p p' q : Progress} {ps ps' : List Progress} {pass pass' : Pass}
  {v : Variable} {s : VariableState}

/-- A row of a pass: whether the variable at a position starts over on it, and its result. -/
def mark (pass : Pass) (i : Nat) (p : Progress) : Bool × Value :=
  (p.report.vars[i]?.any (p.startsOver pass),
    ((step pass p).running? i).getD (.null .number))

theorem step_getElem? (pass : Pass) (p : Progress) (i : Nat) :
    (step pass p).report.vars[i]? = (p.finished pass).report.vars[i]? ∧
      (step pass p).values.vars[i]? = (p.finished pass).values.vars[i]? := by
  cases pass with
  | ahead =>
    rw [step, precalculateRow_eq]
    exact ⟨rfl, rfl⟩
  | final =>
    rw [step, renderRow_fst]
    exact ⟨rfl, rfl⟩

theorem step_gets (pass : Pass) (hv : p.report.vars[i]? = some v)
    (hs : p.values.vars[i]? = some s) :
    ∃ v' s' value, (step pass p).report.vars[i]? = some v' ∧ (step pass p).values.vars[i]? = some s' ∧
      Variable.Gets v v' (if p.startsOver pass v then startOver pass v s else (v, s)).2 s' value ∧
      p.mark pass i = (p.startsOver pass v, s'.result.current) := by
  obtain ⟨v', s', value, hv', hs', hgets⟩ := finished_gets pass hv hs
  obtain ⟨hvars, hstates⟩ := step_getElem? pass p i
  refine ⟨v', s', value, hvars.trans hv', hstates.trans hs', hgets, ?_⟩
  rw [mark, hv, running?, hstates, hs']
  rfl

/-- The pass in advance keeps the last values of all groups but the last one, which is the one that
its variable is left with. -/
theorem Turns.finals (h : Turns (step .ahead) p ps q) (hv : p.report.vars[i]? = some v)
    (hs : p.values.vars[i]? = some s) (hahead : v.precalculated = true) :
    ∃ s', q.values.vars[i]? = some s' ∧ s'.finals ++ [s'.result.current] =
      s.finals ++ lastOfGroups s.result.current (ps.map (mark .ahead i)) := by
  induction h generalizing v s with
  | none p => exact ⟨s, hs, rfl⟩
  | @next p p₁ q ps hadvance hrest ih =>
    obtain ⟨queries, -, hp₁⟩ := advance_eq_ok hadvance
    have hv₁ : p₁.report.vars[i]? = some v := by rw [hp₁]; exact hv
    have hs₁ : p₁.values.vars[i]? = some s := by rw [hp₁]; exact hs
    obtain ⟨v', s', value, hv', hs', hgets, hmark⟩ := step_gets .ahead hv₁ hs₁
    obtain ⟨s'', hs'', hfinals⟩ := ih hv' hs' (hgets.precalculated.trans hahead)
    refine ⟨s'', hs'', ?_⟩
    rw [hfinals, hgets.finals, List.map_cons, hmark]
    cases hstarts : p₁.startsOver .ahead v with
    | false => rfl
    | true =>
      rw [if_pos rfl, startOver, hahead]
      exact List.append_assoc s.finals [s.result.current] _

/-- A variable in the final pass that reads the value of the group that it counts. -/
def Points (s : VariableState) : Prop :=
  s.result.precalculated = (s.finals[s.group]?).getD (.null .number)

/-- A row of the final pass goes on to the value of the next group exactly if the variable starts
over on it. -/
theorem Points.step (hv : p.report.vars[i]? = some v) (hs : p.values.vars[i]? = some s)
    (hahead : v.precalculated = true) (h : Points s) :
    ∃ v' s', (step .final p).report.vars[i]? = some v' ∧
      (step .final p).values.vars[i]? = some s' ∧ Variable.Same v v' ∧ Points s' ∧
      s'.finals = s.finals ∧ s'.group = s.group + (p.mark .final i).1.toNat ∧
      (p.mark .final i).2 = s'.result.current := by
  obtain ⟨v', s', value, hv', hs', hgets, hmark⟩ := step_gets .final hv hs
  refine ⟨v', s', hv', hs', hgets.toSame, ?_⟩
  have hread : s'.result.precalculated =
      (if p.startsOver .final v then startOver .final v s else (v, s)).2.result.precalculated := by
    rw [hgets.result]
    rfl
  rw [hmark, Points, hread, hgets.finals, hgets.group]
  cases p.startsOver .final v with
  | false => exact ⟨h, rfl, rfl, rfl⟩
  | true =>
    rw [if_pos rfl, startOver, hahead]
    exact ⟨rfl, rfl, rfl, rfl⟩

/-- In the final pass a variable is read as the last value of the group with the number of the group of
the row. -/
theorem Turns.points (h : Turns (step .final) p ps q) (hv : p.report.vars[i]? = some v)
    (hs : p.values.vars[i]? = some s) (hahead : v.precalculated = true) (hpoints : Points s)
    (hp : ps[n]? = some p') :
    ∃ s', (step .final p').values.vars[i]? = some s' ∧ s'.result.precalculated =
      (s.finals[s.group + ((ps.take (n + 1)).map (mark .final i)).countP (·.1)]?).getD
        (.null .number) := by
  induction h generalizing v s n with
  | none p => cases hp
  | @next p p₁ q ps hadvance hrest ih =>
    obtain ⟨queries, -, hp₁⟩ := advance_eq_ok hadvance
    have hv₁ : p₁.report.vars[i]? = some v := by rw [hp₁]; exact hv
    have hs₁ : p₁.values.vars[i]? = some s := by rw [hp₁]; exact hs
    obtain ⟨v', s', hv', hs', hsame, hpoints', hfinals, hgroup, -⟩ := hpoints.step hv₁ hs₁ hahead
    have hcount (l : List (Bool × Value)) :
        s'.group + l.countP (·.1) = s.group + (p₁.mark .final i :: l).countP (·.1) := by
      rw [hgroup, List.countP_cons]
      cases (p₁.mark .final i).1 <;> simp only [Bool.toNat_true, Bool.toNat_false, if_true,
        Bool.false_eq_true, if_false] <;> omega
    rw [List.take_succ_cons, List.map_cons, ← hcount, ← hfinals]
    cases n with
    | zero =>
      cases hp
      exact ⟨s', hs', hpoints'⟩
    | succ n => exact ih hv' hs' (hsame.precalculated.trans hahead) hpoints' hp

/-- A variable in the final pass that has the last values of this group and of those to come. -/
structure Loaded (s : VariableState) (rows : List (Bool × Value)) : Prop where
  finals : s.finals.drop s.group = lastOfGroups s.result.current rows
  loaded : s.result.precalculated = (s.finals[s.group]?).getD (.null .number)

theorem Loaded.precalculated {rows : List (Bool × Value)} (h : Loaded s rows) :
    s.result.precalculated = lastOfGroup s.result.current rows := by
  have hfirst := getElem?_lastOfGroups s.result.current rows
  rw [← h.finals, List.getElem?_drop, Nat.add_zero] at hfirst
  rw [h.loaded, hfirst, Option.getD_some]

theorem Loaded.step {rows : List (Bool × Value)} (hv : p.report.vars[i]? = some v)
    (hs : p.values.vars[i]? = some s) (hahead : v.precalculated = true)
    (h : Loaded s (p.mark .final i :: rows)) :
    ∃ v' s', (step .final p).report.vars[i]? = some v' ∧
      (step .final p).values.vars[i]? = some s' ∧ Variable.Same v v' ∧ Loaded s' rows := by
  obtain ⟨v', s', hv', hs', hsame, hpoints, hkept, hgroup, hvalue⟩ :=
    Points.step hv hs hahead h.loaded
  refine ⟨v', s', hv', hs', hsame, ?_, hpoints⟩
  rw [hkept, hgroup, ← List.drop_drop, h.finals, ← hvalue]
  obtain ⟨starts, value⟩ := p.mark .final i
  cases starts <;> rfl

/-- In the final pass a variable is read as the last value of the group of the row. -/
theorem Turns.loaded (h : Turns (step .final) p ps q) (hv : p.report.vars[i]? = some v)
    (hs : p.values.vars[i]? = some s) (hahead : v.precalculated = true)
    (hl : Loaded s (ps.map (mark .final i))) (hp : ps[n]? = some p') :
    ∃ v' s', (step .final p').report.vars[i]? = some v' ∧
      (step .final p').values.vars[i]? = some s' ∧ Variable.Same v v' ∧
      s'.result.precalculated =
        lastOfGroup s'.result.current ((ps.map (mark .final i)).drop (n + 1)) := by
  induction h generalizing v s n with
  | none p => cases hp
  | @next p p₁ q ps hadvance hrest ih =>
    obtain ⟨queries, -, hp₁⟩ := advance_eq_ok hadvance
    have hv₁ : p₁.report.vars[i]? = some v := by rw [hp₁]; exact hv
    have hs₁ : p₁.values.vars[i]? = some s := by rw [hp₁]; exact hs
    obtain ⟨v', s', hv', hs', hsame, hl'⟩ := hl.step hv₁ hs₁ hahead
    cases n with
    | zero =>
      cases hp
      exact ⟨v', s', hv', hs', hsame, hl'.precalculated⟩
    | succ n =>
      obtain ⟨v'', s'', hv'', hs'', hsame', hread⟩ :=
        ih hv' hs' (hsame.precalculated.trans hahead) hl' hp
      exact ⟨v'', s'', hv'', hs'', hsame.trans hsame', hread⟩

/-- Passes in lockstep make the same groups of the same values. -/
theorem marks_alike
    (h : List.Forall₂ (fun p p' => Alike i p p' ∧ (p.row ≠ 1 → p.Evaluated)) ps ps') :
    ps.map (mark pass i) = ps'.map (mark pass' i) := by
  rw [← List.forall₂_eq_eq_eq, List.forall₂_map_left_iff, List.forall₂_map_right_iff]
  refine h.imp fun p p' ⟨ha, he⟩ => ?_
  obtain ⟨v, v', hv, hv', hvv⟩ := ha.var
  obtain ⟨s, s', hs, hs', hss⟩ := (ha.step he pass pass').1.state
  rw [mark, mark, running?, running?, hv, hv', hs, hs', Option.any_some, Option.any_some, startsOver,
    startsOver, ha.fired he pass pass', hvv.resetBreak, Option.map_some, Option.map_some, hss.current]

/-- The row with which the group of row `n` ends has the value that is read in advance. -/
theorem lastOfGroup_marks (hbound : ∀ p ∈ ps, p.Bound) (hp : ps[n]? = some p)
    (hp' : ps[e]? = some p') (hv : ∀ p ∈ ps, ∃ v', p.report.vars[i]? = some v' ∧ Variable.Same v v')
    {breaks : List String} (hbreaks : ∀ p ∈ ps, v.resetNames p.report.names = breaks)
    (hgroup : GroupEnd breaks (ps.map told) n e) :
    lastOfGroup (p.mark .final i).2 ((ps.map (mark .final i)).drop (n + 1)) =
      (p'.mark .final i).2 := by
  have hbreaksAny {p : Progress} (hp : p ∈ ps) :
      (p.mark .final i).1 = true ↔ p.told.BreaksAny breaks := by
    obtain ⟨v', hv', hsame⟩ := hv p hp
    rw [mark, hv', Option.any_some, startsOver_iff (hbound p hp) (List.mem_iff_getElem?.2 ⟨i, hv'⟩),
      ← hbreaks p hp, Variable.resetNames, Variable.resetNames, hsame.resetOnBreak]
  have hrow {t : Nat} {p : Progress} (hp : ps[t]? = some p) : (ps.map told)[t]? = some p.told := by
    rw [List.getElem?_map, hp]
    rfl
  have hmark (j : Nat) : ((ps.map (mark .final i)).drop n)[j]? =
      ps[n + j]?.map (mark .final i) := by
    rw [List.getElem?_drop, List.getElem?_map]
  have hlt : n < (ps.map (mark .final i)).length := by
    rw [List.length_map]
    exact (List.getElem?_eq_some_iff.1 hp).1
  have hcons : (ps.map (mark .final i)).drop n =
      p.mark .final i :: (ps.map (mark .final i)).drop (n + 1) := by
    rw [List.drop_eq_getElem_cons hlt, List.getElem_map]
    congr 2
    exact (List.getElem?_eq_some_iff.1 hp).2
  have hle := hgroup.le
  have hlast : ((ps.map (mark .final i)).drop n)[e - n]? = some (p'.mark .final i) := by
    rw [hmark, Nat.add_sub_cancel' hle, hp']
    rfl
  refine lastOfGroup_eq hcons hlast (fun j row hj hjk hrow' => ?_) fun row hrow' => ?_
  · rw [hmark] at hrow'
    obtain ⟨p₁, hp₁, rfl⟩ := Option.map_eq_some_iff.1 hrow'
    have hgoes := hgroup.goesOn (n + j) p₁.told (by omega) (by omega) (hrow hp₁)
    rw [← hbreaksAny (List.mem_iff_getElem?.2 ⟨n + j, hp₁⟩)] at hgoes
    exact Bool.eq_false_iff.2 hgoes
  · rw [hmark, show n + (e - n + 1) = e + 1 by omega] at hrow'
    obtain ⟨p₁, hp₁, rfl⟩ := Option.map_eq_some_iff.1 hrow'
    exact (hbreaksAny (List.mem_iff_getElem?.2 ⟨e + 1, hp₁⟩)).2 (hgroup.ends _ (hrow hp₁))

end Progress
end Reporting
