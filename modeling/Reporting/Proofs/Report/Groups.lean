import Reporting.Proofs.Report.Course
/-!
The groups that breaks make of the rows of a run: a row on which one of some breaks triggers starts a
new group, and the first row starts the first one.
-/
namespace Reporting

/-- Whether one of the given breaks triggers on a row. -/
def ToldRow.BreaksAny (row : ToldRow) (breaks : List String) : Prop :=
  ∃ name ∈ breaks, name ∈ row.broken

instance (row : ToldRow) (breaks : List String) : Decidable (row.BreaksAny breaks) :=
  inferInstanceAs (Decidable (∃ name ∈ breaks, name ∈ row.broken))

/-- The group of row `n` starts at row `s`, where the given breaks make the groups. -/
structure GroupStart (breaks : List String) (rows : List ToldRow) (s n : Nat) : Prop where
  le : s ≤ n
  starts : s = 0 ∨ ∃ row, rows[s]? = some row ∧ row.BreaksAny breaks
  goesOn : ∀ t row, s < t → t ≤ n → rows[t]? = some row → ¬ row.BreaksAny breaks

namespace GroupStart

variable {breaks : List String} {rows : List ToldRow} {s n : Nat} {row : ToldRow}

theorem zero (h : GroupStart breaks rows s 0) : s = 0 := Nat.le_zero.1 h.le

theorem of_breaks (h : GroupStart breaks rows s (n + 1)) (hrow : rows[n + 1]? = some row)
    (hb : row.BreaksAny breaks) : s = n + 1 :=
  (Nat.lt_or_eq_of_le h.le).resolve_left fun hlt =>
    h.goesOn (n + 1) row hlt (Nat.le_refl _) hrow hb

theorem of_not_breaks (h : GroupStart breaks rows s (n + 1)) (hrow : rows[n + 1]? = some row)
    (hb : ¬ row.BreaksAny breaks) : GroupStart breaks rows s n := by
  have hle : s ≤ n := by
    rcases Nat.lt_or_ge n s with hlt | hle
    · obtain rfl : s = n + 1 := Nat.le_antisymm h.le hlt
      rcases h.starts with h0 | ⟨row', hrow', hb'⟩
      · cases h0
      · obtain rfl := Option.some.inj (hrow.symm.trans hrow')
        exact (hb hb').elim
    · exact hle
  exact ⟨hle, h.starts, fun t row' hst htn => h.goesOn t row' hst (Nat.le_succ_of_le htn)⟩

/-- Every row belongs to a group. -/
theorem exists_start (breaks : List String) (rows : List ToldRow) (n : Nat) :
    ∃ s, GroupStart breaks rows s n := by
  induction n with
  | zero => exact ⟨0, Nat.le_refl 0, .inl rfl, fun t _ hst htn => by omega⟩
  | succ n ih =>
    obtain ⟨s, hs⟩ := ih
    by_cases hb : ∃ row, rows[n + 1]? = some row ∧ row.BreaksAny breaks
    · exact ⟨n + 1, Nat.le_refl _, .inr hb, fun t _ hst htn => by omega⟩
    · refine ⟨s, Nat.le_succ_of_le hs.le, hs.starts, fun t row hst htn hrow hbreaks => ?_⟩
      rcases Nat.lt_or_eq_of_le htn with hlt | rfl
      · exact hs.goesOn t row hst (Nat.lt_succ_iff.1 hlt) hrow hbreaks
      · exact hb ⟨row, hrow, hbreaks⟩

end GroupStart

/-- The group of row `n` ends with row `e`: the row behind it, if there is one, starts the next group. -/
structure GroupEnd (breaks : List String) (rows : List ToldRow) (n e : Nat) : Prop where
  le : n ≤ e
  lt : e < rows.length
  goesOn : ∀ t row, n < t → t ≤ e → rows[t]? = some row → ¬ row.BreaksAny breaks
  ends : ∀ row, rows[e + 1]? = some row → row.BreaksAny breaks

/-- The group of each row has an end. -/
theorem GroupEnd.exists_end (breaks : List String) {rows : List ToldRow} {n : Nat}
    (h : n < rows.length) : ∃ e, GroupEnd breaks rows n e := by
  induction hk : rows.length - n generalizing n with
  | zero => omega
  | succ k ih =>
    by_cases hnext : ∀ row, rows[n + 1]? = some row → row.BreaksAny breaks
    · exact ⟨n, Nat.le_refl n, h, fun t _ hnt hte => by omega, hnext⟩
    · obtain ⟨row, hrow⟩ := not_forall.1 hnext
      obtain ⟨hrow, hbreaks⟩ := Classical.not_imp.1 hrow
      obtain ⟨e, he⟩ := ih (List.getElem?_eq_some_iff.1 hrow).1 (by omega)
      refine ⟨e, Nat.le_of_succ_le he.le, he.lt, fun t row' hnt hte hrow' => ?_, he.ends⟩
      rcases Nat.lt_or_eq_of_le (Nat.succ_le_of_lt hnt) with hlt | rfl
      · exact he.goesOn t row' hlt hte hrow'
      · obtain rfl := Option.some.inj (hrow.symm.trans hrow')
        exact hbreaks

/-- The rows of a group up to one of them. -/
def groupRows (rows : List ToldRow) (s n : Nat) : List ToldRow := (rows.drop s).take (n - s + 1)

theorem groupRows_self {rows : List ToldRow} {n : Nat} {row : ToldRow} (h : rows[n]? = some row) :
    groupRows rows n n = [row] := by
  rw [groupRows, Nat.sub_self, List.take_add_one, List.take_zero, List.getElem?_drop, Nat.add_zero, h]
  rfl

theorem groupRows_succ {rows : List ToldRow} {s n : Nat} {row : ToldRow} (hs : s ≤ n)
    (h : rows[n + 1]? = some row) : groupRows rows s (n + 1) = groupRows rows s n ++ [row] := by
  have hlast : s + (n + 1 - s) = n + 1 := by omega
  rw [groupRows, List.take_add_one, List.getElem?_drop, hlast, h, Nat.succ_sub hs]
  rfl

/-! What triggers on a row -/

theorem exists_findIdx?_le {α : Type} {l : List α} {P : α → Bool} {i : Nat} :
    (∃ f, l.findIdx? P = some f ∧ f ≤ i) ↔ ∃ j ≤ i, ∃ a, l[j]? = some a ∧ P a = true := by
  constructor
  · rintro ⟨f, hf, hle⟩
    obtain ⟨hlt, hP, -⟩ := List.findIdx?_eq_some_iff_getElem.1 hf
    exact ⟨f, hle, _, List.getElem?_eq_getElem hlt, hP⟩
  · rintro ⟨j, hle, a, ha, hP⟩
    obtain ⟨f, hf⟩ := Option.isSome_iff_exists.1 (List.findIdx?_isSome.trans
      (List.any_eq_true.2 ⟨a, List.mem_iff_getElem?.2 ⟨j, ha⟩, hP⟩))
    obtain ⟨_, _, hbefore⟩ := List.findIdx?_eq_some_iff_getElem.1 hf
    obtain ⟨hj, rfl⟩ := List.getElem?_eq_some_iff.1 ha
    refine ⟨f, hf, Nat.le_trans (Nat.not_lt.1 fun hlt => ?_) hle⟩
    exact hbefore j hlt hP

/-- The breaks that make a variable start over: the one that it names, and those around it. -/
def Variable.resetNames (v : Variable) (names : ReportNames) : List String :=
  match v.resetOnBreak.bind names.breakIndex? with
  | some i => names.breaks.take (i + 1)
  | none => []

namespace Progress

variable {p : Progress} {pass : Pass} {i f : Nat} {v : Variable}

theorem lt_of_fired (h : p.fired pass = some f) : f < p.report.names.breaks.length := by
  rw [fired_eq] at h
  split at h
  · cases h
  · obtain ⟨hlt, -⟩ := List.findIdx?_eq_some_iff_getElem.1 h
    simpa only [Report.names, List.length_map] using hlt

/-- The names of the breaks that trigger on a row of a pass. -/
def broken (p : Progress) (pass : Pass) : List String :=
  ((p.fired pass).map fun f => p.report.names.breaks.drop f).getD []

theorem broken_told (p : Progress) :
    p.told.broken = ((p.fired .final).map fun f => p.report.names.breaks.drop f).getD [] := by
  change p.triggered.map (·.name) = _
  unfold triggered
  cases p.fired .final with
  | none => rfl
  | some f =>
    rw [List.map_drop]
    change ((p.evaluateBreaks .final).1.report.names).breaks.drop f = p.report.names.breaks.drop f
    rw [names_evaluateBreaks]

/-- The breaks that trigger on a row are the last ones. -/
theorem suffix_told (p : Progress) : p.told.broken <:+ p.report.names.breaks := by
  rw [broken_told]
  cases p.fired .final with
  | none => exact List.nil_suffix
  | some f => exact List.drop_suffix f _

/-- A break triggers exactly if the first one that does stands where it stands or before it. -/
theorem mem_broken {name : String} (hn : p.report.names.breaks.Nodup)
    (h : p.report.names.breaks[i]? = some name) :
    name ∈ p.broken pass ↔ ∃ f, p.fired pass = some f ∧ f ≤ i := by
  obtain ⟨hi, rfl⟩ := List.getElem?_eq_some_iff.1 h
  rw [broken]
  cases hf : p.fired pass with
  | none => exact ⟨nofun, fun ⟨f, hf, _⟩ => nomatch hf⟩
  | some f =>
    rw [Option.map_some, Option.getD_some, List.mem_drop_iff_getElem]
    constructor
    · rintro ⟨a, ha, he⟩
      have hai := (List.getElem_inj hn).1 he
      exact ⟨f, rfl, by omega⟩
    · rintro ⟨_, ⟨⟩, hle⟩
      refine ⟨i - f, by omega, ?_⟩
      simp only [Nat.add_sub_cancel' hle]

theorem mem_broken_told {name : String} (hn : p.report.names.breaks.Nodup)
    (h : p.report.names.breaks[i]? = some name) :
    name ∈ p.told.broken ↔ ∃ f, p.fired .final = some f ∧ f ≤ i := by
  rw [broken_told]
  exact mem_broken hn h

theorem breaksAny_iff {row : ToldRow} (hrow : row.broken = p.broken pass)
    (hn : p.report.names.breaks.Nodup) (i : Nat) :
    row.BreaksAny (p.report.names.breaks.take (i + 1)) ↔ ∃ f, p.fired pass = some f ∧ f ≤ i := by
  unfold ToldRow.BreaksAny
  rw [hrow]
  constructor
  · rintro ⟨name, htake, hbroken⟩
    obtain ⟨a, ha, rfl⟩ := List.mem_take_iff_getElem.1 htake
    obtain ⟨f, hf, hle⟩ := (mem_broken hn (List.getElem?_eq_getElem (by omega))).1 hbroken
    exact ⟨f, hf, by omega⟩
  · rintro ⟨f, hf, hle⟩
    have hlt := lt_of_fired hf
    refine ⟨p.report.names.breaks[f], ?_, ?_⟩
    · exact List.mem_take_iff_getElem.2 ⟨f, by omega, rfl⟩
    · exact (mem_broken hn (List.getElem?_eq_getElem hlt)).2 ⟨f, hf, Nat.le_refl f⟩

theorem breaksAny_told (hn : p.report.names.breaks.Nodup) (i : Nat) :
    p.told.BreaksAny (p.report.names.breaks.take (i + 1)) ↔ ∃ f, p.fired .final = some f ∧ f ≤ i :=
  breaksAny_iff p.broken_told hn i

/-- A run whose variables start over on the breaks that they name. -/
structure Bound (p : Progress) : Prop extends Sound p where
  resets : p.report.Bound

theorem Bound.of_names {p' : Progress} (h : p.Bound) (hs : p'.Sound)
    (hresets : p'.report.resets = p.report.resets) (hnames : p'.report.names = p.report.names) :
    p'.Bound := ⟨hs, h.resets.of_names hresets hnames⟩

theorem kept_bound : Kept Bound where
  advance h hp := by
    obtain ⟨queries, -, rfl⟩ := advance_eq_ok hp
    exact h.of_names (h.toSound.advance hp) rfl rfl
  rewind h hp := by
    obtain ⟨-, rfl⟩ := rewind_eq_ok hp
    exact h.of_names (h.toSound.rewind hp) rfl rfl
  finished pass h := by
    have hb := finished_beside h.balanced pass
    exact h.of_names (h.toSound.finished pass) hb.resets
      (hb.names.trans (names_evaluateBreaks _ pass))
  evaluateExpressions h := h.of_names h.toSound.evaluateExpressions rfl rfl
  again {p} h := by
    refine h.of_names h.toSound.again ?_ (names_reset p)
    change (p.report.vars.map Variable.restart).map _ = p.report.vars.map _
    rw [List.map_map]
    rfl

theorem Bound.resetBreak (h : p.Bound) (hv : v ∈ p.report.vars) :
    v.resetBreak = v.resetOnBreak.bind p.report.names.breakIndex? :=
  h.resets _ (List.mem_map_of_mem hv)

/-- A variable starts over exactly where one of the breaks triggers that make it do so. -/
theorem startsOver_iff_of_broken {row : ToldRow} (hrow : row.broken = p.broken pass) (hp : p.Bound)
    (hv : v ∈ p.report.vars) :
    p.startsOver pass v = true ↔ row.BreaksAny (v.resetNames p.report.names) := by
  unfold startsOver Variable.resetNames
  rw [← hp.resetBreak hv]
  cases v.resetBreak with
  | none =>
    simp only [Option.any_none, Option.any_eq_true, Bool.false_eq_true, and_false, exists_false,
      ToldRow.BreaksAny, List.not_mem_nil, false_and]
  | some i =>
    simp only [breaksAny_iff hrow hp.report.breakNames i, Option.any_some, Option.any_eq_true,
      decide_eq_true_eq]

theorem startsOver_iff (hp : p.Bound) (hv : v ∈ p.report.vars) :
    p.startsOver .final v = true ↔ p.told.BreaksAny (v.resetNames p.report.names) :=
  startsOver_iff_of_broken p.broken_told hp hv

end Progress

theorem Report.bound_of_prepare {r : Report} {w : Workspace} {p : Progress}
    (h : r.prepare w = .ok p) : p.report.Bound := by
  obtain ⟨main, -, -, rfl⟩ := prepare_eq_ok h
  refine (bound_resolve r w main).of_names ?_ (Progress.names_reset _)
  change ((r.resolve w main).vars.map Variable.restart).map _ = (r.resolve w main).vars.map _
  rw [List.map_map]
  rfl

theorem Report.bound_prepare {r : Report} {w : Workspace} {p : Progress} (hr : r.Sound)
    (h : r.prepare w = .ok p) : p.Bound := ⟨hr.prepare h, bound_of_prepare h⟩

end Reporting
