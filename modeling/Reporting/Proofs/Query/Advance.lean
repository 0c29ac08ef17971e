import Reporting.Proofs.Query.Search
/-!
What reading a line and moving all followers does, one operation at a time.
-/
namespace Reporting

namespace Query

variable {q q₀ : Query} {co : Coercion}

/-! Reading a line -/

theorem kinds_of_still (h : q.still = q₀.still) :
    q.columns.map Column.kind = q₀.columns.map Column.kind := by
  have hc : q.still.columns.map Column.kind = q₀.still.columns.map Column.kind := by rw [h]
  simpa only [still, rewind, List.map_map, Function.comp_def, Column.reset] using hc

theorem nullValues_of_still (h : q.still = q₀.still) : q.nullValues = q₀.nullValues := by
  have hk := congrArg (List.map Value.null) (kinds_of_still h)
  rw [nullValues, nullValues]
  simpa only [List.map_map, Function.comp_def] using hk

theorem lineValues_of_still (h : q.still = q₀.still) (co : Coercion) (line : Nat) :
    q.lineValues co line = q₀.lineValues co line := by
  have hk := kinds_of_still h
  rw [lineValues, lineValues, table_of_still h, encoding_of_still h]
  apply List.ext_getElem?
  intro i
  have hi := congrArg (fun l => l[i]?) hk
  simp only [List.getElem?_map] at hi
  simp only [List.getElem?_mapIdx]
  cases hq : q.columns[i]? with
  | none =>
    rw [hq, Option.map_none] at hi
    rw [Option.map_eq_none_iff.1 hi.symm]
  | some c =>
    rw [hq, Option.map_some] at hi
    obtain ⟨c₀, hc₀, hkind⟩ := Option.map_eq_some_iff.1 hi.symm
    rw [hc₀, Option.map_some, Option.map_some, hkind]

theorem shownValues_blank (q : Query) : q.blank.shownValues = q.nullValues := by
  rw [shownValues, blank, List.map_map]
  rfl

theorem shownValues_readRow {line : Nat} (hp : q.position = line + 1)
    (hline : line < q.table.rowCount) : (q.readRow co).shownValues = q.lineValues co (line + 1) := by
  have hlt : line + 1 < q.table.rows.length := by
    rw [Table.rowCount] at hline
    omega
  have hrow : q.currentRow? = some q.table.rows[line + 1] := by
    rw [currentRow?, hp, if_neg (Nat.succ_ne_zero line), List.getElem?_eq_getElem hlt]
  rw [readRow, hrow, lineValues, List.getElem?_eq_getElem hlt]
  apply List.ext_getElem?
  intro i
  simp only [shownValues, List.getElem?_map, List.getElem?_mapIdx, Option.bind_some, Option.map_map]
  congr 1
  funext c
  change Value.ofText c.kind ((Option.map Encoding.encodeUtf8 _).map _) co = _
  rw [Option.map_map]
  rfl

theorem shownValues_readRow_of_done (hp : q.position ≠ 0) (hd : q.table.rowCount < q.position) :
    (q.readRow co).shownValues = q.nullValues := by
  have hrow : q.currentRow? = none := by
    rw [currentRow?, if_neg hp]
    apply List.getElem?_eq_none
    rw [Table.rowCount] at hd
    omega
  rw [readRow, hrow]
  exact shownValues_blank q

theorem readRow_fields (q : Query) (co : Coercion) :
    (q.readRow co).position = q.position ∧ (q.readRow co).row = q.row ∧
      (q.readRow co).combining = q.combining ∧ (q.readRow co).rowNumber = q.rowNumber := by
  unfold readRow
  split <;> exact ⟨rfl, rfl, rfl, rfl⟩

/-- The next line is read. -/
theorem advance_of_lt (hlt : q.position < q.table.rowCount) (co : Coercion) :
    (q.advance co).2 = true ∧ (q.advance co).1.stance =
      ⟨q.position + 1, q.row + 1, q.combining, q.lineValues co (q.position + 1),
        .ofInt (q.row + 1)⟩ := by
  have hle : q.position ≤ q.table.rowCount := Nat.le_of_lt hlt
  have hnd : ({ q with position := q.position + 1 } : Query).isDone = false := by
    rw [isDone, decide_eq_false_iff_not]
    exact Nat.not_lt_of_ge hlt
  simp only [advance, if_pos hle, hnd, Bool.false_eq_true, if_false, true_and]
  let next : Query := { q with
    position := q.position + 1, row := q.row + 1
    rowNumber := q.rowNumber.setCurrent (.ofInt (q.row + 1)) }
  obtain ⟨hp, hr, hc, hn⟩ := readRow_fields next co
  have hshown : (next.readRow co).shownValues = q.lineValues co (q.position + 1) :=
    shownValues_readRow rfl hlt
  change (next.readRow co).stance = _
  rw [stance, hp, hr, hc, hn, hshown]
  rfl

/-- There is no next line, and the columns are null. -/
theorem advance_of_le (hle : q.table.rowCount ≤ q.position) (co : Coercion) :
    (q.advance co).2 = false ∧ q.table.rowCount < (q.advance co).1.position ∧
      (q.advance co).1.combining = q.combining ∧
      (q.advance co).1.shownValues = q.nullValues := by
  by_cases hp : q.position ≤ q.table.rowCount
  · have hd : ({ q with position := q.position + 1 } : Query).isDone = true := by
      rw [isDone, decide_eq_true_iff]
      exact Nat.lt_succ_of_le hle
    simp only [advance, if_pos hp, hd, if_true, true_and]
    obtain ⟨hp', -, hc, -⟩ := readRow_fields { q with position := q.position + 1 } co
    rw [hp', hc]
    exact ⟨Nat.lt_succ_of_le hle, rfl,
      shownValues_readRow_of_done (Nat.succ_ne_zero _) (Nat.lt_succ_of_le hle)⟩
  · have hlt : q.table.rowCount < q.position := Nat.lt_of_not_le hp
    have hd : q.isDone = true := by
      rw [isDone, decide_eq_true_iff]
      exact hlt
    simp only [advance, if_neg hp, hd, if_true, true_and]
    obtain ⟨hp', -, hc, -⟩ := readRow_fields q co
    rw [hp', hc]
    exact ⟨hlt, rfl, shownValues_readRow_of_done (Nat.ne_zero_of_lt hlt) hlt⟩

end Query

namespace QueryStore

variable {s₀ s s' : QueryStore} {settings : Settings} {m id g : QueryId} {gs : List QueryId}
  {step : Stepper}

/-! Changing all members of a family -/

theorem get?_foldl_modify (f : Query → Query) {l : List QueryId} (hl : l.Nodup) (s : QueryStore)
    (m : QueryId) :
    (l.foldl (fun s id => s.modify id f) s).get? m =
      if m ∈ l then (s.get? m).map f else s.get? m := by
  induction l generalizing s with
  | nil => rfl
  | cons a l ih =>
    have hnodup := List.nodup_cons.1 hl
    rw [List.foldl_cons, ih hnodup.2, get?_modify]
    by_cases ha : a = m
    · subst ha
      rw [if_neg hnodup.1, if_pos rfl, if_pos List.mem_cons_self]
    · simp only [if_neg ha, List.mem_cons, Ne.symm ha, false_or]

theorem Forest.get?_modifyFamily (h : Forest s) (id m : QueryId) (f : Query → Query) :
    (s.modifyFamily id f).get? m = if m ∈ s.family id then (s.get? m).map f else s.get? m :=
  get?_foldl_modify f (h.nodup_family id) s m

/-! Moving several queries -/

/-- Something about some families that depends on where their members stand. -/
def Framed (s₀ : QueryStore) (gs : List QueryId)
    (P : (QueryId → Option Stance) → QueryId → Prop) : Prop :=
  ∀ σ σ', ∀ g ∈ gs, (∀ m, s₀.Reaches g m → σ' m = σ m) → P σ g → P σ' g

/-- Each of several queries with separate families moves as it would alone. -/
theorem stepAll_spec {P Q : (QueryId → Option Stance) → QueryId → Prop} {b : QueryId → Bool}
    (h : Forest s₀) (hstep : step.Local) (hP : Framed s₀ gs P) (hQ : Framed s₀ gs Q)
    (hgs : gs.Pairwise s₀.Apart) (hs : s.still = s₀.still)
    (hmoves : ∀ s : QueryStore, ∀ g ∈ gs, s.still = s₀.still → P s.stance g →
      (step s g).2 = b g ∧ Q (step s g).1.stance g)
    (hall : ∀ g ∈ gs, P s.stance g) :
    (stepAll step s gs).2 = gs.all b ∧ ∀ g ∈ gs, Q (stepAll step s gs).1.stance g := by
  induction gs generalizing s with
  | nil =>
    refine ⟨rfl, ?_⟩
    intro g hg
    cases hg
  | cons g gs ih =>
    rw [List.pairwise_cons] at hgs
    have hk := keeps_step h hstep hs g
    have hs' := hk.still.trans hs
    obtain ⟨hb, hQg⟩ := hmoves s g List.mem_cons_self hs (hall g List.mem_cons_self)
    have hrest : ∀ a ∈ gs, P (step s g).1.stance a := by
      intro a ha
      have hmem := List.mem_cons_of_mem g ha
      apply hP s.stance _ a hmem ?_ (hall a hmem)
      exact fun m hm => hk.stance fun hg => hgs.1 a ha m hg hm
    obtain ⟨hbs, hQs⟩ := ih (fun σ σ' a ha => hP σ σ' a (List.mem_cons_of_mem g ha))
      (fun σ σ' a ha => hQ σ σ' a (List.mem_cons_of_mem g ha)) hgs.2 hs'
      (fun s a ha hs hPa => hmoves s a (List.mem_cons_of_mem g ha) hs hPa) hrest
    rw [stepAll_cons, hb, hbs, List.all_cons]
    refine ⟨rfl, ?_⟩
    intro a ha
    rcases List.mem_cons.1 ha with rfl | ha
    · apply hQ (step s a).1.stance _ a List.mem_cons_self ?_ hQg
      have hkeep := (keeps_stepAll hstep (h.of_still hs') gs).below hs'
      intro m hm
      apply hkeep.stance
      rintro ⟨c, hc, hcm⟩
      exact hgs.1 c hc m hm hcm
    · exact hQs a ha

theorem shownAt_blankFamily (h : Forest s₀) (hs : s.still = s₀.still) (g : QueryId) :
    s₀.shownAt (s.blankFamily g).stance g = s₀.nulls g := by
  rw [shownAt, nulls, cells]
  apply List.map_congr_left
  intro m hm
  have hm' : m ∈ s.family g := by
    rw [family_of_still hs]
    exact hm
  rw [stance, blankFamily, (h.of_still hs).get?_modifyFamily, if_pos hm']
  cases hq₀ : s₀.get? m with
  | none =>
    have hn : s.get? m = none := by
      rw [← Option.not_isSome_iff_eq_none, isSome_of_still hs, hq₀]
      exact Bool.false_ne_true
    rw [hn]
    rfl
  | some q₀ =>
    obtain ⟨q, hq, hstill⟩ := exists_of_still hs hq₀
    have hnull : q.blank.shownValues = q₀.nullValues := by
      rw [Query.shownValues_blank, Query.nullValues_of_still hstill]
    rw [hq]
    exact congrArg (m, ·) hnull

theorem blank_local : Stepper.Local fun s g => (s.blankFamily g, true) :=
  fun _ g h => keeps_blankFamily h g

theorem foldl_blankFamily (gs : List QueryId) (s : QueryStore) :
    gs.foldl blankFamily s = (stepAll (fun s g => (s.blankFamily g, true)) s gs).1 := by
  induction gs generalizing s with
  | nil => rfl
  | cons g gs ih => rw [List.foldl_cons, stepAll_cons, ih]

/-- Once they are blanked all families show nulls. -/
theorem shownAt_blankAll (h : Forest s₀) (hs : s.still = s₀.still) (hgs : gs.Pairwise s₀.Apart) :
    gs.flatMap (s₀.shownAt (gs.foldl blankFamily s).stance) = gs.flatMap s₀.nulls := by
  have hQ : Framed s₀ gs fun σ g => s₀.shownAt σ g = s₀.nulls g :=
    fun σ σ' g _ hσ hg => (h.shownAt_congr hσ).trans hg
  have hspec := stepAll_spec (P := fun _ _ => True) (b := fun _ => true) h blank_local
    (fun _ _ _ _ _ hP => hP) hQ hgs hs
    (fun s g _ hs _ => ⟨rfl, shownAt_blankFamily h hs g⟩) (fun _ _ => trivial)
  rw [foldl_blankFamily]
  apply List.flatMap_congr
  exact hspec.2

end QueryStore
end Reporting
