import Reporting.Proofs.Query.Locality
import Reporting.Proofs.Query.Rows
/-!
The counter that matched followers form. Its digits are the rows that they stand on, and turning it
leads through all combinations of their rows.
-/
namespace Reporting

/-- Where the cursor of a query stands, and what the query shows there. -/
structure Stance where
  position : Nat
  row : Nat
  combining : Bool
  shown : List Value
  number : Value

def Query.stance (q : Query) : Stance :=
  ⟨q.position, q.row, q.combining, q.shownValues, q.rowNumber.ring.current⟩

namespace QueryStore

variable {s₀ s s' : QueryStore} {settings : Settings} {m id g c : QueryId} {q : Query} {k : Nat}
  {R : QueryId → Prop} {gs : List QueryId} {σ σ' : QueryId → Option Stance}

def stance (s : QueryStore) (id : QueryId) : Option Stance := (s.get? id).map Query.stance

/-- What the members of a family show where they stand. -/
def shownAt (s : QueryStore) (σ : QueryId → Option Stance) (id : QueryId) : Cells :=
  (s.family id).map fun m => (m, ((σ m).map Stance.shown).getD [])

theorem Keeps.stance (h : Keeps R s s') (hm : ¬ R m) : s'.stance m = s.stance m := by
  rw [QueryStore.stance, QueryStore.stance, h.get? m hm]

theorem shown_eq (hs : s.still = s₀.still) (id : QueryId) : s.shown id = s₀.shownAt s.stance id := by
  rw [shown, cells, shownAt, family_of_still hs]
  apply List.map_congr_left
  intro m _
  rw [QueryStore.stance, Option.map_map]
  rfl

theorem Forest.shownAt_cons (h : Forest s) (σ : QueryId → Option Stance) (id : QueryId) :
    s.shownAt σ id =
      (id, ((σ id).map Stance.shown).getD []) :: (s.children id).flatMap (s.shownAt σ) := by
  rw [shownAt, h.family_cons, List.map_cons, List.map_flatMap]
  rfl

theorem Forest.shownAt_congr (h : Forest s) (hσ : ∀ m, s.Reaches id m → σ' m = σ m) :
    s.shownAt σ' id = s.shownAt σ id := by
  apply List.map_congr_left
  intro m hm
  rw [hσ m (h.mem_family.1 hm)]

/-! The digits -/

/-- A digit of the counter: what a follower shows, and the rows that it has left. -/
structure Digit where
  query : QueryId
  shown : Cells
  left : List Row

def showing (ds : List Digit) : Cells := ds.flatMap Digit.shown

/-- The combinations that come after the one that is shown; `full` are all rows of a follower. -/
def later (full : QueryId → List Row) : List Digit → List Cells
  | [] => []
  | d :: ds => d.left.map (fun r => r.cells ++ showing ds) ++
      (later full ds).flatMap fun tail => ((full d.query).map Row.cells).map (· ++ tail)

variable {full : QueryId → List Row} {d : Digit} {ds : List Digit} {cells : Cells} {rest : List Cells}

/-- A digit without further rows starts over and carries. -/
theorem later_carry {g : QueryId} {shown : Cells} (h : (full g).map Row.cells = cells :: rest) :
    later full (⟨g, shown, []⟩ :: ds) =
      (later full ds).flatMap fun tail => (cells :: rest).map (· ++ tail) := by
  rw [later, List.map_nil, List.nil_append, h]

/-- From the first rows of all followers the counter goes through all choices. -/
theorem choices_eq_later
    (h : ∀ d ∈ ds, (full d.query).map Row.cells = d.shown :: d.left.map Row.cells) :
    choices (ds.map fun d => (full d.query).map Row.cells) = showing ds :: later full ds := by
  induction ds with
  | nil => rfl
  | cons d ds ih =>
    have hd := h d List.mem_cons_self
    rw [List.map_cons, choices, ih fun d hm => h d (List.mem_cons_of_mem _ hm),
      List.flatMap_cons, later]
    nth_rewrite 1 [hd]
    rw [List.map_cons, List.map_map, List.cons_append]
    rfl

theorem length_later (h : ∀ d ∈ ds, d.left.length < (full d.query).length) :
    (later full ds).length < combinations (ds.map fun d => (full d.query).length) := by
  induction ds with
  | nil => exact Nat.one_pos
  | cons d ds ih =>
    have hd := h d List.mem_cons_self
    have hds := ih fun d hm => h d (List.mem_cons_of_mem _ hm)
    simp only [later, List.length_append, List.length_map, List.length_flatMap, List.map_const',
      List.sum_replicate_nat, List.map_cons]
    change _ < (full d.query).length * combinations (ds.map fun d => (full d.query).length)
    calc d.left.length + (later full ds).length * (full d.query).length
        < (full d.query).length + (later full ds).length * (full d.query).length :=
          Nat.add_lt_add_right hd _
      _ = (full d.query).length * ((later full ds).length + 1) := by
          rw [Nat.mul_succ, Nat.mul_comm, Nat.add_comm]
      _ ≤ (full d.query).length * combinations (ds.map fun d => (full d.query).length) :=
          Nat.mul_le_mul_left _ hds

/-! Turning it -/

/-- What it is for a family to stand where some rows are still to come. -/
abbrev Standing := (QueryId → Option Stance) → QueryId → List Row → Prop

/-- A movement that yields the first of the rows that were still to come, or nulls. -/
structure Moved (s₀ : QueryStore) (stands : Standing) (id : QueryId) (rows : List Row)
    (moved : QueryStore × Bool) : Prop where
  more : moved.2 = !rows.isEmpty
  stands : stands moved.1.stance id rows.tail
  shown : s₀.shownAt moved.1.stance id = (rows.head?.map Row.cells).getD (s₀.nulls id)
  number : ∀ r ∈ rows.head?, (moved.1.stance id).map Stance.number = some r.number

/-- From its start a query goes through its rows one by one. -/
structure Walks (s₀ : QueryStore) (step : Stepper) (full : QueryId → List Row) (stands : Standing)
    (id : QueryId) : Prop where
  frame : ∀ σ σ' rows, (∀ m, s₀.Reaches id m → σ' m = σ m) → stands σ id rows → stands σ' id rows
  fresh : ∀ s : QueryStore, s.still = s₀.still → stands (s.rewindFamily id).stance id (full id)
  step : ∀ (s : QueryStore) rows, s.still = s₀.still → stands s.stance id rows →
    Moved s₀ stands id rows (step s id)

/-- The follower of a digit stands where the digit says. -/
structure Holds (s₀ : QueryStore) (full : QueryId → List Row) (stands : Standing)
    (σ : QueryId → Option Stance) (d : Digit) : Prop where
  stands : stands σ d.query d.left
  shown : s₀.shownAt σ d.query = d.shown
  short : d.left.length < (full d.query).length

/-- A search for the first of some combinations, after which the followers stand on it and `rest` is
what is left of them. -/
structure Found (s₀ : QueryStore) (full : QueryId → List Row) (stands : Standing)
    (gs : List QueryId) (rest : List Digit → List Cells) (tails : List Cells)
    (result : QueryStore × Bool) : Prop where
  found : result.2 = !tails.isEmpty
  digits : ∀ c cs, tails = c :: cs → ∃ ds : List Digit, ds.map Digit.query = gs ∧
    showing ds = c ∧ rest ds = cs ∧ ∀ d ∈ ds, Holds s₀ full stands result.1.stance d

/-- Families without common members. -/
def Apart (s : QueryStore) (a b : QueryId) : Prop := ∀ m, s.Reaches a m → ¬ s.Reaches b m

theorem Apart.symm {a b : QueryId} (h : s.Apart a b) : s.Apart b a := fun m hb ha => h m ha hb

theorem Forest.apart (h : Forest s) (hgs : gs.Sublist (s.children id)) : gs.Pairwise s.Apart := by
  apply List.Pairwise.imp_of_mem ?_ ((h.nodup id).sublist hgs)
  intro a b ha hb hne m ham
  exact h.disjoint (hgs.subset ha) (hgs.subset hb) hne ham

variable {step : Stepper} {stands : Standing}

theorem Holds.frame (h : Forest s₀) (hw : Walks s₀ step full stands d.query)
    (hσ : ∀ m, s₀.Reaches d.query m → σ' m = σ m) (hd : Holds s₀ full stands σ d) :
    Holds s₀ full stands σ' d where
  stands := hw.frame σ σ' d.left hσ hd.stands
  shown := (h.shownAt_congr hσ).trans hd.shown
  short := hd.short

/-- Started anew, a digit shows the first row and has the other ones left. -/
theorem Walks.first (hw : Walks s₀ step full stands g) (h : Forest s₀) (hs : s.still = s₀.still)
    (hfull : full g ≠ []) :
    (step (s.rewindFamily g) g).2 = true ∧ ∃ d : Digit, d.query = g ∧
      (full g).map Row.cells = d.shown :: d.left.map Row.cells ∧
      Holds s₀ full stands (step (s.rewindFamily g) g).1.stance d := by
  obtain ⟨r, rs, hrs⟩ := List.exists_cons_of_ne_nil hfull
  have hr := (keeps_rewindFamily (h.of_still hs) g).still.trans hs
  have hm := hw.step _ _ hr (hw.fresh s hs)
  have hmore := hm.more
  have hstands := hm.stands
  have hshown := hm.shown
  rw [hrs] at hmore hstands hshown
  refine ⟨hmore, ⟨g, r.cells, rs⟩, rfl, by rw [hrs, List.map_cons], hstands, hshown, ?_⟩
  rw [hrs]
  exact Nat.lt_succ_self _

theorem keeps_step (h : Forest s₀) (hstep : step.Local) (hs : s.still = s₀.still) (g : QueryId) :
    Keeps (s₀.Reaches g) s (step s g).1 :=
  (hstep s g (h.of_still hs)).reaching hs

theorem keeps_restart (h : Forest s₀) (hstep : step.Local) (hs : s.still = s₀.still)
    (g : QueryId) : Keeps (s₀.Reaches g) s (step (s.rewindFamily g) g).1 :=
  keeps_step h (local_rewound hstep) hs g

/-- The counter turns to the combination that comes next, if there is one. -/
theorem turn_spec (h : Forest s₀) (hstep : step.Local)
    (hw : ∀ d ∈ ds, Walks s₀ step full stands d.query)
    (hap : (ds.map Digit.query).Pairwise s₀.Apart) (hs : s.still = s₀.still)
    (hds : ∀ d ∈ ds, Holds s₀ full stands s.stance d) :
    Found s₀ full stands (ds.map Digit.query) (later full) (later full ds)
      (turn step (ds.map Digit.query) s) := by
  induction ds generalizing s with
  | nil =>
    refine ⟨rfl, ?_⟩
    intro c cs hc
    cases hc
  | cons d ds ih =>
    obtain ⟨g, shown, left⟩ := d
    rw [List.map_cons, List.pairwise_cons] at hap
    have hwg : Walks s₀ step full stands g := hw _ List.mem_cons_self
    have hwds : ∀ d ∈ ds, Walks s₀ step full stands d.query :=
      fun d hd => hw d (List.mem_cons_of_mem _ hd)
    have hd := hds _ List.mem_cons_self
    have hrest {s' : QueryStore} (hk : Keeps (s₀.Reaches g) s s') :
        ∀ d ∈ ds, Holds s₀ full stands s'.stance d := by
      intro d hm
      apply (hds d (List.mem_cons_of_mem _ hm)).frame h (hwds d hm)
      intro m hr
      exact hk.stance fun hg => hap.1 d.query (List.mem_map_of_mem hm) m hg hr
    have hmoved := hwg.step s left hs hd.stands
    rw [List.map_cons, turn_cons]
    cases left with
    | cons r rs =>
      have hmore : (step s g).2 = true := hmoved.more
      rw [if_pos hmore]
      refine ⟨rfl, ?_⟩
      intro c cs hc
      rw [later, List.map_cons, List.cons_append, List.cons.injEq] at hc
      refine ⟨⟨g, r.cells, rs⟩ :: ds, rfl, hc.1, hc.2, ?_⟩
      intro d hm
      rcases List.mem_cons.1 hm with rfl | hm
      · exact ⟨hmoved.stands, hmoved.shown, Nat.lt_of_succ_lt hd.short⟩
      · exact hrest (keeps_step h hstep hs g) d hm
    | nil =>
      have hmore : ¬ (step s g).2 = true := by
        rw [hmoved.more]
        exact Bool.false_ne_true
      have hk₁ := keeps_step h hstep hs g
      have hs₁ := hk₁.still.trans hs
      have hfull : full g ≠ [] := List.ne_nil_of_length_pos (Nat.zero_lt_of_lt hd.short)
      obtain ⟨-, d', rfl, hd', hold'⟩ := hwg.first h hs₁ hfull
      have hk₂ := hk₁.trans (keeps_restart h hstep hs₁ d'.query)
      rw [if_neg hmore, later_carry hd']
      generalize (step ((step s d'.query).1.rewindFamily d'.query) d'.query).1 = s₂ at hold' hk₂ ⊢
      have hs₂ := hk₂.still.trans hs
      have hturned := ih hwds hap.2 hs₂ (hrest hk₂)
      have hkeep := (keeps_turn hstep (h.of_still hs₂) (ds.map Digit.query)).below hs₂
      cases hlater : later full ds with
      | nil =>
        rw [hlater] at hturned
        refine ⟨hturned.found, ?_⟩
        intro c cs hc
        cases hc
      | cons t ts =>
        rw [hlater] at hturned
        refine ⟨hturned.found, ?_⟩
        intro c cs hc
        obtain ⟨ds', hq, hsh, hl, hds'⟩ := hturned.digits t ts rfl
        rw [List.flatMap_cons, List.map_cons, List.cons_append, List.cons.injEq] at hc
        refine ⟨d' :: ds', by rw [List.map_cons, hq], ?_, ?_, ?_⟩
        · rw [← hc.1, showing, List.flatMap_cons, ← showing, hsh]
        · rw [← hc.2, later, hsh, hl, hd', List.map_map]
          rfl
        · intro d hm
          rcases List.mem_cons.1 hm with rfl | hm
          · apply hold'.frame h hwg
            intro m hr
            apply hkeep.stance
            rintro ⟨b, hb, hbm⟩
            exact hap.1 b hb m hr hbm
          · exact hds' d hm

end QueryStore
end Reporting
