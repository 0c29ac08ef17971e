import Reporting.Proofs.Query.Standing
import Reporting.Proofs.Query.Reachable
/-!
Going through a query from its start produces the list of its rows, and then nothing any more.
-/
namespace Reporting.QueryStore

variable {s₀ s s' : QueryStore} {settings : Settings} {m id g : QueryId} {q q₀ : Query}
  {k n : Nat} {rows : List Row}

/-! The bound on the number of combinations -/

theorem combinations_mono {f f' : QueryId → Nat} {gs : List QueryId} (h : ∀ g ∈ gs, f g ≤ f' g) :
    combinations (gs.map f) ≤ combinations (gs.map f') := by
  induction gs with
  | nil => exact Nat.le_refl _
  | cons g gs ih =>
    exact Nat.mul_le_mul (h g List.mem_cons_self) (ih fun g hg => h g (List.mem_cons_of_mem _ hg))

theorem one_le_combinations {sizes : List Nat} (h : ∀ n ∈ sizes, 1 ≤ n) :
    1 ≤ combinations sizes := by
  induction sizes with
  | nil => exact Nat.le_refl _
  | cons n sizes ih =>
    exact Nat.mul_le_mul (h n List.mem_cons_self) (ih fun n hn => h n (List.mem_cons_of_mem _ hn))

theorem length_choices (lists : List (List Cells)) :
    (choices lists).length = combinations (lists.map List.length) := by
  induction lists with
  | nil => rfl
  | cons xs xss ih =>
    simp only [choices, List.length_flatMap, List.length_map, List.map_const',
      List.sum_replicate_nat, ih]
    exact Nat.mul_comm _ _

theorem length_flatMap_le {α β : Type} {f : α → List β} {l : List α} {n : Nat}
    (h : ∀ x ∈ l, (f x).length ≤ n) : (l.flatMap f).length ≤ l.length * n := by
  induction l with
  | nil => exact Nat.zero_le _
  | cons x l ih =>
    rw [List.flatMap_cons, List.length_append, List.length_cons, Nat.succ_mul, Nat.add_comm]
    exact Nat.add_le_add (ih fun y hy => h y (List.mem_cons_of_mem _ hy)) (h x List.mem_cons_self)

theorem length_lineRows (s : QueryStore) (settings : Settings) (id : QueryId) (q : Query)
    (rows : QueryId → List Row) (i : Nat) :
    (s.lineRows settings id q rows i).length ≤
      max 1 (combinations (q.matchedIds.map fun g => (rows g).length)) := by
  rw [lineRows, combinedRows]
  split
  · exact Nat.le_max_left 1 _
  · apply Nat.le_trans (List.length_filter_le _ _) (Nat.le_trans ?_ (Nat.le_max_right 1 _))
    rw [List.length_map, length_choices, List.map_map]
    apply combinations_mono
    intro g _
    exact (List.length_map Row.cells).le

theorem length_rowsWithin (s : QueryStore) (settings : Settings) (k : Nat) (id : QueryId) :
    (s.rowsWithin settings k id).length ≤ s.stepBound k id := by
  induction k generalizing id with
  | zero => exact Nat.zero_le _
  | succ k ih =>
    rw [rowsWithin, stepBound]
    cases s.get? id with
    | none => exact Nat.zero_le _
    | some q =>
      have hone : 1 ≤ combinations (q.matchedIds.map fun g => s.stepBound k g + 1) := by
        apply one_le_combinations
        intro n hn
        obtain ⟨g, -, rfl⟩ := List.mem_map.1 hn
        exact Nat.le_add_left 1 _
      have hline (i : Nat) : (s.lineRows settings id q (s.rowsWithin settings k) i).length ≤
          combinations (q.matchedIds.map fun g => s.stepBound k g + 1) := by
        apply Nat.le_trans (length_lineRows s settings id q _ i) (Nat.max_le.2 ⟨hone, ?_⟩)
        exact combinations_mono fun g _ => Nat.le_succ_of_le (ih g)
      calc ((List.range q.table.rowCount).flatMap _).length
          ≤ (List.range q.table.rowCount).length *
              combinations (q.matchedIds.map fun g => s.stepBound k g + 1) :=
            length_flatMap_le fun i _ => hline i
        _ ≤ (q.table.rowCount + 1) *
              combinations (q.matchedIds.map fun g => s.stepBound k g + 1) := by
            rw [List.length_range]
            exact Nat.mul_le_mul_right _ (Nat.le_succ _)

theorem stepBound_of_still (h : s.still = s₀.still) (k : Nat) (id : QueryId) :
    s.stepBound k id = s₀.stepBound k id := by
  induction k generalizing id with
  | zero => rfl
  | succ k ih =>
    rw [stepBound, stepBound]
    cases hq₀ : s₀.get? id with
    | none =>
      have hn : s.get? id = none := by
        rw [← Option.not_isSome_iff_eq_none, isSome_of_still h, hq₀]
        exact Bool.false_ne_true
      rw [hn]
    | some q₀ =>
      obtain ⟨q, hq, hstill⟩ := exists_of_still h hq₀
      rw [hq]
      simp only [Query.table_of_still hstill, Query.matchedIds_of_still hstill, ih]

/-- A search is never cut short. -/
theorem combinations_le_bound (h : s.still = s₀.still) (hq₀ : s₀.get? id = some q₀) :
    combinations (q₀.matchedIds.map fun g => (s₀.rowsWithin settings k g).length) ≤
      s.combinationBound k id := by
  obtain ⟨q, hq, hstill⟩ := exists_of_still h hq₀
  rw [combinationBound, hq]
  simp only [Query.matchedIds_of_still hstill, stepBound_of_still h]
  apply Nat.le_succ_of_le
  exact combinations_mono fun g _ => Nat.le_succ_of_le (length_rowsWithin s₀ settings k g)

/-! All queries go through their rows -/

/-- Where a family stands when some of its rows are still to come; `k` bounds its depth. -/
def Stands (s₀ : QueryStore) (settings : Settings) : (k : Nat) → Standing
  | 0 => fun _ _ _ => False
  | k + 1 => fun σ id rows => ∃ q₀, s₀.get? id = some q₀ ∧
      Cursor s₀ settings (s₀.rowsWithin settings k) (s₀.Stands settings k) id q₀ σ rows

/-- The conditions of all members of a family read the families of their queries only. -/
def Joinable (s : QueryStore) (id : QueryId) : Prop :=
  ∀ m ∈ s.family id, ∀ q, s.get? m = some q → ∀ x ∈ q.matched, s.ReadsFamily m x.condition

theorem Joinable.child (h : Forest s) (hj : s.Joinable id) {c : QueryId}
    (hc : c ∈ s.children id) : s.Joinable c := by
  intro m hm
  apply hj m
  rw [h.mem_family] at hm ⊢
  exact (Reaches.child hc).trans hm

theorem stance_rewindFamily (h : Forest s) (hm : s.Reaches id m) :
    (s.rewindFamily id).stance m = (s.get? m).map fun q => q.rewind.stance := by
  rw [stance, rewindFamily, h.get?_modifyFamily, if_pos (h.mem_family.2 hm), Option.map_map]
  rfl

/-- Once it is rewound a query has all its rows still to come. -/
theorem fresh_cursor {full : QueryId → List Row} {stands : Standing} {step : Stepper}
    (J : Joins s₀ step full stands id q₀) (hs : s.still = s₀.still) :
    Cursor s₀ settings full stands id q₀ (s.rewindFamily id).stance
      ((List.range q₀.table.rowCount).flatMap (s₀.lineRows settings id q₀ full)) := by
  have h := J.forest.of_still hs
  obtain ⟨q, hq, -⟩ := exists_of_still hs J.query
  have hst := stance_rewindFamily h (Reaches.refl s id)
  rw [hq, Option.map_some] at hst
  refine Cursor.between q.rewind.stance hst rfl ?_
  intro _
  refine ⟨rfl, ?_⟩
  intro f hf
  have hmem : f ∈ q₀.children := List.mem_append_left _ hf
  have hchild : f ∈ s.children id := by
    rw [children_of_still hs, J.children]
    exact hmem
  apply (J.walks f hmem).frame (s.rewindFamily f).stance _ _ ?_ ((J.walks f hmem).fresh s hs)
  intro m hm
  have hm' := (reaches_of_still hs).2 hm
  rw [stance_rewindFamily h ((Reaches.child hchild).trans hm'), stance_rewindFamily h hm']

theorem walks_of_joins (J : Joins s₀ (stepWithin settings k) (s₀.rowsWithin settings k)
    (s₀.Stands settings k) id q₀) :
    Walks s₀ (stepWithin settings (k + 1)) (s₀.rowsWithin settings (k + 1))
      (s₀.Stands settings (k + 1)) id where
  frame σ σ' rows hσ hstands := by
    obtain ⟨q, hq, hcur⟩ := hstands
    obtain rfl : q = q₀ := Option.some.inj (hq.symm.trans J.query)
    exact ⟨q, hq, hcur.frame J hσ⟩
  fresh s hs := by
    rw [rowsWithin, J.query]
    exact ⟨q₀, J.query, fresh_cursor J hs⟩
  step s rows hs hstands := by
    obtain ⟨q, hq, hcur⟩ := hstands
    obtain rfl : q = q₀ := Option.some.inj (hq.symm.trans J.query)
    have hmoved := J.step_spec hs hcur (combinations_le_bound hs hq)
    exact ⟨hmoved.more, ⟨q, hq, hmoved.stands⟩, hmoved.shown, hmoved.number⟩

theorem joins_of_walks (h : Forest s₀) (hq₀ : s₀.get? id = some q₀) (hj : s₀.Joinable id)
    (hw : ∀ c ∈ s₀.children id, Walks s₀ (stepWithin settings k) (s₀.rowsWithin settings k)
      (s₀.Stands settings k) c) :
    Joins s₀ (stepWithin settings k) (s₀.rowsWithin settings k) (s₀.Stands settings k) id q₀ where
  forest := h
  query := hq₀
  conditions := hj id (h.mem_family.2 (Reaches.refl s₀ id)) q₀ hq₀
  moves := stepWithin_local settings k
  walks c hc := by
    rw [← children_of_get? hq₀] at hc
    exact hw c hc

/-- Every query goes through its rows one by one. -/
theorem walks (h : Forest s₀) (hk : s₀.Shallow k id) (hlive : (s₀.get? id).isSome)
    (hj : s₀.Joinable id) (settings : Settings) :
    Walks s₀ (stepWithin settings (k + 1)) (s₀.rowsWithin settings (k + 1))
      (s₀.Stands settings (k + 1)) id := by
  induction k generalizing id with
  | zero =>
    obtain ⟨q₀, hq₀⟩ := Option.isSome_iff_exists.1 hlive
    apply walks_of_joins (joins_of_walks h hq₀ hj ?_)
    intro c hc
    rw [show s₀.children id = [] from hk] at hc
    cases hc
  | succ k ih =>
    obtain ⟨q₀, hq₀⟩ := Option.isSome_iff_exists.1 hlive
    apply walks_of_joins (joins_of_walks h hq₀ hj ?_)
    intro c hc
    exact ih (hk c hc) (h.live hc) (hj.child h hc)

/-! Whole walks -/

/-- What a query shows: what its row counter reads, and the values of its family. -/
def shownRow (s : QueryStore) (id : QueryId) : Row :=
  ⟨((s.get? id).map fun q => q.rowNumber.ring.current).getD (.null .number), s.shown id⟩

/-- What is seen of a query whose next row is asked for `n` times: its rows, and nothing where there
is none any more. -/
def walk (settings : Settings) (id : QueryId) : (n : Nat) → QueryStore →
    Except Error (List (Option Row))
  | 0, _ => .ok []
  | n + 1, s => do
    let (s, produced) ← s.next settings id
    return (if produced then some (s.shownRow id) else none) :: (← walk settings id n s)

theorem stance_commitFamily (h : Forest s) (id : QueryId) :
    (s.commitFamily id).stance = s.stance := by
  funext m
  rw [stance, stance, commitFamily, h.get?_modifyFamily]
  split
  · rw [Option.map_map]
    congr 1
    funext q
    simp only [Function.comp_apply, Query.stance, Query.commit, Query.shownValues, List.map_map]
    rfl
  · rfl

/-- The next row is the first of those that are still to come. -/
theorem next_spec (h : Forest s₀) (hlive : (s₀.get? id).isSome) (hj : s₀.Joinable id)
    (hs : s.still = s₀.still)
    (hstands : s₀.Stands settings (s₀.slots.size + 1) s.stance id rows) :
    ∃ s', s.next settings id = .ok (s', !rows.isEmpty) ∧ s'.still = s₀.still ∧
      s₀.Stands settings (s₀.slots.size + 1) s'.stance id rows.tail ∧
      ∀ r ∈ rows.head?, s'.shownRow id = r := by
  have hw := walks h (h.shallow id) hlive hj settings
  obtain ⟨q, hq⟩ := Option.isSome_iff_exists.1 ((isSome_of_still hs).trans hlive)
  have hmoved := hw.step s rows hs hstands
  have hs₁ := (keeps_step h (stepWithin_local settings (s₀.slots.size + 1)) hs id).still.trans hs
  have hnext := next_eq settings hq
  rw [size_of_still hs, hmoved.more] at hnext
  obtain ⟨-, hstands', hshown, hnumber⟩ := hmoved
  generalize (stepWithin settings (s₀.slots.size + 1) s id).1 = s₁ at hnext hs₁ hstands' hshown hnumber
  have h₁ := h.of_still hs₁
  obtain ⟨s', hs'⟩ : ∃ s', s' = if (!rows.isEmpty) = true then s₁.commitFamily id else s₁ := ⟨_, rfl⟩
  have hstance : s'.stance = s₁.stance := by
    rw [hs']
    split
    · exact stance_commitFamily h₁ id
    · rfl
  have hstill : s'.still = s₀.still := by
    rw [hs']
    split
    · rw [(keeps_commitFamily h₁ id).still, hs₁]
    · exact hs₁
  refine ⟨s', hs' ▸ hnext, hstill, ?_, ?_⟩
  · rw [hstance]
    exact hstands'
  · intro r hr
    have hnum : ((s'.get? id).map fun q => q.rowNumber.ring.current) = some r.number := by
      rw [← hnumber r hr, ← hstance, stance, Option.map_map]
      rfl
    rw [shownRow, hnum, shown_eq hstill, hstance, hshown, Option.mem_def.1 hr]
    rfl

theorem walk_of_stands (h : Forest s₀) (hlive : (s₀.get? id).isSome) (hj : s₀.Joinable id)
    (hs : s.still = s₀.still)
    (hstands : s₀.Stands settings (s₀.slots.size + 1) s.stance id rows) (n : Nat) :
    walk settings id n s =
      .ok ((rows.take n).map some ++ List.replicate (n - rows.length) none) := by
  induction n generalizing s rows with
  | zero => rw [walk, List.take_zero, Nat.zero_sub]; rfl
  | succ n ih =>
    obtain ⟨s', hnext, hs', hstands', hshown⟩ := next_spec h hlive hj hs hstands
    rw [walk, hnext]
    change (do return (if (!rows.isEmpty) = true then some (s'.shownRow id) else none) ::
      (← walk settings id n s') : Except Error _) = _
    rw [ih hs' hstands']
    cases rows with
    | nil =>
      rw [List.tail_nil, List.take_nil, List.take_nil, List.length_nil, Nat.sub_zero, Nat.sub_zero]
      rfl
    | cons r rows =>
      rw [hshown r rfl, List.length_cons, Nat.add_sub_add_right]
      rfl

/-! Finalizing a store does not change the rows -/

theorem rowsWithin_congr (hget : ∀ m, s'.get? m = s.get? m) (hfam : ∀ m, s'.family m = s.family m)
    (k : Nat) (id : QueryId) : s'.rowsWithin settings k id = s.rowsWithin settings k id := by
  have hnulls (m : QueryId) : s'.nulls m = s.nulls m :=
    cells_congr Query.nullValues (hfam m) fun m _ => by rw [hget]
  induction k generalizing id with
  | zero => rfl
  | succ k ih =>
    rw [rowsWithin, rowsWithin, hget]
    cases s.get? id with
    | none => rfl
    | some q =>
      apply List.flatMap_congr
      intro i _
      rw [lineRows, lineRows, headCells, headCells, combinedRows, combinedRows, funext hnulls,
        funext ih]

theorem Joinable.finalize (h : Forest s) (hj : s.Joinable id) : s.finalize.Joinable id := by
  intro m hm q hq x hx
  rw [h.family_finalize] at hm
  rw [get?_finalize] at hq
  have hr := hj m hm q hq x hx
  have hsource (src : Source) : s.finalize.FamilySource m src = s.FamilySource m src := by
    simp only [FamilySource, h.family_finalize]
  refine ⟨hr.computed, hr.pure, hr.whole, ?_, hr.bound⟩
  rw [funext hsource]
  exact hr.reads

/-- Whatever was done before, going through a query from its start produces its rows, each of them
once and in their order, and nothing more however often its next row is asked for. -/
theorem walk_yields_rows (hr : Reachable s) (hlive : (s.get? id).isSome) (hj : s.Joinable id)
    (settings : Settings) (n : Nat) :
    ∃ s', s.start id = (s', .ok ()) ∧ walk settings id n s' =
      .ok (((s.rows settings id).take n).map some ++
        List.replicate (n - (s.rows settings id).length) none) := by
  have h := hr.forest
  obtain ⟨q, hq⟩ := Option.isSome_iff_exists.1 hlive
  have hlive' : (s.finalize.get? id).isSome := by
    rw [get?_finalize]
    exact hlive
  have hrows : s.finalize.rows settings id = s.rows settings id := by
    rw [rows, rows, size_finalize, rowsWithin_congr (get?_finalize s) h.family_finalize]
  have hj' := hj.finalize h
  have hw := walks h.finalize (h.finalize.shallow id) hlive' hj' settings
  refine ⟨s.finalize.rewindFamily id, start_eq hq, ?_⟩
  rw [← hrows]
  exact walk_of_stands h.finalize hlive' hj' (keeps_rewindFamily h.finalize id).still
    (hw.fresh s.finalize rfl) n

def letters : Table := ⟨[[some "k"], [some "a"], [some "b"]], []⟩
def single : Table := ⟨[[some "x"], [some "z"]], []⟩
def numbers : Table := ⟨[[some "v"], [some "1"], [some "0"], [some "2"]], [.number]⟩

def nonzero : Computation :=
  { root := .reference (.column (.plain "v")) (some (.column ⟨2⟩ 0)) false, source := "v" }

/-- Two lines with a follower of one row, and a matched follower whose rows fit unless they are zero. -/
def sample : QueryStore where
  slots := #[
    some { Query.ofTable "q" "d" letters none with
      followers := [⟨1⟩], matched := [⟨⟨2⟩, nonzero⟩] },
    some { Query.ofTable "f" "d" single none with leader := some ⟨0⟩ },
    some { Query.ofTable "g" "d" numbers none with leader := some ⟨0⟩ }]
  dirty := true

theorem sample_reachable : Reachable sample :=
  .addMatched ⟨0⟩ ⟨2⟩ nonzero
    (.addFollower ⟨0⟩ ⟨1⟩
      (.insert "g" "d" numbers none
        (.insert "f" "d" single none (.insert "q" "d" letters none .empty rfl) rfl) rfl) rfl) rfl

theorem sample_joinable : sample.Joinable ⟨0⟩ := by
  intro m hm q hq x hx
  have hm' : m = ⟨0⟩ ∨ m = ⟨1⟩ ∨ m = ⟨2⟩ := by
    have hfam : sample.family ⟨0⟩ = [⟨0⟩, ⟨1⟩, ⟨2⟩] := by decide
    rw [hfam] at hm
    simpa only [List.mem_cons, List.not_mem_nil, or_false] using hm
  rcases hm' with rfl | rfl | rfl
  · obtain rfl := Option.some.inj hq
    obtain rfl : x = ⟨⟨2⟩, nonzero⟩ := List.mem_singleton.1 hx
    refine ⟨rfl, trivial, trivial, ?_, trivial⟩
    intro s hs
    obtain rfl : s = .column ⟨2⟩ 0 := (Option.some.inj hs).symm
    exact .inl ⟨⟨2⟩, 0, by decide, rfl⟩
  · obtain rfl := Option.some.inj hq
    cases hx
  · obtain rfl := Option.some.inj hq
    cases hx

def sampleSettings : Settings := ⟨.ofBits 64 .nearest, .dayFirst, false, {}⟩

def sampleRow (number : Int) (k : String) (x : Value) (v : Int) : Row :=
  ⟨.ofInt number, [(⟨0⟩, [.text k]), (⟨1⟩, [x]), (⟨2⟩, [.ofInt v])]⟩

theorem walk_of_sample :
    Reachable sample ∧ (sample.get? ⟨0⟩).isSome ∧ sample.Joinable ⟨0⟩ ∧
      ∃ s', sample.start ⟨0⟩ = (s', .ok ()) ∧ walk sampleSettings ⟨0⟩ 6 s' =
        .ok [some (sampleRow 1 "a" (.text "z") 1), some (sampleRow 1 "a" (.text "z") 2),
          some (sampleRow 2 "b" (.null .text) 1), some (sampleRow 2 "b" (.null .text) 2),
          none, none] := by
  have hrows : sample.rows sampleSettings ⟨0⟩ =
      [sampleRow 1 "a" (.text "z") 1, sampleRow 1 "a" (.text "z") 2,
        sampleRow 2 "b" (.null .text) 1, sampleRow 2 "b" (.null .text) 2] := by
    decide +kernel
  obtain ⟨s', hstart, hwalk⟩ :=
    walk_yields_rows sample_reachable rfl sample_joinable sampleSettings 6
  rw [hrows] at hwalk
  exact ⟨sample_reachable, rfl, sample_joinable, s', hstart, hwalk⟩

end Reporting.QueryStore
