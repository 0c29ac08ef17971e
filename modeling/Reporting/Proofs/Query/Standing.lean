import Reporting.Proofs.Query.Advance
/-!
Where a query stands between two rows, and that each step leads to the next one of its rows.
-/
namespace Reporting.QueryStore

variable {s₀ s s' : QueryStore} {settings : Settings} {m id g c : QueryId} {q q₀ : Query}
  {k n p : Nat} {gs : List QueryId} {σ σ' : QueryId → Option Stance} {full : QueryId → List Row}
  {stands : Standing} {step : Stepper} {ds : List Digit} {number : Value} {head : Cells}
  {rows : List Row} {st : Stance}

/-! Rows still to come -/

/-- The rows of the lines from a position on. -/
def rowsFrom (s₀ : QueryStore) (settings : Settings) (full : QueryId → List Row) (id : QueryId)
    (q₀ : Query) (p : Nat) : List Row :=
  ((List.range q₀.table.rowCount).drop p).flatMap (s₀.lineRows settings id q₀ full)

theorem rowsFrom_of_lt (hp : p < q₀.table.rowCount) :
    s₀.rowsFrom settings full id q₀ p =
      s₀.lineRows settings id q₀ full p ++ s₀.rowsFrom settings full id q₀ (p + 1) := by
  have hlt : p < (List.range q₀.table.rowCount).length := by
    rw [List.length_range]
    exact hp
  rw [rowsFrom, List.drop_eq_getElem_cons hlt, List.flatMap_cons, List.getElem_range, rowsFrom]

theorem rowsFrom_of_le (hp : q₀.table.rowCount ≤ p) : s₀.rowsFrom settings full id q₀ p = [] := by
  rw [rowsFrom, List.drop_of_length_le (List.length_range.trans_le hp), List.flatMap_nil]

/-- The place of a query in its rows: before a line, or at a combination within one. -/
inductive Cursor (s₀ : QueryStore) (settings : Settings) (full : QueryId → List Row)
    (stands : Standing) (id : QueryId) (q₀ : Query) (σ : QueryId → Option Stance) :
    List Row → Prop
  | between (st : Stance) : σ id = some st → st.combining = false →
      (st.position ≤ q₀.table.rowCount → st.row = st.position ∧
        ∀ f ∈ q₀.followers, stands σ f ((full f).drop st.position)) →
      Cursor s₀ settings full stands id q₀ σ (s₀.rowsFrom settings full id q₀ st.position)
  | within (i : Nat) (ds : List Digit) (shown : List Value) :
      σ id = some ⟨i + 1, i + 1, true, shown, .ofInt (i + 1)⟩ →
      (∀ f ∈ q₀.followers, stands σ f ((full f).drop (i + 1))) →
      s₀.headAt q₀ σ id = s₀.headCells settings id q₀ full i →
      ds.map Digit.query = q₀.matchedIds → (∀ d ∈ ds, Holds s₀ full stands σ d) →
      Cursor s₀ settings full stands id q₀ σ
        (((later full ds).filter (q₀.takes settings id (.ofInt (i + 1))
          (s₀.headCells settings id q₀ full i))).map (fun tail =>
            ⟨.ofInt (i + 1), s₀.headCells settings id q₀ full i ++ tail⟩) ++
          s₀.rowsFrom settings full id q₀ (i + 1))

theorem Cursor.frame (J : Joins s₀ step full stands id q₀)
    (hσ : ∀ m, s₀.Reaches id m → σ' m = σ m)
    (hc : Cursor s₀ settings full stands id q₀ σ rows) :
    Cursor s₀ settings full stands id q₀ σ' rows := by
  have hchild {c : QueryId} (hc : c ∈ q₀.children) : ∀ m, s₀.Reaches c m → σ' m = σ m := by
    intro m hm
    apply hσ m
    rw [← J.children] at hc
    exact (Reaches.child hc).trans hm
  have hfollow (drop : QueryId → List Row)
      (hf : ∀ f ∈ q₀.followers, stands σ f (drop f)) :
      ∀ f ∈ q₀.followers, stands σ' f (drop f) := by
    intro f hm
    have hmem : f ∈ q₀.children := List.mem_append_left _ hm
    exact (J.walks f hmem).frame σ σ' _ (hchild hmem) (hf f hm)
  have hid := hσ id (Reaches.refl s₀ id)
  cases hc with
  | between st hst hcombining hrow =>
    apply Cursor.between st (hid.trans hst) hcombining
    intro hle
    exact ⟨(hrow hle).1, hfollow _ (hrow hle).2⟩
  | within i ds shown hst hf hhead hq hds =>
    apply Cursor.within i ds shown (hid.trans hst) (hfollow _ hf) ?_ hq
    · intro d hd
      have hmem : d.query ∈ q₀.children := by
        apply List.mem_append_right
        rw [← hq]
        exact List.mem_map_of_mem hd
      exact (hds d hd).frame J.forest (J.walks _ hmem) (hchild hmem)
    · rw [← hhead, headAt, headAt, hid]
      congr 1
      apply List.flatMap_congr
      intro f hf
      exact J.forest.shownAt_congr (hchild (List.mem_append_left _ hf))

/-! Combining a line with the rows of the matched followers -/

theorem choices_of_nil {lists : List (List Cells)} (h : [] ∈ lists) : choices lists = [] := by
  induction lists with
  | nil => cases h
  | cons xs xss ih =>
    rw [choices]
    rcases List.mem_cons.1 h with rfl | h
    · apply List.flatMap_eq_nil_iff.2
      intro tail _
      rfl
    · rw [ih h, List.flatMap_nil]

theorem exists_digits {P : Digit → Prop} (h : ∀ g ∈ gs, ∃ d : Digit, d.query = g ∧ P d) :
    ∃ ds : List Digit, ds.map Digit.query = gs ∧ ∀ d ∈ ds, P d := by
  induction gs with
  | nil =>
    refine ⟨[], rfl, ?_⟩
    intro d hd
    cases hd
  | cons g gs ih =>
    obtain ⟨d, rfl, hd⟩ := h g List.mem_cons_self
    obtain ⟨ds, rfl, hds⟩ := ih fun g hg => h g (List.mem_cons_of_mem _ hg)
    exact ⟨d :: ds, rfl, List.forall_mem_cons.2 ⟨hd, hds⟩⟩

namespace Joins

variable (J : Joins s₀ step full stands id q₀)
include J

/-- Started anew, the matched followers stand on the first combination, if there is any. -/
theorem startAll_spec (hs : s.still = s₀.still) :
    (choices (q₀.matchedIds.map fun g => (full g).map Row.cells) = [] ∧
        (startAll step s q₀.matchedIds).2 = false) ∨
      ∃ ds : List Digit, ds.map Digit.query = q₀.matchedIds ∧
        choices (q₀.matchedIds.map fun g => (full g).map Row.cells) =
          showing ds :: later full ds ∧
        (startAll step s q₀.matchedIds).2 = true ∧
        ∀ d ∈ ds, Holds s₀ full stands (startAll step s q₀.matchedIds).1.stance d := by
  have hwalks : ∀ g ∈ q₀.matchedIds, Walks s₀ step full stands g :=
    fun g hg => J.walks g (List.mem_append_right _ hg)
  let Q (σ : QueryId → Option Stance) (g : QueryId) : Prop := full g ≠ [] →
    ∃ d : Digit, d.query = g ∧ (full d.query).map Row.cells = d.shown :: d.left.map Row.cells ∧
      Holds s₀ full stands σ d
  have hQ : Framed s₀ q₀.matchedIds Q := by
    intro σ σ' g hg hσ hQg hne
    obtain ⟨d, rfl, hd, hold⟩ := hQg hne
    exact ⟨d, rfl, hd, hold.frame J.forest (hwalks _ hg) hσ⟩
  have hmoves : ∀ s : QueryStore, ∀ g ∈ q₀.matchedIds, s.still = s₀.still → True →
      (step (s.rewindFamily g) g).2 = !(full g).isEmpty ∧
        Q (step (s.rewindFamily g) g).1.stance g := by
    intro s g hg hs _
    have hr := (keeps_rewindFamily (J.forest.of_still hs) g).still.trans hs
    refine ⟨((hwalks g hg).step _ _ hr ((hwalks g hg).fresh s hs)).more, ?_⟩
    intro hne
    obtain ⟨-, d, rfl, hd, hold⟩ := (hwalks g hg).first J.forest hs hne
    exact ⟨d, rfl, hd, hold⟩
  obtain ⟨hall, hdigits⟩ := stepAll_spec (P := fun _ _ => True) J.forest (local_rewound J.moves)
    (fun _ _ _ _ _ hP => hP) hQ J.matched_apart hs hmoves (fun _ _ => trivial)
  by_cases hempty : ∃ g ∈ q₀.matchedIds, full g = []
  · obtain ⟨g, hg, hfull⟩ := hempty
    left
    constructor
    · apply choices_of_nil
      refine List.mem_map.2 ⟨g, hg, ?_⟩
      rw [hfull, List.map_nil]
    · rw [startAll, hall, List.all_eq_false]
      refine ⟨g, hg, ?_⟩
      rw [hfull]
      exact Bool.false_ne_true
  · right
    have hne : ∀ g ∈ q₀.matchedIds, full g ≠ [] := fun g hg hfull => hempty ⟨g, hg, hfull⟩
    obtain ⟨ds, hq, hds⟩ := exists_digits fun g hg => hdigits g hg (hne g hg)
    refine ⟨ds, hq, ?_, ?_, fun d hd => (hds d hd).2⟩
    · rw [← hq, List.map_map]
      exact choices_eq_later fun d hd => (hds d hd).1
    · rw [startAll, hall, List.all_eq_true]
      intro g hg
      rw [Bool.not_eq_true', List.isEmpty_eq_false_iff]
      exact hne g hg

/-- Without a combination that fits, the matched followers show nulls. -/
theorem blanked (hs' : s'.still = s₀.still)
    (hσ : ∀ m, ¬ s₀.Below q₀.matchedIds m → s'.stance m = s.stance m) :
    (∀ m, ¬ s₀.Below q₀.matchedIds m →
        ((s'.matchedIds id).foldl blankFamily s').stance m = s.stance m) ∧
      q₀.matchedIds.flatMap
          (s₀.shownAt ((s'.matchedIds id).foldl blankFamily s').stance) =
        q₀.matchedIds.flatMap s₀.nulls := by
  rw [J.matchedIds hs']
  refine ⟨?_, shownAt_blankAll J.forest hs' J.matched_apart⟩
  intro m hm
  have hk := (keeps_blankAll (J.forest.of_still hs') q₀.matchedIds).below hs'
  rw [hk.stance hm, hσ m hm]

/-- A new line is combined with the first rows of its matched followers that fit. -/
theorem combine_spec (settings : Settings) (hs : s.still = s₀.still) (hst : s.stance id = some st)
    (hhead : s₀.headAt q₀ s.stance id = head)
    (hn : combinations (q₀.matchedIds.map fun g => (full g).length) ≤ n) :
    ((choices (q₀.matchedIds.map fun g => (full g).map Row.cells)).filter
          (q₀.takes settings id st.number head) = [] ∧
        (∀ m, ¬ s₀.Below q₀.matchedIds m →
          (combine step settings n s id).stance m = s.stance m) ∧
        q₀.matchedIds.flatMap (s₀.shownAt (combine step settings n s id).stance) =
          q₀.matchedIds.flatMap s₀.nulls) ∨
      ∃ ds : List Digit, ds.map Digit.query = q₀.matchedIds ∧
        (choices (q₀.matchedIds.map fun g => (full g).map Row.cells)).filter
            (q₀.takes settings id st.number head) =
          showing ds :: (later full ds).filter (q₀.takes settings id st.number head) ∧
        (∀ d ∈ ds, Holds s₀ full stands (combine step settings n s id).stance d) ∧
        (combine step settings n s id).stance id = some { st with combining := true } ∧
        ∀ m, m ≠ id → ¬ s₀.Below q₀.matchedIds m →
          (combine step settings n s id).stance m = s.stance m := by
  have hid : ¬ s₀.Below q₀.matchedIds id :=
    J.not_below_self fun g hg => List.mem_append_right _ hg
  have hstart := (keeps_startAll J.moves (J.forest.of_still hs) q₀.matchedIds).below hs
  have hs₁ := hstart.still.trans hs
  have hcombine := combine_eq step settings n s id rfl
  rw [J.matchedIds hs] at hcombine
  rcases J.startAll_spec hs with ⟨hnone, hall⟩ | ⟨ds, hq, hchoices, hall, hds⟩
  · left
    rw [hcombine, hall, hnone]
    exact ⟨rfl, J.blanked hs₁ fun m hm => hstart.stance hm⟩
  · rw [hall, if_pos rfl] at hcombine
    have ht : Tries s₀ full stands id q₀ st.number head
        (startAll step s q₀.matchedIds).1 ds := by
      refine ⟨hs₁, hq, ?_, ?_, hds⟩
      · rw [hstart.stance hid, hst, Option.map_some]
      · rw [J.headAt_congr fun m hm => hstart.stance hm, hhead]
    have hlater : (later full ds).length < n := by
      apply Nat.lt_of_lt_of_le (length_later fun d hd => (hds d hd).short)
      rw [← hq, List.map_map] at hn
      exact hn
    have hfound := J.findMatch_spec settings ht hlater
    have hσ (m : QueryId) (hm : ¬ s₀.Below q₀.matchedIds m) :
        (findMatch step settings id n (startAll step s q₀.matchedIds).1).1.stance m =
          s.stance m := by
      rw [J.stance_findMatch n hs₁ hm, hstart.stance hm]
    have hs₂ := (keeps_findMatch J.moves (J.forest.of_still hs₁) settings id n).still.trans hs₁
    rw [hchoices]
    generalize findMatch step settings id n (startAll step s q₀.matchedIds).1 = found
      at hcombine hfound hσ hs₂
    cases hfit : (showing ds :: later full ds).filter (q₀.takes settings id st.number head) with
    | nil =>
      left
      rw [hfit] at hfound
      rw [hcombine, hfound.found]
      exact ⟨rfl, J.blanked hs₂ hσ⟩
    | cons c cs =>
      right
      rw [hfit] at hfound
      obtain ⟨ds', hq', rfl, rfl, hds'⟩ := hfound.digits c cs rfl
      have hmore : found.2 = true := hfound.found
      rw [hmore, if_pos rfl] at hcombine
      have hne (m : QueryId) (hm : m ≠ id) :
          (combine step settings n s id).stance m = found.1.stance m := by
        rw [hcombine, stance, stance, get?_modify_of_ne hm.symm]
      refine ⟨ds', hq', rfl, ?_, ?_, ?_⟩
      · intro d hd
        apply (hds' d hd).frame J.forest (J.walks_digits hq' d hd)
        intro m hm
        apply hne
        rintro rfl
        apply hid
        refine ⟨d.query, ?_, hm⟩
        rw [← hq']
        exact List.mem_map_of_mem hd
      · have hstance := hσ id hid
        rw [hst] at hstance
        obtain ⟨q, hq, hqst⟩ := Option.map_eq_some_iff.1 hstance
        rw [hcombine, stance, get?_modify_self hq, Option.map_some, ← hqst]
        rfl
      · intro m hm hb
        rw [hne m hm, hσ m hb]

/-! The next line -/

/-- All followers go along by one row. -/
theorem follow_spec (hs : s.still = s₀.still)
    (hf : ∀ f ∈ q₀.followers, stands s.stance f ((full f).drop p)) :
    ∀ f ∈ q₀.followers,
      stands (stepAll step s q₀.followers).1.stance f ((full f).drop (p + 1)) ∧
        s₀.shownAt (stepAll step s q₀.followers).1.stance f =
          (((full f)[p]?).map Row.cells).getD (s₀.nulls f) := by
  have hwalks : ∀ f ∈ q₀.followers, Walks s₀ step full stands f :=
    fun f hf => J.walks f (List.mem_append_left _ hf)
  let P (σ : QueryId → Option Stance) (f : QueryId) : Prop := stands σ f ((full f).drop p)
  let Q (σ : QueryId → Option Stance) (f : QueryId) : Prop :=
    stands σ f ((full f).drop (p + 1)) ∧
      s₀.shownAt σ f = (((full f)[p]?).map Row.cells).getD (s₀.nulls f)
  have hP : Framed s₀ q₀.followers P :=
    fun σ σ' f hf hσ hPf => (hwalks f hf).frame σ σ' _ hσ hPf
  have hQ : Framed s₀ q₀.followers Q := fun σ σ' f hf hσ hQf =>
    ⟨(hwalks f hf).frame σ σ' _ hσ hQf.1, (J.forest.shownAt_congr hσ).trans hQf.2⟩
  have hmoves : ∀ s : QueryStore, ∀ f ∈ q₀.followers, s.still = s₀.still → P s.stance f →
      (step s f).2 = !((full f).drop p).isEmpty ∧ Q (step s f).1.stance f := by
    intro s f hf hs hPf
    have hmoved := (hwalks f hf).step s _ hs hPf
    refine ⟨hmoved.more, ?_, ?_⟩
    · rw [← List.tail_drop]
      exact hmoved.stands
    · rw [hmoved.shown, List.head?_drop]
  exact (stepAll_spec J.forest J.moves hP hQ J.followers_apart hs hmoves hf).2

/-- After the last line the whole family shows nulls. -/
theorem nextRow_of_le (hs : s.still = s₀.still) (hq : s.get? id = some q)
    (hcombining : q.combining = false) (hle : q₀.table.rowCount ≤ q.position) :
    Moved s₀ (fun σ _ rows => Cursor s₀ settings full stands id q₀ σ rows) id []
      (nextRow step settings n s id q) := by
  obtain ⟨q', hq', hstill⟩ := exists_of_still hs J.query
  obtain rfl : q' = q := Option.some.inj (hq'.symm.trans hq)
  have hadvance := Query.still_advance q' settings.coercion
  rw [← Query.table_of_still hstill] at hle
  obtain ⟨hmore, hpos, hcomb, hnull⟩ := Query.advance_of_le hle settings.coercion
  have hread : (s.modify id fun _ => (q'.advance settings.coercion).1).still = s₀.still := by
    rw [still_modify, hs]
    intro q₁ hq₁
    rw [hadvance, Option.some.inj (hq₁.symm.trans hq)]
  have hnext : nextRow step settings n s id q' =
      (q₀.children.foldl blankFamily (s.modify id fun _ => (q'.advance settings.coercion).1),
        false) := by
    rw [nextRow, ← Query.children_of_still hstill, ← Query.children_of_still hadvance]
    simp only [hmore, Bool.not_false, if_true]
  have hk := (keeps_blankAll (J.forest.of_still hread) q₀.children).below hread
  have happart : q₀.children.Pairwise s₀.Apart := by
    rw [← J.children]
    exact J.forest.apart (List.Sublist.refl _)
  have hst : (q₀.children.foldl blankFamily
      (s.modify id fun _ => (q'.advance settings.coercion).1)).stance id =
        some (q'.advance settings.coercion).1.stance := by
    rw [hk.stance (J.not_below_self fun g hg => hg), stance, get?_modify_self hq]
    rfl
  rw [hnext]
  constructor
  · rfl
  · rw [Query.table_of_still hstill] at hpos
    have hnil : s₀.rowsFrom settings full id q₀ (q'.advance settings.coercion).1.position = [] :=
      rowsFrom_of_le (Nat.le_of_lt hpos)
    rw [List.tail_nil, ← hnil]
    apply Cursor.between _ hst (hcomb.trans hcombining)
    exact fun hle' => (Nat.not_le_of_lt hpos hle').elim
  · rw [J.forest.shownAt_cons, hst, J.children, shownAt_blankAll J.forest hread happart]
    change (id, (q'.advance settings.coercion).1.shownValues) :: _ = s₀.nulls id
    rw [nulls, J.forest.cells_cons _ J.query, J.children, hnull, Query.nullValues_of_still hstill]
    rfl
  · intro r hr
    cases hr

/-- A query that shows a line on its own, or with nulls for its matched followers. -/
theorem moved_alone {line : Nat} {shown : List Value} {tail : Cells}
    (hst : s'.stance id = some ⟨line + 1, line + 1, false, shown, .ofInt (line + 1)⟩)
    (hf : ∀ f ∈ q₀.followers, stands s'.stance f ((full f).drop (line + 1)))
    (hhead : s₀.headAt q₀ s'.stance id = s₀.headCells settings id q₀ full line)
    (htail : q₀.matchedIds.flatMap (s₀.shownAt s'.stance) = tail) :
    Moved s₀ (fun σ _ rows => Cursor s₀ settings full stands id q₀ σ rows) id
      (⟨.ofInt (line + 1), s₀.headCells settings id q₀ full line ++ tail⟩ ::
        s₀.rowsFrom settings full id q₀ (line + 1)) (s', true) where
  more := rfl
  stands := Cursor.between _ hst rfl fun _ => ⟨rfl, hf⟩
  shown := by
    rw [J.shownAt_split, hhead, htail]
    rfl
  number := by
    intro r hr
    obtain rfl := Option.some.inj hr
    rw [hst]
    rfl

/-- A line yields its rows one by one. -/
theorem nextRow_of_lt (hs : s.still = s₀.still) (hq : s.get? id = some q)
    (hcombining : q.combining = false) (hlt : q.position < q₀.table.rowCount)
    (hrow : q.row = q.position)
    (hf : ∀ f ∈ q₀.followers, stands s.stance f ((full f).drop q.position))
    (hn : combinations (q₀.matchedIds.map fun g => (full g).length) ≤ n) :
    Moved s₀ (fun σ _ rows => Cursor s₀ settings full stands id q₀ σ rows) id
      (s₀.rowsFrom settings full id q₀ q.position) (nextRow step settings n s id q) := by
  obtain ⟨q', hq', hstill⟩ := exists_of_still hs J.query
  obtain rfl : q' = q := Option.some.inj (hq'.symm.trans hq)
  have hadvance := Query.still_advance q' settings.coercion
  have hlt' := hlt
  rw [← Query.table_of_still hstill] at hlt'
  obtain ⟨hmore, hstance⟩ := Query.advance_of_lt hlt' settings.coercion
  rw [hrow, hcombining, Query.lineValues_of_still hstill] at hstance
  have hfollowers : (q'.advance settings.coercion).1.followers = q₀.followers := by
    rw [Query.followers_of_still hadvance, Query.followers_of_still hstill]
  have hmatched : (q'.advance settings.coercion).1.matched.isEmpty = q₀.matched.isEmpty := by
    have hm := (Query.conditions_of_still hadvance).trans (Query.conditions_of_still hstill)
    have hlen := congrArg List.length hm
    rw [List.length_map, List.length_map] at hlen
    rw [Bool.eq_iff_iff, List.isEmpty_iff_length_eq_zero, List.isEmpty_iff_length_eq_zero, hlen]
  have hnext : nextRow step settings n s id q' =
      if q₀.matched.isEmpty
      then ((stepAll step (s.modify id fun _ => (q'.advance settings.coercion).1)
        q₀.followers).1, true)
      else (combine step settings n (stepAll step
        (s.modify id fun _ => (q'.advance settings.coercion).1) q₀.followers).1 id, true) := by
    rw [nextRow]
    simp only [hmore, Bool.not_true, Bool.false_eq_true, if_false, hfollowers, hmatched]
  have hread : (s.modify id fun _ => (q'.advance settings.coercion).1).still = s₀.still := by
    rw [still_modify, hs]
    intro q₁ hq₁
    rw [hadvance, Option.some.inj (hq₁.symm.trans hq)]
  have hst : (s.modify id fun _ => (q'.advance settings.coercion).1).stance id =
      some (q'.advance settings.coercion).1.stance := by
    rw [stance, get?_modify_self hq]
    rfl
  have hf₁ : ∀ f ∈ q₀.followers,
      stands (s.modify id fun _ => (q'.advance settings.coercion).1).stance f
        ((full f).drop q'.position) := by
    intro f hm
    have hmem : f ∈ q₀.children := List.mem_append_left _ hm
    apply (J.walks f hmem).frame s.stance _ _ ?_ (hf f hm)
    intro m hr
    rw [stance, stance, get?_modify_of_ne]
    rintro rfl
    rw [← J.children] at hmem
    exact J.forest.not_reaches_back hmem hr
  generalize (s.modify id fun _ => (q'.advance settings.coercion).1) = s₁ at hnext hread hst hf₁
  have hfollow := J.follow_spec hread hf₁
  have hk := (keeps_stepAll J.moves (J.forest.of_still hread) q₀.followers).below hread
  have hs₂ := hk.still.trans hread
  have hst₂ := (hk.stance (J.not_below_self fun g hg => List.mem_append_left _ hg)).trans hst
  rw [hstance] at hst₂
  generalize (stepAll step s₁ q₀.followers).1 = s₂ at hnext hfollow hs₂ hst₂
  have hhead : s₀.headAt q₀ s₂.stance id = s₀.headCells settings id q₀ full q'.position := by
    rw [headAt, headCells, hst₂]
    congr 1
    apply List.flatMap_congr
    exact fun f hf => (hfollow f hf).2
  rw [rowsFrom_of_lt hlt, hnext]
  cases hempty : q₀.matched.isEmpty with
  | true =>
    have hnil := List.isEmpty_iff.1 hempty
    have hids : q₀.matchedIds = [] := by
      rw [Query.matchedIds, hnil, List.map_nil]
    have hline : s₀.lineRows settings id q₀ full q'.position =
        [⟨.ofInt (q'.position + 1), s₀.headCells settings id q₀ full q'.position ++ []⟩] := by
      have hfits : q₀.fits settings id ⟨.ofInt (q'.position + 1),
          s₀.headCells settings id q₀ full q'.position ++ []⟩ = true :=
        Query.fits_of_unmatched hnil settings id _
      rw [lineRows, combinedRows, hids, List.map_nil, choices, List.map_singleton,
        List.filter_cons_of_pos hfits]
      rfl
    rw [hline]
    exact J.moved_alone hst₂ (fun f hf => (hfollow f hf).1) hhead (by rw [hids, List.flatMap_nil])
  | false =>
    have hfilter : (((choices (q₀.matchedIds.map fun g => (full g).map Row.cells)).map fun tail =>
        (⟨.ofInt (q'.position + 1),
          s₀.headCells settings id q₀ full q'.position ++ tail⟩ : Row)).filter
            (q₀.fits settings id)) =
        ((choices (q₀.matchedIds.map fun g => (full g).map Row.cells)).filter
          (q₀.takes settings id (.ofInt (q'.position + 1))
            (s₀.headCells settings id q₀ full q'.position))).map fun tail =>
          ⟨.ofInt (q'.position + 1), s₀.headCells settings id q₀ full q'.position ++ tail⟩ := by
      rw [List.filter_map]
      rfl
    rw [lineRows, combinedRows, hfilter, if_neg Bool.false_ne_true]
    rcases J.combine_spec settings hs₂ hst₂ hhead hn with
      ⟨hnone, hσ, hnull⟩ | ⟨ds, hq, hsome, hds, hst₃, hσ⟩
    · rw [hnone, List.map_nil]
      have hstance₃ := (hσ id (J.not_below_self fun g hg => List.mem_append_right _ hg)).trans hst₂
      apply J.moved_alone hstance₃ ?_ ?_ hnull
      · intro f hf
        apply (J.walks f (List.mem_append_left _ hf)).frame s₂.stance _ _ ?_ (hfollow f hf).1
        exact fun m hm => hσ m (J.not_below_follower hf hm)
      · rw [J.headAt_congr hσ, hhead]
    · rw [hsome, List.map_cons]
      have hhead₃ : s₀.headAt q₀ (combine step settings n s₂ id).stance id =
          s₀.headCells settings id q₀ full q'.position := by
        rw [← hhead, headAt, headAt, hst₃, hst₂]
        congr 1
        apply List.flatMap_congr
        intro f hf
        apply J.forest.shownAt_congr
        intro m hm
        apply hσ m ?_ (J.not_below_follower hf hm)
        rintro rfl
        apply J.forest.not_reaches_back ?_ hm
        rw [J.children]
        exact List.mem_append_left _ hf
      constructor
      · rfl
      · apply Cursor.within q'.position ds _ hst₃ ?_ hhead₃ hq hds
        intro f hf
        apply (J.walks f (List.mem_append_left _ hf)).frame s₂.stance _ _ ?_ (hfollow f hf).1
        intro m hm
        apply hσ m ?_ (J.not_below_follower hf hm)
        rintro rfl
        apply J.forest.not_reaches_back ?_ hm
        rw [J.children]
        exact List.mem_append_left _ hf
      · rw [J.shownAt_digits hq hds, hhead₃]
        rfl
      · intro r hr
        obtain rfl := Option.some.inj hr
        rw [hst₃]
        rfl

omit J in
/-- Each step leads to the next of the rows that are still to come. -/
theorem step_spec (J : Joins s₀ (stepWithin settings k) full stands id q₀)
    (hs : s.still = s₀.still) (hcur : Cursor s₀ settings full stands id q₀ s.stance rows)
    (hn : combinations (q₀.matchedIds.map fun g => (full g).length) ≤ s.combinationBound k id) :
    Moved s₀ (fun σ _ rows => Cursor s₀ settings full stands id q₀ σ rows) id rows
      (stepWithin settings (k + 1) s id) := by
  obtain ⟨q, hq, hstill⟩ := exists_of_still hs J.query
  have hst : s.stance id = some q.stance := by
    rw [stance, hq, Option.map_some]
  rw [stepWithin]
  simp only [hq]
  cases hcur with
  | between st hst' hcombining hrow =>
    obtain rfl : q.stance = st := Option.some.inj (hst.symm.trans hst')
    have hc : ¬ q.combining = true := by
      rw [show q.combining = false from hcombining]
      exact Bool.false_ne_true
    rw [if_neg hc]
    by_cases hlt : q.position < q₀.table.rowCount
    · obtain ⟨hrow', hf⟩ := hrow (Nat.le_of_lt hlt)
      exact J.nextRow_of_lt hs hq hcombining hlt hrow' hf hn
    · have hle := Nat.le_of_not_lt hlt
      rw [show q.stance.position = q.position from rfl, rowsFrom_of_le hle]
      exact J.nextRow_of_le hs hq hcombining hle
  | within i ds shown hst' hf hhead hqs hds =>
    have hq' : q.stance = ⟨i + 1, i + 1, true, shown, .ofInt (i + 1)⟩ :=
      Option.some.inj (hst.symm.trans hst')
    have hc : q.combining = true := congrArg Stance.combining hq'
    rw [if_pos hc]
    have ht : Tries s₀ full stands id q₀ (.ofInt (i + 1)) (s₀.headCells settings id q₀ full i) s ds := by
      refine ⟨hs, hqs, ?_, hhead, hds⟩
      rw [hst', Option.map_some]
    have hlater : (later full ds).length ≤ s.combinationBound k id := by
      have hlt := length_later fun d hd => (hds d hd).short
      rw [← hqs, List.map_map] at hn
      exact Nat.le_trans (Nat.le_of_lt hlt) hn
    have hfound := J.nextMatch_spec settings ht hlater
    have hσ (m : QueryId) (hm : ¬ s₀.Below q₀.matchedIds m) :=
      J.stance_nextMatch settings (s.combinationBound k id) hs hm
    have hid : ¬ s₀.Below q₀.matchedIds id :=
      J.not_below_self fun g hg => List.mem_append_right _ hg
    have hs₁ := (keeps_nextMatch J.moves (J.forest.of_still hs) settings id
      (s.combinationBound k id)).still.trans hs
    have hf₁ : ∀ f ∈ q₀.followers, stands (nextMatch (stepWithin settings k) settings id
        (s.combinationBound k id) s).1.stance f ((full f).drop (i + 1)) := by
      intro f hm
      apply (J.walks f (List.mem_append_left _ hm)).frame s.stance _ _ ?_ (hf f hm)
      exact fun m hr => hσ m (J.not_below_follower hm hr)
    have hst₁ := (hσ id hid).trans hst'
    have hhead₁ := (J.headAt_congr hσ).trans hhead
    generalize nextMatch (stepWithin settings k) settings id (s.combinationBound k id) s = result
      at hfound hs₁ hf₁ hst₁ hhead₁ ⊢
    obtain ⟨s₁, found⟩ := result
    cases hfit : (later full ds).filter (q₀.takes settings id (.ofInt (i + 1))
        (s₀.headCells settings id q₀ full i)) with
    | cons c cs =>
      rw [hfit] at hfound
      obtain ⟨ds', hqs', rfl, rfl, hds'⟩ := hfound.digits c cs rfl
      obtain rfl : found = true := hfound.found
      dsimp only
      constructor
      · rfl
      · exact Cursor.within i ds' shown hst₁ hf₁ hhead₁ hqs' hds'
      · rw [J.shownAt_digits hqs' hds', hhead₁]
        rfl
      · intro r hr
        obtain rfl := Option.some.inj hr
        rw [hst₁]
        rfl
    | nil =>
      rw [hfit] at hfound
      obtain rfl : found = false := hfound.found
      obtain ⟨q₁, hq₁, hqst₁⟩ := Option.map_eq_some_iff.1 hst₁
      have hget := get?_modify_self hq₁ fun q => { q with combining := false }
      have hs₂ : (s₁.modify id fun q => { q with combining := false }).still = s₀.still := by
        rw [still_modify fun q _ => Query.still_combining q false, hs₁]
      have hpos : q₁.position = i + 1 := congrArg Stance.position hqst₁
      have hrow : q₁.row = i + 1 := congrArg Stance.row hqst₁
      have hf₂ : ∀ f ∈ q₀.followers,
          stands (s₁.modify id fun q => { q with combining := false }).stance f
            ((full f).drop (i + 1)) := by
        intro f hm
        have hmem : f ∈ q₀.children := List.mem_append_left _ hm
        apply (J.walks f hmem).frame s₁.stance _ _ ?_ (hf₁ f hm)
        intro m hr
        rw [stance, stance, get?_modify_of_ne]
        rintro rfl
        rw [← J.children] at hmem
        exact J.forest.not_reaches_back hmem hr
      simp only [hget, List.map_nil, List.nil_append]
      by_cases hlt : i + 1 < q₀.table.rowCount
      · rw [← hpos] at hlt hf₂ ⊢
        exact J.nextRow_of_lt hs₂ hget rfl hlt (hrow.trans hpos.symm) hf₂ hn
      · have hle := Nat.le_of_not_lt hlt
        rw [rowsFrom_of_le hle]
        rw [← hpos] at hle
        exact J.nextRow_of_le hs₂ hget rfl hle

end Joins
end Reporting.QueryStore
