import Reporting.Proofs.Query.Advance
/-!
Which queries start over while another one is moved. A query that starts over forgets the rows that
it has produced, and all other ones remember them.
-/
namespace Reporting

namespace Query

variable {q q' : Query}

/-- What the row counter and the columns keep of rows that were produced: the previous value and the
one after it. -/
def kept (q : Query) : (Value × Value) × List (Value × Value) :=
  ((q.rowNumber.ring.previous, q.rowNumber.produced),
    q.columns.map fun c => (c.cell.ring.previous, c.cell.produced))

/-- What they keep if no row was produced yet. -/
def unproduced (q : Query) : (Value × Value) × List (Value × Value) :=
  ((.null .number, .null .number), q.columns.map fun c => (.null c.kind, .null c.kind))

theorem unproduced_of_still (h : q'.still = q.still) : q'.unproduced = q.unproduced := by
  have hk := congrArg (List.map fun k => (Value.null k, Value.null k)) (kinds_of_still h)
  rw [unproduced, unproduced]
  simp only [List.map_map, Function.comp_def] at hk
  rw [hk]

theorem kept_rewind (q : Query) : q.rewind.kept = q.unproduced := by
  rw [kept, rewind, List.map_map]
  rfl

theorem kept_blank (q : Query) : q.blank.kept = q.kept := by
  rw [kept, blank, List.map_map]
  rfl

theorem kept_readRow (q : Query) (co : Coercion) : (q.readRow co).kept = q.kept := by
  unfold readRow
  split
  · exact kept_blank q
  · refine Prod.ext rfl (List.ext_getElem? ?_)
    intro i
    simp only [kept, List.getElem?_map, List.getElem?_mapIdx, Option.map_map]
    rfl

theorem kept_advance (q : Query) (co : Coercion) : (q.advance co).1.kept = q.kept := by
  unfold advance
  by_cases hp : q.position ≤ q.table.rowCount
  · simp only [if_pos hp]
    split <;> exact kept_readRow _ co
  · simp only [if_neg hp]
    split <;> exact kept_readRow _ co

end Query

namespace QueryStore

variable {s s' s'' : QueryStore} {settings : Settings} {m id g : QueryId} {q : Query}
  {gs R R' : List QueryId} {n : Nat}

/-! What is remembered -/

/-- All queries but those in `R`, which started over, keep what they know of rows that were
produced. -/
structure Remembers (R : List QueryId) (s s' : QueryStore) : Prop where
  still : s'.still = s.still
  kept : ∀ m, (s'.get? m).map Query.kept =
    if m ∈ R then (s.get? m).map Query.unproduced else (s.get? m).map Query.kept

theorem unproduced_of_still (h : s'.still = s.still) (m : QueryId) :
    (s'.get? m).map Query.unproduced = (s.get? m).map Query.unproduced := by
  cases hq : s.get? m with
  | none =>
    have hn : s'.get? m = none := by
      rw [← Option.not_isSome_iff_eq_none, isSome_of_still h, hq]
      exact Bool.false_ne_true
    rw [hn]
  | some q =>
    obtain ⟨q', hq', hstill⟩ := exists_of_still h hq
    rw [hq', Option.map_some, Option.map_some, Query.unproduced_of_still hstill]

namespace Remembers

theorem refl (s : QueryStore) : Remembers [] s s := ⟨rfl, fun _ => rfl⟩

theorem trans (h : Remembers R s s') (h' : Remembers R' s' s'') : Remembers (R ++ R') s s'' where
  still := h'.still.trans h.still
  kept m := by
    rw [h'.kept, h.kept, unproduced_of_still h.still]
    by_cases hm' : m ∈ R'
    · rw [if_pos hm', if_pos (List.mem_append_right R hm')]
    · rw [if_neg hm']
      by_cases hm : m ∈ R
      · rw [if_pos hm, if_pos (List.mem_append_left R' hm)]
      · rw [if_neg hm, if_neg fun h => (List.mem_append.1 h).elim hm hm']

/-- A change that makes no query start over. -/
theorem after (h : Remembers R s s') (h' : Remembers [] s' s'') : Remembers R s s'' := by
  have hr := h.trans h'
  rwa [List.append_nil] at hr

theorem modify {f : Query → Query}
    (hf : ∀ q, s.get? id = some q → (f q).still = q.still ∧ (f q).kept = q.kept) :
    Remembers [] s (s.modify id f) where
  still := still_modify fun q hq => (hf q hq).1
  kept m := by
    rw [if_neg List.not_mem_nil, get?_modify]
    split
    · rename_i hm
      subst hm
      cases hq : s.get? id with
      | none => rfl
      | some q => rw [Option.map_some, Option.map_some, Option.map_some, (hf q hq).2]
    · rfl

end Remembers

theorem remembers_rewindFamily (h : Forest s) (id : QueryId) :
    Remembers (s.family id) s (s.rewindFamily id) where
  still := (keeps_rewindFamily h id).still
  kept m := by
    rw [rewindFamily, h.get?_modifyFamily]
    split
    · rw [Option.map_map]
      congr 1
      funext q
      exact Query.kept_rewind q
    · rfl

theorem remembers_blankFamily (h : Forest s) (id : QueryId) :
    Remembers [] s (s.blankFamily id) where
  still := (keeps_blankFamily h id).still
  kept m := by
    rw [if_neg List.not_mem_nil, blankFamily, h.get?_modifyFamily]
    split
    · rw [Option.map_map]
      congr 1
      funext q
      exact Query.kept_blank q
    · rfl

theorem remembers_blankAll (h : Forest s) (gs : List QueryId) :
    Remembers [] s (gs.foldl blankFamily s) := by
  induction gs generalizing s with
  | nil => exact .refl s
  | cons g gs ih =>
    have hg := remembers_blankFamily h g
    exact hg.trans (ih (h.of_still hg.still))

theorem remembers_rowsMatch (s : QueryStore) (settings : Settings) (id : QueryId) :
    Remembers [] s (s.rowsMatch settings id).1 where
  still := (keeps_rowsMatch settings id).still
  kept m := by
    unfold rowsMatch
    split
    · rfl
    · rw [if_neg List.not_mem_nil, get?_modify]
      split
      · rw [Option.map_map]
        rfl
      · rfl

/-! Which queries start over -/

/-- The queries that start over while a query is moved. -/
abbrev Journal := QueryStore → QueryId → List QueryId

def restartsOfTurn (step : Stepper) (restarts : Journal) : List QueryId → QueryStore → List QueryId
  | [], _ => []
  | g :: gs, s =>
    let s₁ := (step s g).1
    let s₂ := s₁.rewindFamily g
    if (step s g).2 then restarts s g
    else restarts s g ++ (s₁.family g ++
      (restarts s₂ g ++ restartsOfTurn step restarts gs (step s₂ g).1))

def restartsOfSearch (step : Stepper) (restarts : Journal) (settings : Settings) (id : QueryId) :
    (n : Nat) → QueryStore → List QueryId
  | 0, _ => []
  | n + 1, s =>
    let s₁ := (s.rowsMatch settings id).1
    let s₂ := turn step (s₁.matchedIds id) s₁
    if (s.rowsMatch settings id).2 then []
    else restartsOfTurn step restarts (s₁.matchedIds id) s₁ ++
      if s₂.2 then restartsOfSearch step restarts settings id n s₂.1 else []

def restartsOfNext (step : Stepper) (restarts : Journal) (settings : Settings) (id : QueryId)
    (n : Nat) (s : QueryStore) : List QueryId :=
  let s₁ := turn step (s.matchedIds id) s
  restartsOfTurn step restarts (s.matchedIds id) s ++
    if s₁.2 then restartsOfSearch step restarts settings id n s₁.1 else []

def restartsOfAll (step : Stepper) (restarts : Journal) : List QueryId → QueryStore → List QueryId
  | [], _ => []
  | g :: gs, s => restarts s g ++ restartsOfAll step restarts gs (step s g).1

def restartsOfCombine (step : Stepper) (restarts : Journal) (settings : Settings) (n : Nat)
    (s : QueryStore) (id : QueryId) : List QueryId :=
  let started := startAll step s (s.matchedIds id)
  restartsOfAll (fun s g => step (s.rewindFamily g) g)
      (fun s g => s.family g ++ restarts (s.rewindFamily g) g) (s.matchedIds id) s ++
    if started.2 then restartsOfSearch step restarts settings id n started.1 else []

def restartsOfRow (step : Stepper) (restarts : Journal) (settings : Settings) (n : Nat)
    (s : QueryStore) (id : QueryId) (q : Query) : List QueryId :=
  let q' := (q.advance settings.coercion).1
  let s₁ := s.modify id fun _ => q'
  if (q.advance settings.coercion).2 then
    restartsOfAll step restarts q'.followers s₁ ++
      if q'.matched.isEmpty then []
      else restartsOfCombine step restarts settings n (stepAll step s₁ q'.followers).1 id
  else []

/-- The queries that start over while a query is moved to its next row or combination. -/
def restarts (settings : Settings) : (k : Nat) → Journal
  | 0, _, _ => []
  | k + 1, s, id =>
    let step := stepWithin settings k
    match s.get? id with
    | none => []
    | some q =>
      let n := s.combinationBound k id
      if q.combining then
        let moved := nextMatch step settings id n s
        restartsOfNext step (restarts settings k) settings id n s ++
          if moved.2 then []
          else
            let s := moved.1.modify id fun q => { q with combining := false }
            match s.get? id with
            | some q => restartsOfRow step (restarts settings k) settings n s id q
            | none => []
      else restartsOfRow step (restarts settings k) settings n s id q

/-- A query is reached from another one over a matched follower at least. -/
def UnderMatched (s : QueryStore) (id m : QueryId) : Prop :=
  ∃ a g, s.Reaches id a ∧ g ∈ s.matchedIds a ∧ s.Reaches g m

/-- Moving a query makes those queries start over that the journal tells, and these all stand below
matched followers. -/
def Stepper.Journaled (step : Stepper) (restarts : Journal) : Prop :=
  ∀ s id, Forest s → Remembers (restarts s id) s (step s id).1 ∧
    ∀ m ∈ restarts s id, s.UnderMatched id m

/-! Each way of moving restarts what its journal tells -/

variable {step : Stepper} {journal : Journal}

theorem underMatched_of_still (h : s'.still = s.still) :
    s'.UnderMatched id m ↔ s.UnderMatched id m := by
  simp only [UnderMatched, reaches_of_still h, matchedIds_of_still h]

theorem below_of_still (h : s'.still = s.still) : s'.Below gs m ↔ s.Below gs m := by
  simp only [Below, reaches_of_still h]

theorem UnderMatched.reaches (h : s.UnderMatched id m) : s.Reaches id m := by
  obtain ⟨a, g, ha, hg, hm⟩ := h
  exact ha.trans ((Reaches.child (mem_children_of_matchedIds hg)).trans hm)

theorem UnderMatched.above (h : s.UnderMatched g m) (hr : s.Reaches id g) :
    s.UnderMatched id m := by
  obtain ⟨a, b, ha, hb, hm⟩ := h
  exact ⟨a, b, hr.trans ha, hb, hm⟩

theorem Below.underMatched (h : s.Below (s.matchedIds id) m) : s.UnderMatched id m := by
  obtain ⟨g, hg, hm⟩ := h
  exact ⟨id, g, .refl s id, hg, hm⟩

namespace Stepper.Journaled

variable (hj : step.Journaled journal) (h : Forest s)
include hj h

theorem turn (gs : List QueryId) :
    Remembers (restartsOfTurn step journal gs s) s (QueryStore.turn step gs s).1 ∧
      ∀ m ∈ restartsOfTurn step journal gs s, s.Below gs m := by
  induction gs generalizing s with
  | nil =>
    refine ⟨.refl s, ?_⟩
    intro m hm
    cases hm
  | cons g gs ih =>
    obtain ⟨hr₁, hu₁⟩ := hj s g h
    have hbelow₁ : ∀ m ∈ journal s g, s.Below (g :: gs) m :=
      fun m hm => ⟨g, List.mem_cons_self, (hu₁ m hm).reaches⟩
    rw [turn_cons, restartsOfTurn]
    split
    · exact ⟨hr₁, hbelow₁⟩
    · have h₁ := h.of_still hr₁.still
      have hr₂ := remembers_rewindFamily h₁ g
      have hs₂ := hr₂.still.trans hr₁.still
      obtain ⟨hr₃, hu₃⟩ := hj _ g (h.of_still hs₂)
      have hs₃ := hr₃.still.trans hs₂
      obtain ⟨hr₄, hb₄⟩ := ih (h.of_still hs₃)
      refine ⟨hr₁.trans (hr₂.trans (hr₃.trans hr₄)), ?_⟩
      intro m hm
      rcases List.mem_append.1 hm with hm | hm
      · exact hbelow₁ m hm
      · rcases List.mem_append.1 hm with hm | hm
        · rw [h₁.mem_family, reaches_of_still hr₁.still] at hm
          exact ⟨g, List.mem_cons_self, hm⟩
        · rcases List.mem_append.1 hm with hm | hm
          · have hm' := (underMatched_of_still hs₂).1 (hu₃ m hm)
            exact ⟨g, List.mem_cons_self, hm'.reaches⟩
          · obtain ⟨c, hc, hr⟩ := (below_of_still hs₃).1 (hb₄ m hm)
            exact ⟨c, List.mem_cons_of_mem g hc, hr⟩

theorem next_of (settings : Settings) (id : QueryId) (n : Nat)
    (hsearch : ∀ s, Forest s →
      Remembers (restartsOfSearch step journal settings id n s) s
          (findMatch step settings id n s).1 ∧
        ∀ m ∈ restartsOfSearch step journal settings id n s, s.UnderMatched id m) :
    Remembers (restartsOfNext step journal settings id n s) s
        (nextMatch step settings id n s).1 ∧
      ∀ m ∈ restartsOfNext step journal settings id n s, s.UnderMatched id m := by
  obtain ⟨hr, hb⟩ := hj.turn h (s.matchedIds id)
  rw [nextMatch_eq, restartsOfNext]
  split
  · obtain ⟨hr', hu'⟩ := hsearch _ (h.of_still hr.still)
    refine ⟨hr.trans hr', ?_⟩
    intro m hm
    rcases List.mem_append.1 hm with hm | hm
    · exact (hb m hm).underMatched
    · exact (underMatched_of_still hr.still).1 (hu' m hm)
  · rw [List.append_nil]
    exact ⟨hr, fun m hm => (hb m hm).underMatched⟩

theorem search (settings : Settings) (id : QueryId) (n : Nat) :
    Remembers (restartsOfSearch step journal settings id n s) s
        (findMatch step settings id n s).1 ∧
      ∀ m ∈ restartsOfSearch step journal settings id n s, s.UnderMatched id m := by
  induction n generalizing s with
  | zero =>
    refine ⟨.refl s, ?_⟩
    intro m hm
    cases hm
  | succ n ih =>
    have hr := remembers_rowsMatch s settings id
    rw [findMatch_succ, restartsOfSearch]
    split
    · refine ⟨hr, ?_⟩
      intro m hm
      cases hm
    · obtain ⟨hr', hu'⟩ := hj.next_of (h.of_still hr.still) settings id n fun s h => ih h
      refine ⟨hr.trans hr', ?_⟩
      intro m hm
      exact (underMatched_of_still hr.still).1 (hu' m hm)

theorem next (settings : Settings) (id : QueryId) (n : Nat) :
    Remembers (restartsOfNext step journal settings id n s) s
        (nextMatch step settings id n s).1 ∧
      ∀ m ∈ restartsOfNext step journal settings id n s, s.UnderMatched id m :=
  hj.next_of h settings id n fun _ h => hj.search h settings id n

omit hj h in
theorem all {journal : Journal} {U : QueryId → Prop} (gs : List QueryId)
    (hmoves : ∀ s' : QueryStore, s'.still = s.still → ∀ g ∈ gs,
      Remembers (journal s' g) s' (step s' g).1 ∧ ∀ m ∈ journal s' g, U m) :
    Remembers (restartsOfAll step journal gs s) s (stepAll step s gs).1 ∧
      ∀ m ∈ restartsOfAll step journal gs s, U m := by
  induction gs generalizing s with
  | nil =>
    refine ⟨.refl s, ?_⟩
    intro m hm
    cases hm
  | cons g gs ih =>
    obtain ⟨hr, hu⟩ := hmoves s rfl g List.mem_cons_self
    obtain ⟨hr', hu'⟩ := ih fun s' hs' c hc =>
      hmoves s' (hs'.trans hr.still) c (List.mem_cons_of_mem g hc)
    rw [stepAll_cons, restartsOfAll]
    refine ⟨hr.trans hr', ?_⟩
    intro m hm
    rcases List.mem_append.1 hm with hm | hm
    · exact hu m hm
    · exact hu' m hm

theorem combine (settings : Settings) (n : Nat) (id : QueryId) :
    Remembers (restartsOfCombine step journal settings n s id) s
        (QueryStore.combine step settings n s id) ∧
      ∀ m ∈ restartsOfCombine step journal settings n s id, s.UnderMatched id m := by
  have hmoves : ∀ s' : QueryStore, s'.still = s.still → ∀ g ∈ s.matchedIds id,
      Remembers (s'.family g ++ journal (s'.rewindFamily g) g) s'
          (step (s'.rewindFamily g) g).1 ∧
        ∀ m ∈ s'.family g ++ journal (s'.rewindFamily g) g, s.UnderMatched id m := by
    intro s' hs' g hg
    have h' := h.of_still hs'
    have hr := remembers_rewindFamily h' g
    obtain ⟨hr', hu'⟩ := hj _ g (h'.of_still hr.still)
    refine ⟨hr.trans hr', ?_⟩
    intro m hm
    have hreach : s'.Reaches g m := by
      rcases List.mem_append.1 hm with hm | hm
      · exact h'.mem_family.1 hm
      · exact ((underMatched_of_still hr.still).1 (hu' m hm)).reaches
    exact ⟨id, g, .refl s id, hg, (reaches_of_still hs').1 hreach⟩
  obtain ⟨hr, hu⟩ := all (s.matchedIds id) hmoves
  have h₁ := h.of_still hr.still
  obtain ⟨hr', hu'⟩ := hj.search h₁ settings id n
  have hunder : ∀ m ∈ restartsOfCombine step journal settings n s id, s.UnderMatched id m := by
    intro m hm
    rcases List.mem_append.1 hm with hm | hm
    · exact hu m hm
    · split at hm
      · exact (underMatched_of_still hr.still).1 (hu' m hm)
      · cases hm
  refine ⟨?_, hunder⟩
  rw [combine_eq step settings n s id rfl]
  have hfound : Remembers (restartsOfCombine step journal settings n s id) s
      (if (startAll step s (s.matchedIds id)).2
        then findMatch step settings id n (startAll step s (s.matchedIds id)).1
        else ((startAll step s (s.matchedIds id)).1, false)).1 := by
    rw [restartsOfCombine]
    split
    · exact hr.trans hr'
    · exact hr.trans (.refl _)
  generalize (if (startAll step s (s.matchedIds id)).2
    then findMatch step settings id n (startAll step s (s.matchedIds id)).1
    else ((startAll step s (s.matchedIds id)).1, false)) = found at hfound ⊢
  split
  · exact hfound.after (Remembers.modify fun q _ => ⟨Query.still_combining q true, rfl⟩)
  · exact hfound.after (remembers_blankAll (h.of_still hfound.still) (found.1.matchedIds id))

theorem row (settings : Settings) (n : Nat) (hq : s.get? id = some q) :
    Remembers (restartsOfRow step journal settings n s id q) s
        (nextRow step settings n s id q).1 ∧
      ∀ m ∈ restartsOfRow step journal settings n s id q, s.UnderMatched id m := by
  have hstill := Query.still_advance q settings.coercion
  have hkept := Query.kept_advance q settings.coercion
  rw [nextRow_eq, restartsOfRow]
  dsimp only
  generalize (q.advance settings.coercion).1 = q' at hstill hkept ⊢
  have hread : Remembers [] s (s.modify id fun _ => q') := by
    apply Remembers.modify
    intro q₀ hq₀
    obtain rfl : q₀ = q := Option.some.inj (hq₀.symm.trans hq)
    exact ⟨hstill, hkept⟩
  have h₁ := h.of_still hread.still
  cases (q.advance settings.coercion).2 with
  | false =>
    refine ⟨hread.after (remembers_blankAll h₁ _), ?_⟩
    intro m hm
    cases hm
  | true =>
    have hmoves : ∀ s' : QueryStore, s'.still = (s.modify id fun _ => q').still →
        ∀ f ∈ q'.followers, Remembers (journal s' f) s' (step s' f).1 ∧
          ∀ m ∈ journal s' f, s.UnderMatched id m := by
      intro s' hs' f hf
      have hs := hs'.trans hread.still
      obtain ⟨hr, hu⟩ := hj s' f (h.of_still hs)
      have hchild : f ∈ s.children id := by
        rw [children_of_get? hq, ← Query.children_of_still hstill]
        exact List.mem_append_left _ hf
      refine ⟨hr, ?_⟩
      intro m hm
      exact ((underMatched_of_still hs).1 (hu m hm)).above (Reaches.child hchild)
    obtain ⟨hr, hu⟩ := all q'.followers hmoves
    have hfollow := hread.trans hr
    rw [if_pos rfl, if_pos rfl]
    cases q'.matched.isEmpty with
    | true =>
      rw [if_pos rfl, if_pos rfl, List.append_nil]
      exact ⟨hfollow, hu⟩
    | false =>
      rw [if_neg Bool.false_ne_true, if_neg Bool.false_ne_true]
      obtain ⟨hr', hu'⟩ := hj.combine (h.of_still hfollow.still) settings n id
      refine ⟨hfollow.trans hr', ?_⟩
      intro m hm
      rcases List.mem_append.1 hm with hm | hm
      · exact hu m hm
      · exact (underMatched_of_still hfollow.still).1 (hu' m hm)

end Stepper.Journaled

/-- Moving a query makes exactly the queries of the journal start over. -/
theorem stepWithin_journaled (settings : Settings) (k : Nat) :
    Stepper.Journaled (stepWithin settings k) (restarts settings k) := by
  induction k with
  | zero =>
    intro s id _
    refine ⟨.refl s, ?_⟩
    intro m hm
    cases hm
  | succ k ih =>
    intro s id h
    rw [stepWithin, restarts]
    cases hq : s.get? id with
    | none =>
      refine ⟨.refl s, ?_⟩
      intro m hm
      cases hm
    | some q =>
      dsimp only
      cases q.combining with
      | false =>
        rw [if_neg Bool.false_ne_true, if_neg Bool.false_ne_true]
        exact ih.row h settings _ hq
      | true =>
        rw [if_pos rfl, if_pos rfl]
        obtain ⟨hr, hu⟩ := ih.next h settings id (s.combinationBound k id)
        generalize nextMatch (stepWithin settings k) settings id (s.combinationBound k id) s = moved
          at hr ⊢
        obtain ⟨s₁, found⟩ := moved
        cases found with
        | true =>
          rw [if_pos rfl, List.append_nil]
          exact ⟨hr, hu⟩
        | false =>
          have hr₁ : Remembers (restartsOfNext (stepWithin settings k) (restarts settings k)
              settings id (s.combinationBound k id) s) s
              (s₁.modify id fun q => { q with combining := false }) :=
            hr.after (Remembers.modify fun q _ => ⟨Query.still_combining q false, rfl⟩)
          rw [if_neg Bool.false_ne_true]
          dsimp only
          generalize (s₁.modify id fun q => { q with combining := false }) = s₂ at hr₁ ⊢
          cases hq₂ : s₂.get? id with
          | some q₂ =>
            obtain ⟨hr₂, hu₂⟩ := ih.row (h.of_still hr₁.still) settings
              (s.combinationBound k id) hq₂
            refine ⟨hr₁.trans hr₂, ?_⟩
            intro m hm
            rcases List.mem_append.1 hm with hm | hm
            · exact hu m hm
            · exact (underMatched_of_still hr₁.still).1 (hu₂ m hm)
          | none =>
            rw [List.append_nil]
            exact ⟨hr₁, hu⟩

end QueryStore
end Reporting
