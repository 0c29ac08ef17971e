import Reporting.Proofs.Query.Still
/-!
Moving a query changes the queries that are reached from it and no other ones.
-/
namespace Reporting.QueryStore

variable {s s' s'' : QueryStore} {a b c m id : QueryId} {q : Query} {k : Nat}

/-! What each operation does -/

theorem turn_cons (step : Stepper) (g : QueryId) (gs : List QueryId) (s : QueryStore) :
    turn step (g :: gs) s =
      if (step s g).2 then ((step s g).1, true)
      else turn step gs (step ((step s g).1.rewindFamily g) g).1 := by
  rw [turn]
  split
  · rename_i s' h
    rw [h, if_pos rfl]
  · rename_i s' h
    rw [h, if_neg Bool.false_ne_true]

theorem findMatch_succ (step : Stepper) (settings : Settings) (id : QueryId) (n : Nat)
    (s : QueryStore) :
    findMatch step settings id (n + 1) s =
      if (s.rowsMatch settings id).2 then ((s.rowsMatch settings id).1, true)
      else nextMatch step settings id n (s.rowsMatch settings id).1 := by
  rw [findMatch]
  split
  · rename_i s' h
    rw [h, if_pos rfl]
  · rename_i s' h
    rw [h, if_neg Bool.false_ne_true]
    rfl

theorem nextMatch_eq (step : Stepper) (settings : Settings) (id : QueryId) (n : Nat)
    (s : QueryStore) :
    nextMatch step settings id n s =
      if (turn step (s.matchedIds id) s).2
      then findMatch step settings id n (turn step (s.matchedIds id) s).1
      else ((turn step (s.matchedIds id) s).1, false) := by
  rw [nextMatch]
  split
  · rename_i s' h
    rw [h, if_pos rfl]
  · rename_i s' h
    rw [h, if_neg Bool.false_ne_true]

theorem stepAll_cons (step : Stepper) (g : QueryId) (gs : List QueryId) (s : QueryStore) :
    stepAll step s (g :: gs) =
      ((stepAll step (step s g).1 gs).1, (step s g).2 && (stepAll step (step s g).1 gs).2) := by
  have hfold (gs : List QueryId) (s : QueryStore) (all : Bool) :
      gs.foldl (fun acc id => ((step acc.1 id).1, acc.2 && (step acc.1 id).2)) (s, all) =
        ((stepAll step s gs).1, all && (stepAll step s gs).2) := by
    induction gs generalizing s all with
    | nil =>
      rw [List.foldl_nil]
      exact Prod.ext rfl (Bool.and_true all).symm
    | cons g gs ih =>
      change gs.foldl _ _ = (((g :: gs).foldl _ (s, true)).1, all && ((g :: gs).foldl _ (s, true)).2)
      rw [List.foldl_cons, ih, ih, Bool.true_and, Bool.and_assoc]
  change gs.foldl _ _ = _
  rw [hfold, Bool.true_and]

theorem combine_eq (step : Stepper) (settings : Settings) (n : Nat) (s : QueryStore)
    (id : QueryId) {found : QueryStore × Bool}
    (hfound : found = if (startAll step s (s.matchedIds id)).2
      then findMatch step settings id n (startAll step s (s.matchedIds id)).1
      else ((startAll step s (s.matchedIds id)).1, false)) :
    combine step settings n s id =
      if found.2 then found.1.modify id fun q => { q with combining := true }
      else (found.1.matchedIds id).foldl blankFamily found.1 := by
  rw [hfound]
  rfl

theorem nextRow_eq (step : Stepper) (settings : Settings) (n : Nat) (s : QueryStore) (id : QueryId)
    (q : Query) :
    nextRow step settings n s id q =
      let q' := (q.advance settings.coercion).1
      let s₁ := s.modify id fun _ => q'
      if (q.advance settings.coercion).2 then
        if q'.matched.isEmpty then ((stepAll step s₁ q'.followers).1, true)
        else (combine step settings n (stepAll step s₁ q'.followers).1 id, true)
      else (q'.children.foldl blankFamily s₁, false) := by
  rw [nextRow]
  generalize q.advance settings.coercion = moved
  obtain ⟨q', advanced⟩ := moved
  cases advanced <;> rfl

/-! Changing some queries only -/

/-- The second store differs from the first one only in where the queries in `R` stand. -/
structure Keeps (R : QueryId → Prop) (s s' : QueryStore) : Prop where
  still : s'.still = s.still
  get? : ∀ m, ¬ R m → s'.get? m = s.get? m

namespace Keeps

variable {R R' : QueryId → Prop}

theorem refl (R : QueryId → Prop) (s : QueryStore) : Keeps R s s := ⟨rfl, fun _ _ => rfl⟩

theorem trans (h : Keeps R s s') (h' : Keeps R s' s'') : Keeps R s s'' :=
  ⟨h'.still.trans h.still, fun m hm => (h'.get? m hm).trans (h.get? m hm)⟩

theorem mono (h : Keeps R s s') (hR : ∀ m, R m → R' m) : Keeps R' s s' :=
  ⟨h.still, fun m hm => h.get? m fun hr => hm (hR m hr)⟩

theorem modify {f : Query → Query} (hR : R id)
    (hf : ∀ q, s.get? id = some q → (f q).still = q.still) : Keeps R s (s.modify id f) :=
  ⟨still_modify hf, fun m hm => get?_modify_of_ne (fun h : id = m => hm (h ▸ hR)) f⟩

/-- What is reached from a query is the same in a store that is still the same. -/
theorem reaching (h : Keeps (s'.Reaches id) s' s'') (hs : s'.still = s.still) :
    Keeps (s.Reaches id) s' s'' :=
  h.mono fun _ hm => (reaches_of_still hs).1 hm

theorem foldl {α : Type} (step : QueryStore → α → QueryStore) (xs : List α)
    (h : ∀ s', s'.still = s.still → ∀ x ∈ xs, Keeps R s' (step s' x)) :
    Keeps R s (xs.foldl step s) := by
  induction xs generalizing s with
  | nil => exact refl R s
  | cons x xs ih =>
    have hx := h s rfl x List.mem_cons_self
    apply hx.trans
    exact ih fun s' hs' y hy => h s' (hs'.trans hx.still) y (List.mem_cons_of_mem x hy)

end Keeps

variable {settings : Settings} {step : Stepper}

theorem keeps_modifyFamily (h : Forest s) (id : QueryId) {f : Query → Query}
    (hf : ∀ q, (f q).still = q.still) : Keeps (s.Reaches id) s (s.modifyFamily id f) :=
  Keeps.foldl _ _ fun _ _ _ hm => Keeps.modify (h.mem_family.1 hm) fun q _ => hf q

theorem keeps_rewindFamily (h : Forest s) (id : QueryId) :
    Keeps (s.Reaches id) s (s.rewindFamily id) :=
  keeps_modifyFamily h id Query.still_rewind

theorem keeps_blankFamily (h : Forest s) (id : QueryId) :
    Keeps (s.Reaches id) s (s.blankFamily id) :=
  keeps_modifyFamily h id Query.still_blank

theorem keeps_commitFamily (h : Forest s) (id : QueryId) :
    Keeps (s.Reaches id) s (s.commitFamily id) :=
  keeps_modifyFamily h id Query.still_commit

theorem forget_conditionsHold (c : Context) (ms : List Matched) :
    (conditionsHold c ms).1.map Matched.forget = ms.map Matched.forget := by
  induction ms with
  | nil => rfl
  | cons m ms ih =>
    have hm : ({ m with condition := (m.condition.evaluate c).1 } : Matched).forget = m.forget := by
      simp only [Matched.forget, Computation.forget_evaluate]
    rw [conditionsHold]
    dsimp only
    split
    · rw [List.map_cons, List.map_cons, hm, ih]
    · rw [List.map_cons, List.map_cons, hm]

theorem keeps_rowsMatch (settings : Settings) (id : QueryId) :
    Keeps (id = ·) s (s.rowsMatch settings id).1 := by
  unfold rowsMatch
  split
  · exact Keeps.refl _ s
  · rename_i q hq
    apply Keeps.modify rfl
    intro q' hq'
    obtain rfl : q' = q := Option.some.inj (hq'.symm.trans hq)
    exact Query.still_matched _ (forget_conditionsHold _ _)

/-- A stepper that changes the family of the query that it moves, and nothing else. -/
def Stepper.Local (step : Stepper) : Prop :=
  ∀ s id, Forest s → Keeps (s.Reaches id) s (step s id).1

/-- The queries that are reached from one of the given ones. -/
def Below (s : QueryStore) (gs : List QueryId) (m : QueryId) : Prop := ∃ g ∈ gs, s.Reaches g m

theorem Below.reaches {gs : List QueryId} (h : s.Below gs m) (hgs : ∀ g ∈ gs, g ∈ s.children id) :
    s.Reaches id m := by
  obtain ⟨g, hg, hm⟩ := h
  exact (Reaches.child (hgs g hg)).trans hm

theorem Keeps.below {gs : List QueryId} (h : Keeps (s'.Below gs) s' s'')
    (hs : s'.still = s.still) : Keeps (s.Below gs) s' s'' :=
  h.mono fun _ ⟨g, hg, hm⟩ => ⟨g, hg, (reaches_of_still hs).1 hm⟩

theorem keeps_turn (hstep : step.Local) (h : Forest s) (gs : List QueryId) :
    Keeps (s.Below gs) s (turn step gs s).1 := by
  induction gs generalizing s with
  | nil => exact Keeps.refl _ s
  | cons g gs ih =>
    have hbelow : ∀ m, s.Reaches g m → s.Below (g :: gs) m :=
      fun m hm => ⟨g, List.mem_cons_self, hm⟩
    have hg := (hstep s g h).mono hbelow
    rw [turn]
    split
    · rename_i s₁ hs₁
      rwa [hs₁] at hg
    · rename_i s₁ hs₁
      rw [hs₁] at hg
      have h₁ := h.of_still hg.still
      have hr := (keeps_rewindFamily h₁ g).reaching hg.still
      have h₂ := hg.trans (hr.mono hbelow)
      have hs := (hstep _ g (h.of_still h₂.still)).reaching h₂.still
      have h₃ := h₂.trans (hs.mono hbelow)
      have hgs := (ih (h.of_still h₃.still)).below h₃.still
      exact h₃.trans (hgs.mono fun m ⟨x, hx, hm⟩ => ⟨x, List.mem_cons_of_mem g hx, hm⟩)

theorem keeps_findMatch (hstep : step.Local) (h : Forest s) (settings : Settings) (id : QueryId)
    (n : Nat) : Keeps (s.Reaches id) s (findMatch step settings id n s).1 := by
  induction n generalizing s with
  | zero => exact Keeps.refl _ s
  | succ n ih =>
    have hm : Keeps (s.Reaches id) s (s.rowsMatch settings id).1 :=
      (keeps_rowsMatch settings id).mono fun m hm => hm ▸ Reaches.refl s id
    rw [findMatch]
    split
    · rename_i s₁ hs₁
      rwa [hs₁] at hm
    · rename_i s₁ hs₁
      rw [hs₁] at hm
      have h₁ := h.of_still hm.still
      have ht : Keeps (s₁.Reaches id) s₁ (turn step (s₁.matchedIds id) s₁).1 :=
        (keeps_turn hstep h₁ (s₁.matchedIds id)).mono fun m hm =>
          hm.reaches fun g hg => mem_children_of_matchedIds hg
      have h₂ := hm.trans (ht.reaching hm.still)
      split
      · rename_i s₂ hs₂
        rw [hs₂] at h₂
        exact h₂.trans ((ih (h.of_still h₂.still)).reaching h₂.still)
      · rename_i s₂ hs₂
        rwa [hs₂] at h₂

theorem keeps_nextMatch (hstep : step.Local) (h : Forest s) (settings : Settings) (id : QueryId)
    (n : Nat) : Keeps (s.Reaches id) s (nextMatch step settings id n s).1 := by
  have ht : Keeps (s.Reaches id) s (turn step (s.matchedIds id) s).1 :=
    (keeps_turn hstep h (s.matchedIds id)).mono fun m hm =>
      hm.reaches fun g hg => mem_children_of_matchedIds hg
  rw [nextMatch]
  split
  · rename_i s₁ hs₁
    rw [hs₁] at ht
    have hf := keeps_findMatch hstep (h.of_still ht.still) settings id n
    exact ht.trans (hf.reaching ht.still)
  · rename_i s₁ hs₁
    rwa [hs₁] at ht

theorem keeps_stepAll (hstep : step.Local) (h : Forest s) (gs : List QueryId) :
    Keeps (s.Below gs) s (stepAll step s gs).1 := by
  induction gs generalizing s with
  | nil => exact Keeps.refl _ s
  | cons g gs ih =>
    have hg : Keeps (s.Below (g :: gs)) s (step s g).1 :=
      (hstep s g h).mono fun m hm => ⟨g, List.mem_cons_self, hm⟩
    have hgs := (ih (h.of_still hg.still)).below hg.still
    rw [stepAll_cons]
    refine hg.trans (hgs.mono fun m hm => ?_)
    obtain ⟨x, hx, hm⟩ := hm
    exact ⟨x, List.mem_cons_of_mem g hx, hm⟩

theorem local_rewound (hstep : step.Local) :
    Stepper.Local fun s id => step (s.rewindFamily id) id := by
  intro s id h
  have hr := keeps_rewindFamily h id
  exact hr.trans ((hstep _ id (h.of_still hr.still)).reaching hr.still)

theorem keeps_startAll (hstep : step.Local) (h : Forest s) (gs : List QueryId) :
    Keeps (s.Below gs) s (startAll step s gs).1 :=
  keeps_stepAll (local_rewound hstep) h gs

theorem keeps_blankAll (h : Forest s) (gs : List QueryId) :
    Keeps (s.Below gs) s (gs.foldl blankFamily s) := by
  apply Keeps.foldl
  intro s' hs' g hg
  exact ((keeps_blankFamily (h.of_still hs') g).reaching hs').mono fun m hm => ⟨g, hg, hm⟩

theorem keeps_combine (hstep : step.Local) (h : Forest s) (settings : Settings) (id : QueryId)
    (n : Nat) : Keeps (s.Reaches id) s (combine step settings n s id) := by
  have hbelow {s' : QueryStore} {m : QueryId} (hm : s'.Below (s'.matchedIds id) m) : s'.Reaches id m :=
    hm.reaches fun g hg => mem_children_of_matchedIds hg
  have hstart : Keeps (s.Reaches id) s (startAll step s (s.matchedIds id)).1 :=
    (keeps_startAll hstep h (s.matchedIds id)).mono fun m hm => hbelow hm
  unfold combine
  generalize startAll step s (s.matchedIds id) = started at hstart
  obtain ⟨s₁, all⟩ := started
  have h₁ := h.of_still hstart.still
  have hfind : Keeps (s.Reaches id) s
      (if all then findMatch step settings id n s₁ else (s₁, false)).1 := by
    split
    · exact hstart.trans ((keeps_findMatch hstep h₁ settings id n).reaching hstart.still)
    · exact hstart
  dsimp only
  generalize (if all then findMatch step settings id n s₁ else (s₁, false)) = found at hfind ⊢
  obtain ⟨s₂, found⟩ := found
  have h₂ := h.of_still hfind.still
  split
  · exact hfind.trans (Keeps.modify (Reaches.refl s id) fun q _ => Query.still_combining q true)
  · have hblank : Keeps (s₂.Reaches id) s₂ ((s₂.matchedIds id).foldl blankFamily s₂) :=
      (keeps_blankAll h₂ (s₂.matchedIds id)).mono fun m hm => hbelow hm
    exact hfind.trans (hblank.reaching hfind.still)

theorem keeps_nextRow (hstep : step.Local) (h : Forest s) (settings : Settings) (n : Nat)
    (hq : s.get? id = some q) :
    Keeps (s.Reaches id) s (nextRow step settings n s id q).1 := by
  have hstill := Query.still_advance q settings.coercion
  unfold nextRow
  generalize q.advance settings.coercion = moved at hstill ⊢
  obtain ⟨q', advanced⟩ := moved
  have hread : Keeps (s.Reaches id) s (s.modify id fun _ => q') := by
    apply Keeps.modify (Reaches.refl s id)
    intro q₀ hq₀
    obtain rfl : q₀ = q := Option.some.inj (hq₀.symm.trans hq)
    exact hstill
  have hchild {c : QueryId} (hc : c ∈ q'.children) : c ∈ s.children id := by
    rw [children_of_get? hq, ← Query.children_of_still hstill]
    exact hc
  have h₁ := h.of_still hread.still
  dsimp only
  generalize s.modify id (fun _ => q') = s₁ at hread h₁ ⊢
  split
  · have hblank := (keeps_blankAll h₁ q'.children).below hread.still
    exact hread.trans (hblank.mono fun m hm => hm.reaches fun g hg => hchild hg)
  · have hall := (keeps_stepAll hstep h₁ q'.followers).below hread.still
    have hfollow := hread.trans (hall.mono fun m hm =>
      hm.reaches fun g hg => hchild (List.mem_append_left _ hg))
    split
    · exact hfollow
    · have h₂ := h.of_still hfollow.still
      exact hfollow.trans ((keeps_combine hstep h₂ settings id n).reaching hfollow.still)

/-- Moving a query leaves everything outside its family alone. -/
theorem stepWithin_local (settings : Settings) (k : Nat) :
    Stepper.Local (stepWithin settings k) := by
  induction k with
  | zero => exact fun s id _ => Keeps.refl _ s
  | succ k ih =>
    intro s id h
    rw [stepWithin]
    dsimp only
    split
    · exact Keeps.refl _ s
    · rename_i q hq
      split
      · have hnext := keeps_nextMatch ih h settings id (s.combinationBound k id)
        split
        · rename_i s₁ hs₁
          rwa [hs₁] at hnext
        · rename_i s₁ hs₁
          rw [hs₁] at hnext
          have hdone := hnext.trans (Keeps.modify (Reaches.refl s id)
            fun q _ => Query.still_combining q false)
          split
          · rename_i q₁ hq₁
            have h₁ := h.of_still hdone.still
            have hrow := keeps_nextRow ih h₁ settings (s.combinationBound k id) hq₁
            exact hdone.trans (hrow.reaching hdone.still)
          · exact hdone
      · exact keeps_nextRow ih h settings (s.combinationBound k id) hq

theorem next_eq (settings : Settings) (h : s.get? id = some q) :
    s.next settings id =
      .ok (if (stepWithin settings (s.slots.size + 1) s id).2
        then (stepWithin settings (s.slots.size + 1) s id).1.commitFamily id
        else (stepWithin settings (s.slots.size + 1) s id).1,
        (stepWithin settings (s.slots.size + 1) s id).2) := by
  simp only [next, require, h]
  rfl

theorem start_eq (h : s.get? id = some q) :
    s.start id = (s.finalize.rewindFamily id, .ok ()) := by
  have hf : s.finalize.get? id = some q := by
    unfold finalize
    split
    · exact h
    · exact h
  simp only [start, hf]

theorem keeps_next (h : Forest s) {settings : Settings} {more : Bool}
    (hs : s.next settings id = .ok (s', more)) : Keeps (s.Reaches id) s s' := by
  cases hq : s.get? id with
  | none =>
    simp only [next, require, hq] at hs
    cases hs
  | some q =>
    rw [next_eq settings hq, Except.ok.injEq, Prod.mk.injEq] at hs
    obtain ⟨rfl, -⟩ := hs
    have hstep := stepWithin_local settings (s.slots.size + 1) s id h
    split
    · exact hstep.trans ((keeps_commitFamily (h.of_still hstep.still) id).reaching hstep.still)
    · exact hstep

end Reporting.QueryStore
