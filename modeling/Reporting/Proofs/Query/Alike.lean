import Reporting.Proofs.Query.Walk
/-!
Stores that differ only in what their conditions remember go through the same rows, and a query that
is started again goes through the rows it went through before.
-/
namespace Reporting

variable {s s' t t' u : QueryStore} {settings : Settings} {m id : QueryId} {q q' : Query} {n k : Nat}
  {step : QueryStore.Stepper}

/-- The columns and row counters of queries. -/
def Source.OfQuery : Source → Prop
  | .column .. | .rowNumber _ => True
  | _ => False

namespace Query

/-- A query whose conditions remember nothing. -/
def forget (q : Query) : Query := { q with matched := q.matched.map .forget }

theorem rewind_forget (q : Query) : q.forget.rewind = q.still := rfl

theorem still_of_forget (h : q.forget = q'.forget) : q.still = q'.still := by
  rw [← rewind_forget, h, rewind_forget]

theorem forget_readRow (q : Query) (co : Coercion) : (q.readRow co).forget = q.forget.readRow co := by
  have hrow : q.forget.currentRow? = q.currentRow? := rfl
  unfold readRow
  rw [hrow]
  cases q.currentRow? <;> rfl

theorem forget_advance (q : Query) (co : Coercion) :
    (q.advance co).1.forget = (q.forget.advance co).1 ∧
      (q.advance co).2 = (q.forget.advance co).2 := by
  have hrow (q : Query) : (if q.isDone then (q.readRow co, false) else
      (({ q with row := q.row + 1, rowNumber := q.rowNumber.setCurrent (.ofInt (q.row + 1)) } :
        Query).readRow co, true)).1.forget = (if q.forget.isDone then (q.forget.readRow co, false)
      else (({ q.forget with
        row := q.row + 1, rowNumber := q.rowNumber.setCurrent (.ofInt (q.row + 1)) } :
        Query).readRow co, true)).1 := by
    rw [show q.forget.isDone = q.isDone from rfl]
    split <;> exact forget_readRow _ co
  unfold advance
  rw [show q.forget.position = q.position from rfl, show q.forget.table = q.table from rfl]
  split
  · refine ⟨hrow { q with position := q.position + 1 }, ?_⟩
    dsimp only
    split <;> split <;> first | rfl | contradiction
  · refine ⟨hrow q, ?_⟩
    dsimp only
    split <;> split <;> first | rfl | contradiction

end Query

namespace QueryStore

/-- A store whose conditions remember nothing. -/
def forget (s : QueryStore) : QueryStore := { s with slots := s.slots.map (Option.map .forget) }

theorem get?_forget (s : QueryStore) (id : QueryId) : s.forget.get? id = (s.get? id).map .forget := by
  simp only [get?, forget, Array.getElem?_map]
  cases s.slots[id.index]? with
  | none => rfl
  | some o => rfl

theorem forget_eq_of_get? (hsize : s.slots.size = s'.slots.size) (hfam : s.families = s'.families)
    (hdirty : s.dirty = s'.dirty)
    (hget : ∀ m, (s.get? m).map Query.forget = (s'.get? m).map Query.forget) :
    s.forget = s'.forget := by
  simp only [forget, QueryStore.mk.injEq]
  refine ⟨?_, hfam, hdirty⟩
  apply Array.ext_getElem?
  intro i
  have hi := hget ⟨i⟩
  simp only [get?] at hi
  rw [Array.getElem?_map, Array.getElem?_map]
  by_cases hlt : i < s.slots.size
  · rw [Array.getElem?_eq_getElem hlt, Array.getElem?_eq_getElem (hsize ▸ hlt)] at hi ⊢
    exact congrArg some hi
  · rw [Array.getElem?_eq_none (Nat.le_of_not_lt hlt),
      Array.getElem?_eq_none (hsize ▸ Nat.le_of_not_lt hlt)]

theorem still_of_forget (h : s.forget = s'.forget) : s.still = s'.still := by
  have hmap (s : QueryStore) :
      s.still = { s.forget with slots := s.forget.slots.map (Option.map .rewind) } := by
    simp only [still, forget, Array.map_map, QueryStore.mk.injEq, and_self, and_true]
    congr 1
    funext o
    cases o <;> rfl
  rw [hmap s, h, ← hmap s']

theorem exists_matched_of_still (hs : s'.still = s.still) (hq' : s'.get? id = some q')
    {m' : Matched} (hm' : m' ∈ q'.matched) :
    ∃ q, s.get? id = some q ∧ ∃ m ∈ q.matched, m.condition.forget = m'.condition.forget := by
  obtain ⟨q, hq, hstill⟩ := exists_of_still hs.symm hq'
  have hmem : m'.forget ∈ q.matched.map Matched.forget := by
    rw [Query.conditions_of_still hstill]
    exact List.mem_map_of_mem hm'
  obtain ⟨m, hm, he⟩ := List.mem_map.1 hmem
  exact ⟨q, hq, m, hm, Matched.condition_of_forget he⟩

/-- All conditions of a store are computed anew from the rows on which its queries stand. -/
def Conditions (s : QueryStore) : Prop :=
  ∀ id q, s.get? id = some q → ∀ x ∈ q.matched, x.condition.Reads Source.OfQuery True

theorem Conditions.of_still (h : s.Conditions) (hs : s'.still = s.still) : s'.Conditions := by
  intro id q' hq' x' hx'
  obtain ⟨q, hq, x, hx, he⟩ := exists_matched_of_still hs hq' hx'
  exact (h id q hq x hx).of_forget he.symm

/-- Two stores that differ only in what their conditions remember, which does not matter. -/
structure Alike (s s' : QueryStore) : Prop where
  forest : Forest s
  conditions : s.Conditions
  forget : s.forget = s'.forget

namespace Alike

theorem still (h : Alike s s') : s.still = s'.still := still_of_forget h.forget

theorem refl (h : Forest s) (hc : s.Conditions) : Alike s s := ⟨h, hc, rfl⟩

theorem symm (h : Alike s s') : Alike s' s :=
  ⟨h.forest.of_still h.still.symm, h.conditions.of_still h.still.symm, h.forget.symm⟩

theorem trans (h : Alike s s') (h' : Alike s' t) : Alike s t :=
  ⟨h.forest, h.conditions, h.forget.trans h'.forget⟩

theorem get? (h : Alike s s') (m : QueryId) :
    (s.get? m).map Query.forget = (s'.get? m).map Query.forget := by
  rw [← get?_forget, h.forget, get?_forget]

theorem exists_query (h : Alike s s') (hq : s.get? id = some q) :
    ∃ q', s'.get? id = some q' ∧ q.forget = q'.forget := by
  have hget := h.get? id
  rw [hq, Option.map_some] at hget
  obtain ⟨q', hq', he⟩ := Option.map_eq_some_iff.1 hget.symm
  exact ⟨q', hq', he.symm⟩

theorem get?_none (h : Alike s s') (hq : s.get? id = none) : s'.get? id = none := by
  have hget := h.get? id
  rw [hq, Option.map_none] at hget
  exact Option.map_eq_none_iff.1 hget.symm

/-! What both stores read -/

theorem lookup? (h : Alike s s') {source : Source} (environment : Option Environment) (slot : Slot) :
    s.lookup? environment source slot = s'.lookup? environment source slot := by
  have hread (id : QueryId) (f : Query → Option Value) (hf : ∀ q, f q.forget = f q) :
      (s.get? id).bind f = (s'.get? id).bind f := by
    cases hq : s.get? id with
    | none => rw [h.get?_none hq]
    | some q =>
      obtain ⟨q', hq', he⟩ := h.exists_query hq
      rw [hq', Option.bind_some, Option.bind_some, ← hf q, he, hf q']
  cases source with
  | column id i =>
    exact hread id (fun q => q.columns[i]?.bind fun c => c.cell.ring.get slot) fun _ => rfl
  | rowNumber id => exact hread id (fun q => q.rowNumber.ring.get slot) fun _ => rfl
  | environment => rfl
  | _ => rfl

theorem idOf? (h : Alike s s') (name : String) : s.idOf? name = s'.idOf? name := by
  unfold QueryStore.idOf?
  rw [ids_of_still h.still]
  congr 1
  funext id
  cases hq : s.get? id with
  | none => rw [h.get?_none hq]
  | some q =>
    obtain ⟨q', hq', he⟩ := h.exists_query hq
    have hname : q.forget.name = q'.forget.name := by rw [he]
    change q.name = q'.name at hname
    rw [hq', Option.any_some, Option.any_some, hname]

theorem rowNumber? (h : Alike s s') (environment : Option Environment) (default : Option QueryId) :
    (s.scope environment default).rowNumber? = (s'.scope environment default).rowNumber? := by
  funext name
  cases name with
  | none =>
    change (default <|> s.ids.head?).map _ = (default <|> s'.ids.head?).map _
    rw [ids_of_still h.still]
  | some name => exact congrArg (Option.map Source.rowNumber) (h.idOf? name)

theorem agree (h : Alike s s') (settings : Settings) (id : QueryId) :
    Context.Agree Source.OfQuery True (settings.context (s.scope none (some id)) .current)
      (settings.context (s'.scope none (some id)) .current) where
  precision := rfl
  dateOrder := rfl
  clock := rfl
  lookup source _ := h.lookup? none .current
  rowNumber _ := h.rowNumber? none (some id)
  breakRowNumber _ := rfl
  ofRowNumber _ name source hs := by
    obtain ⟨id, rfl⟩ := rowNumber?_eq_some hs
    trivial
  ofBreakRowNumber _ name source hs := by cases hs

/-! Changing both stores in the same way -/

theorem update (h : Alike s s') (hstill : t.still = s.still) (hf : t.forget = t'.forget) :
    Alike t t' :=
  ⟨h.forest.of_still hstill, h.conditions.of_still hstill, hf⟩

theorem modify (h : Alike s s') {f f' : Query → Query}
    (hstill : ∀ q, s.get? id = some q → (f q).still = q.still)
    (hf : ∀ q q', s.get? id = some q → s'.get? id = some q' → q.forget = q'.forget →
      (f q).forget = (f' q').forget) : Alike (s.modify id f) (s'.modify id f') := by
  apply h.update (still_modify hstill)
  have hsize : s.slots.size = s'.slots.size := size_of_still h.still
  have hfam : s.families = s'.families := congrArg (fun s => s.families) h.forget
  have hdirty : s.dirty = s'.dirty := congrArg (fun s => s.dirty) h.forget
  apply forget_eq_of_get?
  · simpa only [QueryStore.modify, Array.size_modify] using hsize
  · exact hfam
  · exact hdirty
  · intro m
    rw [get?_modify, get?_modify]
    split
    · rename_i hm
      subst hm
      cases hq : s.get? id with
      | none =>
        rw [h.get?_none hq]
        rfl
      | some q =>
        obtain ⟨q', hq', he⟩ := h.exists_query hq
        rw [hq', Option.map_some, Option.map_some, Option.map_some, Option.map_some,
          hf q q' hq hq' he]
    · exact h.get? m

/-- A change that does not look at conditions. -/
theorem modify_blindly (h : Alike s s') (id : QueryId) {f : Query → Query}
    (hstill : ∀ q, (f q).still = q.still) (hf : ∀ q, (f q).forget = f q.forget) :
    Alike (s.modify id f) (s'.modify id f) :=
  h.modify (fun q _ => hstill q) fun q q' _ _ he => by rw [hf, he, ← hf]

theorem foldl {α : Type} {f : QueryStore → α → QueryStore} (xs : List α)
    (hf : ∀ s s' x, Alike s s' → Alike (f s x) (f s' x)) (h : Alike s s') :
    Alike (xs.foldl f s) (xs.foldl f s') := by
  induction xs generalizing s s' with
  | nil => exact h
  | cons x xs ih => exact ih (hf s s' x h)

theorem modifyFamily (h : Alike s s') (id : QueryId) {f : Query → Query}
    (hstill : ∀ q, (f q).still = q.still) (hf : ∀ q, (f q).forget = f q.forget) :
    Alike (s.modifyFamily id f) (s'.modifyFamily id f) := by
  unfold QueryStore.modifyFamily
  rw [← family_of_still h.still id]
  exact foldl _ (fun _ _ m h => h.modify_blindly m hstill hf) h

theorem rewindFamily (h : Alike s s') (id : QueryId) :
    Alike (s.rewindFamily id) (s'.rewindFamily id) :=
  h.modifyFamily id Query.still_rewind fun _ => rfl

theorem blankFamily (h : Alike s s') (id : QueryId) :
    Alike (s.blankFamily id) (s'.blankFamily id) :=
  h.modifyFamily id Query.still_blank fun _ => rfl

theorem commitFamily (h : Alike s s') (id : QueryId) :
    Alike (s.commitFamily id) (s'.commitFamily id) :=
  h.modifyFamily id Query.still_commit fun _ => rfl

theorem blankAll (h : Alike s s') (ids : List QueryId) :
    Alike (ids.foldl QueryStore.blankFamily s) (ids.foldl QueryStore.blankFamily s') :=
  foldl ids (fun _ _ id h => h.blankFamily id) h

theorem matchedIds (h : Alike s s') (id : QueryId) : s.matchedIds id = s'.matchedIds id :=
  matchedIds_of_still h.still id

theorem combinationBound (h : Alike s s') (k : Nat) (id : QueryId) :
    s.combinationBound k id = s'.combinationBound k id := by
  unfold QueryStore.combinationBound
  cases hq : s.get? id with
  | none => rw [h.get?_none hq]
  | some q =>
    obtain ⟨q', hq', -⟩ := h.exists_query hq
    have hids := h.matchedIds id
    simp only [QueryStore.matchedIds, hq, hq'] at hids
    simp only [hq', hids, stepBound_of_still h.still]

end Alike

/-! Moving in both stores -/

/-- Outcomes that differ only in what conditions remember. -/
def AlikeOutcome (o o' : QueryStore × Bool) : Prop := Alike o.1 o'.1 ∧ o.2 = o'.2

/-- A stepper to which it does not matter what conditions remember. -/
def Stepper.Blind (step : Stepper) : Prop :=
  ∀ s s' id, Alike s s' → AlikeOutcome (step s id) (step s' id)

theorem Alike.conditionsHold (h : Alike s s') (settings : Settings)
    (hq' : s'.get? id = some q') (he : q.forget = q'.forget) :
    (QueryStore.conditionsHold (settings.context (s.scope none (some id)) .current) q.matched).2 =
      (QueryStore.conditionsHold (settings.context (s'.scope none (some id)) .current)
        q'.matched).2 := by
  have hm := Query.conditions_of_still (Query.still_of_forget he)
  have hreads : ∀ x ∈ q'.matched, x.condition.Reads Source.OfQuery True :=
    h.symm.conditions id q' hq'
  rw [conditionsHold_congr hm hreads (fun hself => hself) (h.agree settings id),
    ← conditionsHold_eq_all]

theorem Alike.rowsMatch (h : Alike s s') (settings : Settings) (id : QueryId) :
    AlikeOutcome (s.rowsMatch settings id) (s'.rowsMatch settings id) := by
  unfold QueryStore.rowsMatch
  cases hq : s.get? id with
  | none =>
    rw [h.get?_none hq]
    exact ⟨h, rfl⟩
  | some q =>
    obtain ⟨q', hq', he⟩ := h.exists_query hq
    rw [hq']
    refine ⟨h.modify ?_ ?_, h.conditionsHold settings hq' he⟩
    · intro q₁ hq₁
      obtain rfl : q₁ = q := Option.some.inj (hq₁.symm.trans hq)
      exact Query.still_matched _ (forget_conditionsHold _ _)
    · intro q₁ q₁' hq₁ hq₁' he₁
      obtain rfl : q₁ = q := Option.some.inj (hq₁.symm.trans hq)
      obtain rfl : q₁' = q' := Option.some.inj (hq₁'.symm.trans hq')
      have hforget (c : Context) (q : Query) :
          ({ q with matched := (QueryStore.conditionsHold c q.matched).1 } : Query).forget =
            q.forget := by
        simp only [Query.forget, forget_conditionsHold]
      rw [hforget, hforget, he]

theorem Stepper.Blind.turn (hstep : step.Blind) (gs : List QueryId) (h : Alike s s') :
    AlikeOutcome (QueryStore.turn step gs s) (QueryStore.turn step gs s') := by
  induction gs generalizing s s' with
  | nil => exact ⟨h, rfl⟩
  | cons g gs ih =>
    obtain ⟨hg, hmoved⟩ := hstep s s' g h
    rw [turn_cons, turn_cons, hmoved]
    split
    · exact ⟨hg, rfl⟩
    · exact ih (hstep _ _ g (hg.rewindFamily g)).1

theorem Stepper.Blind.findMatch (hstep : step.Blind) (settings : Settings) (id : QueryId) (n : Nat)
    (h : Alike s s') :
    AlikeOutcome (QueryStore.findMatch step settings id n s)
      (QueryStore.findMatch step settings id n s') := by
  induction n generalizing s s' with
  | zero => exact ⟨h, rfl⟩
  | succ n ih =>
    obtain ⟨hm, hfits⟩ := h.rowsMatch settings id
    rw [findMatch_succ, findMatch_succ, hfits]
    split
    · exact ⟨hm, rfl⟩
    · obtain ⟨ht, hturned⟩ := hstep.turn ((s.rowsMatch settings id).1.matchedIds id) hm
      rw [nextMatch_eq, nextMatch_eq, ← hm.matchedIds id, hturned]
      split
      · exact ih ht
      · exact ⟨ht, rfl⟩

theorem Stepper.Blind.nextMatch (hstep : step.Blind) (settings : Settings) (id : QueryId) (n : Nat)
    (h : Alike s s') :
    AlikeOutcome (QueryStore.nextMatch step settings id n s)
      (QueryStore.nextMatch step settings id n s') := by
  obtain ⟨ht, hturned⟩ := hstep.turn (s.matchedIds id) h
  rw [nextMatch_eq, nextMatch_eq, ← h.matchedIds id, hturned]
  split
  · exact hstep.findMatch settings id n ht
  · exact ⟨ht, rfl⟩

theorem Stepper.Blind.stepAll (hstep : step.Blind) (gs : List QueryId) (h : Alike s s') :
    AlikeOutcome (QueryStore.stepAll step s gs) (QueryStore.stepAll step s' gs) := by
  induction gs generalizing s s' with
  | nil => exact ⟨h, rfl⟩
  | cons g gs ih =>
    obtain ⟨hg, hmoved⟩ := hstep s s' g h
    obtain ⟨hgs, hall⟩ := ih hg
    rw [stepAll_cons, stepAll_cons, hmoved, hall]
    exact ⟨hgs, rfl⟩

theorem Stepper.Blind.rewound (hstep : step.Blind) :
    Stepper.Blind fun s id => step (s.rewindFamily id) id :=
  fun _ _ id h => hstep _ _ id (h.rewindFamily id)

theorem Stepper.Blind.combine (hstep : step.Blind) (settings : Settings) (n : Nat) (id : QueryId)
    (h : Alike s s') :
    Alike (QueryStore.combine step settings n s id) (QueryStore.combine step settings n s' id) := by
  obtain ⟨hs, hall⟩ := hstep.rewound.stepAll (s.matchedIds id) h
  have hfound : AlikeOutcome
      (if (startAll step s (s.matchedIds id)).2
        then QueryStore.findMatch step settings id n (startAll step s (s.matchedIds id)).1
        else ((startAll step s (s.matchedIds id)).1, false))
      (if (startAll step s' (s'.matchedIds id)).2
        then QueryStore.findMatch step settings id n (startAll step s' (s'.matchedIds id)).1
        else ((startAll step s' (s'.matchedIds id)).1, false)) := by
    rw [← h.matchedIds id]
    unfold startAll
    rw [hall]
    split
    · exact hstep.findMatch settings id n hs
    · exact ⟨hs, rfl⟩
  rw [combine_eq step settings n s id rfl, combine_eq step settings n s' id rfl]
  revert hfound
  generalize (if (startAll step s (s.matchedIds id)).2 then _ else _ : QueryStore × Bool) = o
  generalize (if (startAll step s' (s'.matchedIds id)).2 then _ else _ : QueryStore × Bool) = o'
  rintro ⟨ho, hb⟩
  rw [hb, ho.matchedIds id]
  split
  · exact ho.modify_blindly id (fun q => Query.still_combining q true) fun _ => rfl
  · exact ho.blankAll (o'.1.matchedIds id)

theorem Stepper.Blind.nextRow (hstep : step.Blind) (settings : Settings) (n : Nat)
    (h : Alike s s') (hq : s.get? id = some q) (he : q.forget = q'.forget) :
    AlikeOutcome (QueryStore.nextRow step settings n s id q)
      (QueryStore.nextRow step settings n s' id q') := by
  obtain ⟨hread, hmore⟩ := Query.forget_advance q settings.coercion
  obtain ⟨hread', hmore'⟩ := Query.forget_advance q' settings.coercion
  have hadvance :
      (q.advance settings.coercion).1.forget = (q'.advance settings.coercion).1.forget := by
    rw [hread, he, hread']
  have hs : Alike (s.modify id fun _ => (q.advance settings.coercion).1)
      (s'.modify id fun _ => (q'.advance settings.coercion).1) := by
    refine h.modify ?_ fun _ _ _ _ _ => hadvance
    intro q₁ hq₁
    obtain rfl : q₁ = q := Option.some.inj (hq₁.symm.trans hq)
    exact Query.still_advance q₁ settings.coercion
  rw [nextRow_eq, nextRow_eq, hmore, he, ← hmore']
  generalize q.advance settings.coercion = moved at hs hadvance
  generalize q'.advance settings.coercion = moved' at hs hadvance ⊢
  have hstill := Query.still_of_forget hadvance
  have hempty : moved.1.matched.isEmpty = moved'.1.matched.isEmpty := by
    rw [← List.isEmpty_map, Query.conditions_of_still hstill, List.isEmpty_map]
  dsimp only
  split
  · obtain ⟨hall, -⟩ := hstep.stepAll moved.1.followers hs
    rw [← Query.followers_of_still hstill, hempty]
    split
    · exact ⟨hall, rfl⟩
    · exact ⟨hstep.combine settings n id hall, rfl⟩
  · rw [← Query.children_of_still hstill]
    exact ⟨hs.blankAll _, rfl⟩

/-- What conditions remember does not matter when a query is moved. -/
theorem stepWithin_blind (settings : Settings) (k : Nat) : Stepper.Blind (stepWithin settings k) := by
  induction k with
  | zero => exact fun _ _ _ h => ⟨h, rfl⟩
  | succ k ih =>
    intro s s' id h
    rw [stepWithin, stepWithin, h.combinationBound k id]
    dsimp only
    cases hq : s.get? id with
    | none =>
      rw [h.get?_none hq]
      exact ⟨h, rfl⟩
    | some q =>
      obtain ⟨q', hq', he⟩ := h.exists_query hq
      have hcombining : q.forget.combining = q'.forget.combining := by rw [he]
      change q.combining = q'.combining at hcombining
      rw [hq']
      dsimp only
      rw [hcombining]
      split
      · obtain ⟨hn, hfound⟩ := ih.nextMatch settings id (s'.combinationBound k id) h
        generalize QueryStore.nextMatch _ settings id (s'.combinationBound k id) s = o at hn hfound
        generalize QueryStore.nextMatch _ settings id (s'.combinationBound k id) s' = o' at hn hfound
        obtain ⟨t, found⟩ := o
        obtain ⟨t', found'⟩ := o'
        obtain rfl : found = found' := hfound
        cases found with
        | true => exact ⟨hn, rfl⟩
        | false =>
          have hdone :=
            Alike.modify_blindly hn id (fun q => Query.still_combining q false) fun _ => rfl
          dsimp only
          cases hq₁ : (t.modify id fun q => { q with combining := false }).get? id with
          | none =>
            rw [hdone.get?_none hq₁]
            exact ⟨hdone, rfl⟩
          | some q₁ =>
            obtain ⟨q₁', hq₁', he₁⟩ := hdone.exists_query hq₁
            rw [hq₁']
            exact ih.nextRow settings _ hdone hq₁ he₁
      · exact ih.nextRow settings _ h hq he

/-- Stores that differ only in what their conditions remember produce the same rows. -/
theorem Alike.next (h : Alike s s') {more : Bool} (hs : s.next settings id = .ok (t, more)) :
    ∃ t', s'.next settings id = .ok (t', more) ∧ Alike t t' := by
  cases hq : s.get? id with
  | none =>
    simp only [QueryStore.next, require, hq] at hs
    cases hs
  | some q =>
    obtain ⟨q', hq', -⟩ := h.exists_query hq
    rw [next_eq settings hq, Except.ok.injEq, Prod.mk.injEq] at hs
    obtain ⟨rfl, rfl⟩ := hs
    rw [next_eq settings hq', ← size_of_still h.still]
    obtain ⟨hstep, hmoved⟩ := stepWithin_blind settings (s.slots.size + 1) s s' id h
    rw [← hmoved]
    refine ⟨_, rfl, ?_⟩
    split
    · exact hstep.commitFamily id
    · exact hstep

/-! Starting again -/

theorem Conditions.start (h : s.Conditions) (hf : Forest s) (id : QueryId) :
    (s.start id).1.Conditions := by
  have hfinal : s.finalize.Conditions := by
    intro m q hq
    rw [get?_finalize] at hq
    exact h m q hq
  unfold QueryStore.start
  dsimp only
  split
  · exact hfinal.of_still (keeps_rewindFamily hf.finalize id).still
  · exact hfinal

theorem finalize_of_clean (h : s.dirty = false) : s.finalize = s := by
  rw [finalize, h, if_neg Bool.false_ne_true]

theorem dirty_finalize (s : QueryStore) : s.finalize.dirty = false := by
  unfold finalize
  split
  · rfl
  · rename_i h
    exact Bool.eq_false_iff.2 h

/-- A query that is started again is where it was when it was started before. -/
theorem Alike.start_again (h : Forest s) (hc : s.Conditions) (hlive : (s.get? id).isSome)
    (hk : Keeps ((s.start id).1.Reaches id) (s.start id).1 t) :
    Alike (s.start id).1 (t.start id).1 := by
  have h₁ := h.start id
  have hc₁ := hc.start h id
  obtain ⟨q, hq⟩ := Option.isSome_iff_exists.1 hlive
  rw [start_eq hq] at hk h₁ hc₁ ⊢
  have hf := h.finalize
  have hrewound := keeps_rewindFamily hf id
  generalize hs₁ : s.finalize.rewindFamily id = s₁ at hk h₁ hc₁ hrewound ⊢
  have hclean : t.dirty = false := by
    have hdirty : t.dirty = s.finalize.dirty :=
      congrArg (fun s => s.dirty) (hk.still.trans hrewound.still)
    rw [hdirty, dirty_finalize]
  obtain ⟨q₁, hq₁, -⟩ := exists_of_still (hk.still.trans hrewound.still)
    ((get?_finalize s id).trans hq)
  rw [start_eq hq₁, finalize_of_clean hclean]
  have ht := h₁.of_still hk.still
  have hagain := (keeps_rewindFamily ht id).still.trans hk.still
  refine ⟨h₁, hc₁, ?_⟩
  apply forget_eq_of_get?
  · exact (size_of_still hagain).symm
  · exact (congrArg (fun s => s.families) hagain).symm
  · exact (congrArg (fun s => s.dirty) hagain).symm
  · intro m
    rw [QueryStore.rewindFamily, ht.get?_modifyFamily]
    split
    · rename_i hm
      rw [ht.mem_family, reaches_of_still hk.still, reaches_of_still hrewound.still,
        ← hf.mem_family] at hm
      have hleft : s₁.get? m = (s.finalize.get? m).map Query.rewind := by
        rw [← hs₁, QueryStore.rewindFamily, hf.get?_modifyFamily, if_pos hm]
      rw [hleft, Option.map_map, Option.map_map]
      change (s.finalize.get? m).map Query.still = (t.get? m).map Query.still
      rw [← get?_still, ← get?_still, hk.still, hrewound.still]
    · rename_i hm
      rw [ht.mem_family, reaches_of_still hk.still] at hm
      rw [hk.get? m hm]

end QueryStore
end Reporting
