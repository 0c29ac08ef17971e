import Reporting.Proofs.Query.Counter
import Reporting.Proofs.Expr.Reading
/-!
The search for the next combination that fits: it finds the first one, whichever rows were rejected
before.
-/
namespace Reporting

variable {s₀ s s' : QueryStore} {settings : Settings} {m id : QueryId} {q q₀ : Query} {k n : Nat}
  {r : Row} {c c' : Context}

/-! Conditions -/

/-- Whether a query takes some rows of its matched followers. -/
def Query.takes (q : Query) (settings : Settings) (id : QueryId) (number : Value)
    (head tail : Cells) : Bool := q.fits settings id ⟨number, head ++ tail⟩

/-- The columns of the family of a query, and its row counter. -/
def QueryStore.FamilySource (s : QueryStore) (id : QueryId) (source : Source) : Prop :=
  (∃ m i, m ∈ s.family id ∧ source = .column m i) ∨ source = .rowNumber id

/-- A condition that is computed anew from the row of a family. -/
structure QueryStore.ReadsFamily (s : QueryStore) (id : QueryId) (x : Computation) : Prop where
  computed : x.startsWithInitial = false
  pure : x.root.Every (Expr.Calls Function.Pure)
  whole : x.root.Every Expr.BoundWhole
  reads : x.root.Every (Expr.ReadsOnly (s.FamilySource id))
  bound : x.root.Every (Expr.LooksUp False)

theorem Query.fits_of_unmatched (hq : q.matched = []) (settings : Settings) (id : QueryId)
    (r : Row) : q.fits settings id r = true := by
  rw [Query.fits, hq, List.all_nil]

theorem conditionsHold_eq_all (c : Context) (ms : List Matched) :
    (QueryStore.conditionsHold c ms).2 = ms.all fun x => (x.condition.evaluate c).2.isTrue := by
  induction ms with
  | nil => rfl
  | cons x ms ih =>
    rw [QueryStore.conditionsHold, List.all_cons]
    dsimp only
    split
    · rename_i hx
      rw [hx, Bool.true_and]
      exact ih
    · rename_i hx
      rw [Bool.not_eq_true] at hx
      rw [hx, Bool.false_and]

theorem Matched.condition_of_forget {x y : Matched} (h : x.forget = y.forget) :
    x.condition.forget = y.condition.forget := by
  have hx : x.forget.condition = y.forget.condition := by rw [h]
  exact hx

/-- What conditions remember does not matter. -/
theorem conditionsHold_congr {P : Source → Prop} {lookups : Prop} {ms ms₀ : List Matched}
    (hm : ms.map Matched.forget = ms₀.map Matched.forget)
    (hreads : ∀ x ∈ ms₀, x.condition.Reads P lookups) (hself : ¬ P .self)
    (ha : Context.Agree P lookups c c') :
    (QueryStore.conditionsHold c ms).2 =
      ms₀.all fun x => (x.condition.evaluate c').2.isTrue := by
  rw [conditionsHold_eq_all]
  induction ms₀ generalizing ms with
  | nil =>
    rw [List.map_nil, List.map_eq_nil_iff] at hm
    rw [hm, List.all_nil, List.all_nil]
  | cons x₀ ms₀ ih =>
    obtain ⟨x, ms, rfl, hx, hms⟩ := List.map_eq_cons_iff.1 hm
    have hv : (x.condition.evaluate c).2 = (x₀.condition.evaluate c').2 :=
      (hreads x₀ List.mem_cons_self).value_congr (Matched.condition_of_forget hx) ha
        fun hp => (hself hp).elim
    have hrest := ih hms fun x hm => hreads x (List.mem_cons_of_mem _ hm)
    rw [List.all_cons, List.all_cons, hv, hrest]

theorem QueryStore.ReadsFamily.toReads {x : Computation} (h : s₀.ReadsFamily id x) :
    x.Reads (s₀.FamilySource id) False :=
  ⟨h.computed, h.pure, h.whole, h.reads, h.bound⟩

theorem QueryStore.not_familySource_self : ¬ s₀.FamilySource id .self := by
  rintro (⟨m, i, -, he⟩ | he)
  · cases he
  · cases he

namespace QueryStore

theorem find?_key {l : List QueryId} (hm : m ∈ l) (F : QueryId → List Value) :
    (l.map fun m => (m, F m)).find? (fun x => x.1 = m) = some (m, F m) := by
  induction l with
  | nil => cases hm
  | cons a l ih =>
    rw [List.map_cons, List.find?_cons]
    by_cases ha : a = m
    · simp only [ha, decide_true]
    · have hm' : m ∈ l := (List.mem_cons.1 hm).resolve_left fun h => ha h.symm
      simp only [ha, decide_false, ih hm']

/-- The row that a family shows gives the same values as the family itself. -/
theorem agree_row (hcells : r.cells = s₀.shownAt s.stance id)
    (hnumber : (s.stance id).map Stance.number = some r.number) (settings : Settings) :
    Context.Agree (s₀.FamilySource id) False (settings.context (s.scope none (some id)) .current)
      (settings.context { lookup? := r.lookup? id } .current) where
  precision := rfl
  dateOrder := rfl
  clock := rfl
  lookup src hsrc := by
    change s.lookup? none src .current = r.lookup? id src .current
    rcases hsrc with ⟨m, i, hm, rfl⟩ | rfl
    · have hfind := find?_key hm fun m => ((s.stance m).map Stance.shown).getD []
      rw [Row.lookup?, hcells, shownAt, hfind, lookup?, stance]
      cases s.get? m with
      | none => rfl
      | some q => 
        change (q.columns[i]?).bind _ = (q.columns.map _)[i]?
        rw [List.getElem?_map]
        cases q.columns[i]? <;> rfl
    · rw [Row.lookup?, if_pos rfl, ← hnumber, lookup?, stance]
      cases s.get? id <;> rfl
  rowNumber := False.elim
  breakRowNumber := False.elim
  ofRowNumber := False.elim
  ofBreakRowNumber := False.elim

theorem stance_modify {f : Query → Query} (hf : ∀ q, (f q).stance = q.stance) (id : QueryId) :
    (s.modify id f).stance = s.stance := by
  funext m
  rw [stance, stance, get?_modify]
  split
  · rw [Option.map_map]
    congr 1
    funext q
    exact hf q
  · rfl

theorem stance_rowsMatch (s : QueryStore) (settings : Settings) (id : QueryId) :
    (s.rowsMatch settings id).1.stance = s.stance := by
  unfold rowsMatch
  split
  · rfl
  · apply stance_modify
    intro q
    rfl

/-- The rows of a family match if they fit as the row that the family shows. -/
theorem rowsMatch_spec (hs : s.still = s₀.still) (hq₀ : s₀.get? id = some q₀)
    (hown : ∀ x ∈ q₀.matched, s₀.ReadsFamily id x.condition)
    (hcells : r.cells = s₀.shownAt s.stance id)
    (hnumber : (s.stance id).map Stance.number = some r.number) :
    (s.rowsMatch settings id).2 = q₀.fits settings id r := by
  obtain ⟨q, hq, hstill⟩ := exists_of_still hs hq₀
  have hmatch : (s.rowsMatch settings id).2 =
      (conditionsHold (settings.context (s.scope none (some id)) .current) q.matched).2 := by
    simp only [rowsMatch, hq]
  rw [hmatch]
  exact conditionsHold_congr (Query.conditions_of_still hstill)
    (fun x hx => (hown x hx).toReads) not_familySource_self (agree_row hcells hnumber settings)

/-! The search -/

variable {σ σ' : QueryId → Option Stance} {full : QueryId → List Row} {stands : Standing}
  {step : Stepper} {ds : List Digit} {f : QueryId} {number : Value} {head : Cells}

/-- What a query and its followers show, without its matched followers. -/
def headAt (s : QueryStore) (q : Query) (σ : QueryId → Option Stance) (id : QueryId) : Cells :=
  (id, ((σ id).map Stance.shown).getD []) :: q.followers.flatMap (s.shownAt σ)

/-- A query whose conditions read its family, and whose followers go through their rows. -/
structure Joins (s₀ : QueryStore) (step : Stepper) (full : QueryId → List Row) (stands : Standing)
    (id : QueryId) (q₀ : Query) : Prop where
  forest : Forest s₀
  query : s₀.get? id = some q₀
  conditions : ∀ x ∈ q₀.matched, s₀.ReadsFamily id x.condition
  moves : step.Local
  walks : ∀ c ∈ q₀.children, Walks s₀ step full stands c

namespace Joins

variable (J : Joins s₀ step full stands id q₀)
include J

theorem children : s₀.children id = q₀.children := children_of_get? J.query

theorem matchedIds (hs : s.still = s₀.still) : s.matchedIds id = q₀.matchedIds := by
  rw [matchedIds_of_still hs, QueryStore.matchedIds, J.query]

theorem matched_apart : q₀.matchedIds.Pairwise s₀.Apart := by
  apply J.forest.apart
  rw [J.children]
  exact List.sublist_append_right q₀.followers q₀.matchedIds

theorem followers_apart : q₀.followers.Pairwise s₀.Apart := by
  apply J.forest.apart
  rw [J.children]
  exact List.sublist_append_left q₀.followers q₀.matchedIds

theorem not_below_self {gs : List QueryId} (hgs : ∀ g ∈ gs, g ∈ q₀.children) :
    ¬ s₀.Below gs id := by
  rintro ⟨g, hg, hr⟩
  apply J.forest.not_reaches_back ?_ hr
  rw [J.children]
  exact hgs g hg

theorem follower_apart_matched (hf : f ∈ q₀.followers) {g : QueryId} (hg : g ∈ q₀.matchedIds) :
    s₀.Apart f g := by
  have hnodup := J.forest.nodup id
  rw [J.children, Query.children, List.nodup_append] at hnodup
  intro m hm
  apply J.forest.disjoint (a := id) ?_ ?_ (hnodup.2.2 f hf g hg) hm
  · rw [J.children]
    exact List.mem_append_left _ hf
  · rw [J.children]
    exact List.mem_append_right _ hg

theorem not_below_follower (hf : f ∈ q₀.followers) (hm : s₀.Reaches f m) :
    ¬ s₀.Below q₀.matchedIds m := by
  rintro ⟨g, hg, hr⟩
  exact J.follower_apart_matched hf hg m hm hr

theorem headAt_congr (hσ : ∀ m, ¬ s₀.Below q₀.matchedIds m → σ' m = σ m) :
    s₀.headAt q₀ σ' id = s₀.headAt q₀ σ id := by
  rw [headAt, headAt, hσ id (J.not_below_self fun g hg => List.mem_append_right _ hg)]
  congr 1
  apply List.flatMap_congr
  intro f hf
  exact J.forest.shownAt_congr fun m hm => hσ m (J.not_below_follower hf hm)

theorem shownAt_split (σ : QueryId → Option Stance) :
    s₀.shownAt σ id = s₀.headAt q₀ σ id ++ q₀.matchedIds.flatMap (s₀.shownAt σ) := by
  rw [J.forest.shownAt_cons, J.children, Query.children, List.flatMap_append, headAt,
    List.cons_append]

theorem shownAt_digits (hq : ds.map Digit.query = q₀.matchedIds)
    (hds : ∀ d ∈ ds, Holds s₀ full stands σ d) :
    s₀.shownAt σ id = s₀.headAt q₀ σ id ++ showing ds := by
  rw [J.shownAt_split, ← hq, List.flatMap_map, showing]
  congr 1
  apply List.flatMap_congr
  intro d hd
  exact (hds d hd).shown

theorem walks_digits (hq : ds.map Digit.query = q₀.matchedIds) :
    ∀ d ∈ ds, Walks s₀ step full stands d.query := by
  intro d hd
  apply J.walks
  apply List.mem_append_right
  rw [← hq]
  exact List.mem_map_of_mem hd

end Joins

/-- The combination that is tried: the query and its followers show `head`, and its matched followers
stand on the digits. -/
structure Tries (s₀ : QueryStore) (full : QueryId → List Row) (stands : Standing) (id : QueryId)
    (q₀ : Query) (number : Value) (head : Cells) (s : QueryStore) (ds : List Digit) : Prop where
  still : s.still = s₀.still
  query : ds.map Digit.query = q₀.matchedIds
  number : (s.stance id).map Stance.number = some number
  head : s₀.headAt q₀ s.stance id = head
  digits : ∀ d ∈ ds, Holds s₀ full stands s.stance d

/-- What the query and its followers show does not change while the matched ones move. -/
theorem Tries.moved {ds' : List Digit} (ht : Tries s₀ full stands id q₀ number head s ds)
    (J : Joins s₀ step full stands id q₀) (hs : s'.still = s₀.still)
    (hσ : ∀ m, ¬ s₀.Below q₀.matchedIds m → s'.stance m = s.stance m)
    (hq : ds'.map Digit.query = q₀.matchedIds)
    (hds : ∀ d ∈ ds', Holds s₀ full stands s'.stance d) :
    Tries s₀ full stands id q₀ number head s' ds' where
  still := hs
  query := hq
  number := by
    rw [hσ id (J.not_below_self fun g hg => List.mem_append_right _ hg), ht.number]
  head := by
    rw [J.headAt_congr hσ, ht.head]
  digits := hds

namespace Joins

variable (J : Joins s₀ step full stands id q₀)
include J

/-- The search changes where the matched followers stand, and nothing else. -/
theorem stance_nextMatch_of (n : Nat)
    (hfind : ∀ s : QueryStore, s.still = s₀.still → ∀ m, ¬ s₀.Below q₀.matchedIds m →
      (findMatch step settings id n s).1.stance m = s.stance m)
    (hs : s.still = s₀.still) (hm : ¬ s₀.Below q₀.matchedIds m) :
    (nextMatch step settings id n s).1.stance m = s.stance m := by
  have hk := (keeps_turn J.moves (J.forest.of_still hs) q₀.matchedIds).below hs
  rw [nextMatch_eq, J.matchedIds hs]
  split
  · rw [hfind _ (hk.still.trans hs) m hm]
    exact hk.stance hm
  · exact hk.stance hm

theorem stance_findMatch (n : Nat) (hs : s.still = s₀.still)
    (hm : ¬ s₀.Below q₀.matchedIds m) :
    (findMatch step settings id n s).1.stance m = s.stance m := by
  induction n generalizing s m with
  | zero => rfl
  | succ n ih =>
    have hr := congrFun (stance_rowsMatch s settings id) m
    rw [findMatch_succ]
    split
    · exact hr
    · have hs₁ := (keeps_rowsMatch settings id).still.trans hs
      rw [J.stance_nextMatch_of n (fun s hs m hm => ih hs hm) hs₁ hm]
      exact hr

theorem stance_nextMatch (settings : Settings) (n : Nat) (hs : s.still = s₀.still)
    (hm : ¬ s₀.Below q₀.matchedIds m) :
    (nextMatch step settings id n s).1.stance m = s.stance m :=
  J.stance_nextMatch_of n (fun _ hs _ hm => J.stance_findMatch n hs hm) hs hm

/-- From any combination the search leads to the first one after it that fits. -/
theorem nextMatch_of (n : Nat)
    (hfind : ∀ s ds, Tries s₀ full stands id q₀ number head s ds → (later full ds).length < n →
      Found s₀ full stands q₀.matchedIds
        (fun ds => (later full ds).filter (q₀.takes settings id number head))
        ((showing ds :: later full ds).filter (q₀.takes settings id number head))
        (findMatch step settings id n s))
    (ht : Tries s₀ full stands id q₀ number head s ds) (hn : (later full ds).length ≤ n) :
    Found s₀ full stands q₀.matchedIds
      (fun ds => (later full ds).filter (q₀.takes settings id number head))
      ((later full ds).filter (q₀.takes settings id number head))
      (nextMatch step settings id n s) := by
  have hk := (keeps_turn J.moves (J.forest.of_still ht.still) q₀.matchedIds).below ht.still
  have hturned := turn_spec J.forest J.moves (J.walks_digits ht.query)
    (ht.query ▸ J.matched_apart) ht.still ht.digits
  rw [ht.query] at hturned
  rw [nextMatch_eq, J.matchedIds ht.still]
  cases hlater : later full ds with
  | nil =>
    rw [hlater] at hturned
    have hover : ¬ (turn step q₀.matchedIds s).2 = true := by
      rw [hturned.found]
      exact Bool.false_ne_true
    rw [if_neg hover]
    refine ⟨rfl, ?_⟩
    intro c cs hc
    cases hc
  | cons t ts =>
    rw [hlater] at hturned hn
    obtain ⟨ds', hq', rfl, rfl, hds'⟩ := hturned.digits t ts rfl
    have hmore : (turn step q₀.matchedIds s).2 = true := hturned.found
    rw [if_pos hmore]
    apply hfind _ ds' ?_ hn
    exact ht.moved J (hk.still.trans ht.still) (fun m hm => hk.stance hm) hq' hds'

theorem findMatch_spec (settings : Settings) (ht : Tries s₀ full stands id q₀ number head s ds)
    (hn : (later full ds).length < n) :
    Found s₀ full stands q₀.matchedIds
      (fun ds => (later full ds).filter (q₀.takes settings id number head))
      ((showing ds :: later full ds).filter (q₀.takes settings id number head))
      (findMatch step settings id n s) := by
  induction n generalizing s ds with
  | zero => exact (Nat.not_lt_zero _ hn).elim
  | succ n ih =>
    have hfits : (s.rowsMatch settings id).2 = q₀.takes settings id number head (showing ds) := by
      apply rowsMatch_spec ht.still J.query J.conditions ?_ ht.number
      rw [J.shownAt_digits ht.query ht.digits, ht.head]
    have hstance := stance_rowsMatch s settings id
    have hs₁ := (keeps_rowsMatch (s := s) settings id).still.trans ht.still
    rw [findMatch_succ, hfits]
    cases hp : q₀.takes settings id number head (showing ds) with
    | true =>
      rw [if_pos rfl, List.filter_cons_of_pos hp]
      refine ⟨rfl, ?_⟩
      intro c cs hc
      rw [List.cons.injEq] at hc
      refine ⟨ds, ht.query, hc.1, hc.2, ?_⟩
      rw [hstance]
      exact ht.digits
    | false =>
      have hp' : ¬ q₀.takes settings id number head (showing ds) = true := by
        rw [hp]
        exact Bool.false_ne_true
      rw [if_neg Bool.false_ne_true, List.filter_cons_of_neg hp']
      apply J.nextMatch_of n (fun s ds ht hn => ih ht hn) ?_ (Nat.le_of_lt_succ hn)
      apply ht.moved J hs₁ (fun m _ => congrFun hstance m) ht.query
      rw [hstance]
      exact ht.digits

theorem nextMatch_spec (settings : Settings) (ht : Tries s₀ full stands id q₀ number head s ds)
    (hn : (later full ds).length ≤ n) :
    Found s₀ full stands q₀.matchedIds
      (fun ds => (later full ds).filter (q₀.takes settings id number head))
      ((later full ds).filter (q₀.takes settings id number head))
      (nextMatch step settings id n s) :=
  J.nextMatch_of n (fun _ _ ht hn => J.findMatch_spec settings ht hn) ht hn

end Joins
end QueryStore
end Reporting
