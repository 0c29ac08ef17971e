import Reporting.Query.Navigation
import Mathlib.Logic.Relation
import Mathlib.Data.Finset.Card
import Mathlib.Data.Finset.Range
/-!
The forest of leaders and followers: no query reaches itself, families are the queries that are
reached, and the families of two followers of one query have nothing in common.
-/
namespace Reporting.QueryStore

variable {s s' : QueryStore} {a b c m id : QueryId} {q : Query} {k : Nat}

/-! Looking queries up -/

theorem get?_modify (s : QueryStore) (id m : QueryId) (f : Query → Query) :
    (s.modify id f).get? m = if id = m then (s.get? m).map f else s.get? m := by
  obtain ⟨i⟩ := id
  obtain ⟨j⟩ := m
  simp only [get?, modify, Array.getElem?_modify, QueryId.mk.injEq]
  split
  · cases s.slots[j]? with
    | none => rfl
    | some o => rfl
  · rfl

theorem get?_modify_self (h : s.get? id = some q) (f : Query → Query) :
    (s.modify id f).get? id = some (f q) := by
  rw [get?_modify, if_pos rfl, h, Option.map_some]

theorem get?_modify_of_ne (h : id ≠ m) (f : Query → Query) :
    (s.modify id f).get? m = s.get? m := by
  rw [get?_modify, if_neg h]

theorem lt_size_of_get? (h : s.get? id = some q) : id.index < s.slots.size := by
  by_contra hn
  rw [get?, Array.getElem?_eq_none (Nat.le_of_not_lt hn)] at h
  cases h

theorem children_of_get? (h : s.get? id = some q) : s.children id = q.children := by
  simp only [children, h]

theorem mem_ids : id ∈ s.ids ↔ (s.get? id).isSome := by
  simp only [ids, List.mem_filter, List.mem_map, List.mem_range, and_iff_right_iff_imp]
  intro h
  obtain ⟨q, hq⟩ := Option.isSome_iff_exists.1 h
  exact ⟨id.index, lt_size_of_get? hq, rfl⟩

/-! What names stand for -/

section

variable {environment : Option Environment} {default : Option QueryId} {source : Source}

theorem column?_eq_some {name : ColumnName}
    (h : (s.scope environment default).column? name = some source) :
    ∃ id k, source = .column id k := by
  have hin {id : QueryId} {name : String} (h : s.columnIn? id name = some source) :
      ∃ id k, source = .column id k := by
    obtain ⟨q, -, h⟩ := Option.bind_eq_some_iff.1 h
    obtain ⟨k, -, h⟩ := Option.bind_eq_some_iff.1 h
    exact ⟨id, k, (Option.some.inj h).symm⟩
  have hany {name : String} (h : s.anyColumn? default name = some source) :
      ∃ id k, source = .column id k := by
    obtain ⟨id, -, h⟩ := List.exists_of_findSome?_eq_some h
    exact hin h
  cases name with
  | plain name => exact hany h
  | dotted name => exact hany h
  | qualified query name =>
    obtain ⟨id, -, h⟩ := Option.bind_eq_some_iff.1 h
    exact hin h

theorem rowNumber?_eq_some {name : Option String}
    (h : (s.scope environment default).rowNumber? name = some source) :
    ∃ id, source = .rowNumber id := by
  cases name with
  | none =>
    obtain ⟨id, -, h⟩ := Option.map_eq_some_iff.1 h
    exact ⟨id, h.symm⟩
  | some name =>
    obtain ⟨id, -, h⟩ := Option.map_eq_some_iff.1 h
    exact ⟨id, h.symm⟩

end

/-! Reaching queries -/

/-- A query is reached from another one over any number of followers. -/
def Reaches (s : QueryStore) : QueryId → QueryId → Prop :=
  Relation.ReflTransGen fun a c => c ∈ s.children a

theorem Reaches.refl (s : QueryStore) (a : QueryId) : s.Reaches a a := Relation.ReflTransGen.refl

theorem Reaches.child (h : c ∈ s.children a) : s.Reaches a c := Relation.ReflTransGen.single h

theorem Reaches.trans (h : s.Reaches a b) (h' : s.Reaches b c) : s.Reaches a c :=
  Relation.ReflTransGen.trans h h'

theorem reaches_iff : s.Reaches a m ↔ a = m ∨ ∃ c ∈ s.children a, s.Reaches c m := by
  rw [Reaches, Relation.ReflTransGen.cases_head_iff]

theorem reaches_of_children_eq (h : ∀ a, s'.children a = s.children a) :
    s'.Reaches a b ↔ s.Reaches a b := by
  simp only [Reaches, h]

theorem familyWithin_of_children_eq (h : ∀ a, s'.children a = s.children a) (k : Nat)
    (id : QueryId) : s'.familyWithin k id = s.familyWithin k id := by
  induction k generalizing id with
  | zero => rfl
  | succ k ih => rw [familyWithin, familyWithin, h, funext ih]

/-- No path of followers from a query is longer than `k`. -/
def Shallow (s : QueryStore) : (k : Nat) → (id : QueryId) → Prop
  | 0, id => s.children id = []
  | k + 1, id => ∀ c ∈ s.children id, s.Shallow k c

theorem Shallow.succ (h : s.Shallow k id) : s.Shallow (k + 1) id := by
  induction k generalizing id with
  | zero =>
    intro c hc
    rw [show s.children id = [] from h] at hc
    cases hc
  | succ k ih => exact fun c hc => ih (h c hc)

theorem Shallow.mono {k' : Nat} (h : s.Shallow k id) (hk : k ≤ k') : s.Shallow k' id := by
  induction hk with
  | refl => exact h
  | step _ ih => exact ih.succ

theorem Shallow.mem_familyWithin (h : s.Shallow k id) :
    m ∈ s.familyWithin k id ↔ s.Reaches id m := by
  induction k generalizing id with
  | zero =>
    rw [reaches_iff, show s.children id = [] from h, familyWithin, List.mem_singleton]
    simp only [List.not_mem_nil, false_and, exists_false, or_false, eq_comm]
  | succ k ih =>
    rw [reaches_iff, familyWithin, List.mem_cons, List.mem_flatMap, eq_comm]
    apply or_congr_right
    exact exists_congr fun c => and_congr_right fun hc => ih (h c hc)

theorem Shallow.familyWithin_succ (h : s.Shallow k id) :
    s.familyWithin (k + 1) id = s.familyWithin k id := by
  induction k generalizing id with
  | zero =>
    have hc : s.children id = [] := h
    simp only [familyWithin, hc, List.flatMap_nil]
  | succ k ih =>
    rw [familyWithin, familyWithin]
    congr 1
    exact List.flatMap_congr fun c hc => ih (h c hc)

theorem Shallow.reachesWithin_iff (h : s.Shallow k id) :
    s.reachesWithin m k id = true ↔ s.Reaches id m := by
  induction k generalizing id with
  | zero =>
    rw [reaches_iff, show s.children id = [] from h, reachesWithin, beq_iff_eq]
    simp only [List.not_mem_nil, false_and, exists_false, or_false]
  | succ k ih =>
    rw [reaches_iff, reachesWithin, Bool.or_eq_true, beq_iff_eq, List.any_eq_true]
    apply or_congr_right
    exact exists_congr fun c => and_congr_right fun hc => ih (h c hc)

/-! Forests -/

/-- The followers form a forest, and the families that are kept are those of this forest. -/
structure Forest (s : QueryStore) : Prop where
  leader : ∀ a, ∀ c ∈ s.children a, ∃ q, s.get? c = some q ∧ q.leader = some a
  nodup : ∀ a, (s.children a).Nodup
  ranked : ∃ rank : QueryId → Nat, ∀ a, ∀ c ∈ s.children a, rank c < rank a
  families : s.dirty = false → s.families = s.ids.map fun id => (id, s.collectFamily id)

namespace Forest

theorem live (h : Forest s) (hc : c ∈ s.children a) : (s.get? c).isSome := by
  obtain ⟨q, hq, -⟩ := h.leader a c hc
  rw [hq, Option.isSome_some]

theorem unique (h : Forest s) (ha : m ∈ s.children a) (hb : m ∈ s.children b) : a = b := by
  obtain ⟨q, hq, hqa⟩ := h.leader a m ha
  obtain ⟨q', hq', hqb⟩ := h.leader b m hb
  obtain rfl : q = q' := Option.some.inj (hq.symm.trans hq')
  exact Option.some.inj (hqa.symm.trans hqb)

theorem not_reaches_back (h : Forest s) (hc : c ∈ s.children a) : ¬ s.Reaches c a := by
  obtain ⟨rank, hrank⟩ := h.ranked
  have hle {x y : QueryId} (hr : s.Reaches x y) : rank y ≤ rank x := by
    induction hr with
    | refl => exact Nat.le_refl _
    | tail _ hc ih => exact Nat.le_trans (Nat.le_of_lt (hrank _ _ hc)) ih
  intro hr
  exact Nat.not_lt_of_ge (hle hr) (hrank a c hc)

/-- Two queries that reach a third one lie on one path. -/
theorem comparable (h : Forest s) (ha : s.Reaches a m) (hb : s.Reaches b m) :
    s.Reaches a b ∨ s.Reaches b a := by
  induction ha with
  | refl => exact .inr hb
  | @tail p m hp hc ih =>
    rcases Relation.ReflTransGen.cases_tail hb with rfl | ⟨p', hp', hc'⟩
    · exact .inl (hp.tail hc)
    · rw [← h.unique hc hc'] at hp'
      exact ih hp'

/-- The families of two followers of one query have no member in common. -/
theorem disjoint (h : Forest s) (hb : b ∈ s.children a) (hc : c ∈ s.children a) (hne : b ≠ c)
    (hbm : s.Reaches b m) : ¬ s.Reaches c m := by
  have hapart {x y : QueryId} (hx : x ∈ s.children a) (hy : y ∈ s.children a) (hxy : x ≠ y) :
      ¬ s.Reaches x y := by
    intro hr
    rcases Relation.ReflTransGen.cases_tail hr with rfl | ⟨p, hp, hpy⟩
    · exact hxy rfl
    · rw [h.unique hpy hy] at hp
      exact h.not_reaches_back hx hp
  intro hcm
  rcases h.comparable hbm hcm with hr | hr
  · exact hapart hb hc hne hr
  · exact hapart hc hb hne.symm hr

/-- The number of queries is more than the length of any path. -/
theorem shallow (h : Forest s) (id : QueryId) : s.Shallow s.slots.size id := by
  obtain ⟨rank, hrank⟩ := h.ranked
  -- A path from a query goes through queries of ever smaller rank.
  let below (x : QueryId) : Finset Nat :=
    (Finset.range s.slots.size).filter fun i => rank ⟨i⟩ < rank x
  have hlt {x c : QueryId} (hc : c ∈ s.children x) : (below c).card < (below x).card := by
    obtain ⟨q, hq, -⟩ := h.leader x c hc
    have hcx : c.index ∈ below x :=
      Finset.mem_filter.2 ⟨Finset.mem_range.2 (lt_size_of_get? hq), hrank x c hc⟩
    have hcc : c.index ∉ below c := fun hm => Nat.lt_irrefl _ (Finset.mem_filter.1 hm).2
    apply Finset.card_lt_card
    refine (Finset.ssubset_iff_of_subset fun i hi => ?_).2 ⟨c.index, hcx, hcc⟩
    have hi' := Finset.mem_filter.1 hi
    exact Finset.mem_filter.2 ⟨hi'.1, Nat.lt_trans hi'.2 (hrank x c hc)⟩
  have hshallow : ∀ k x, (below x).card ≤ k → s.Shallow k x := by
    intro k
    induction k with
    | zero =>
      intro x hx
      apply List.eq_nil_iff_forall_not_mem.2
      intro c hc
      have := hlt hc
      omega
    | succ k ih =>
      intro x hx c hc
      have := hlt hc
      exact ih c (by omega)
  apply hshallow
  have := Finset.card_filter_le (Finset.range s.slots.size) fun i => rank ⟨i⟩ < rank id
  rwa [Finset.card_range] at this

theorem mem_collectFamily (h : Forest s) : m ∈ s.collectFamily id ↔ s.Reaches id m :=
  (h.shallow id).mem_familyWithin

theorem reaches_iff (h : Forest s) : s.reaches a b = true ↔ s.Reaches a b :=
  (h.shallow a).reachesWithin_iff

theorem collectFamily_eq (h : Forest s) (id : QueryId) :
    s.collectFamily id = id :: (s.children id).flatMap s.collectFamily := by
  have hstep := (h.shallow id).familyWithin_succ
  rw [familyWithin] at hstep
  exact hstep.symm

/-- Families are never out of date. -/
theorem family_eq (h : Forest s) (id : QueryId) : s.family id = s.collectFamily id := by
  unfold family
  cases hd : s.dirty with
  | true => rfl
  | false =>
    simp only [Bool.false_eq_true, if_false]
    cases hf : s.families.find? fun x => x.1 = id with
    | none => rfl
    | some x =>
      have hid : x.1 = id := by simpa using List.find?_some hf
      have hx := List.mem_of_find?_eq_some hf
      rw [h.families hd] at hx
      obtain ⟨a, -, ha⟩ := List.mem_map.1 hx
      rw [← hid, ← ha]

theorem mem_family (h : Forest s) : m ∈ s.family id ↔ s.Reaches id m := by
  rw [h.family_eq, h.mem_collectFamily]

/-- A family is its first query and the families of the followers. -/
theorem family_cons (h : Forest s) (id : QueryId) :
    s.family id = id :: (s.children id).flatMap s.family := by
  rw [h.family_eq, h.collectFamily_eq, funext h.family_eq]

theorem nodup_familyWithin (h : Forest s) (hs : s.Shallow k id) :
    (s.familyWithin k id).Nodup := by
  induction k generalizing id with
  | zero => exact List.nodup_singleton id
  | succ k ih =>
    rw [familyWithin, List.nodup_cons, List.nodup_flatMap]
    refine ⟨?_, fun c hc => ih (hs c hc), ?_⟩
    · intro hm
      obtain ⟨c, hc, hm⟩ := List.mem_flatMap.1 hm
      exact h.not_reaches_back hc ((hs c hc).mem_familyWithin.1 hm)
    · apply List.Pairwise.imp_of_mem ?_ (h.nodup id)
      intro b c hb hc hne m hm hm'
      exact h.disjoint hb hc hne ((hs b hb).mem_familyWithin.1 hm)
        ((hs c hc).mem_familyWithin.1 hm')

theorem nodup_family (h : Forest s) (id : QueryId) : (s.family id).Nodup := by
  rw [h.family_eq]
  exact h.nodup_familyWithin (h.shallow id)

end Forest
end Reporting.QueryStore
