import Reporting.Proofs.Query.Forest
import Reporting.Proofs.Expr.Memory
/-!
What going through rows leaves as it is: the tables, the forest and the conditions of all queries.
-/
namespace Reporting

def Matched.forget (m : Matched) : Matched := { m with condition := m.condition.forget }

/-- A query at its start, with conditions that remember nothing. -/
def Query.still (q : Query) : Query := { q.rewind with matched := q.matched.map .forget }

namespace Query

variable {q q' : Query}

theorem reset_blank (c : Column) : c.blank.reset = c.reset := rfl

theorem reset_commit (c : Column) : c.commit.reset = c.reset := rfl

theorem reset_reset (c : Column) : c.reset.reset = c.reset := rfl

theorem reset_setBytes (c : Column) (b : Option (List Nat)) (e : Option Encoding) (co : Coercion) :
    (c.setBytes b e co).reset = c.reset := rfl

theorem still_of_columns (columns : List Column) (h : columns.map Column.reset = q.columns.map Column.reset) :
    { q with columns }.still = q.still := by
  simp only [still, rewind, h]

@[simp] theorem still_blank (q : Query) : q.blank.still = q.still := by
  apply still_of_columns
  simp only [List.map_map, Function.comp_def, reset_blank]

@[simp] theorem still_commit (q : Query) : q.commit.still = q.still := by
  simp only [still, rewind, commit, List.map_map, Function.comp_def, reset_commit]

@[simp] theorem still_rewind (q : Query) : q.rewind.still = q.still := by
  simp only [still, rewind, List.map_map, Function.comp_def, reset_reset]

@[simp] theorem still_readRow (q : Query) (co : Coercion) : (q.readRow co).still = q.still := by
  unfold readRow
  split
  · exact still_blank q
  · apply still_of_columns
    apply List.ext_getElem?
    intro i
    simp only [List.getElem?_map, List.getElem?_mapIdx, Option.map_map, Function.comp_def,
      reset_setBytes]

@[simp] theorem still_position (q : Query) (n : Nat) : { q with position := n }.still = q.still := rfl

@[simp] theorem still_row (q : Query) (n : Nat) (t : Tracked) :
    { q with row := n, rowNumber := t }.still = q.still := rfl

@[simp] theorem still_combining (q : Query) (b : Bool) :
    { q with combining := b }.still = q.still := rfl

@[simp] theorem still_advance (q : Query) (co : Coercion) : (q.advance co).1.still = q.still := by
  unfold advance
  by_cases hp : q.position ≤ q.table.rowCount
  · simp only [if_pos hp]
    split <;> exact still_readRow _ co
  · simp only [if_neg hp]
    split <;> exact still_readRow _ co

theorem still_matched (ms : List Matched) (h : ms.map Matched.forget = q.matched.map Matched.forget) :
    { q with matched := ms }.still = q.still := by
  simp only [still, rewind, h]

theorem table_of_still (h : q'.still = q.still) : q'.table = q.table := by
  change q'.still.table = q.still.table
  rw [h]

theorem encoding_of_still (h : q'.still = q.still) : q'.encoding = q.encoding := by
  change q'.still.encoding = q.still.encoding
  rw [h]

theorem name_of_still (h : q'.still = q.still) : q'.name = q.name := by
  change q'.still.name = q.still.name
  rw [h]

theorem leader_of_still (h : q'.still = q.still) : q'.leader = q.leader := by
  change q'.still.leader = q.still.leader
  rw [h]

theorem followers_of_still (h : q'.still = q.still) : q'.followers = q.followers := by
  change q'.still.followers = q.still.followers
  rw [h]

theorem conditions_of_still (h : q'.still = q.still) :
    q'.matched.map Matched.forget = q.matched.map Matched.forget := by
  change q'.still.matched = q.still.matched
  rw [h]

theorem matchedIds_of_still (h : q'.still = q.still) : q'.matchedIds = q.matchedIds := by
  have hm := congrArg (List.map Matched.query) (conditions_of_still h)
  rw [List.map_map, List.map_map] at hm
  exact hm

theorem children_of_still (h : q'.still = q.still) : q'.children = q.children := by
  rw [children, children, followers_of_still h, matchedIds_of_still h]

end Query

namespace QueryStore

variable {s s' s'' : QueryStore} {a b c m id : QueryId} {q : Query} {k : Nat}

/-- A store whose queries are all at their start and remember nothing. -/
def still (s : QueryStore) : QueryStore := { s with slots := s.slots.map (Option.map .still) }

theorem get?_still (s : QueryStore) (id : QueryId) : s.still.get? id = (s.get? id).map .still := by
  simp only [get?, still, Array.getElem?_map]
  cases s.slots[id.index]? with
  | none => rfl
  | some o => rfl

theorem still_modify {f : Query → Query} (hf : ∀ q, s.get? id = some q → (f q).still = q.still) :
    (s.modify id f).still = s.still := by
  simp only [still, modify, QueryStore.mk.injEq, and_self, and_true]
  apply Array.ext_getElem?
  intro i
  simp only [Array.getElem?_map, Array.getElem?_modify]
  split
  · rename_i hi
    cases ho : s.slots[i]? with
    | none => rfl
    | some o =>
      cases o with
      | none => rfl
      | some q =>
        have hq : s.get? id = some q := by rw [get?, hi, ho]; rfl
        simp only [Option.map_some, hf q hq]
  · rfl

/-! What is the same in stores that are still the same -/

theorem exists_of_still (h : s'.still = s.still) (hq : s.get? id = some q) :
    ∃ q', s'.get? id = some q' ∧ q'.still = q.still := by
  have he : (s'.get? id).map Query.still = (s.get? id).map Query.still := by
    rw [← get?_still, h, get?_still]
  rw [hq, Option.map_some] at he
  exact Option.map_eq_some_iff.1 he

theorem isSome_of_still (h : s'.still = s.still) : (s'.get? id).isSome = (s.get? id).isSome := by
  rw [← Option.isSome_map (f := Query.still), ← get?_still, h, get?_still, Option.isSome_map]

theorem size_of_still (h : s'.still = s.still) : s'.slots.size = s.slots.size := by
  have hs := congrArg (fun s => s.slots.size) h
  simpa only [still, Array.size_map] using hs

theorem children_of_still (h : s'.still = s.still) (a : QueryId) :
    s'.children a = s.children a := by
  cases hq : s.get? a with
  | some q =>
    obtain ⟨q', hq', hs⟩ := exists_of_still h hq
    rw [children_of_get? hq, children_of_get? hq', Query.children_of_still hs]
  | none =>
    have hn : s'.get? a = none := by
      rw [← Option.not_isSome_iff_eq_none, isSome_of_still h, hq]
      exact Bool.false_ne_true
    simp only [children, hq, hn]

theorem matchedIds_of_still (h : s'.still = s.still) (a : QueryId) :
    s'.matchedIds a = s.matchedIds a := by
  cases hq : s.get? a with
  | some q =>
    obtain ⟨q', hq', hs⟩ := exists_of_still h hq
    simp only [matchedIds, hq, hq', Query.matchedIds_of_still hs]
  | none =>
    have hn : s'.get? a = none := by
      rw [← Option.not_isSome_iff_eq_none, isSome_of_still h, hq]
      exact Bool.false_ne_true
    simp only [matchedIds, hq, hn]

theorem reaches_of_still (h : s'.still = s.still) : s'.Reaches a b ↔ s.Reaches a b :=
  reaches_of_children_eq (children_of_still h)

theorem ids_of_still (h : s'.still = s.still) : s'.ids = s.ids := by
  simp only [ids, size_of_still h, isSome_of_still h]

theorem collectFamily_of_still (h : s'.still = s.still) (id : QueryId) :
    s'.collectFamily id = s.collectFamily id := by
  rw [collectFamily, collectFamily, size_of_still h, familyWithin_of_children_eq (children_of_still h)]

theorem family_of_still (h : s'.still = s.still) (id : QueryId) : s'.family id = s.family id := by
  have hd : s'.dirty = s.dirty := congrArg (fun s => s.dirty) h
  have hf : s'.families = s.families := congrArg (fun s => s.families) h
  rw [family, family, hd, hf, collectFamily_of_still h]

theorem Forest.of_still (h : Forest s) (hs : s'.still = s.still) : Forest s' where
  leader a c hc := by
    rw [children_of_still hs] at hc
    obtain ⟨q, hq, hl⟩ := h.leader a c hc
    obtain ⟨q', hq', hs'⟩ := exists_of_still hs hq
    exact ⟨q', hq', (Query.leader_of_still hs').trans hl⟩
  nodup a := by
    rw [children_of_still hs]
    exact h.nodup a
  ranked := by
    obtain ⟨rank, hrank⟩ := h.ranked
    exact ⟨rank, fun a c hc => hrank a c (children_of_still hs a ▸ hc)⟩
  families hd := by
    have hd' : s.dirty = false := by
      rw [← hd]
      exact (congrArg (fun s => s.dirty) hs).symm
    have hf : s'.families = s.families := congrArg (fun s => s.families) hs
    rw [hf, h.families hd', ids_of_still hs, funext (collectFamily_of_still hs)]

theorem mem_children_of_matchedIds (h : c ∈ s.matchedIds a) : c ∈ s.children a := by
  unfold matchedIds at h
  split at h
  · rename_i q hq
    rw [children_of_get? hq]
    exact List.mem_append_right _ h
  · cases h

end QueryStore
end Reporting
