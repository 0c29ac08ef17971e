import Reporting.Proofs.Query.Locality
/-!
The stores that can be built, and that they are forests whatever was done to them before.
-/
namespace Reporting.QueryStore

/-- The stores that adding, joining, removing and moving queries can lead to. -/
inductive Reachable : QueryStore → Prop
  | empty : Reachable {}
  | insert {s s' : QueryStore} (name datasource : String) (t : Table) (e : Option Encoding)
      {id : QueryId} : Reachable s → s.insert (.ofTable name datasource t e) = .ok (s', id) →
      Reachable s'
  | encode {s : QueryStore} (id : QueryId) (e : Option Encoding) : Reachable s →
      Reachable (s.modify id fun q => { q with encoding := e })
  | addFollower {s s' : QueryStore} (leader follower : QueryId) : Reachable s →
      s.addFollower leader follower = .ok s' → Reachable s'
  | addMatched {s s' : QueryStore} (leader follower : QueryId) (condition : Computation) :
      Reachable s → s.addMatched leader follower condition = .ok s' → Reachable s'
  | remove {s s' : QueryStore} {id : QueryId} : Reachable s → s.remove id = .ok s' → Reachable s'
  | finalize {s : QueryStore} : Reachable s → Reachable s.finalize
  | start {s : QueryStore} (id : QueryId) : Reachable s → Reachable (s.start id).1
  | next {s s' : QueryStore} {settings : Settings} {id : QueryId} {more : Bool} : Reachable s →
      s.next settings id = .ok (s', more) → Reachable s'

variable {s s' : QueryStore} {a c m id leader follower : QueryId} {q : Query}

/-! Each operation leads from a forest to a forest -/

theorem forest_empty : Forest {} where
  leader _ c hc := by cases hc
  nodup _ := List.nodup_nil
  ranked := ⟨fun _ => 0, fun _ _ hc => by cases hc⟩
  families _ := rfl

/-- Only the edges matter. -/
theorem Forest.of_edges (h : Forest s) (hc : ∀ a, s'.children a = s.children a)
    (hl : ∀ c q, s.get? c = some q → ∃ q', s'.get? c = some q' ∧ q'.leader = q.leader)
    (hf : s'.dirty = false → s'.families = s'.ids.map fun id => (id, s'.collectFamily id)) :
    Forest s' where
  leader a c hca := by
    rw [hc] at hca
    obtain ⟨q, hq, hqa⟩ := h.leader a c hca
    obtain ⟨q', hq', hl'⟩ := hl c q hq
    exact ⟨q', hq', hl'.trans hqa⟩
  nodup a := by
    rw [hc]
    exact h.nodup a
  ranked := by
    obtain ⟨rank, hrank⟩ := h.ranked
    exact ⟨rank, fun a c hca => hrank a c (hc a ▸ hca)⟩
  families := hf

theorem get?_insert (hs : s.insert q = .ok (s', id)) (m : QueryId) :
    s'.get? m = if m = id then some q else s.get? m := by
  unfold QueryStore.insert at hs
  split at hs
  · cases hs
  · rw [Except.ok.injEq, Prod.mk.injEq] at hs
    obtain ⟨rfl, rfl⟩ := hs
    obtain ⟨j⟩ := m
    simp only [get?, Array.getElem?_push, QueryId.mk.injEq]
    split
    · rfl
    · rfl

/-- An added query comes behind all others. -/
theorem get?_of_insert (hs : s.insert q = .ok (s', id)) : s.get? id = none := by
  unfold QueryStore.insert at hs
  split at hs
  · cases hs
  · rw [Except.ok.injEq, Prod.mk.injEq] at hs
    obtain ⟨-, rfl⟩ := hs
    rw [get?, Array.getElem?_eq_none (Nat.le_refl _)]
    rfl

theorem dirty_insert (hs : s.insert q = .ok (s', id)) : s'.dirty = true := by
  unfold QueryStore.insert at hs
  split at hs
  · cases hs
  · cases hs
    rfl

/-- A query without followers brings no edges. -/
theorem children_insert (hs : s.insert q = .ok (s', id)) (hq : q.children = []) (a : QueryId) :
    s'.children a = s.children a := by
  by_cases ha : a = id
  · subst ha
    simp only [children, get?_insert hs, if_true, get?_of_insert hs, hq]
  · simp only [children, get?_insert hs, if_neg ha]

theorem Forest.insert (h : Forest s) {name datasource : String} {t : Table} {e : Option Encoding}
    (hs : s.insert (.ofTable name datasource t e) = .ok (s', id)) : Forest s' := by
  apply h.of_edges
  · exact children_insert hs rfl
  · intro c q hq
    have hc : c ≠ id := by
      rintro rfl
      rw [get?_of_insert hs] at hq
      cases hq
    exact ⟨q, by rw [get?_insert hs, if_neg hc, hq], rfl⟩
  · intro hd
    rw [dirty_insert hs] at hd
    cases hd

theorem Forest.encode (h : Forest s) (id : QueryId) (e : Option Encoding) :
    Forest (s.modify id fun q => { q with encoding := e }) := by
  have hget (m : QueryId) : (s.modify id fun q => { q with encoding := e }).get? m =
      (s.get? m).map fun q => if id = m then { q with encoding := e } else q := by
    rw [get?_modify]
    split
    · rfl
    · exact Option.map_id.symm ▸ rfl
  have hc (a : QueryId) :
      (s.modify id fun q => { q with encoding := e }).children a = s.children a := by
    simp only [children, hget]
    cases s.get? a with
    | none => rfl
    | some q =>
      simp only [Option.map_some]
      split <;> rfl
  apply h.of_edges hc
  · intro c q hq
    refine ⟨_, by rw [hget, hq, Option.map_some], ?_⟩
    split <;> rfl
  · intro hd
    have hids : (s.modify id fun q => { q with encoding := e }).ids = s.ids := by
      simp only [ids, modify, Array.size_modify]
      apply List.filter_congr
      intro m _
      exact (congrArg Option.isSome (hget m)).trans Option.isSome_map
    have hsize : (s.modify id fun q => { q with encoding := e }).slots.size = s.slots.size := by
      simp only [modify, Array.size_modify]
    rw [hids]
    have hfam (m : QueryId) :
        (s.modify id fun q => { q with encoding := e }).collectFamily m = s.collectFamily m := by
      rw [collectFamily, collectFamily, hsize, familyWithin_of_children_eq hc]
    simp only [hfam]
    exact h.families hd

theorem get?_attach (hne : leader ≠ follower) (f : Query → Query) (m : QueryId) :
    (s.attach leader follower f).get? m =
      if m = follower then (s.get? m).map fun q => { q with leader := some leader }
      else if m = leader then (s.get? m).map f
      else s.get? m := by
  have hget : (s.attach leader follower f).get? m =
      ((s.modify leader f).modify follower fun q => { q with leader := some leader }).get? m := rfl
  rw [hget, get?_modify, get?_modify]
  by_cases hf : follower = m
  · rw [if_pos hf, if_pos hf.symm, if_neg fun hl => hne (hl.trans hf.symm)]
  · have hf' : m ≠ follower := fun h => hf h.symm
    rw [if_neg hf, if_neg hf']
    simp only [eq_comm]

theorem checkFollower_ok (h : s.checkFollower leader follower = .ok ()) :
    leader ≠ follower ∧ s.reaches follower leader = false ∧
      (∃ l, s.get? leader = some l) ∧ ∃ f, s.get? follower = some f ∧ f.leader = none := by
  unfold checkFollower require at h
  cases hl : s.get? leader with
  | none =>
    rw [hl] at h
    cases h
  | some l =>
    cases hf : s.get? follower with
    | none =>
      rw [hl, hf] at h
      cases h
    | some f =>
      rw [hl, hf] at h
      change (if leader = follower then throw .selfFollower
        else if f.leader.isSome then throw (.alreadyFollowing f.name)
        else if s.reaches follower leader || s.reaches leader follower then
          throw (.followerCycle l.name f.name)
        else pure () : Except Error Unit) = .ok () at h
      split at h
      · cases h
      · rename_i hne
        split at h
        · cases h
        · rename_i hfl
          split at h
          · cases h
          · rename_i hr
            simp only [Bool.or_eq_true, not_or, Bool.not_eq_true] at hr
            exact ⟨hne, hr.1, ⟨l, rfl⟩, f, rfl, Option.not_isSome_iff_eq_none.1 hfl⟩

theorem children_attach (hne : leader ≠ follower) (hleader : (s.get? leader).isSome)
    {f : Query → Query} (hf : ∀ q, (f q).children.Perm (follower :: q.children)) (a : QueryId) :
    ((s.attach leader follower f).children a).Perm
      (if a = leader then follower :: s.children a else s.children a) := by
  have hget := get?_attach (s := s) hne f
  by_cases ha : a = leader
  · subst ha
    obtain ⟨q, hq⟩ := Option.isSome_iff_exists.1 hleader
    have hqa : (s.attach a follower f).get? a = some (f q) := by
      rw [hget, if_neg hne, if_pos rfl, hq, Option.map_some]
    rw [if_pos rfl, children_of_get? hqa, children_of_get? hq]
    exact hf q
  · rw [if_neg ha]
    apply List.Perm.of_eq
    by_cases haf : a = follower
    · simp only [children, hget, if_pos haf]
      cases s.get? a <;> rfl
    · simp only [children, hget, if_neg haf, if_neg ha]

theorem mem_children_attach (hne : leader ≠ follower) (hleader : (s.get? leader).isSome)
    {f : Query → Query} (hf : ∀ q, (f q).children.Perm (follower :: q.children)) :
    c ∈ (s.attach leader follower f).children a ↔
      (a = leader ∧ c = follower) ∨ c ∈ s.children a := by
  rw [(children_attach hne hleader hf a).mem_iff]
  split
  · rename_i ha
    rw [List.mem_cons, and_iff_right ha]
  · rename_i ha
    simp only [ha, false_and, false_or]

/-- A query without leader that does not reach another one can follow it. -/
theorem Forest.attach (h : Forest s) (hcheck : s.checkFollower leader follower = .ok ())
    {f : Query → Query} (hf : ∀ q, (f q).children.Perm (follower :: q.children))
    (hl : ∀ q, (f q).leader = q.leader) : Forest (s.attach leader follower f) := by
  obtain ⟨hne, hr, ⟨ql, hql⟩, qf, hqf, hfree⟩ := checkFollower_ok hcheck
  have hget := get?_attach (s := s) hne f
  have hleader : (s.get? leader).isSome := by rw [hql, Option.isSome_some]
  have hmem {a c : QueryId} := (mem_children_attach (a := a) (c := c) hne hleader hf).1
  have horphan (a : QueryId) : follower ∉ s.children a := by
    intro hm
    obtain ⟨q, hq, hqa⟩ := h.leader a follower hm
    obtain rfl : q = qf := Option.some.inj (hq.symm.trans hqf)
    rw [hfree] at hqa
    cases hqa
  constructor
  · intro a c hc
    rcases hmem hc with ⟨rfl, rfl⟩ | hc
    · exact ⟨{ qf with leader := some a }, by rw [hget, if_pos rfl, hqf, Option.map_some], rfl⟩
    · obtain ⟨q, hq, hqa⟩ := h.leader a c hc
      have hcf : c ≠ follower := fun he => horphan a (he ▸ hc)
      by_cases hcl : c = leader
      · exact ⟨f q, by rw [hget, if_neg hcf, if_pos hcl, hq, Option.map_some], (hl q).trans hqa⟩
      · exact ⟨q, by rw [hget, if_neg hcf, if_neg hcl, hq], hqa⟩
  · intro a
    rw [(children_attach hne hleader hf a).nodup_iff]
    split
    · exact List.nodup_cons.2 ⟨horphan a, h.nodup a⟩
    · exact h.nodup a
  · obtain ⟨rank, hrank⟩ := h.ranked
    -- Everything that reaches the leader comes to stand above the follower.
    refine ⟨fun a => if s.reaches a leader then rank a + rank follower + 1 else rank a, ?_⟩
    intro a c hc
    dsimp only
    rcases hmem hc with ⟨rfl, rfl⟩ | hc
    · have ha : s.reaches a a = true := h.reaches_iff.2 (Reaches.refl s a)
      rw [ha, hr, if_pos rfl, if_neg Bool.false_ne_true]
      omega
    · have hlt := hrank a c hc
      by_cases hcl : s.reaches c leader = true
      · have hal : s.reaches a leader = true :=
          h.reaches_iff.2 ((Reaches.child hc).trans (h.reaches_iff.1 hcl))
        rw [if_pos hcl, if_pos hal]
        omega
      · rw [if_neg hcl]
        split <;> omega
  · exact fun hd => Bool.noConfusion hd

/-- The changes of a leader's lists that enter a follower. -/
theorem perm_children_followers (q : Query) (follower : QueryId) :
    ({ q with followers := q.followers ++ [follower] } : Query).children.Perm
      (follower :: q.children) := by
  change (q.followers ++ [follower] ++ q.matchedIds).Perm _
  rw [List.append_assoc]
  exact List.perm_middle

theorem perm_children_matched (q : Query) (follower : QueryId) (condition : Computation) :
    ({ q with matched := q.matched ++ [⟨follower, condition⟩] } : Query).children.Perm
      (follower :: q.children) := by
  simp only [Query.children, Query.matchedIds, List.map_append, List.map_cons, List.map_nil,
    ← List.append_assoc]
  exact List.perm_append_singleton _ _

theorem Forest.addFollower (h : Forest s) (hs : s.addFollower leader follower = .ok s') :
    Forest s' := by
  unfold QueryStore.addFollower at hs
  cases hcheck : s.checkFollower leader follower with
  | error e =>
    rw [hcheck] at hs
    cases hs
  | ok =>
    rw [hcheck] at hs
    cases hs
    exact h.attach hcheck (perm_children_followers · follower) fun _ => rfl

theorem Forest.addMatched (h : Forest s) {condition : Computation}
    (hs : s.addMatched leader follower condition = .ok s') : Forest s' := by
  unfold QueryStore.addMatched at hs
  cases hcheck : s.checkFollower leader follower with
  | error e =>
    rw [hcheck] at hs
    cases hs
  | ok =>
    rw [hcheck] at hs
    cases hs
    exact h.attach hcheck (perm_children_matched · follower condition) fun _ => rfl

theorem get?_remove (hs : s.remove id = .ok s') (m : QueryId) :
    s'.get? m = if m = id then none else (s.get? m).map (·.detach id) := by
  unfold QueryStore.remove at hs
  cases hreq : s.require id with
  | error e =>
    rw [hreq] at hs
    cases hs
  | ok q =>
    rw [hreq] at hs
    cases hs
    obtain ⟨i⟩ := id
    obtain ⟨j⟩ := m
    simp only [get?, Array.getElem?_map, Array.getElem?_setIfInBounds, QueryId.mk.injEq]
    by_cases hij : i = j
    · subst hij
      simp only [if_true]
      split <;> rfl
    · rw [if_neg hij, if_neg fun h => hij h.symm]
      cases s.slots[j]? with
      | none => rfl
      | some o => rfl

theorem dirty_remove (hs : s.remove id = .ok s') : s'.dirty = true := by
  unfold QueryStore.remove at hs
  cases hreq : s.require id with
  | error e =>
    rw [hreq] at hs
    cases hs
  | ok q =>
    rw [hreq] at hs
    cases hs
    rfl

theorem children_remove (hs : s.remove id = .ok s') (a : QueryId) :
    s'.children a = if a = id then [] else (s.children a).filter (· ≠ id) := by
  by_cases ha : a = id
  · simp only [children, get?_remove hs, if_pos ha]
  · simp only [children, get?_remove hs, if_neg ha]
    cases s.get? a with
    | none => rfl
    | some q =>
      simp only [Option.map_some, Query.children, Query.detach, Query.matchedIds,
        List.filter_append, List.filter_map, Function.comp_def]

theorem mem_children_remove (hs : s.remove id = .ok s') :
    c ∈ s'.children a ↔ a ≠ id ∧ c ≠ id ∧ c ∈ s.children a := by
  rw [children_remove hs]
  split
  · rename_i ha
    simp only [List.not_mem_nil, ha, ne_eq, not_true_eq_false, false_and]
  · rename_i ha
    rw [List.mem_filter, decide_eq_true_iff]
    exact ⟨fun h => ⟨ha, h.2, h.1⟩, fun h => ⟨h.2.2, h.2.1⟩⟩

theorem Forest.remove (h : Forest s) (hs : s.remove id = .ok s') : Forest s' := by
  constructor
  · intro a c hc
    obtain ⟨ha, hci, hc⟩ := (mem_children_remove hs).1 hc
    obtain ⟨q, hq, hqa⟩ := h.leader a c hc
    refine ⟨q.detach id, by rw [get?_remove hs, if_neg hci, hq, Option.map_some], ?_⟩
    rw [Query.detach, hqa]
    exact if_neg fun he => ha (Option.some.inj he)
  · intro a
    rw [children_remove hs]
    split
    · exact List.nodup_nil
    · exact (h.nodup a).filter _
  · obtain ⟨rank, hrank⟩ := h.ranked
    exact ⟨rank, fun a c hc => hrank a c ((mem_children_remove hs).1 hc).2.2⟩
  · intro hd
    rw [dirty_remove hs] at hd
    cases hd

theorem Forest.finalize (h : Forest s) : Forest s.finalize := by
  unfold QueryStore.finalize
  split
  · apply h.of_edges
    · exact fun _ => rfl
    · exact fun c q hq => ⟨q, hq, rfl⟩
    · intro _
      apply List.map_congr_left
      intro m _
      rw [Prod.mk.injEq, collectFamily, collectFamily]
      refine ⟨rfl, ?_⟩
      symm
      apply familyWithin_of_children_eq
      intro a
      rfl
  · exact h

theorem get?_finalize (s : QueryStore) (m : QueryId) : s.finalize.get? m = s.get? m := by
  unfold finalize
  split <;> rfl

theorem size_finalize (s : QueryStore) : s.finalize.slots.size = s.slots.size := by
  unfold finalize
  split <;> rfl

theorem Forest.family_finalize (h : Forest s) (m : QueryId) :
    s.finalize.family m = s.family m := by
  have hchildren (a : QueryId) : s.finalize.children a = s.children a := by
    rw [children, children, get?_finalize]
  rw [h.finalize.family_eq, h.family_eq, collectFamily, collectFamily, size_finalize,
    familyWithin_of_children_eq hchildren]

theorem Forest.start (h : Forest s) (id : QueryId) : Forest (s.start id).1 := by
  unfold QueryStore.start
  dsimp only
  split
  · exact h.finalize.of_still (keeps_rewindFamily h.finalize id).still
  · exact h.finalize

/-- Whatever was done to the queries, their leaders and followers form a forest. -/
theorem Reachable.forest (h : Reachable s) : Forest s := by
  induction h with
  | empty => exact forest_empty
  | insert _ _ _ _ _ hs ih => exact ih.insert hs
  | encode id e _ ih => exact ih.encode id e
  | addFollower _ _ _ hs ih => exact ih.addFollower hs
  | addMatched _ _ _ _ hs ih => exact ih.addMatched hs
  | remove _ hs ih => exact ih.remove hs
  | finalize _ ih => exact ih.finalize
  | start id _ ih => exact ih.start id
  | next _ hs ih => exact ih.of_still (keeps_next ih hs).still

end Reporting.QueryStore
