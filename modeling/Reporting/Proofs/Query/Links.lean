import Reporting.Proofs.Query.Reachable
/-!
Edges from both ends: each query stands in the lists of its leader, names are unique, and the check
for a new edge accepts exactly what keeps the queries a forest.
-/
namespace Reporting.QueryStore

variable {s s' : QueryStore} {a b c l m id leader follower : QueryId} {q q' : Query} {name : String}

/-- A forest whose edges are entered on both sides, of queries with different names. -/
structure Linked (s : QueryStore) : Prop extends Forest s where
  listed : ∀ b q l, s.get? b = some q → q.leader = some l → b ∈ s.children l
  named : ∀ a b q q', s.get? a = some q → s.get? b = some q' → q.name = q'.name → a = b

namespace Linked

/-- A name leads to the one query of that name. -/
theorem idOf?_eq_some (h : Linked s) :
    s.idOf? name = some id ↔ ∃ q, s.get? id = some q ∧ q.name = name := by
  have hfound {m : QueryId} (hm : s.idOf? name = some m) :
      ∃ q, s.get? m = some q ∧ q.name = name := by
    have ha := List.find?_some hm
    rw [Option.any_eq_true] at ha
    obtain ⟨q, hq, hn⟩ := ha
    exact ⟨q, hq, of_decide_eq_true hn⟩
  constructor
  · exact hfound
  · rintro ⟨q, hq, hn⟩
    have hsome : (s.idOf? name).isSome := by
      rw [idOf?, List.find?_isSome]
      refine ⟨id, mem_ids.2 (by rw [hq, Option.isSome_some]), ?_⟩
      rw [hq, Option.any_some, hn, decide_eq_true rfl]
    obtain ⟨m, hm⟩ := Option.isSome_iff_exists.1 hsome
    obtain ⟨q', hq', hn'⟩ := hfound hm
    rw [hm, h.named m id q' q hq' hq (hn'.trans hn.symm)]

theorem empty : Linked {} where
  toForest := forest_empty
  listed _ _ _ hq _ := by cases hq
  named _ _ _ _ hq _ _ := by cases hq

theorem insert (h : Linked s) {name datasource : String} {t : Table} {e : Option Encoding}
    (hs : s.insert (.ofTable name datasource t e) = .ok (s', id)) : Linked s' where
  toForest := h.toForest.insert hs
  listed b q l hq hl := by
    rw [get?_insert hs] at hq
    rw [children_insert hs rfl]
    split at hq
    · cases hq
      cases hl
    · exact h.listed b q l hq hl
  named a b q q' hq hq' hn := by
    have hnew : s.idOf? name = none := by
      unfold QueryStore.insert at hs
      split at hs
      · cases hs
      · rename_i hi
        exact Option.not_isSome_iff_eq_none.1 hi
    have hother {m : QueryId} {p : Query} (hp : s.get? m = some p) : p.name ≠ name := by
      intro hpn
      rw [h.idOf?_eq_some.2 ⟨p, hp, hpn⟩] at hnew
      cases hnew
    rw [get?_insert hs] at hq hq'
    split at hq <;> split at hq'
    · rename_i ha hb
      exact ha.trans hb.symm
    · cases hq
      exact absurd hn.symm (hother hq')
    · cases hq'
      exact absurd hn (hother hq)
    · exact h.named a b q q' hq hq' hn

theorem attach (h : Linked s) (hcheck : s.checkFollower leader follower = .ok ())
    {f : Query → Query} (hf : ∀ q, (f q).children.Perm (follower :: q.children))
    (hl : ∀ q, (f q).leader = q.leader) (hn : ∀ q, (f q).name = q.name) :
    Linked (s.attach leader follower f) := by
  obtain ⟨hne, -, ⟨ql, hql⟩, -⟩ := checkFollower_ok hcheck
  have hleader : (s.get? leader).isSome := by rw [hql, Option.isSome_some]
  have hget := get?_attach (s := s) hne f
  -- The follower gets a leader, and nothing else of a query is read here.
  have hold {m : QueryId} {p : Query} (hp : (s.attach leader follower f).get? m = some p) :
      ∃ p', s.get? m = some p' ∧ p.name = p'.name ∧
        p.leader = if m = follower then some leader else p'.leader := by
    rw [hget] at hp
    split at hp
    · rename_i hm
      obtain ⟨p', hp', rfl⟩ := Option.map_eq_some_iff.1 hp
      exact ⟨p', hp', rfl, (if_pos hm).symm⟩
    · rename_i hm
      split at hp
      · obtain ⟨p', hp', rfl⟩ := Option.map_eq_some_iff.1 hp
        exact ⟨p', hp', hn p', (hl p').trans (if_neg hm).symm⟩
      · exact ⟨p, hp, rfl, (if_neg hm).symm⟩
  constructor
  · exact h.toForest.attach hcheck hf hl
  · intro b q l hq hbl
    obtain ⟨p, hp, -, hpl⟩ := hold hq
    rw [mem_children_attach hne hleader hf]
    rw [hpl] at hbl
    split at hbl
    · rename_i hb
      exact .inl ⟨(Option.some.inj hbl).symm, hb⟩
    · exact .inr (h.listed b p l hp hbl)
  · intro a b q q' hq hq' hqq
    obtain ⟨p, hp, hpn, -⟩ := hold hq
    obtain ⟨p', hp', hpn', -⟩ := hold hq'
    exact h.named a b p p' hp hp' (hpn.symm.trans (hqq.trans hpn'))

theorem remove (h : Linked s) (hs : s.remove id = .ok s') : Linked s' := by
  have hold {m : QueryId} {p : Query} (hp : s'.get? m = some p) :
      m ≠ id ∧ ∃ p', s.get? m = some p' ∧ p = p'.detach id := by
    rw [get?_remove hs] at hp
    split at hp
    · cases hp
    · rename_i hm
      obtain ⟨p', hp', rfl⟩ := Option.map_eq_some_iff.1 hp
      exact ⟨hm, p', hp', rfl⟩
  constructor
  · exact h.toForest.remove hs
  · intro b q l hq hbl
    obtain ⟨hb, p, hp, rfl⟩ := hold hq
    change (if p.leader = some id then none else p.leader) = some l at hbl
    split at hbl
    · cases hbl
    · rename_i hi
      exact (mem_children_remove hs).2
        ⟨fun hl => hi (hl ▸ hbl), hb, h.listed b p l hp hbl⟩
  · intro a b q q' hq hq' hqq
    obtain ⟨-, p, hp, rfl⟩ := hold hq
    obtain ⟨-, p', hp', rfl⟩ := hold hq'
    exact h.named a b p p' hp hp' hqq

end Linked

/-! What the check for a new edge accepts -/

/-- Both queries exist and differ, the follower has no leader, and the new edge closes no circle. -/
structure MayFollow (s : QueryStore) (leader follower : QueryId) : Prop where
  leads : (s.get? leader).isSome
  follows : (s.get? follower).isSome
  ne : leader ≠ follower
  free : ∀ q, s.get? follower = some q → q.leader = none
  apart : ¬ s.Reaches follower leader

/-- The check for a circle looks in both directions. The second one never refuses anything: what
a query reaches over an edge has a leader. -/
theorem Forest.checkFollower_iff (h : Forest s) :
    s.checkFollower leader follower = .ok () ↔ s.MayFollow leader follower := by
  constructor
  · intro hcheck
    obtain ⟨hne, hr, ⟨ql, hql⟩, qf, hqf, hfree⟩ := checkFollower_ok hcheck
    refine ⟨by rw [hql, Option.isSome_some], by rw [hqf, Option.isSome_some], hne, ?_, ?_⟩
    · intro q hq
      obtain rfl : q = qf := Option.some.inj (hq.symm.trans hqf)
      exact hfree
    · rw [← h.reaches_iff, hr]
      exact Bool.false_ne_true
  · rintro ⟨hleader, hfollower, hne, hfree, hapart⟩
    obtain ⟨ql, hql⟩ := Option.isSome_iff_exists.1 hleader
    obtain ⟨qf, hqf⟩ := Option.isSome_iff_exists.1 hfollower
    have hforth : s.reaches follower leader = false := by
      rw [← Bool.not_eq_true, h.reaches_iff]
      exact hapart
    have hback : s.reaches leader follower = false := by
      rw [← Bool.not_eq_true, h.reaches_iff]
      intro hr
      rcases Relation.ReflTransGen.cases_tail hr with he | ⟨p, -, hp⟩
      · exact hne he.symm
      · obtain ⟨q, hq, hql⟩ := h.leader p follower hp
        rw [hfree q hq] at hql
        cases hql
    have hnone : qf.leader.isSome = false := by rw [hfree qf hqf, Option.isSome_none]
    simp only [checkFollower, require, hql, hqf, bind, Except.bind, if_neg hne, hnone,
      hforth, hback, Bool.or_self, Bool.false_eq_true, if_false, pure, Except.pure]

end Reporting.QueryStore
