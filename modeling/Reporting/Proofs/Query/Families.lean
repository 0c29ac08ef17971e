import Reporting.Proofs.Query.Arena
/-!
Families after any calls. Whether it is kept from before or collected anew with a stack, the family of
a query is the preorder walk over the edges that were entered and not taken out again.
-/
namespace Reporting

/-! Walks in preorder -/

/-- The walk over the trees below some roots, each query before its followers. -/
inductive Preorder (followers : QueryId → List QueryId) : List QueryId → List QueryId → Prop
  | nil : Preorder followers [] []
  | visit {id : QueryId} {ids below beside : List QueryId} :
      Preorder followers (followers id) below → Preorder followers ids beside →
      Preorder followers (id :: ids) (id :: (below ++ beside))

theorem Preorder.unique {followers : QueryId → List QueryId} {ids members members' : List QueryId}
    (h : Preorder followers ids members) (h' : Preorder followers ids members') :
    members = members' := by
  induction h generalizing members' with
  | nil =>
    cases h'
    rfl
  | visit _ _ ihbelow ihbeside =>
    cases h' with
    | visit hbelow hbeside => rw [ihbelow hbelow, ihbeside hbeside]

/-- The name of a query and its place in the forest. -/
def Query.place (q : Query) : String × Option QueryId × List QueryId × List QueryId :=
  (q.name, q.leader, q.followers, q.matchedIds)

theorem Query.place_of_still {q q' : Query} (h : q'.still = q.still) : q'.place = q.place := by
  rw [place, place, name_of_still h, leader_of_still h, followers_of_still h, matchedIds_of_still h]

namespace QueryStore

variable {s s' : QueryStore} {id m leader follower : QueryId} {q : Query} {k : Nat}
  {ids found stack : List QueryId} {kind : Bool}

/-- Collects a family with a stack; `found` are its members so far, the last one first. -/
def visit (s : QueryStore) (found : List QueryId) : List QueryId → List QueryId
  | [] => found.reverse
  | id :: stack =>
    if id ∈ found then s.visit found stack
    else s.visit (id :: found) (s.children id ++ stack)
termination_by stack => ((s.unseen found).length, stack.length)
decreasing_by
  · exact Prod.Lex.right _ (Nat.lt_succ_self _)
  · rename_i hfound
    rcases unseen_lt (s := s) hfound with hlt | ⟨heq, hnone⟩
    · exact Prod.Lex.left _ _ hlt
    · rw [heq, hnone]
      exact Prod.Lex.right _ (Nat.lt_succ_self _)

/-- In a forest the stack never brings up a query twice. -/
theorem Forest.visit_eq (h : Forest s) (hnodup : (found ++ stack.flatMap s.collectFamily).Nodup) :
    s.visit found stack = found.reverse ++ stack.flatMap s.collectFamily := by
  fun_induction visit s found stack with
  | case1 => simp
  | case2 found id stack hid =>
    have hfresh : id ∉ (id :: stack).flatMap s.collectFamily :=
      List.disjoint_of_nodup_append hnodup hid
    rw [List.flatMap_cons, h.collectFamily_eq] at hfresh
    exact absurd List.mem_cons_self hfresh
  | case3 found id stack hid ih =>
    have hsame : (s.children id ++ stack).flatMap s.collectFamily =
        (s.children id).flatMap s.collectFamily ++ stack.flatMap s.collectFamily :=
      List.flatMap_append
    rw [List.flatMap_cons, h.collectFamily_eq, List.cons_append, ← hsame] at hnodup ⊢
    rw [ih (List.perm_middle.nodup_iff.1 hnodup), List.reverse_cons, List.append_assoc,
      List.singleton_append]

theorem Forest.visit_root (h : Forest s) (id : QueryId) : s.visit [] [id] = s.collectFamily id := by
  have hnodup : (s.collectFamily id).Nodup := h.nodup_familyWithin (h.shallow id)
  rw [h.visit_eq (by simpa using hnodup)]
  simp

/-! Places in the forest -/

/-- The followers of one kind that a query has: those that are matched, or those that go along. -/
def followersOf (s : QueryStore) (kind : Bool) (id : QueryId) : List QueryId :=
  match s.get? id with
  | some q => if kind then q.matchedIds else q.followers
  | none => []

theorem followersOf_of_get? (h : s.get? id = some q) (kind : Bool) :
    s.followersOf kind id = if kind then q.matchedIds else q.followers := by
  rw [followersOf, h]

theorem followersOf_of_none (h : s.get? id = none) (kind : Bool) : s.followersOf kind id = [] := by
  rw [followersOf, h]

theorem children_eq_followersOf (s : QueryStore) (id : QueryId) :
    s.children id = s.followersOf false id ++ s.followersOf true id := by
  cases hq : s.get? id with
  | none =>
    rw [followersOf_of_none hq, followersOf_of_none hq, children, hq]
    rfl
  | some q =>
    rw [followersOf_of_get? hq, followersOf_of_get? hq, children_of_get? hq]
    rfl

/-- Stores that hold the same queries in the same places. -/
def SamePlaces (s s' : QueryStore) : Prop :=
  ∀ m, (s'.get? m).map Query.place = (s.get? m).map Query.place

theorem samePlaces_finalize (s : QueryStore) : s.SamePlaces s.finalize := fun m => by
  rw [get?_finalize]

theorem samePlaces_of_still (h : s'.still = s.still) : s.SamePlaces s' := by
  intro m
  cases hq : s.get? m with
  | some q =>
    obtain ⟨q', hq', hs⟩ := exists_of_still h hq
    rw [hq', Option.map_some, Option.map_some, Query.place_of_still hs]
  | none =>
    have hnone : s'.get? m = none := by
      rw [← Option.not_isSome_iff_eq_none, isSome_of_still h, hq]
      exact Bool.false_ne_true
    rw [hnone]

namespace SamePlaces

theorem trans {s'' : QueryStore} (h : s.SamePlaces s') (h' : s'.SamePlaces s'') :
    s.SamePlaces s'' := fun m => (h' m).trans (h m)

theorem exists_of_get? (h : s.SamePlaces s') (hq : s'.get? m = some q) :
    ∃ p, s.get? m = some p ∧ p.name = q.name ∧ p.leader = q.leader ∧ p.followers = q.followers ∧
      p.matchedIds = q.matchedIds := by
  have hm := h m
  rw [hq, Option.map_some] at hm
  obtain ⟨p, hp, hplace⟩ := Option.map_eq_some_iff.1 hm.symm
  simp only [Query.place, Prod.mk.injEq] at hplace
  exact ⟨p, hp, hplace⟩

theorem symm (h : s.SamePlaces s') : s'.SamePlaces s := fun m => (h m).symm

theorem followersOf_eq (h : s.SamePlaces s') (kind : Bool) (id : QueryId) :
    s'.followersOf kind id = s.followersOf kind id := by
  cases hq : s'.get? id with
  | some q =>
    obtain ⟨p, hp, -, -, hfollowers, hmatched⟩ := h.exists_of_get? hq
    rw [followersOf_of_get? hq, followersOf_of_get? hp, hfollowers, hmatched]
  | none =>
    have hnone : s.get? id = none := by
      have hm := h id
      rw [hq, Option.map_none] at hm
      exact Option.map_eq_none_iff.1 hm.symm
    rw [followersOf_of_none hq, followersOf_of_none hnone]

theorem linked (h : s.SamePlaces s') (hs : s.Linked) (hforest : s'.Forest) : s'.Linked where
  toForest := hforest
  listed b q l hq hl := by
    obtain ⟨p, hp, -, hpl, -⟩ := h.exists_of_get? hq
    rw [children_eq_followersOf, h.followersOf_eq, h.followersOf_eq, ← children_eq_followersOf]
    exact hs.listed b p l hp (hpl.trans hl)
  named a b q q' hq hq' hn := by
    obtain ⟨p, hp, hpn, -⟩ := h.exists_of_get? hq
    obtain ⟨p', hp', hpn', -⟩ := h.exists_of_get? hq'
    exact hs.named a b p p' hp hp' (hpn.trans (hn.trans hpn'.symm))

end SamePlaces

/-! What calls do to the lists of followers -/

theorem followersOf_insert {name datasource : String} {t : Table} {e : Option Encoding}
    (hs : s.insert (.ofTable name datasource t e) = .ok (s', id)) (kind : Bool) (m : QueryId) :
    s'.followersOf kind m = s.followersOf kind m := by
  have hget := get?_insert hs m
  split at hget
  · rename_i hm
    rw [followersOf_of_get? hget, followersOf_of_none (hm ▸ get?_of_insert hs)]
    cases kind <;> rfl
  · unfold followersOf
    rw [hget]

theorem followersOf_attach (hne : leader ≠ follower) (hleader : (s.get? leader).isSome)
    {f : Query → Query} (hfollowers : ∀ q, (f q).followers = if kind then q.followers else q.followers ++ [follower])
    (hmatched : ∀ q, (f q).matchedIds = if kind then q.matchedIds ++ [follower] else q.matchedIds)
    (k : Bool) (m : QueryId) :
    (s.attach leader follower f).followersOf k m =
      s.followersOf k m ++ if kind = k ∧ leader = m then [follower] else [] := by
  have hget := get?_attach (s := s) hne f m
  by_cases hm : m = leader
  · subst hm
    obtain ⟨q, hq⟩ := Option.isSome_iff_exists.1 hleader
    rw [if_neg hne, if_pos rfl, hq, Option.map_some] at hget
    rw [followersOf_of_get? hget, followersOf_of_get? hq, hfollowers, hmatched]
    cases k <;> cases kind <;> simp
  · rw [if_neg fun h => hm h.2.symm, List.append_nil]
    rw [if_neg hm] at hget
    unfold followersOf
    rw [hget]
    by_cases hf : m = follower
    · rw [if_pos hf]
      cases s.get? m <;> rfl
    · rw [if_neg hf]

theorem followersOf_remove (hs : s.remove id = .ok s') (kind : Bool) (m : QueryId) :
    s'.followersOf kind m = if m = id then [] else (s.followersOf kind m).filter (· ≠ id) := by
  have hget := get?_remove hs m
  split at hget
  · rename_i hm
    rw [followersOf_of_none hget, if_pos hm]
  · rename_i hm
    rw [if_neg hm]
    unfold followersOf
    rw [hget]
    cases s.get? m with
    | none => rfl
    | some q =>
      cases kind with
      | false => rfl
      | true => simp [Query.matchedIds, Query.detach, List.filter_map, Function.comp_def]

end QueryStore

/-- An edge of the forest, from when it is entered until one of its ends is removed. -/
structure Edge where
  leader : QueryId
  follower : QueryId
  /-- Whether the rows of the follower are matched with those of its leader. -/
  kind : Bool
  deriving DecidableEq

namespace Edge

variable {edges : List Edge} {id m : QueryId}

/-- The followers of one kind that edges give to a query, in the order of the edges. -/
def followers (edges : List Edge) (kind : Bool) (id : QueryId) : List QueryId :=
  (edges.filter fun e => e.kind = kind ∧ e.leader = id).map (·.follower)

/-- The followers that edges give to a query: those that go along, and then the matched ones. -/
def children (edges : List Edge) (id : QueryId) : List QueryId :=
  followers edges false id ++ followers edges true id

/-- The edges that do not touch a query. -/
def without (edges : List Edge) (id : QueryId) : List Edge :=
  edges.filter fun e => e.leader ≠ id ∧ e.follower ≠ id

theorem followers_concat (edges : List Edge) (e : Edge) (kind : Bool) (id : QueryId) :
    followers (edges ++ [e]) kind id =
      followers edges kind id ++ if e.kind = kind ∧ e.leader = id then [e.follower] else [] := by
  rw [followers, followers, List.filter_append, List.map_append]
  congr 1
  by_cases he : e.kind = kind ∧ e.leader = id
  · rw [if_pos he, List.filter_singleton, decide_eq_true he]
    rfl
  · rw [if_neg he, List.filter_singleton, decide_eq_false he]
    rfl

theorem followers_without (edges : List Edge) (id : QueryId) (kind : Bool) (m : QueryId) :
    followers (without edges id) kind m =
      if m = id then [] else (followers edges kind m).filter (· ≠ id) := by
  rw [followers, followers, without, List.filter_filter]
  split
  · rename_i hm
    rw [List.map_eq_nil_iff, List.filter_eq_nil_iff]
    intro e _ he
    simp only [Bool.and_eq_true, decide_eq_true_eq] at he
    exact he.2.1 (he.1.2.trans hm)
  · rename_i hm
    rw [List.filter_map, List.filter_filter]
    congr 1
    apply List.filter_congr
    intro e _
    rw [Bool.eq_iff_iff]
    simp only [Bool.and_eq_true, decide_eq_true_eq, Function.comp_apply]
    constructor
    · rintro ⟨hkind, -, hfollower⟩
      exact ⟨hfollower, hkind⟩
    · rintro ⟨hfollower, hkind⟩
      exact ⟨hkind, fun hl => hm (hkind.2.symm.trans hl), hfollower⟩

end Edge

/-! Calls -/

/-- What a command that succeeds makes of the edges. -/
def Command.enter (edges : List Edge) : Command → List Edge
  | insert .. => edges
  | addFollower leader follower => edges ++ [⟨leader, follower, false⟩]
  | addMatched leader follower _ => edges ++ [⟨leader, follower, true⟩]
  | remove id => Edge.without edges id

/-- A store whose queries have the followers that the edges give to them, in this order. -/
def QueryStore.Follows (s : QueryStore) (edges : List Edge) : Prop :=
  ∀ kind id, s.followersOf kind id = Edge.followers edges kind id

namespace QueryStore.Follows

variable {s s' : QueryStore} {edges : List Edge} {leader follower : QueryId}

theorem of_samePlaces (h : s.Follows edges) (hs : s.SamePlaces s') : s'.Follows edges :=
  fun kind id => (hs.followersOf_eq kind id).trans (h kind id)

theorem attach (h : s.Follows edges) (hs : s.Linked)
    (hcheck : s.checkFollower leader follower = .ok ()) {kind : Bool} {f : Query → Query}
    (hfollowers : ∀ q, (f q).followers = if kind then q.followers else q.followers ++ [follower])
    (hmatched : ∀ q, (f q).matchedIds = if kind then q.matchedIds ++ [follower] else q.matchedIds) :
    (s.attach leader follower f).Follows (edges ++ [⟨leader, follower, kind⟩]) := by
  have hmay := hs.checkFollower_iff.1 hcheck
  intro k m
  rw [followersOf_attach hmay.ne hmay.leads hfollowers hmatched, Edge.followers_concat, h k m]

/-- A command that succeeds changes the lists of followers as it changes the edges. -/
theorem enter (h : s.Follows edges) (hs : s.Linked) {c : Command} (hc : c.onStore s = .ok s') :
    s'.Follows (c.enter edges) := by
  cases c with
  | insert name datasource t e =>
    rw [Command.onStore] at hc
    cases hinsert : s.insert (.ofTable name datasource t e) with
    | error e => rw [hinsert] at hc; cases hc
    | ok r =>
      rw [hinsert] at hc
      cases hc
      exact fun kind id => (followersOf_insert hinsert kind id).trans (h kind id)
  | addFollower leader follower =>
    rw [Command.onStore, addFollower] at hc
    cases hcheck : s.checkFollower leader follower with
    | error e => rw [hcheck] at hc; cases hc
    | ok =>
      rw [hcheck] at hc
      cases hc
      exact h.attach hs hcheck (fun _ => rfl) fun _ => rfl
  | addMatched leader follower condition =>
    rw [Command.onStore, addMatched] at hc
    cases hcheck : s.checkFollower leader follower with
    | error e => rw [hcheck] at hc; cases hc
    | ok =>
      rw [hcheck] at hc
      cases hc
      exact h.attach hs hcheck (fun _ => rfl) fun _ => List.map_append
  | remove id =>
    intro kind m
    rw [followersOf_remove hc, h kind m]
    exact (Edge.followers_without edges id kind m).symm

end QueryStore.Follows

namespace Arena

variable {a : Arena} {id : QueryId}

/-- Collects all families anew if the forest has changed. -/
def finalize : Call Unit := modify fun a =>
  if a.store.dirty then
    let families := a.store.ids.map fun id => (id, a.store.visit [] [id])
    { a with store := { a.store with families, dirty := false } }
  else a

/-- Goes to the start of a query and all that follows it. -/
def start (id : QueryId) : Call Unit := do
  finalize
  let _ ← require id
  modify fun a => { a with store := a.store.rewindFamily id }

/-- Produces the next row of a query and all that follows it, and tells whether there is one. -/
def next (settings : Settings) (id : QueryId) : Call Bool := do
  let a ← get
  match a.store.next settings id with
  | .ok (store, produced) =>
    set { a with store }
    return produced
  | .error e => throw e

theorem perform_finalize (h : a.store.Forest) :
    perform finalize a = (.ok (), { a with store := a.store.finalize }) := by
  have hfamilies : (a.store.ids.map fun id => (id, a.store.visit [] [id])) =
      a.store.ids.map fun id => (id, a.store.collectFamily id) :=
    List.map_congr_left fun id _ => by rw [h.visit_root]
  change (Except.ok (), if _ then _ else _) = _
  rw [hfamilies, QueryStore.finalize]
  split <;> rfl

theorem perform_start (h : a.store.Forest) (id : QueryId) :
    perform (start id) a = ((a.store.start id).2, { a with store := (a.store.start id).1 }) := by
  unfold start QueryStore.start
  rw [perform_bind, perform_finalize h]
  dsimp only
  rw [perform_bind, perform_require, QueryStore.require]
  cases a.store.finalize.get? id with
  | none => rfl
  | some q => rfl

theorem perform_next (settings : Settings) (id : QueryId) (a : Arena) :
    perform (next settings id) a = a.outcome
      ((a.store.next settings id).map fun (store, produced) => (produced, { a with store })) := by
  have hget : perform (get : Call Arena) a = (.ok a, a) := rfl
  rw [next, perform_bind, hget]
  dsimp only
  cases a.store.next settings id with
  | error e => rfl
  | ok r => rfl

theorem Sound.of_samePlaces (h : a.Sound) {s : QueryStore} (hs : a.store.SamePlaces s)
    (hforest : s.Forest) : Sound { a with store := s } where
  linked := hs.linked h.linked hforest
  names name id := by
    rw [h.names]
    constructor
    · rintro ⟨q, hq, hn⟩
      obtain ⟨p, hp, hpn, -⟩ := hs.symm.exists_of_get? hq
      exact ⟨p, hp, hpn.trans hn⟩
    · rintro ⟨q, hq, hn⟩
      obtain ⟨p, hp, hpn, -⟩ := hs.exists_of_get? hq
      exact ⟨p, hp, hpn.trans hn⟩

end Arena

/-- All calls on the queries: those that change them, and those that go through their rows. -/
inductive Move
  | change (c : Command)
  | finalize
  | start (id : QueryId)
  | next (settings : Settings) (id : QueryId)

namespace Move

def call : Move → Arena.Call Unit
  | change c => c.call
  | finalize => Arena.finalize
  | start id => Arena.start id
  | next settings id => do let _ ← Arena.next settings id

/-- What a call that succeeds makes of the edges. -/
def enter (edges : List Edge) : Move → List Edge
  | change c => c.enter edges
  | _ => edges

/-- The queries and the edges that calls leave behind. -/
structure Left where
  arena : Arena := {}
  edges : List Edge := []

/-- What a call leaves behind. One that fails enters no edge, but what it has done stays done. -/
def Left.leave (l : Left) (m : Move) : Left :=
  match Arena.perform m.call l.arena with
  | (.ok _, arena) => ⟨arena, m.enter l.edges⟩
  | (.error _, arena) => ⟨arena, l.edges⟩

def after (moves : List Move) : Left := moves.foldl Left.leave {}

/-- The forest that is stored is the one that the edges make. -/
structure Left.Sound (l : Left) : Prop where
  arena : l.arena.Sound
  follows : l.arena.store.Follows l.edges

variable {l : Left}

theorem Left.Sound.of_samePlaces (h : l.Sound) {s : QueryStore} (hs : l.arena.store.SamePlaces s)
    (hforest : s.Forest) : Left.Sound ⟨{ l.arena with store := s }, l.edges⟩ :=
  ⟨h.arena.of_samePlaces hs hforest, h.follows.of_samePlaces hs⟩

/-- Each call keeps the two forests the same. -/
theorem Left.Sound.leave (h : l.Sound) (m : Move) : (l.leave m).Sound := by
  have hforest := h.arena.linked.toForest
  unfold Left.leave
  cases m with
  | change c =>
    obtain ⟨names, hrun, hsound⟩ := Arena.perform_call h.arena c
    rw [call, hrun]
    cases hc : c.onStore l.arena.store with
    | error e => exact h
    | ok s => exact ⟨hsound s hc, h.follows.enter h.arena.linked hc⟩
  | finalize =>
    rw [call, Arena.perform_finalize hforest]
    exact h.of_samePlaces (QueryStore.samePlaces_finalize _) hforest.finalize
  | start id =>
    have hstart : Left.Sound ⟨{ l.arena with store := (l.arena.store.start id).1 }, l.edges⟩ := by
      apply h.of_samePlaces ?_ (hforest.start id)
      unfold QueryStore.start
      dsimp only
      split
      · exact (QueryStore.samePlaces_finalize _).trans (QueryStore.samePlaces_of_still
          (QueryStore.keeps_rewindFamily hforest.finalize id).still)
      · exact QueryStore.samePlaces_finalize _
    rw [call, Arena.perform_start hforest]
    cases (l.arena.store.start id).2 with
    | ok => exact hstart
    | error e => exact hstart
  | next settings id =>
    have hrun : Arena.perform (call (next settings id)) l.arena =
        l.arena.outcome ((l.arena.store.next settings id).map fun (store, _) =>
          ((), { l.arena with store })) := by
      rw [call, Arena.perform_bind, Arena.perform_next]
      cases l.arena.store.next settings id with
      | error e => rfl
      | ok r => rfl
    rw [hrun]
    cases hnext : l.arena.store.next settings id with
    | error e => exact h
    | ok r =>
      have hstill := (QueryStore.keeps_next hforest hnext).still
      exact h.of_samePlaces (QueryStore.samePlaces_of_still hstill) (hforest.of_still hstill)

end Move
end Reporting
