import Reporting.Proofs.Query.Links
/-!
The store changed in place: names are kept in a map, circles are looked for with a stack and the
queries seen so far, and what a call has done before it fails stays done. Each call turns out to do
what the operation on stores does, or nothing at all.
-/
namespace Reporting

/-! A search that visits each query once -/

namespace QueryStore

variable {s : QueryStore} {a b c l m id target leader follower : QueryId} {q : Query}
  {seen stack : List QueryId}

/-- The queries that were not seen yet. -/
def unseen (s : QueryStore) (seen : List QueryId) : List QueryId :=
  s.ids.filter fun id => id ∉ seen

theorem unseen_cons (s : QueryStore) (id : QueryId) (seen : List QueryId) :
    s.unseen (id :: seen) = (s.unseen seen).filter (· ≠ id) := by
  simp only [unseen, List.filter_filter, List.mem_cons, not_or, Bool.decide_and, ne_eq,
    decide_not]

/-- Each new query either is one less to see or has no followers. -/
theorem unseen_lt (h : id ∉ seen) :
    (s.unseen (id :: seen)).length < (s.unseen seen).length ∨
      (s.unseen (id :: seen)).length = (s.unseen seen).length ∧ s.children id = [] := by
  rw [unseen_cons]
  by_cases hid : id ∈ s.ids
  · apply Or.inl
    rw [List.length_filter_lt_length_iff_exists]
    exact ⟨id, List.mem_filter.2 ⟨hid, decide_eq_true h⟩, by simp⟩
  · apply Or.inr
    constructor
    · congr 1
      apply List.filter_eq_self.2
      intro x hx
      apply decide_eq_true
      rintro rfl
      exact hid (List.mem_filter.1 hx).1
    · rw [mem_ids, Option.not_isSome_iff_eq_none] at hid
      simp only [children, hid]

/-- Follows the queries of a stack to their followers until the target comes up. -/
def search (s : QueryStore) (target : QueryId) (seen : List QueryId) : List QueryId → Bool
  | [] => false
  | id :: stack =>
    if id = target then true
    else if id ∈ seen then s.search target seen stack
    else s.search target (id :: seen) ((s.children id).reverse ++ stack)
termination_by stack => ((s.unseen seen).length, stack.length)
decreasing_by
  · exact Prod.Lex.right _ (Nat.lt_succ_self _)
  · rename_i _ hseen
    rcases unseen_lt (s := s) hseen with hlt | ⟨heq, hnone⟩
    · exact Prod.Lex.left _ _ hlt
    · rw [heq, hnone]
      exact Prod.Lex.right _ (Nat.lt_succ_self _)

/-- What was seen is not the target, and its followers were seen too or wait on the stack. -/
structure Explored (s : QueryStore) (target : QueryId) (seen stack : List QueryId) : Prop where
  apart : target ∉ seen
  closed : ∀ x ∈ seen, ∀ c ∈ s.children x, c ∈ seen ∨ c ∈ stack

/-- A path from a query that was seen leads over the stack. -/
theorem Explored.through (h : s.Explored target seen stack) (hb : b ∈ seen)
    (hr : s.Reaches b target) : ∃ x ∈ stack, s.Reaches x target := by
  induction hr using Relation.ReflTransGen.head_induction_on with
  | refl => exact absurd hb h.apart
  | head hc hr ih =>
    rcases h.closed _ hb _ hc with hc | hc
    · exact ih hc
    · exact ⟨_, hc, hr⟩

/-- The search finds what is reached from the stack. -/
theorem Explored.search_iff (h : s.Explored target seen stack) :
    s.search target seen stack = true ↔ ∃ x ∈ stack, s.Reaches x target := by
  fun_induction search s target seen stack with
  | case1 => simp
  | case2 seen stack => exact ⟨fun _ => ⟨target, by simp, Reaches.refl s target⟩, fun _ => rfl⟩
  | case3 seen id stack hne hid ih =>
    have h' : s.Explored target seen stack := by
      refine ⟨h.apart, fun x hx c hc => ?_⟩
      rcases h.closed x hx c hc with hc' | hc'
      · exact .inl hc'
      · rcases List.mem_cons.1 hc' with rfl | hc'
        · exact .inl hid
        · exact .inr hc'
    rw [ih h']
    constructor
    · rintro ⟨x, hx, hr⟩
      exact ⟨x, List.mem_cons_of_mem _ hx, hr⟩
    · rintro ⟨x, hx, hr⟩
      rcases List.mem_cons.1 hx with rfl | hx
      · exact h'.through hid hr
      · exact ⟨x, hx, hr⟩
  | case4 seen id stack hne hid ih =>
    have h' : s.Explored target (id :: seen) ((s.children id).reverse ++ stack) := by
      constructor
      · rw [List.mem_cons, not_or]
        exact ⟨fun he => hne he.symm, h.apart⟩
      · intro x hx c hc
        rcases List.mem_cons.1 hx with rfl | hx
        · exact .inr (List.mem_append_left _ (List.mem_reverse.2 hc))
        · rcases h.closed x hx c hc with hc' | hc'
          · exact .inl (List.mem_cons_of_mem _ hc')
          · rcases List.mem_cons.1 hc' with rfl | hc'
            · exact .inl List.mem_cons_self
            · exact .inr (List.mem_append_right _ hc')
    rw [ih h']
    simp only [List.mem_append, List.mem_reverse, List.mem_cons, or_and_right, exists_or,
      exists_eq_left]
    apply or_congr_left
    rw [reaches_iff, or_iff_right hne]

/-- On a forest the search gives what `reaches` gives. -/
theorem Forest.search_eq (h : Forest s) : s.search b [] [a] = s.reaches a b := by
  have hexplored : s.Explored b [] [a] := ⟨List.not_mem_nil, fun _ hx => nomatch hx⟩
  rw [Bool.eq_iff_iff, hexplored.search_iff, h.reaches_iff]
  simp only [List.mem_singleton, exists_eq_left]

end QueryStore

/-- The store with a map of the names of its queries. -/
structure Arena where
  store : QueryStore := {}
  names : List (String × QueryId) := []

namespace Arena

/-- A call that changes the queries in several steps. What was done before a failure stays done. -/
abbrev Call (α : Type) := ExceptT Error (StateM Arena) α

def require (id : QueryId) : Call Query := do
  match (← get).store.get? id with
  | some q => return q
  | none => throw (.unknownQueryId id)

def alter (id : QueryId) (f : Query → Query) : Call Unit := do
  let _ ← require id
  modify fun a => { a with store := a.store.modify id f }

def alterSlots (f : Array (Option Query) → Array (Option Query)) : Call Unit :=
  modify fun a => { a with store := { a.store with slots := f a.store.slots } }

def markDirty : Call Unit := modify fun a => { a with store := { a.store with dirty := true } }

/-- Adds a query under its name. -/
def insert (q : Query) : Call QueryId := do
  let a ← get
  if (a.names.lookup q.name).isSome then throw (.duplicateQuery q.name)
  let id : QueryId := ⟨a.store.slots.size⟩
  modify fun a => { a with names := (q.name, id) :: a.names }
  alterSlots fun slots => slots.push (some q)
  markDirty
  return id

/-- Checks a new edge without changing anything. -/
def check (leader follower : QueryId) : Call Unit := do
  let l ← require leader
  let f ← require follower
  if leader = follower then throw .selfFollower
  if f.leader.isSome then throw (.alreadyFollowing f.name)
  let s := (← get).store
  if s.search leader [] [follower] || s.search follower [] [leader] then
    throw (.followerCycle l.name f.name)

/-- Enters an edge in the leader's lists and then in the follower. -/
def attach (leader follower : QueryId) (f : Query → Query) : Call Unit := do
  check leader follower
  alter leader f
  alter follower fun q => { q with leader := some leader }
  markDirty

def addFollower (leader follower : QueryId) : Call Unit :=
  attach leader follower fun q => { q with followers := q.followers ++ [follower] }

def addMatched (leader follower : QueryId) (condition : Computation) : Call Unit :=
  attach leader follower fun q => { q with matched := q.matched ++ [⟨follower, condition⟩] }

/-- Takes a query out of its slot and out of the map, and then out of the lists of all others. -/
def remove (id : QueryId) : Call Unit := do
  let q ← require id
  alterSlots fun slots => slots.setIfInBounds id.index none
  modify fun a => { a with names := a.names.filter (·.1 ≠ q.name) }
  alterSlots fun slots => slots.map (Option.map (·.detach id))
  markDirty

variable {a a' : Arena} {b c l m id leader follower : QueryId} {q : Query} {e : Error}

/-- What a call gives and leaves behind. -/
def perform {α : Type} (call : Call α) (a : Arena) : Except Error α × Arena := call.run.run a

theorem perform_bind {α β : Type} (call : Call α) (next : α → Call β) (a : Arena) :
    perform (call >>= next) a = match perform call a with
      | (.ok x, a') => perform (next x) a'
      | (.error e, a') => (.error e, a') := by
  change perform (ExceptT.mk (call.run >>= ExceptT.bindCont next)) a = _
  obtain ⟨r, a', hr⟩ : ∃ r a', perform call a = (r, a') := ⟨_, _, rfl⟩
  have hrun : perform (ExceptT.mk (call.run >>= ExceptT.bindCont next)) a =
      (ExceptT.bindCont next (perform call a).1).run (perform call a).2 := rfl
  rw [hrun, hr]
  cases r with
  | ok x => rfl
  | error e => rfl

/-- The outcome of a call that changes nothing when it fails. -/
def outcome (a : Arena) {α : Type} : Except Error (α × Arena) → Except Error α × Arena
  | .ok (x, a') => (.ok x, a')
  | .error e => (.error e, a)

/-- A store that is linked, under a map that leads from each name to the query of that name. -/
structure Sound (a : Arena) : Prop where
  linked : a.store.Linked
  names : ∀ name id, a.names.lookup name = some id ↔ ∃ q, a.store.get? id = some q ∧ q.name = name

theorem Sound.lookup_eq (h : a.Sound) (name : String) :
    a.names.lookup name = a.store.idOf? name := by
  apply Option.ext
  intro id
  rw [h.names, h.linked.idOf?_eq_some]

theorem perform_insert (h : a.Sound) (q : Query) :
    perform (insert q) a = a.outcome ((a.store.insert q).map fun (s, id) =>
      (id, ⟨s, (q.name, id) :: a.names⟩)) := by
  have hrun : perform (insert q) a = if (a.names.lookup q.name).isSome then
      (.error (.duplicateQuery q.name), a) else
      (.ok ⟨a.store.slots.size⟩,
        ⟨{ a.store with slots := a.store.slots.push (some q), dirty := true },
          (q.name, ⟨a.store.slots.size⟩) :: a.names⟩) := by
    change perform (if _ then _ else _) a = _
    split
    · rfl
    · rfl
  rw [hrun, QueryStore.insert, h.lookup_eq]
  split
  · rfl
  · rfl

theorem perform_require (a : Arena) (id : QueryId) :
    perform (require id) a = (a.store.require id, a) := by
  change perform (match a.store.get? id with | some q => pure q | none => throw _) a = _
  unfold QueryStore.require
  cases a.store.get? id with
  | some q => rfl
  | none => rfl

/-- The check for an edge is the one of the store, and it leaves all as it was. -/
theorem perform_check (h : a.store.Forest) (leader follower : QueryId) :
    perform (check leader follower) a = (a.store.checkFollower leader follower, a) := by
  unfold check QueryStore.checkFollower
  rw [perform_bind, perform_require]
  cases a.store.require leader with
  | error e => rfl
  | ok l =>
    dsimp only
    rw [perform_bind, perform_require]
    cases a.store.require follower with
    | error e => rfl
    | ok f =>
      change perform (if _ then _ else _) a = (if _ then _ else _, a)
      split
      · rfl
      · split
        · rfl
        · rw [← h.search_eq, ← h.search_eq]
          change perform (if _ then _ else _) a = (if _ then _ else _, a)
          split
          · rfl
          · rfl

theorem perform_alter (h : (a.store.get? id).isSome) (f : Query → Query) :
    perform (alter id f) a = (.ok (), { a with store := a.store.modify id f }) := by
  obtain ⟨q, hq⟩ := Option.isSome_iff_exists.1 h
  unfold alter
  rw [perform_bind, perform_require, QueryStore.require, hq]
  rfl

/-- Once the check has passed, no later step of an attachment fails. -/
theorem perform_attach (h : a.store.Forest) (leader follower : QueryId) (f : Query → Query) :
    perform (attach leader follower f) a = a.outcome
      ((a.store.checkFollower leader follower).map fun _ =>
        ((), { a with store := a.store.attach leader follower f })) := by
  unfold attach
  rw [perform_bind, perform_check h]
  cases hcheck : a.store.checkFollower leader follower with
  | error e => rfl
  | ok =>
    have hmay := h.checkFollower_iff.1 hcheck
    dsimp only
    rw [perform_bind, perform_alter hmay.leads]
    let changed : Arena := { a with store := a.store.modify leader f }
    have hfollows : (changed.store.get? follower).isSome := by
      rw [QueryStore.get?_modify_of_ne hmay.ne]
      exact hmay.follows
    change perform (alter follower _ >>= _) changed = _
    rw [perform_bind, perform_alter hfollows]
    rfl

theorem perform_remove (a : Arena) (id : QueryId) :
    perform (remove id) a = a.outcome (do
      let q ← a.store.require id
      let s ← a.store.remove id
      return ((), ⟨s, a.names.filter (·.1 ≠ q.name)⟩)) := by
  unfold remove QueryStore.remove
  rw [perform_bind, perform_require]
  cases a.store.require id with
  | error e => rfl
  | ok q => rfl

/-! The names -/

theorem lookup_filter (names : List (String × QueryId)) (name n : String) :
    (names.filter (·.1 ≠ name)).lookup n = if n = name then none else names.lookup n := by
  induction names with
  | nil => simp
  | cons x names ih =>
    obtain ⟨k, id⟩ := x
    by_cases hk : k = name
    · subst hk
      rw [List.filter_cons_of_neg (by simp), ih, List.lookup_cons]
      split
      · rfl
      · rename_i hn
        rw [beq_eq_false_iff_ne.2 hn]
    · rw [List.filter_cons_of_pos (by simpa using hk), List.lookup_cons, List.lookup_cons, ih]
      by_cases hn : n = k
      · subst hn
        rw [beq_self_eq_true]
        exact (if_neg hk).symm
      · rw [beq_eq_false_iff_ne.2 hn]

theorem Sound.insert (h : a.Sound) {name datasource : String} {t : Table} {e : Option Encoding}
    {s : QueryStore} (hs : a.store.insert (.ofTable name datasource t e) = .ok (s, id)) :
    Sound ⟨s, (name, id) :: a.names⟩ where
  linked := h.linked.insert hs
  names n m := by
    have hid : s.get? id = some (.ofTable name datasource t e) := by
      rw [QueryStore.get?_insert hs, if_pos rfl]
    rw [List.lookup_cons]
    by_cases hn : n = name
    · subst hn
      rw [beq_self_eq_true, Option.some.injEq]
      constructor
      · rintro rfl
        exact ⟨_, hid, rfl⟩
      · rintro ⟨q, hq, hqn⟩
        exact (h.linked.insert hs).named _ _ _ _ hid hq hqn.symm
    · rw [beq_eq_false_iff_ne.2 hn]
      dsimp only
      rw [h.names, QueryStore.get?_insert hs]
      split
      · rename_i hm
        rw [hm, QueryStore.get?_of_insert hs]
        constructor
        · rintro ⟨q, hq, -⟩
          cases hq
        · rintro ⟨q, hq, hqn⟩
          cases hq
          exact absurd hqn.symm hn
      · exact Iff.rfl

theorem Sound.attach (h : a.Sound) (hcheck : a.store.checkFollower leader follower = .ok ())
    {f : Query → Query} (hf : ∀ q, (f q).children.Perm (follower :: q.children))
    (hl : ∀ q, (f q).leader = q.leader) (hn : ∀ q, (f q).name = q.name) :
    Sound { a with store := a.store.attach leader follower f } where
  linked := h.linked.attach hcheck hf hl hn
  names n m := by
    rw [h.names]
    dsimp only
    rw [QueryStore.get?_attach (h.linked.checkFollower_iff.1 hcheck).ne]
    cases a.store.get? m with
    | none => simp
    | some q =>
      simp only [Option.map_some]
      split
      · simp
      · split
        · simp [hn]
        · exact Iff.rfl

theorem Sound.remove (h : a.Sound) {s : QueryStore} (hq : a.store.get? id = some q)
    (hs : a.store.remove id = .ok s) : Sound ⟨s, a.names.filter (·.1 ≠ q.name)⟩ where
  linked := h.linked.remove hs
  names n m := by
    rw [lookup_filter, QueryStore.get?_remove hs]
    by_cases hn : n = q.name
    · rw [if_pos hn]
      constructor
      · rintro ⟨⟩
      · rintro ⟨p, hp, hpn⟩
        split at hp
        · cases hp
        · rename_i hm
          obtain ⟨p', hp', rfl⟩ := Option.map_eq_some_iff.1 hp
          exact absurd (h.linked.named m id p' q hp' hq (hpn.trans hn)) hm
    · rw [if_neg hn, h.names]
      split
      · rename_i hm
        subst hm
        constructor
        · rintro ⟨p, hp, hpn⟩
          obtain rfl := Option.some.inj (hp.symm.trans hq)
          exact absurd hpn.symm hn
        · rintro ⟨p, hp, -⟩
          cases hp
      · cases a.store.get? m with
        | none => simp
        | some p => simp [Query.detach]

/-! Sequences of calls -/

end Arena

/-- The calls that change which queries there are and how they follow each other. -/
inductive Command
  | insert (name datasource : String) (table : Table) (encoding : Option Encoding)
  | addFollower (leader follower : QueryId)
  | addMatched (leader follower : QueryId) (condition : Computation)
  | remove (id : QueryId)

namespace Command

/-- A command on an arena, one step after another. -/
def call : Command → Arena.Call Unit
  | insert name datasource t e => do let _ ← Arena.insert (.ofTable name datasource t e)
  | addFollower leader follower => Arena.addFollower leader follower
  | addMatched leader follower condition => Arena.addMatched leader follower condition
  | remove id => Arena.remove id

/-- A command on a store. -/
def onStore (s : QueryStore) : Command → Except Error QueryStore
  | insert name datasource t e => (s.insert (.ofTable name datasource t e)).map (·.1)
  | addFollower leader follower => s.addFollower leader follower
  | addMatched leader follower condition => s.addMatched leader follower condition
  | remove id => s.remove id

/-- What commands leave behind, whether they succeed or fail. -/
def after (commands : List Command) : Arena :=
  commands.foldl (fun a c => (Arena.perform c.call a).2) {}

end Command

namespace Arena

variable {a : Arena}

/-- A command does what it does on the store, or it fails as it does there and changes nothing. -/
theorem perform_call (h : a.Sound) (c : Command) :
    ∃ names, perform c.call a = a.outcome ((c.onStore a.store).map fun s => ((), ⟨s, names⟩)) ∧
      ∀ s, c.onStore a.store = .ok s → Sound ⟨s, names⟩ := by
  cases c with
  | insert name datasource t e =>
    rw [Command.call, perform_bind, perform_insert h, Command.onStore]
    cases hs : a.store.insert (.ofTable name datasource t e) with
    | error e => exact ⟨a.names, rfl, fun _ hs => nomatch hs⟩
    | ok r =>
      obtain ⟨s, id⟩ := r
      refine ⟨(name, id) :: a.names, rfl, fun s' hs' => ?_⟩
      cases hs'
      exact h.insert hs
  | addFollower leader follower =>
    rw [Command.call, addFollower, perform_attach h.linked.toForest, Command.onStore,
      QueryStore.addFollower]
    refine ⟨a.names, ?_⟩
    cases hcheck : a.store.checkFollower leader follower with
    | error e => exact ⟨rfl, fun _ hs => nomatch hs⟩
    | ok =>
      refine ⟨rfl, fun s hs => ?_⟩
      cases hs
      exact h.attach hcheck (QueryStore.perm_children_followers · follower) (fun _ => rfl)
        fun _ => rfl
  | addMatched leader follower condition =>
    rw [Command.call, addMatched, perform_attach h.linked.toForest, Command.onStore,
      QueryStore.addMatched]
    refine ⟨a.names, ?_⟩
    cases hcheck : a.store.checkFollower leader follower with
    | error e => exact ⟨rfl, fun _ hs => nomatch hs⟩
    | ok =>
      refine ⟨rfl, fun s hs => ?_⟩
      cases hs
      exact h.attach hcheck (QueryStore.perm_children_matched · follower condition) (fun _ => rfl)
        fun _ => rfl
  | remove id =>
    rw [Command.call, perform_remove, Command.onStore]
    cases hreq : a.store.require id with
    | error e =>
      have hs : a.store.remove id = .error e := by
        rw [QueryStore.remove, hreq]
        rfl
      rw [hs]
      exact ⟨a.names, rfl, fun _ hs => nomatch hs⟩
    | ok q =>
      refine ⟨a.names.filter (·.1 ≠ q.name), ?_, fun s hs => h.remove ?_ hs⟩
      · cases a.store.remove id <;> rfl
      · unfold QueryStore.require at hreq
        split at hreq
        · cases hreq
          assumption
        · cases hreq

theorem Sound.perform (h : a.Sound) (c : Command) : (perform c.call a).2.Sound := by
  obtain ⟨names, hrun, hsound⟩ := perform_call h c
  rw [hrun]
  cases hs : c.onStore a.store with
  | error e => exact h
  | ok s => exact hsound s hs

end Arena
end Reporting
