import Reporting.Query.Basic
/-!
The queries of a document and the forest that leaders and followers form.
-/
namespace Reporting

/-- The queries that were ever added, without those that were removed. The families are kept until
the forest changes. -/
structure QueryStore where
  slots : Array (Option Query) := #[]
  families : List (QueryId × List QueryId) := []
  dirty : Bool := false

namespace QueryStore

instance : Inhabited QueryStore := ⟨{}⟩

/-- A query that was not removed. -/
def get? (s : QueryStore) (id : QueryId) : Option Query := s.slots[id.index]?.join

def require (s : QueryStore) (id : QueryId) : Except Error Query :=
  match s.get? id with
  | some q => .ok q
  | none => .error (.unknownQueryId id)

/-- Changes a query; the forest must stay as it is. -/
def modify (s : QueryStore) (id : QueryId) (f : Query → Query) : QueryStore :=
  { s with slots := s.slots.modify id.index (Option.map f) }

/-- The queries in the order in which they were added. -/
def ids (s : QueryStore) : List QueryId :=
  ((List.range s.slots.size).map QueryId.mk).filter fun id => (s.get? id).isSome

/-- The query of a name. -/
def idOf? (s : QueryStore) (name : String) : Option QueryId :=
  s.ids.find? fun id => (s.get? id).any fun q => q.name = name

/-- The followers of a query. -/
def children (s : QueryStore) (id : QueryId) : List QueryId :=
  match s.get? id with
  | some q => q.children
  | none => []

/-- Adds a query, whose name must be new. -/
def insert (s : QueryStore) (q : Query) : Except Error (QueryStore × QueryId) :=
  if (s.idOf? q.name).isSome then .error (.duplicateQuery q.name)
  else .ok ({ s with slots := s.slots.push (some q), dirty := true }, ⟨s.slots.size⟩)

/-- Whether a query is reached from another one over at most `k` followers. -/
def reachesWithin (s : QueryStore) (target : QueryId) : (k : Nat) → (id : QueryId) → Bool
  | 0, id => id == target
  | k + 1, id => id == target || (s.children id).any (s.reachesWithin target k)

/-- Whether a query is reached from another one over followers. -/
def reaches (s : QueryStore) (start target : QueryId) : Bool :=
  s.reachesWithin target s.slots.size start

/-- Checks that a query may follow another one. -/
def checkFollower (s : QueryStore) (leader follower : QueryId) : Except Error Unit := do
  let l ← s.require leader
  let f ← s.require follower
  if leader = follower then throw .selfFollower
  else if f.leader.isSome then throw (.alreadyFollowing f.name)
  else if s.reaches follower leader || s.reaches leader follower then
    throw (.followerCycle l.name f.name)

/-- Enters an edge of the forest on both sides. -/
def attach (s : QueryStore) (leader follower : QueryId) (f : Query → Query) : QueryStore :=
  let s := (s.modify leader f).modify follower fun q => { q with leader := some leader }
  { s with dirty := true }

/-- Lets a query go along with another one row by row. -/
def addFollower (s : QueryStore) (leader follower : QueryId) : Except Error QueryStore := do
  s.checkFollower leader follower
  return s.attach leader follower fun q => { q with followers := q.followers ++ [follower] }

/-- Lets the rows of a query be combined with the rows of another one that they match. -/
def addMatched (s : QueryStore) (leader follower : QueryId) (condition : Computation) :
    Except Error QueryStore := do
  s.checkFollower leader follower
  return s.attach leader follower fun q =>
    { q with matched := q.matched ++ [⟨follower, condition⟩] }

/-- Removes a query and all edges to and from it. -/
def remove (s : QueryStore) (id : QueryId) : Except Error QueryStore := do
  let _ ← s.require id
  let slots := s.slots.setIfInBounds id.index none
  return { s with slots := slots.map (Option.map (·.detach id)), dirty := true }

/-- A query and what follows it over at most `k` followers, each query before its followers. -/
def familyWithin (s : QueryStore) : (k : Nat) → (id : QueryId) → List QueryId
  | 0, id => [id]
  | k + 1, id => id :: (s.children id).flatMap (s.familyWithin k)

/-- A query and all that follows it, by the edges of the forest. -/
def collectFamily (s : QueryStore) (id : QueryId) : List QueryId := s.familyWithin s.slots.size id

/-- Computes the families anew if the forest has changed. -/
def finalize (s : QueryStore) : QueryStore :=
  if s.dirty then
    { s with families := s.ids.map fun id => (id, s.collectFamily id), dirty := false }
  else s

/-- A query and all that follows it. -/
def family (s : QueryStore) (id : QueryId) : List QueryId :=
  match if s.dirty then none else s.families.find? fun x => x.1 = id with
  | some (_, members) => members
  | none => s.collectFamily id

/-- Changes all members of a family. -/
def modifyFamily (s : QueryStore) (id : QueryId) (f : Query → Query) : QueryStore :=
  (s.family id).foldl (fun s id => s.modify id f) s

/-! Names and values -/

/-- The column of a name in a query. -/
def columnIn? (s : QueryStore) (id : QueryId) (name : String) : Option Source := do
  let q ← s.get? id
  return .column id (← q.columnIndex? name)

/-- The column of a name in the family of the default query, and then in all queries. -/
def anyColumn? (s : QueryStore) (default : Option QueryId) (name : String) : Option Source :=
  ((default.map s.family).getD [] ++ s.ids).findSome? fun id => s.columnIn? id name

/-- The values of columns and row counters. -/
def lookup? (s : QueryStore) (environment : Option Environment) (source : Source) (slot : Slot) :
    Option Value :=
  match source with
  | .column id i => do
    let q ← s.get? id
    let c ← q.columns[i]?
    return c.cell.ring.get slot
  | .rowNumber id => do return (← s.get? id).rowNumber.ring.get slot
  | .environment name => environment.map fun e => e.get name
  | _ => none

/-- The columns and row counters of the queries, and the values of an environment. -/
def scope (s : QueryStore) (environment : Option Environment) (default : Option QueryId) :
    Scope where
  column?
    | .plain name | .dotted name => s.anyColumn? default name
    | .qualified query name => (s.idOf? query).bind fun id => s.columnIn? id name
  rowNumber?
    | some name => (s.idOf? name).map .rowNumber
    | none => (default <|> s.ids.head?).map .rowNumber
  lookup? := s.lookup? environment

end QueryStore
end Reporting
