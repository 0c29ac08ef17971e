import Reporting.Query.Store
/-!
Going through the rows of a query and its followers.

A follower goes along with its leader row by row, and its columns are null once it has no more rows.
The rows of matched followers are combined with each row of their leader like the digits of a
counter, the first follower turning fastest, and the combinations whose conditions hold are
produced. A row without such a combination is produced once, with nulls for its matched followers.
-/
namespace Reporting.QueryStore

/-- A number of combinations: the product of the sizes of what is combined. -/
def combinations (sizes : List Nat) : Nat := sizes.foldr (· * ·) 1

/-- How often a query can be stepped before it runs out of rows is less than this; `k` bounds the
depth of the forest. -/
def stepBound (s : QueryStore) : (k : Nat) → (id : QueryId) → Nat
  | 0, _ => 1
  | k + 1, id => match s.get? id with
    | none => 1
    | some q =>
      (q.table.rowCount + 1) * combinations (q.matchedIds.map fun g => s.stepBound k g + 1)

/-- More than the number of combinations of the matched followers of a query. -/
def combinationBound (s : QueryStore) (k : Nat) (id : QueryId) : Nat :=
  match s.get? id with
  | none => 1
  | some q => combinations (q.matchedIds.map fun g => s.stepBound k g + 1) + 1

def rewindFamily (s : QueryStore) (id : QueryId) : QueryStore := s.modifyFamily id .rewind

def blankFamily (s : QueryStore) (id : QueryId) : QueryStore := s.modifyFamily id .blank

def commitFamily (s : QueryStore) (id : QueryId) : QueryStore := s.modifyFamily id .commit

/-- Evaluates conditions up to the first that does not hold. -/
def conditionsHold (c : Context) : List Matched → List Matched × Bool
  | [] => ([], true)
  | m :: ms =>
    let (condition, v) := m.condition.evaluate c
    let m := { m with condition }
    if v.isTrue then
      let (ms, holds) := conditionsHold c ms
      (m :: ms, holds)
    else (m :: ms, false)

/-- Whether the rows of the matched followers fit the row of their leader. -/
def rowsMatch (s : QueryStore) (settings : Settings) (id : QueryId) : QueryStore × Bool :=
  match s.get? id with
  | none => (s, false)
  | some q =>
    let (matched, holds) :=
      conditionsHold (settings.context (s.scope none (some id)) .current) q.matched
    (s.modify id fun q => { q with matched }, holds)

/-- A way of moving a query to its next row. -/
abbrev Stepper := QueryStore → QueryId → QueryStore × Bool

/-- Turns the counter that the given queries form: the first one that has a further row takes it,
and those before it start over. -/
def turn (step : Stepper) : List QueryId → QueryStore → QueryStore × Bool
  | [], s => (s, false)
  | g :: gs, s =>
    match step s g with
    | (s, true) => (s, true)
    | (s, false) => turn step gs (step (s.rewindFamily g) g).1

/-- The matched followers of a query. -/
def matchedIds (s : QueryStore) (id : QueryId) : List QueryId :=
  match s.get? id with
  | some q => q.matchedIds
  | none => []

/-- Searches for a combination that fits, from the one that the followers stand on; `n` bounds the
number of combinations. -/
def findMatch (step : Stepper) (settings : Settings) (id : QueryId) :
    (n : Nat) → QueryStore → QueryStore × Bool
  | 0, s => (s, false)
  | n + 1, s =>
    match s.rowsMatch settings id with
    | (s, true) => (s, true)
    | (s, false) => match turn step (s.matchedIds id) s with
      | (s, true) => findMatch step settings id n s
      | (s, false) => (s, false)

/-- Goes on to the next combination that fits. -/
def nextMatch (step : Stepper) (settings : Settings) (id : QueryId) (n : Nat) (s : QueryStore) :
    QueryStore × Bool :=
  match turn step (s.matchedIds id) s with
  | (s, true) => findMatch step settings id n s
  | (s, false) => (s, false)

/-- Moves each of the given queries, and tells whether all of them have a row. -/
def stepAll (step : Stepper) (s : QueryStore) (ids : List QueryId) : QueryStore × Bool :=
  ids.foldl (fun (s, all) id => let (s, moved) := step s id; (s, all && moved)) (s, true)

/-- Moves each of the given queries to its first row, and tells whether all of them have one. -/
def startAll (step : Stepper) (s : QueryStore) (ids : List QueryId) : QueryStore × Bool :=
  stepAll (fun s id => step (s.rewindFamily id) id) s ids

/-- Combines a new row of a query with the rows of its matched followers. -/
def combine (step : Stepper) (settings : Settings) (n : Nat) (s : QueryStore) (id : QueryId) :
    QueryStore :=
  let (s, all) := startAll step s (s.matchedIds id)
  let (s, found) := if all then findMatch step settings id n s else (s, false)
  if found then s.modify id fun q => { q with combining := true }
  else (s.matchedIds id).foldl blankFamily s

/-- Reads the next row of a query, and moves its followers along. -/
def nextRow (step : Stepper) (settings : Settings) (n : Nat) (s : QueryStore) (id : QueryId)
    (q : Query) : QueryStore × Bool :=
  let (q', advanced) := q.advance settings.coercion
  let s := s.modify id fun _ => q'
  if !advanced then (q'.children.foldl blankFamily s, false)
  else
    let (s, _) := stepAll step s q'.followers
    if q'.matched.isEmpty then (s, true) else (combine step settings n s id, true)

/-- Moves a query to its next row or combination; `k` bounds the depth of the forest. -/
def stepWithin (settings : Settings) : (k : Nat) → Stepper
  | 0, s, _ => (s, false)
  | k + 1, s, id =>
    let step := stepWithin settings k
    match s.get? id with
    | none => (s, false)
    | some q =>
      let n := s.combinationBound k id
      if q.combining then
        match nextMatch step settings id n s with
        | (s, true) => (s, true)
        | (s, false) =>
          let s := s.modify id fun q => { q with combining := false }
          match s.get? id with
          | some q => nextRow step settings n s id q
          | none => (s, false)
      else nextRow step settings n s id q

/-- Goes to the start of a query and all that follows it. -/
def start (s : QueryStore) (id : QueryId) : QueryStore × Except Error Unit :=
  let s := s.finalize
  match s.get? id with
  | some _ => (s.rewindFamily id, .ok ())
  | none => (s, .error (.unknownQueryId id))

/-- Produces the next row of a query and all that follows it, and tells whether there is one. -/
def next (s : QueryStore) (settings : Settings) (id : QueryId) :
    Except Error (QueryStore × Bool) := do
  let _ ← s.require id
  let (s, produced) := stepWithin settings (s.slots.size + 1) s id
  return (if produced then s.commitFamily id else s, produced)

end Reporting.QueryStore
