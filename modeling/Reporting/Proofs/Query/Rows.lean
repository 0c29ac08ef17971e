import Reporting.Proofs.Query.Still
/-!
The rows of a query and all that follows it, as a list.

Each line of the table comes with the row of the same number of each follower, or with nulls where
there is none. It is combined with the rows of the matched followers in all ways that fit, the first
one turning fastest, and it comes once with nulls if there is no such way.
-/
namespace Reporting

/-- The values of the columns of some queries. -/
abbrev Cells := List (QueryId × List Value)

/-- A row of a query and all that follows it, with what the row counter of the query reads. -/
structure Row where
  number : Value
  cells : Cells
  deriving DecidableEq

/-- The values that a row gives to the columns of a family and to its row counter. -/
def Row.lookup? (r : Row) (id : QueryId) (source : Source) (slot : Slot) : Option Value :=
  match source, slot with
  | .column m i, .current => (r.cells.find? fun x => x.1 = m).bind fun x => x.2[i]?
  | .rowNumber m, .current => if m = id then some r.number else none
  | _, _ => none

namespace Query

/-- The values of a line of the table. -/
def lineValues (q : Query) (co : Coercion) (line : Nat) : List Value :=
  q.columns.mapIdx fun i c =>
    let text := (q.table.rows[line]?).bind fun cells => cells[i]?.join
    .ofText c.kind (text.map fun t => Encoding.decodeWith q.encoding (Encoding.encodeUtf8 t)) co

def nullValues (q : Query) : List Value := q.columns.map fun c => .null c.kind

/-- The values of the row that is tried. -/
def shownValues (q : Query) : List Value := q.columns.map fun c => c.cell.ring.current

/-- Whether all conditions of a query hold on a row. -/
def fits (q : Query) (settings : Settings) (id : QueryId) (r : Row) : Bool :=
  q.matched.all fun m =>
    (m.condition.evaluate (settings.context { lookup? := r.lookup? id } .current)).2.isTrue

end Query

/-- All ways to take one of each list, the choice from the first list turning fastest. -/
def choices : List (List Cells) → List Cells
  | [] => [[]]
  | xs :: xss => (choices xss).flatMap fun tail => xs.map (· ++ tail)

namespace QueryStore

/-- Some values of each member of a family. -/
def cells (s : QueryStore) (f : Query → List Value) (id : QueryId) : Cells :=
  (s.family id).map fun m => (m, ((s.get? m).map f).getD [])

/-- The nulls of a family. -/
def nulls (s : QueryStore) (id : QueryId) : Cells := s.cells Query.nullValues id

/-- What a family shows. -/
def shown (s : QueryStore) (id : QueryId) : Cells := s.cells Query.shownValues id

/-- The rows that a query gives for a number and the values of itself and its followers. -/
def combinedRows (s : QueryStore) (settings : Settings) (id : QueryId) (q : Query) (number : Value)
    (head : Cells) (lists : List (List Cells)) : List Row :=
  let fitting := ((choices lists).map fun tail => ⟨number, head ++ tail⟩).filter (q.fits settings id)
  if fitting.isEmpty then [⟨number, head ++ q.matchedIds.flatMap s.nulls⟩] else fitting

/-- The values of a query and its followers on one of its rows. -/
def headCells (s : QueryStore) (settings : Settings) (id : QueryId) (q : Query)
    (rows : QueryId → List Row) (i : Nat) : Cells :=
  (id, q.lineValues settings.coercion (i + 1)) :: q.followers.flatMap fun f =>
    (((rows f)[i]?).map Row.cells).getD (s.nulls f)

/-- The rows for one line of a query, from the rows of those that follow it. -/
def lineRows (s : QueryStore) (settings : Settings) (id : QueryId) (q : Query)
    (rows : QueryId → List Row) (i : Nat) : List Row :=
  s.combinedRows settings id q (.ofInt (i + 1)) (s.headCells settings id q rows i)
    (q.matchedIds.map fun g => (rows g).map Row.cells)

/-- The rows of a query; `k` bounds the depth of the forest. -/
def rowsWithin (s : QueryStore) (settings : Settings) : (k : Nat) → (id : QueryId) → List Row
  | 0, _ => []
  | k + 1, id => match s.get? id with
    | none => []
    | some q => (List.range q.table.rowCount).flatMap
        (s.lineRows settings id q (s.rowsWithin settings k))

/-- The rows of a query and all that follows it. -/
def rows (s : QueryStore) (settings : Settings) (id : QueryId) : List Row :=
  s.rowsWithin settings (s.slots.size + 1) id

variable {s s' : QueryStore} {settings : Settings} {m id : QueryId} {q : Query} {k : Nat}

theorem lineRows_congr {rows rows' : QueryId → List Row} (h : ∀ c ∈ q.children, rows c = rows' c)
    (i : Nat) : s.lineRows settings id q rows i = s.lineRows settings id q rows' i := by
  have hf : (q.followers.flatMap fun f => (((rows f)[i]?).map Row.cells).getD (s.nulls f)) =
      q.followers.flatMap fun f => (((rows' f)[i]?).map Row.cells).getD (s.nulls f) := by
    apply List.flatMap_congr
    intro f hf
    rw [h f (List.mem_append_left _ hf)]
  have hg : (q.matchedIds.map fun g => (rows g).map Row.cells) =
      q.matchedIds.map fun g => (rows' g).map Row.cells := by
    apply List.map_congr_left
    intro g hg
    rw [h g (List.mem_append_right _ hg)]
  rw [lineRows, lineRows, headCells, headCells, hf, hg]

theorem Shallow.rowsWithin_succ (h : s.Shallow k id) (settings : Settings) :
    s.rowsWithin settings (k + 2) id = s.rowsWithin settings (k + 1) id := by
  induction k generalizing id with
  | zero =>
    rw [rowsWithin, rowsWithin]
    split
    · rfl
    · rename_i q hq
      have hc : q.children = [] := (children_of_get? hq).symm.trans h
      apply List.flatMap_congr
      intro i _
      apply lineRows_congr
      intro c hm
      rw [hc] at hm
      cases hm
  | succ k ih =>
    rw [rowsWithin, rowsWithin]
    split
    · rfl
    · rename_i q hq
      apply List.flatMap_congr
      intro i _
      apply lineRows_congr
      intro c hc
      exact ih (h c ((children_of_get? hq) ▸ hc))

/-- The rows of a query are made of its lines and the rows of those that follow it. -/
theorem rows_eq (h : Forest s) (settings : Settings) (hq : s.get? id = some q) :
    s.rows settings id = (List.range q.table.rowCount).flatMap
      (s.lineRows settings id q (s.rows settings)) := by
  have hs := (h.shallow id).rowsWithin_succ settings
  rw [rowsWithin, hq] at hs
  exact hs.symm

theorem Forest.cells_cons (h : Forest s) (f : Query → List Value) (hq : s.get? id = some q) :
    s.cells f id = (id, f q) :: (s.children id).flatMap (s.cells f) := by
  rw [cells, h.family_cons, List.map_cons, hq, List.map_flatMap]
  rfl

theorem cells_congr (f : Query → List Value) (hfam : s'.family id = s.family id)
    (h : ∀ m ∈ s.family id, (s'.get? m).map f = (s.get? m).map f) :
    s'.cells f id = s.cells f id := by
  rw [cells, cells, hfam]
  apply List.map_congr_left
  intro m hm
  rw [h m hm]

end QueryStore
end Reporting
