import Reporting.Proofs.Query.Restarts
import Reporting.Proofs.Query.Reachable
/-!
The previous values of a row that is produced: those of the row before, but for the queries that
started over in between, whose previous values are null.
-/
namespace Reporting.QueryStore

variable {s s' t t' : QueryStore} {settings : Settings} {m id : QueryId} {n : Nat}

/-- The values of the columns of a query in a slot. -/
def columnValues (s : QueryStore) (slot : Slot) (m : QueryId) : List Value :=
  ((s.get? m).map fun q => q.columns.map fun c => c.cell.ring.get slot).getD []

/-- The values of the columns on the row that was produced last. -/
def producedValues (s : QueryStore) (m : QueryId) : List Value :=
  ((s.get? m).map fun q => q.columns.map fun c => c.cell.produced).getD []

/-- A null for each column of a query. -/
def columnNulls (s : QueryStore) (m : QueryId) : List Value :=
  ((s.get? m).map Query.nullValues).getD []

/-- The queries that start over before the next row of a query is produced. -/
def restarted (s : QueryStore) (settings : Settings) (id : QueryId) : List QueryId :=
  restarts settings (s.slots.size + 1) s id

/-- The second store is the first one after `n` rows of a query were produced. -/
def Produces (settings : Settings) (id : QueryId) : (n : Nat) → QueryStore → QueryStore → Prop
  | 0, s, t => t = s
  | n + 1, s, t => ∃ t₀, Produces settings id n s t₀ ∧ t₀.next settings id = .ok (t, true)

/-- The value of the row counter of a query in a slot. -/
def counterValue (s : QueryStore) (slot : Slot) (m : QueryId) : Option Value :=
  (s.get? m).map fun q => q.rowNumber.ring.get slot

/-- The value of the row counter on the row that was produced last. -/
def producedCounter (s : QueryStore) (m : QueryId) : Option Value :=
  (s.get? m).map fun q => q.rowNumber.produced

/-- What was produced last is forgotten by the queries that start over only. -/
theorem Remembers.produced {R : List QueryId} (h : Remembers R s s') (m : QueryId) :
    s'.producedValues m = if m ∈ R then s.columnNulls m else s.producedValues m := by
  have hk := congrArg (Option.map fun k => k.2.map Prod.snd) (h.kept m)
  have hsnd (o : Option Query) : (o.map Query.kept).map (fun k => k.2.map Prod.snd) =
      o.map fun q => q.columns.map fun c => c.cell.produced := by
    rw [Option.map_map]
    congr 1
    funext q
    exact List.map_map
  have hnull (o : Option Query) : (o.map Query.unproduced).map (fun k => k.2.map Prod.snd) =
      o.map Query.nullValues := by
    rw [Option.map_map]
    congr 1
    funext q
    exact List.map_map
  rw [producedValues, ← hsnd, hk]
  split
  · rw [hnull, columnNulls]
  · rw [hsnd, producedValues]

theorem Remembers.counter {R : List QueryId} (h : Remembers R s s') (hm : m ∉ R) :
    s'.producedCounter m = s.producedCounter m := by
  have hk := congrArg (Option.map fun k => k.1.2) (h.kept m)
  rw [if_neg hm, Option.map_map, Option.map_map] at hk
  exact hk

/-- A row that is produced makes the values of the row before it the previous ones. -/
theorem values_of_commit (h : Forest s) (hm : m ∈ s.family id) :
    (s.commitFamily id).columnValues .previous m = s.producedValues m ∧
      (s.commitFamily id).producedValues m = (s.commitFamily id).columnValues .current m := by
  have hget : (s.commitFamily id).get? m = (s.get? m).map Query.commit := by
    rw [commitFamily, h.get?_modifyFamily, if_pos hm]
  have hcommit (f : Column → Value) : ((s.commitFamily id).get? m).map
      (fun q => q.columns.map f) = (s.get? m).map fun q => q.columns.map fun c => f c.commit := by
    rw [hget, Option.map_map]
    congr 1
    funext q
    exact List.map_map
  constructor
  · rw [columnValues, hcommit, producedValues]
    rfl
  · rw [producedValues, hcommit, columnValues, hcommit]
    rfl

theorem counter_of_commit (h : Forest s) (hm : m ∈ s.family id) :
    (s.commitFamily id).counterValue .previous m = s.producedCounter m ∧
      (s.commitFamily id).producedCounter m = (s.commitFamily id).counterValue .current m := by
  have hget : (s.commitFamily id).get? m = (s.get? m).map Query.commit := by
    rw [commitFamily, h.get?_modifyFamily, if_pos hm]
  constructor
  · rw [counterValue, hget, Option.map_map]
    rfl
  · rw [producedCounter, counterValue, hget, Option.map_map, Option.map_map]
    rfl

/-- A row is produced by moving the family and committing what it shows. -/
theorem commit_of_next (h : Forest t) (hnext : t.next settings id = .ok (t', true)) :
    ∃ s, Remembers (t.restarted settings id) t s ∧ t' = s.commitFamily id := by
  cases hq : t.get? id with
  | none =>
    simp only [next, require, hq] at hnext
    cases hnext
  | some q =>
    rw [next_eq settings hq, Except.ok.injEq, Prod.mk.injEq] at hnext
    obtain ⟨ht', hmore⟩ := hnext
    rw [if_pos hmore] at ht'
    exact ⟨_, (stepWithin_journaled settings (t.slots.size + 1) t id h).1, ht'.symm⟩

theorem values_of_next (h : Forest t) (hm : m ∈ t.family id)
    (hnext : t.next settings id = .ok (t', true)) :
    t'.columnValues .previous m =
        (if m ∈ t.restarted settings id then t.columnNulls m else t.producedValues m) ∧
      t'.producedValues m = t'.columnValues .current m := by
  obtain ⟨s, hr, rfl⟩ := commit_of_next h hnext
  have hm' : m ∈ s.family id := by
    rw [family_of_still hr.still]
    exact hm
  obtain ⟨hprev, hprod⟩ := values_of_commit (h.of_still hr.still) hm'
  rw [hprev, hr.produced]
  exact ⟨rfl, hprod⟩

theorem counter_of_next (h : Forest t) (hm : m ∈ t.family id)
    (hnext : t.next settings id = .ok (t', true)) :
    (m ∉ t.restarted settings id → t'.counterValue .previous m = t.producedCounter m) ∧
      t'.producedCounter m = t'.counterValue .current m := by
  obtain ⟨s, hr, rfl⟩ := commit_of_next h hnext
  have hm' : m ∈ s.family id := by
    rw [family_of_still hr.still]
    exact hm
  obtain ⟨hprev, hprod⟩ := counter_of_commit (h.of_still hr.still) hm'
  exact ⟨fun hnot => hprev.trans (hr.counter hnot), hprod⟩

/-- Between two rows the current values of a family are those that were produced last. -/
theorem settled (hr : Reachable s) (hlive : (s.get? id).isSome)
    (hrun : Produces settings id n (s.start id).1 t) (hm : m ∈ s.family id) :
    Forest t ∧ t.still = s.finalize.still ∧ t.producedValues m = t.columnValues .current m ∧
      (n = 0 → t.producedValues m = t.columnNulls m) := by
  have h := hr.forest.finalize
  have hm' : m ∈ s.finalize.family id := by
    rw [hr.forest.family_finalize]
    exact hm
  induction n generalizing t with
  | zero =>
    obtain ⟨q, hq⟩ := Option.isSome_iff_exists.1 hlive
    obtain rfl : t = s.finalize.rewindFamily id := hrun.trans (by rw [start_eq hq])
    have hs := (keeps_rewindFamily h id).still
    have hget : (s.finalize.rewindFamily id).get? m = (s.finalize.get? m).map Query.rewind := by
      rw [rewindFamily, h.get?_modifyFamily, if_pos hm']
    have hnull : (s.finalize.rewindFamily id).producedValues m =
        (s.finalize.rewindFamily id).columnNulls m := by
      rw [producedValues, columnNulls, hget, Option.map_map, Option.map_map]
      congr 2
      funext q
      simp only [Function.comp_apply, Query.rewind, Query.nullValues, List.map_map]
      rfl
    refine ⟨h.of_still hs, hs, ?_, fun _ => hnull⟩
    rw [producedValues, columnValues, hget, Option.map_map, Option.map_map]
    congr 2
    funext q
    simp only [Function.comp_apply, Query.rewind, List.map_map]
    rfl
  | succ n ih =>
    obtain ⟨t₀, hrun₀, hnext⟩ := hrun
    obtain ⟨h₀, hs₀, -⟩ := ih hrun₀
    have hs := (keeps_next h₀ hnext).still
    have hm₀ : m ∈ t₀.family id := by
      rw [family_of_still hs₀]
      exact hm'
    exact ⟨h₀.of_still hs, hs.trans hs₀, (values_of_next h₀ hm₀ hnext).2,
      fun hn => absurd hn n.succ_ne_zero⟩

/-- The previous values of a row are the values of the row produced before it, unless the query
started over in between: then they are null, and this happens below matched followers only. -/
theorem previous_of_next (hr : Reachable s) (hlive : (s.get? id).isSome)
    (hrun : Produces settings id n (s.start id).1 t)
    (hnext : t.next settings id = .ok (t', true)) (hm : m ∈ s.family id) :
    t'.columnValues .previous m =
        (if n = 0 ∨ m ∈ t.restarted settings id then t.columnNulls m
          else t.columnValues .current m) ∧
      (t'.columnValues .previous m = t.columnValues .current m ↔
        (m ∈ t.restarted settings id → t.columnValues .current m = t.columnNulls m)) ∧
      (m ∈ t.restarted settings id → s.UnderMatched id m) := by
  obtain ⟨h, hs, hcur, hnull⟩ := settled hr hlive hrun hm
  have hm' : m ∈ t.family id := by
    rw [family_of_still hs, hr.forest.family_finalize]
    exact hm
  obtain ⟨hprev, -⟩ := values_of_next h hm' hnext
  rw [hcur] at hprev hnull
  refine ⟨?_, ?_, ?_⟩
  · rw [hprev]
    by_cases hrestart : m ∈ t.restarted settings id
    · rw [if_pos hrestart, if_pos (.inr hrestart)]
    · rw [if_neg hrestart]
      by_cases hn : n = 0
      · rw [if_pos (.inl hn), hnull hn]
      · rw [if_neg (not_or.2 ⟨hn, hrestart⟩)]
  · rw [hprev]
    by_cases hrestart : m ∈ t.restarted settings id
    · rw [if_pos hrestart]
      exact ⟨fun he _ => he.symm, fun he => (he hrestart).symm⟩
    · rw [if_neg hrestart]
      exact ⟨fun _ hmem => (hrestart hmem).elim, fun _ => rfl⟩
  · intro hrestart
    have hu := (stepWithin_journaled settings (t.slots.size + 1) t id h).2 m hrestart
    have hu' := (underMatched_of_still hs).1 hu
    have hchildren (a : QueryId) : s.finalize.children a = s.children a := by
      rw [children, children, get?_finalize]
    simpa only [UnderMatched, reaches_of_children_eq hchildren, matchedIds, get?_finalize] using hu'

/-- Where nothing is combined no query of the family starts over between two rows, and what was shown
on a row is what the next row shows as previous, in columns and in row counters. -/
theorem previous_of_row (h : Forest s) {environment : Option Environment} {source : Source}
    (hrow : s.next settings id = .ok (t, true)) (hnext : t.next settings id = .ok (t', true))
    (hm : m ∈ s.family id) (hnot : ¬ s.UnderMatched id m)
    (hsource : source = .rowNumber m ∨ ∃ i, source = .column m i) :
    t'.lookup? environment source .previous = t.lookup? environment source .current := by
  have hs := (keeps_next h hrow).still
  have ht := h.of_still hs
  have hm' : m ∈ t.family id := by
    rw [family_of_still hs]
    exact hm
  have hrestart : m ∉ t.restarted settings id := by
    intro hmem
    have hu := (stepWithin_journaled settings (t.slots.size + 1) t id ht).2 m hmem
    exact hnot ((underMatched_of_still hs).1 hu)
  have hcolumn (u : QueryStore) (slot : Slot) (i : Nat) :
      u.lookup? environment (.column m i) slot = (u.columnValues slot m)[i]? := by
    change ((u.get? m).bind fun q => (q.columns[i]?).bind fun c => some (c.cell.ring.get slot)) = _
    rw [columnValues]
    cases u.get? m with
    | none => rfl
    | some q =>
      rw [Option.bind_some, Option.map_some, Option.getD_some, List.getElem?_map]
      cases q.columns[i]? <;> rfl
  rcases hsource with rfl | ⟨i, rfl⟩
  · have hprev := (counter_of_next ht hm' hnext).1 hrestart
    rw [(counter_of_next h hm hrow).2] at hprev
    simp only [counterValue, Option.map_eq_bind, Function.comp_def] at hprev
    exact hprev
  · rw [hcolumn, hcolumn, (values_of_next ht hm' hnext).1, if_neg hrestart,
      (values_of_next h hm hrow).2]

def lines : Table := ⟨[[some "k"], [some "1"], [some "2"]], [.number]⟩
def seven : Table := ⟨[[some "v"], [some "7"]], [.number]⟩
def always : Computation := { root := .constant (.ofInt 1) false, source := "1" }

/-- Two lines, each of which is combined with the only row of a matched follower. -/
def paired : QueryStore where
  slots := #[
    some { Query.ofTable "q" "a" lines none with matched := [⟨⟨1⟩, always⟩] },
    some { Query.ofTable "f" "a" seven none with leader := some ⟨0⟩ }]
  dirty := true

theorem paired_reachable : Reachable paired :=
  .addMatched ⟨0⟩ ⟨1⟩ always
    (.insert "f" "a" seven none (.insert "q" "a" lines none .empty rfl) rfl) rfl

def pairedSettings : Settings := ⟨⟨20, .nearest, by decide⟩, .dayFirst, false, {}⟩

/-- The store once `n` rows were asked for. -/
def pairedAfter : Nat → QueryStore
  | 0 => (paired.start ⟨0⟩).1
  | n + 1 => match (pairedAfter n).next pairedSettings ⟨0⟩ with
    | .ok (s, _) => s
    | .error _ => pairedAfter n

theorem next_paired {n : Nat}
    (h : ((pairedAfter n).next pairedSettings ⟨0⟩).toOption.map (·.2) = some true) :
    (pairedAfter n).next pairedSettings ⟨0⟩ = .ok (pairedAfter (n + 1), true) := by
  rw [pairedAfter]
  cases hn : (pairedAfter n).next pairedSettings ⟨0⟩ with
  | error e =>
    rw [hn] at h
    cases h
  | ok r =>
    rw [hn] at h
    obtain ⟨s, more⟩ := r
    obtain rfl : more = true := Option.some.inj h
    rfl

theorem produces_paired :
    Produces pairedSettings ⟨0⟩ 1 (paired.start ⟨0⟩).1 (pairedAfter 1) ∧
      (pairedAfter 1).next pairedSettings ⟨0⟩ = .ok (pairedAfter 2, true) :=
  ⟨⟨_, rfl, next_paired (n := 0) (by decide +kernel)⟩, next_paired (by decide +kernel)⟩

/-- The leader has not started over when its second line is produced. -/
theorem previous_of_paired :
    Reachable paired ∧ (paired.get? ⟨0⟩).isSome ∧
      Produces pairedSettings ⟨0⟩ 1 (paired.start ⟨0⟩).1 (pairedAfter 1) ∧
      (pairedAfter 1).next pairedSettings ⟨0⟩ = .ok (pairedAfter 2, true) ∧
      ⟨0⟩ ∈ paired.family ⟨0⟩ ∧ (pairedAfter 1).columnValues .current ⟨0⟩ = [.ofInt 1] ∧
      (pairedAfter 2).columnValues .previous ⟨0⟩ = [.ofInt 1] := by
  obtain ⟨hrun, hnext⟩ := produces_paired
  have hm : ⟨0⟩ ∈ paired.family ⟨0⟩ := by decide
  have hcur : (pairedAfter 1).columnValues .current ⟨0⟩ = [.ofInt 1] := by decide +kernel
  have hsame : ¬ (1 = 0 ∨ ⟨0⟩ ∈ (pairedAfter 1).restarted pairedSettings ⟨0⟩) := by
    decide +kernel
  obtain ⟨hprev, -⟩ := previous_of_next paired_reachable rfl hrun hnext hm
  rw [if_neg hsame, hcur] at hprev
  exact ⟨paired_reachable, rfl, hrun, hnext, hm, hcur, hprev⟩

/-- The matched follower shows the same row again, but it has started over and forgotten it. -/
theorem forgotten_of_paired :
    ∃ t t', Produces pairedSettings ⟨0⟩ 1 (paired.start ⟨0⟩).1 t ∧
      t.next pairedSettings ⟨0⟩ = .ok (t', true) ∧ ⟨1⟩ ∈ paired.family ⟨0⟩ ∧
      t.columnValues .current ⟨1⟩ = [.ofInt 7] ∧
      t'.columnValues .previous ⟨1⟩ = [.null .number] := by
  obtain ⟨hrun, hnext⟩ := produces_paired
  refine ⟨pairedAfter 1, pairedAfter 2, hrun, hnext, ?_, ?_, ?_⟩
  · decide
  · decide +kernel
  · decide +kernel

end Reporting.QueryStore
