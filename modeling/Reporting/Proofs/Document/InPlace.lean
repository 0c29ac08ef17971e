import Reporting.Document.InPlace
import Reporting.Proofs.Query.Reachable
/-!
A step in place does what the function of the same name says, and a step that is refused leaves
nothing behind.
-/
namespace Reporting

open Edit (check change)

variable {σ τ α β : Type}

/-! Outcomes -/

namespace Edit

/-- A state and an answer, or an error that leaves the state as it was. -/
def outcome (s : σ) : Except Error (σ × α) → EStateM.Result Error σ α
  | .ok (s', a) => .ok a s'
  | .error e => .error e s

/-- The outcome of a step that tells nothing. -/
def outcomeOf (s : σ) (result : Except Error σ) : EStateM.Result Error σ Unit :=
  outcome s (result.map fun s' => (s', ()))

variable {s s' : σ} {x : Edit σ α} {f : α → Edit σ β} {a : α} {e : Error}
  {result : Except Error α}

theorem run_bind_ok (h : x.run s = .ok a s') : (x >>= f).run s = (f a).run s' := by
  rw [EStateM.run_bind, h]

theorem run_bind_error (h : x.run s = .error e s') : (x >>= f).run s = .error e s' := by
  rw [EStateM.run_bind, h]

/-- An answer that is told in another form. -/
theorem run_map {r : Except Error (σ × α)} (h : x.run s = outcome s r) (g : α → β) :
    (do return g (← x) : Edit σ β).run s = outcome s (r.map fun (s', a) => (s', g a)) := by
  cases r with
  | error e => exact run_bind_error h
  | ok r => exact run_bind_ok h

@[simp]
theorem run_check_ok (s : σ) (a : α) : (check (.ok a) : Edit σ α).run s = .ok a s := rfl

@[simp]
theorem run_change (s : σ) (f : σ → σ) : (change f).run s = .ok () (f s) := rfl

end Edit

namespace Focus

open Edit

variable {l : Focus σ τ} {x : Edit τ α} {s : σ} {t : τ} {e : Error}
  {result : Except Error (τ × α)}

theorem run_edit_error (h : l.get s = .error e) : (l.edit x).run s = .error e s := by
  change l.edit x s = _
  unfold edit
  rw [h]

/-- What changes nothing on an error changes nothing outside either. -/
theorem run_edit (h : l.get s = .ok t) (hx : x.run t = outcome t result) :
    (l.edit x).run s = outcome s (result.map fun (t', a) => (l.put s t', a)) := by
  change l.edit x s = _
  unfold edit
  rw [h]
  dsimp only
  rw [hx]
  cases result with
  | ok r => rfl
  | error e => exact congrArg (EStateM.Result.error e) (l.put_get h)

end Focus

/-! Queries -/

namespace QueryStore.InPlace

open Edit

variable {s : QueryStore} {id leader follower : QueryId} {q : Query} {f : Query → Query}

theorem run_changeQuery (h : s.get? id = some q) :
    (changeQuery id f).run s = .ok () (s.modify id f) := by
  have hrequire : s.require id = .ok q := by
    unfold require
    rw [h]
  change ((check (s.require id) : Edit QueryStore Query) >>= fun _ => change _).run s = _
  rw [hrequire]
  rfl

theorem run_insert (s : QueryStore) (q : Query) : (insert q).run s = outcome s (s.insert q) := by
  unfold insert QueryStore.insert
  by_cases h : (s.idOf? q.name).isSome
  · simp only [EStateM.run_bind, EStateM.run_get, if_pos h]
    rfl
  · simp only [EStateM.run_bind, EStateM.run_get, if_neg h]
    rfl

/-- Once an edge is found to be allowed, both of its queries are there. -/
theorem run_attach (s : QueryStore) (leader follower : QueryId) (f : Query → Query) :
    (attach leader follower f).run s = outcomeOf s (do
      s.checkFollower leader follower
      return s.attach leader follower f) := by
  unfold attach
  rw [EStateM.run_bind, EStateM.run_get]
  dsimp only
  cases hcheck : s.checkFollower leader follower with
  | error e => rfl
  | ok u =>
    obtain ⟨hne, -, ⟨l, hl⟩, q, hq, -⟩ := checkFollower_ok hcheck
    have hq' : (s.modify leader f).get? follower = some q := by
      rw [get?_modify, if_neg hne, hq]
    rw [run_bind_ok (run_check_ok s u), run_bind_ok (run_changeQuery hl),
      run_bind_ok (run_changeQuery hq')]
    rfl

theorem setIfInBounds_of_get? (h : s.get? id = none) :
    s.slots.setIfInBounds id.index none = s.slots := by
  apply Array.ext_getElem?
  intro i
  rw [Array.getElem?_setIfInBounds]
  split
  · rename_i hi
    subst hi
    split
    · rename_i hlt
      unfold get? at h
      rw [Array.getElem?_eq_getElem hlt] at h ⊢
      exact congrArg some h.symm
    · rename_i hlt
      exact (Array.getElem?_eq_none (Nat.le_of_not_lt hlt)).symm
  · rfl

/-- A slot that is emptied without need was empty. -/
theorem run_remove (s : QueryStore) (id : QueryId) :
    (remove id).run s = outcomeOf s (s.remove id) := by
  unfold remove QueryStore.remove require
  cases h : s.get? id with
  | none =>
    have hslots := setIfInBounds_of_get? h
    simp only [EStateM.run_bind, EStateM.run_get, run_change, h, Option.isNone_none, if_true,
      hslots]
    rfl
  | some q =>
    simp only [EStateM.run_bind, EStateM.run_get, run_change, h, Option.isNone_some]
    rfl

theorem run_start (h : (s.start id).2 = .ok ()) : (start id).run s = .ok () (s.start id).1 := by
  unfold QueryStore.start at h ⊢
  unfold start require
  dsimp only at h ⊢
  cases hq : s.finalize.get? id with
  | none =>
    rw [hq] at h
    cases h
  | some q =>
    simp only [EStateM.run_bind, EStateM.run_get, run_change, hq]
    rfl

theorem run_next (s : QueryStore) (settings : Settings) (id : QueryId) :
    (next settings id).run s = outcome s (s.next settings id) := by
  unfold next QueryStore.next
  rw [EStateM.run_bind, EStateM.run_get]
  dsimp only
  cases s.require id with
  | error e => rfl
  | ok q =>
    rw [run_bind_ok (run_check_ok s q)]
    change _ = outcome s (.ok _)
    obtain ⟨s', produced⟩ := stepWithin settings (s.slots.size + 1) s id
    cases produced <;> rfl

end QueryStore.InPlace

/-! The workspace -/

namespace Workspace

/-- The names of the data sources are distinct. -/
def Distinct (w : Workspace) : Prop := (w.datasources.map (·.name)).Nodup

namespace InPlace

open Edit

variable {w : Workspace} {name : String} {encoding : Option String}

theorem run_addDatasource (w : Workspace) (name driver : String) :
    (addDatasource name driver).run w = outcomeOf w (w.addDatasource name driver) := by
  unfold addDatasource Workspace.addDatasource
  rw [EStateM.run_bind, EStateM.run_get]
  dsimp only
  cases w.datasource? name with
  | some d =>
    dsimp only
    by_cases h : d.driver.name = driver
    · rw [if_pos h, if_neg (not_not_intro h)]
      rfl
    · rw [if_neg h, if_pos h]
      rfl
  | none =>
    dsimp only
    cases Driver.find driver with
    | error e => rfl
    | ok d => rfl

/-- Where names are distinct, the data sources of a name are the first of that name. -/
theorem mapM_setEncoding {ds : List Datasource} (h : (ds.map (·.name)).Nodup) :
    ds.mapM (fun d => if d.name = name then d.setEncoding encoding else .ok d) =
      match ds.findIdx? fun d => d.name = name with
      | none => .ok ds
      | some i => (Encoding.findAny encoding).map fun encoding =>
        ds.modify i fun d => { d with encoding } := by
  induction ds with
  | nil => rfl
  | cons d ds ih =>
    obtain ⟨hd, hds⟩ := List.nodup_cons.1 h
    rw [List.mapM_cons, ih hds, List.findIdx?_cons]
    by_cases hname : d.name = name
    · have hnone : ds.findIdx? (fun d => d.name = name) = none := by
        rw [List.findIdx?_eq_none_iff]
        intro d' hd'
        exact decide_eq_false fun he => hd (List.mem_map.2 ⟨d', hd', he.trans hname.symm⟩)
      rw [hnone, if_pos hname, decide_eq_true hname]
      dsimp only [if_true]
      unfold Datasource.setEncoding
      cases Encoding.findAny encoding with
      | error e => rfl
      | ok encoding => rfl
    · rw [if_neg hname, decide_eq_false hname]
      cases ds.findIdx? fun d => d.name = name with
      | none => rfl
      | some i =>
        cases Encoding.findAny encoding with
        | error e => rfl
        | ok encoding => rfl

theorem run_setEncoding (h : w.Distinct) :
    (setEncoding name encoding).run w = outcomeOf w (w.setEncoding name encoding) := by
  unfold setEncoding Workspace.setEncoding
  rw [EStateM.run_bind, EStateM.run_get, mapM_setEncoding h]
  dsimp only
  cases w.datasources.findIdx? fun d => d.name = name with
  | none => rfl
  | some i =>
    dsimp only
    cases Encoding.findAny encoding with
    | error e => rfl
    | ok encoding => rfl

theorem run_addQuery (w : Workspace) (name datasource : String) (source : QuerySource) :
    (addQuery name datasource source).run w = outcome w (w.addQuery name datasource source) := by
  unfold addQuery Workspace.addQuery
  rw [EStateM.run_bind, EStateM.run_get]
  dsimp only
  by_cases h : (w.queries.idOf? name).isSome
  · rw [if_pos h, if_pos h]
    rfl
  · rw [if_neg h, if_neg h]
    cases w.datasource? datasource with
    | none => rfl
    | some d =>
      dsimp only
      cases ht : d.driver.serve name source with
      | error e => rfl
      | ok t =>
        have hrun := queriesOf.run_edit (s := w) rfl
          (QueryStore.InPlace.run_insert w.queries (.ofTable name datasource t d.encoding))
        refine (run_bind_ok (run_check_ok w t)).trans (hrun.trans ?_)
        change _ = outcome w ((w.queries.insert (.ofTable name datasource t d.encoding)).bind _)
        cases w.queries.insert (.ofTable name datasource t d.encoding) with
        | error e => rfl
        | ok r => rfl

theorem run_removeQuery (w : Workspace) (id : QueryId) :
    (removeQuery id).run w = outcomeOf w (w.removeQuery id) := by
  refine (queriesOf.run_edit (s := w) rfl (QueryStore.InPlace.run_remove w.queries id)).trans ?_
  unfold Workspace.removeQuery
  cases w.queries.remove id with
  | error e => rfl
  | ok queries => rfl

theorem run_addFollower (w : Workspace) (leader follower : QueryId) :
    (addFollower leader follower).run w = outcomeOf w (w.addFollower leader follower) := by
  refine (queriesOf.run_edit (s := w) rfl
    (QueryStore.InPlace.run_attach w.queries leader follower _)).trans ?_
  unfold Workspace.addFollower QueryStore.addFollower
  cases w.queries.checkFollower leader follower with
  | error e => rfl
  | ok u => rfl

theorem run_addMatched (w : Workspace) (leader follower : QueryId) (condition : String) :
    (addMatched leader follower condition).run w =
      outcomeOf w (w.addMatched leader follower condition) := by
  unfold addMatched Workspace.addMatched
  rw [EStateM.run_bind, EStateM.run_get]
  dsimp only
  cases w.compiler.compileText condition with
  | error e => rfl
  | ok x =>
    rw [run_bind_ok (run_check_ok w x)]
    cases hx : checkCondition x with
    | error e =>
      change _ = outcomeOf w ((checkCondition x).bind _)
      rw [hx]
      rfl
    | ok u =>
      refine (run_bind_ok (run_check_ok w u)).trans ?_
      refine (queriesOf.run_edit (s := w) rfl
        (QueryStore.InPlace.run_attach w.queries leader follower _)).trans ?_
      change _ = outcomeOf w ((checkCondition x).bind _)
      rw [hx]
      unfold QueryStore.addMatched
      cases w.queries.checkFollower leader follower with
      | error e => rfl
      | ok u => rfl

theorem run_start {id : QueryId} (h : (w.queries.start id).2 = .ok ()) :
    (start id).run w = .ok () { w with queries := (w.queries.start id).1 } := by
  have hstart : (QueryStore.InPlace.start id).run w.queries =
      outcomeOf w.queries (.ok (w.queries.start id).1) := QueryStore.InPlace.run_start h
  exact queriesOf.run_edit (s := w) rfl hstart

theorem run_next (w : Workspace) (id : QueryId) : (next id).run w = outcome w (w.next id) := by
  unfold next
  rw [EStateM.run_bind, EStateM.run_get]
  refine (queriesOf.run_edit (s := w) rfl
    (QueryStore.InPlace.run_next w.queries w.settings id)).trans ?_
  unfold Workspace.next
  cases w.queries.next w.settings id with
  | error e => rfl
  | ok r => rfl

end InPlace
end Workspace

/-! Reports -/

namespace Report.InPlace

open Edit

theorem run_newBreak (r : Report) (c : Compiler) (d : BreakDef) :
    (newBreak c d).run r = outcomeOf r (r.newBreak c d) := by
  unfold newBreak Report.newBreak
  rw [EStateM.run_bind, EStateM.run_get]
  dsimp only
  by_cases h : r.breaks.any fun b => b.name = d.name
  · rw [if_pos h, if_pos h]
    rfl
  · rw [if_neg h, if_neg h]
    cases Break.compile c d with
    | error e => rfl
    | ok b => rfl

theorem run_addBreakField (r : Report) (c : Compiler) (name text : String) :
    (addBreakField c name text).run r = outcomeOf r (r.addBreakField c name text) := by
  unfold addBreakField Report.addBreakField
  rw [EStateM.run_bind, EStateM.run_get]
  dsimp only
  cases r.breaks.findIdx? fun b => b.name = name with
  | none => rfl
  | some i =>
    dsimp only
    cases c.compileText text with
    | error e => rfl
    | ok x => rfl

theorem run_newVariable (r : Report) (c : Compiler) (d : VariableDef) :
    (newVariable c d).run r = outcomeOf r (r.newVariable c d) := by
  unfold newVariable Report.newVariable
  rw [EStateM.run_bind, EStateM.run_get]
  dsimp only
  cases Variable.compile c r.vars d with
  | error e => rfl
  | ok v => rfl

theorem run_addExpression (r : Report) (c : Compiler) (name : Option String) (text : String) :
    (addExpression c name text).run r = outcome r (r.addExpression c name text) := by
  unfold addExpression Report.addExpression
  cases c.compileText text with
  | error e => rfl
  | ok x =>
    rw [run_bind_ok (run_check_ok r x), run_bind_ok (run_change r _)]
    change EStateM.Result.ok ((r.expressions ++ [_]).length - 1) _ = _
    rw [List.length_append, List.length_singleton, Nat.add_sub_cancel]
    rfl

end Report.InPlace
end Reporting
