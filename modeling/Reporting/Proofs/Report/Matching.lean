import Reporting.Proofs.Report.Rebound
/-!
Two reports side by side, whose expressions are related one by one. As long as related expressions
miss the same names, binding drops the same from both of them.
-/
namespace Reporting

/-! Related lists -/

section

variable {α β γ : Type} {R : α → β → Prop} {S : β → γ → Prop} {T : α → γ → Prop} {l : List α}
  {l' : List β} {l'' : List γ}

theorem isEmpty_eq_of_forall₂ (h : List.Forall₂ R l l') : l.isEmpty = l'.isEmpty := by
  cases h with
  | nil => rfl
  | cons => rfl

theorem forall₂_mem (h : List.Forall₂ R l l') :
    List.Forall₂ (fun a b => a ∈ l ∧ b ∈ l' ∧ R a b) l l' :=
  List.forall₂_iff_zip.2 ⟨h.length_eq, fun hab =>
    ⟨(List.of_mem_zip hab).1, (List.of_mem_zip hab).2, List.forall₂_zip h hab⟩⟩

theorem forall₂_trans (hT : ∀ a b c, R a b → S b c → T a c) (h : List.Forall₂ R l l')
    (h' : List.Forall₂ S l' l'') : List.Forall₂ T l l'' := by
  induction h generalizing l'' with
  | nil =>
    cases h'
    exact .nil
  | cons hab _ ih =>
    cases h' with
    | cons hbc hrest => exact .cons (hT _ _ _ hab hbc) (ih hrest)

end

section

variable {R S T : Computation → Computation → Prop} {b b' b'' : Break} {v v' v'' : Variable}
  {e e' e'' : ReportExpression} {r r' r'' : Report}

/-- Two breaks with related fields. -/
structure Break.Matches (R : Computation → Computation → Prop) (b b' : Break) : Prop where
  name : b.name = b'.name
  flags : b.flags = b'.flags
  fields : List.Forall₂ R b.fields b'.fields

/-- Two variables with related expressions. -/
structure Variable.Matches (R : Computation → Computation → Prop) (v v' : Variable) : Prop where
  name : v.name = v'.name
  kind : v.kind = v'.kind
  resetOnBreak : v.resetOnBreak = v'.resetOnBreak
  precalculated : v.precalculated = v'.precalculated
  stages : List.Forall₂ (Option.Rel R) v.stages v'.stages
  result : Option.Rel R v.result v'.result

/-- Two expressions of a report that are related. -/
structure ReportExpression.Matches (R : Computation → Computation → Prop)
    (e e' : ReportExpression) : Prop where
  name : e.name = e'.name
  computation : R e.computation e'.computation

/-- Two reports with related breaks and variables. -/
structure Report.Beside (R : Computation → Computation → Prop) (r r' : Report) : Prop where
  query : r.query = r'.query
  breaks : List.Forall₂ (Break.Matches R) r.breaks r'.breaks
  vars : List.Forall₂ (Variable.Matches R) r.vars r'.vars

/-- Two reports with related breaks, variables and expressions. -/
structure Report.Matches (R : Computation → Computation → Prop) (r r' : Report) : Prop
    extends Beside R r r' where
  expressions : List.Forall₂ (ReportExpression.Matches R) r.expressions r'.expressions

theorem Variable.Matches.computations (h : v.Matches R v') :
    List.Forall₂ R v.computations v'.computations :=
  List.rel_filterMap (fun _ _ ho => ho) (List.rel_append h.stages (.cons h.result .nil))

theorem Variable.Matches.map {f g : Computation → Computation} (h : v.Matches R v')
    (hS : ∀ x y, R x y → S (f x) (g y)) : (v.map f).Matches S (v'.map g) where
  name := h.name
  kind := h.kind
  resetOnBreak := h.resetOnBreak
  precalculated := h.precalculated
  stages := List.rel_map (fun _ _ ho => rel_map_option ho hS) h.stages
  result := rel_map_option h.result hS

/-! Relations of related reports -/

namespace Report

theorem Beside.names (h : r.Beside R r') : r.names = r'.names := by
  rw [Report.names, Report.names, map_eq_of_forall₂ h.breaks fun _ _ hb => hb.name,
    map_eq_of_forall₂ h.vars fun _ _ hv => congrArg₂ Prod.mk hv.name hv.precalculated]

/-- The relation may take into account that the expressions are those of the reports. -/
theorem Matches.mem (h : r.Matches R r') :
    r.Matches (fun x y => x ∈ r.computations ∧ y ∈ r'.computations ∧ R x y) r' where
  query := h.query
  breaks := (forall₂_mem h.breaks).imp fun b b' ⟨hb, hb', hm⟩ => {
    hm with
    fields := (forall₂_mem hm.fields).imp fun _ _ ⟨hx, hy, hR⟩ =>
      ⟨mem_computations.2 (.inl ⟨b, hb, hx⟩), mem_computations.2 (.inl ⟨b', hb', hy⟩), hR⟩ }
  vars := (forall₂_mem h.vars).imp fun v v' ⟨hv, hv', hm⟩ => by
    have hrel {o o' : Option Computation} (ho : ∀ x, o = some x → x ∈ v.computations)
        (ho' : ∀ y, o' = some y → y ∈ v'.computations) (h : Option.Rel R o o') :
        Option.Rel (fun x y => x ∈ r.computations ∧ y ∈ r'.computations ∧ R x y) o o' := by
      cases h with
      | none => exact .none
      | some hR =>
        exact .some ⟨mem_computations.2 (.inr (.inl ⟨v, hv, ho _ rfl⟩)),
          mem_computations.2 (.inr (.inl ⟨v', hv', ho' _ rfl⟩)), hR⟩
    refine { hm with stages := (forall₂_mem hm.stages).imp ?_, result := ?_ }
    · rintro o o' ⟨hmem, hmem', ho⟩
      exact hrel (fun x hx => Variable.mem_computations.2 (.inl (hx ▸ hmem)))
        (fun y hy => Variable.mem_computations.2 (.inl (hy ▸ hmem'))) ho
    · exact hrel (fun x hx => Variable.mem_computations.2 (.inr hx))
        (fun y hy => Variable.mem_computations.2 (.inr hy)) hm.result
  expressions := (forall₂_mem h.expressions).imp fun e e' ⟨he, he', hm⟩ =>
    ⟨hm.name, mem_computations.2 (.inr (.inr ⟨e, he, rfl⟩)),
      mem_computations.2 (.inr (.inr ⟨e', he', rfl⟩)), hm.computation⟩

theorem Matches.mp (hT : ∀ x y, S x y → R x y → T x y) (h : r.Matches S r') (h' : r.Matches R r') :
    r.Matches T r' where
  query := h.query
  breaks := .mp (fun _ _ hb hb' => { hb with fields := .mp hT hb.fields hb'.fields })
    h.breaks h'.breaks
  vars := by
    have hrel {o o' : Option Computation} (h : Option.Rel S o o') (h' : Option.Rel R o o') :
        Option.Rel T o o' := by
      cases h with
      | none => exact .none
      | some hS =>
        cases h' with
        | some hR => exact .some (hT _ _ hS hR)
    exact .mp (fun _ _ hv hv' => { hv with
      stages := .mp (fun _ _ => hrel) hv.stages hv'.stages
      result := hrel hv.result hv'.result }) h.vars h'.vars
  expressions := .mp (fun _ _ he he' => ⟨he.name, hT _ _ he.computation he'.computation⟩)
    h.expressions h'.expressions

theorem Matches.imp (hS : ∀ x ∈ r.computations, ∀ y ∈ r'.computations, R x y → S x y)
    (h : r.Matches R r') : r.Matches S r' :=
  h.mem.mp (fun _ _ ⟨hx, hy, hR⟩ _ => hS _ hx _ hy hR) h

theorem Matches.trans (hT : ∀ x y z, R x y → S y z → T x z) (h : r.Matches R r')
    (h' : r'.Matches S r'') : r.Matches T r'' where
  query := h.query.trans h'.query
  breaks := forall₂_trans (fun _ _ _ hb hb' =>
    ⟨hb.name.trans hb'.name, hb.flags.trans hb'.flags, forall₂_trans hT hb.fields hb'.fields⟩)
    h.breaks h'.breaks
  vars := by
    have hrel (o o' o'' : Option Computation) (h : Option.Rel R o o') (h' : Option.Rel S o' o'') :
        Option.Rel T o o'' := by
      cases h with
      | none =>
        cases h'
        exact .none
      | some hR =>
        cases h' with
        | some hS => exact .some (hT _ _ _ hR hS)
    exact forall₂_trans (fun _ _ _ hv hv' =>
      ⟨hv.name.trans hv'.name, hv.kind.trans hv'.kind, hv.resetOnBreak.trans hv'.resetOnBreak,
        hv.precalculated.trans hv'.precalculated, forall₂_trans hrel hv.stages hv'.stages,
        hrel _ _ _ hv.result hv'.result⟩) h.vars h'.vars
  expressions := forall₂_trans (fun _ _ _ he he' =>
    ⟨he.name.trans he'.name, hT _ _ _ he.computation he'.computation⟩)
    h.expressions h'.expressions

theorem matches_refl (hR : ∀ x ∈ r.computations, R x x) : r.Matches R r := by
  have hrel (o : Option Computation) : Option.Rel Eq o o := by
    cases o with
    | none => exact .none
    | some x => exact .some rfl
  have heq : r.Matches Eq r := {
    query := rfl
    breaks := List.forall₂_same.2 fun _ _ => ⟨rfl, rfl, List.forall₂_refl _⟩
    vars := List.forall₂_same.2 fun _ _ =>
      ⟨rfl, rfl, rfl, rfl, List.forall₂_same.2 fun o _ => hrel o, hrel _⟩
    expressions := List.forall₂_same.2 fun _ _ => ⟨rfl, rfl⟩ }
  refine heq.imp fun x hx y _ hxy => ?_
  subst hxy
  exact hR x hx

/-- Reports that are the same up to what their expressions remember. -/
theorem matches_of_forget (h : r.forget = r'.forget) :
    r.Matches (fun x y => x.forget = y.forget) r' where
  query := (congrArg Report.query h :)
  breaks := forall₂_of_map_eq (congrArg Report.breaks h :) fun _ _ _ _ hb =>
    ⟨(congrArg Break.name hb :), (congrArg Break.flags hb :),
      forall₂_of_map_eq (congrArg Break.fields hb :) fun _ _ _ _ hx => hx⟩
  vars := forall₂_of_map_eq (congrArg Report.vars h :) fun _ _ _ _ hv =>
    ⟨(congrArg Variable.name hv :), (congrArg Variable.kind hv :),
      (congrArg Variable.resetOnBreak hv :), (congrArg Variable.precalculated hv :),
      forall₂_of_map_eq (congrArg Variable.stages hv :) fun _ _ _ _ ho =>
        rel_of_map_eq ho fun _ _ _ _ hx => hx,
      rel_of_map_eq (congrArg Variable.result hv :) fun _ _ _ _ hx => hx⟩
  expressions := forall₂_of_map_eq (congrArg Report.expressions h :) fun _ _ _ _ he =>
    ⟨(congrArg ReportExpression.name he :), (congrArg ReportExpression.computation he :)⟩

theorem Matches.forall_left {P : Computation → Prop} (h : r.Matches (fun x _ => P x) r') :
    ∀ x ∈ r.computations, P x := by
  intro x hx
  rcases mem_computations.1 hx with ⟨b, hb, hx⟩ | ⟨v, hv, hx⟩ | ⟨e, he, rfl⟩
  · have hfields := forall_mem_left h.breaks (P := fun b => ∀ x ∈ b.fields, P x)
      fun _ _ hb => forall_mem_left hb.fields fun _ _ hx => hx
    exact hfields b hb x hx
  · have hvars := forall_mem_left h.vars (P := fun v => ∀ x ∈ v.computations, P x)
      fun _ _ hv => forall_mem_left hv.computations fun _ _ hx => hx
    exact hvars v hv x hx
  · exact forall_mem_left h.expressions (P := fun e => P e.computation)
      (fun _ _ he => he.computation) e he

end Report
end

/-! What is dropped -/

/-- Changes the fields whose names all stand for something, and drops the others; a break that loses
all of them is dropped, too. -/
def Break.mapFound? (s : Scope) (f : Computation → Computation) (b : Break) : Option Break :=
  let fields := (b.fields.filter fun x => (x.resolve s).2.isEmpty).map f
  if fields.isEmpty then none else some { b with fields }

/-- Changes the expressions of a variable if their names all stand for something. -/
def Variable.mapFound? (s : Scope) (f : Computation → Computation) (v : Variable) :
    Option Variable :=
  if v.computations.all fun x => (x.resolve s).2.isEmpty then some (v.map f) else none

namespace Report

def addFoundBreak (queries : Scope) (F : Scope → Computation → Computation) (r : Report)
    (b : Break) : Report :=
  let scope := r.resolvedScope queries none
  match b.mapFound? scope (F scope) with
  | some b => { r with breaks := r.breaks ++ [b] }
  | none => r

def addFoundVariable (queries : Scope) (F : Scope → Computation → Computation) (r : Report)
    (v : Variable) : Report :=
  let scope := r.resolvedScope queries (some r.vars.length)
  match r.resetBreak? v, v.mapFound? scope (F scope) with
  | some resetBreak, some v => { r with vars := r.vars ++ [{ v with resetBreak }] }
  | _, _ => r

/-- Changes the expressions of a report, each in the scope in which its names are bound, and drops
what is dropped when they are. -/
def mapFound (queries : Scope) (F : Scope → Computation → Computation) (r : Report) : Report :=
  let found := r.breaks.foldl (addFoundBreak queries F) { r with breaks := [], vars := [] }
  let found := r.vars.foldl (addFoundVariable queries F) found
  let scope := found.resolvedScope queries none
  { found with
    expressions := r.expressions.map fun e => { e with computation := F scope e.computation } }

/-- A report without what is dropped when its names are bound. -/
def pruned (queries : Scope) (r : Report) : Report := r.mapFound queries fun _ x => x

end Report

section

variable {R S : Computation → Computation → Prop} {b b' : Break} {v v' : Variable} {s : Scope}
  {f g : Computation → Computation} {F G : Scope → Computation → Computation}
  {r r' : Report} {queries : Scope} {w : Workspace} {main : QueryId}

theorem Break.resolve?_eq (b : Break) (s : Scope) (optimize : Computation → Computation) :
    b.resolve? s optimize = b.mapFound? s fun x => optimize (x.resolve s).1 := by
  have hfields : (b.fields.filterMap fun x =>
      if (x.resolve s).2.isEmpty then some (optimize (x.resolve s).1) else none) =
      (b.fields.filter fun x => (x.resolve s).2.isEmpty).map fun x => optimize (x.resolve s).1 := by
    rw [← List.filterMap_eq_map, List.filterMap_filter]
    rfl
  unfold Break.resolve? Break.mapFound?
  dsimp only
  rw [hfields]

/-- Binding names is such a change. -/
theorem Report.resolve_eq_mapFound (r : Report) (w : Workspace) (main : QueryId) :
    r.resolve w main =
      r.mapFound (w.scope (some main)) fun s x => w.optimize (x.resolve s).1 := by
  have hbreaks : addResolvedBreak (w.scope (some main)) w.optimize =
      addFoundBreak (w.scope (some main)) fun s x => w.optimize (x.resolve s).1 := by
    funext r b
    rw [addResolvedBreak, Break.resolve?_eq]
    rfl
  unfold Report.resolve Report.mapFound
  dsimp only
  rw [hbreaks]
  rfl

/-- Related fields are dropped together. -/
theorem Break.Matches.mapFound? (h : b.Matches R b')
    (hmissing : ∀ x y, R x y → (x.resolve s).2 = (y.resolve s).2)
    (hS : ∀ x y, R x y → S (f x) (g y)) :
    Option.Rel (Break.Matches S) (b.mapFound? s f) (b'.mapFound? s g) := by
  have hfields : List.Forall₂ S
      ((b.fields.filter fun x => (x.resolve s).2.isEmpty).map f)
      ((b'.fields.filter fun x => (x.resolve s).2.isEmpty).map g) := by
    refine List.rel_map hS (List.rel_filter ?_ h.fields)
    intro x y hxy
    dsimp only
    rw [hmissing x y hxy]
  unfold Break.mapFound?
  dsimp only
  rw [isEmpty_eq_of_forall₂ hfields]
  split
  · exact .none
  · exact .some ⟨h.name, h.flags, hfields⟩

/-- Related variables are dropped together. -/
theorem Variable.Matches.mapFound? (h : v.Matches R v')
    (hmissing : ∀ x y, R x y → (x.resolve s).2 = (y.resolve s).2)
    (hS : ∀ x y, R x y → S (f x) (g y)) :
    Option.Rel (Variable.Matches S) (v.mapFound? s f) (v'.mapFound? s g) := by
  have hfound : (v.computations.map fun x => (x.resolve s).2.isEmpty) =
      v'.computations.map fun x => (x.resolve s).2.isEmpty :=
    map_eq_of_forall₂ h.computations fun x y hxy => by rw [hmissing x y hxy]
  have hall (v : Variable) : (v.computations.all fun x => (x.resolve s).2.isEmpty) =
      (v.computations.map fun x => (x.resolve s).2.isEmpty).all id := by
    rw [List.all_map]
    rfl
  unfold Variable.mapFound?
  rw [hall v, hall v', hfound]
  split
  · exact .some (h.map hS)
  · exact .none

namespace Report

theorem Beside.addFoundBreak (h : r.Beside S r') (hb : b.Matches R b')
    (hmissing : ∀ s x y, R x y → (x.resolve s).2 = (y.resolve s).2)
    (hS : ∀ s x y, R x y → S (F s x) (G s y)) :
    (r.addFoundBreak queries F b).Beside S (r'.addFoundBreak queries G b') := by
  unfold Report.addFoundBreak
  dsimp only
  rw [← resolvedScope_of_names h.names]
  generalize r.resolvedScope queries none = s
  have hfound := hb.mapFound? (hmissing s) (hS s)
  revert hfound
  generalize b.mapFound? s (F s) = o
  generalize b'.mapFound? s (G s) = o'
  rintro (hb | _)
  · exact { h with breaks := List.rel_append h.breaks (.cons hb .nil) }
  · exact h

theorem Beside.addFoundVariable (h : r.Beside S r') (hv : v.Matches R v')
    (hmissing : ∀ s x y, R x y → (x.resolve s).2 = (y.resolve s).2)
    (hS : ∀ s x y, R x y → S (F s x) (G s y)) :
    (r.addFoundVariable queries F v).Beside S (r'.addFoundVariable queries G v') := by
  have hreset : r.resetBreak? v = r'.resetBreak? v' := by
    rw [resetBreak?, resetBreak?, hv.resetOnBreak, h.names]
  unfold Report.addFoundVariable
  dsimp only
  rw [← resolvedScope_of_names h.names, hreset, h.vars.length_eq]
  generalize r.resolvedScope queries (some r'.vars.length) = s
  have hfound := hv.mapFound? (hmissing s) (hS s)
  revert hfound
  generalize v.mapFound? s (F s) = o
  generalize v'.mapFound? s (G s) = o'
  cases r'.resetBreak? v' with
  | none => exact fun _ => h
  | some resetBreak =>
    rintro (hv | _)
    · exact { h with vars := List.rel_append h.vars (.cons { hv with } .nil) }
    · exact h

/-- Related reports lose the same. -/
theorem Matches.mapFound (h : r.Matches R r')
    (hmissing : ∀ s x y, R x y → (x.resolve s).2 = (y.resolve s).2)
    (hS : ∀ s x y, R x y → S (F s x) (G s y)) :
    (r.mapFound queries F).Matches S (r'.mapFound queries G) := by
  have hnone : Beside S { r with breaks := [], vars := [] } { r' with breaks := [], vars := [] } :=
    ⟨h.query, .nil, .nil⟩
  have hbreaks : Beside S
      (r.breaks.foldl (addFoundBreak queries F) { r with breaks := [], vars := [] })
      (r'.breaks.foldl (addFoundBreak queries G) { r' with breaks := [], vars := [] }) :=
    List.rel_foldl (P := Beside S) (R := Break.Matches R)
      (fun _ _ hr _ _ hb => hr.addFoundBreak hb hmissing hS) hnone h.breaks
  have hvars : Beside S (r.vars.foldl (addFoundVariable queries F) _)
      (r'.vars.foldl (addFoundVariable queries G) _) :=
    List.rel_foldl (P := Beside S) (R := Variable.Matches R)
      (fun _ _ hr _ _ hv => hr.addFoundVariable hv hmissing hS) hbreaks h.vars
  have hscope := resolvedScope_of_names hvars.names queries none
  refine ⟨⟨hvars.query, hvars.breaks, hvars.vars⟩, ?_⟩
  unfold Report.mapFound
  dsimp only
  rw [hscope]
  exact List.rel_map (fun _ _ he => ⟨he.name, hS _ _ _ he.computation⟩) h.expressions

/-- What is left of a report are expressions of it. -/
theorem mem_of_mem_pruned {x : Computation} (hx : x ∈ (r.pruned queries).computations) :
    x ∈ r.computations := by
  have hsame : r.Matches (fun x y => x ∈ r.computations ∧ x = y) r :=
    matches_refl fun _ hx => ⟨hx, rfl⟩
  have hpruned : (r.pruned queries).Matches (fun x _ => x ∈ r.computations) (r.pruned queries) :=
    hsame.mapFound (fun _ _ _ h => by rw [h.2]) fun _ _ _ h => h.1
  exact hpruned.forall_left x hx

/-- A bound expression is one of the report that was bound. -/
theorem exists_of_mem_resolve {x : Computation} (hx : x ∈ (r.resolve w main).computations) :
    ∃ y ∈ r.computations, ∃ s, x = w.optimize (y.resolve s).1 := by
  have hsame : r.Matches (fun x y => x ∈ r.computations ∧ x = y) r :=
    matches_refl fun _ hx => ⟨hx, rfl⟩
  have hbound : (r.resolve w main).Matches
      (fun x _ => ∃ y ∈ r.computations, ∃ s, x = w.optimize (y.resolve s).1)
      (r.pruned (w.scope (some main))) := by
    rw [resolve_eq_mapFound]
    exact hsame.mapFound (fun _ _ _ h => by rw [h.2]) fun s x _ h => ⟨x, h.1, s, rfl⟩
  exact hbound.forall_left x hx

end Report
end
end Reporting
