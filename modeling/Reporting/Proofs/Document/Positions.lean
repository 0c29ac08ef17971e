import Mathlib.Data.List.Nodup
import Reporting.Proofs.Document.Layout
/-!
Reports by their positions: which positions a layout has, in which order they are listed, and what each step
adds to them.
-/
namespace Reporting

namespace Layout

variable {α γ κ : Type}

/-! Nodes that hold nodes -/

section Nested

variable {look : γ → κ → Option α} {items : List γ} {c d : γ} {g : γ → γ} {i : Nat} {k : κ} {a : α}

/-- What is found in a list of nodes, by the position of a node and a position inside of it. -/
def within (look : γ → κ → Option α) (items : List γ) (k : Nat × κ) : Option α :=
  items[k.1]?.bind fun c => look c k.2

/-- A step that adds an item where there was none, and changes nothing else. -/
structure Adds (before after : κ → Option α) (k : κ) (a : α) : Prop where
  vacant : before k = none
  named : after k = some a
  kept : ∀ k' ≠ k, after k' = before k'

/-- What is found after the step is what was found before, or what was added. -/
theorem Adds.eq_some_iff {before after : κ → Option α} {k' : κ} {b : α} (h : Adds before after k a) :
    after k' = some b ↔ before k' = some b ∨ k' = k ∧ b = a := by
  by_cases hk : k' = k
  · subst hk
    rw [h.named, h.vacant, Option.some.injEq, eq_comm]
    exact ⟨fun hb => .inr ⟨rfl, hb⟩, fun hb => hb.elim nofun And.right⟩
  · rw [h.kept k' hk]
    exact (or_iff_left fun hb => hk hb.1).symm

theorem within_modify_eq (hc : items[i]? = some c) (k : κ) :
    within look (items.modify i g) (i, k) = look (g c) k := by
  rw [within, List.getElem?_modify_eq, hc]
  rfl

theorem within_modify_ne {j : Nat} (hj : i ≠ j) (k : κ) :
    within look (items.modify i g) (j, k) = within look items (j, k) := by
  rw [within, within, List.getElem?_modify_ne g items hj]

theorem within_of_getElem? (hc : items[i]? = some c) (k : κ) : within look items (i, k) = look c k := by
  rw [within, hc, Option.bind_some]

/-- What adds nothing inside of a node adds nothing to the list of nodes. -/
theorem within_modify (hc : items[i]? = some c) (h : look (g c) = look c) :
    within look (items.modify i g) = within look items := by
  funext ⟨j, k⟩
  by_cases hj : i = j
  · subst hj
    rw [within_modify_eq hc, within_of_getElem? hc, h]
  · exact within_modify_ne hj k

/-- What is added inside of a node is added to the list of nodes. -/
theorem Adds.within (hc : items[i]? = some c) (h : Adds (look c) (look (g c)) k a) :
    Adds (within look items) (within look (items.modify i g)) (i, k) a where
  vacant := (within_of_getElem? hc k).trans h.vacant
  named := (within_modify_eq hc k).trans h.named
  kept := by
    rintro ⟨j, k'⟩ hne
    by_cases hj : i = j
    · subst hj
      rw [within_modify_eq hc, within_of_getElem? hc]
      exact h.kept k' fun hk => hne (hk ▸ rfl)
    · exact within_modify_ne hj k'

/-- A node without items adds nothing at the end. -/
theorem within_concat (hd : ∀ k, look d k = none) : within look (items ++ [d]) = within look items := by
  funext ⟨j, k⟩
  rw [within, within]
  obtain hj | rfl | hj := lt_trichotomy j items.length
  · rw [List.getElem?_append_left hj]
  · rw [List.getElem?_concat_length, List.getElem?_eq_none le_rfl]
    exact hd k
  · rw [List.getElem?_eq_none, List.getElem?_eq_none hj.le]
    rw [List.length_append, List.length_singleton]
    exact hj

theorem adds_concat (items : List α) (a : α) :
    Adds (fun n => items[n]?) (fun n => (items ++ [a])[n]?) items.length a where
  vacant := List.getElem?_eq_none le_rfl
  named := List.getElem?_concat_length
  kept := by
    intro n hn
    obtain hlt | hgt := lt_or_gt_of_ne hn
    · exact List.getElem?_append_left hlt
    · show (items ++ [a])[n]? = items[n]?
      rw [List.getElem?_eq_none hgt.le, List.getElem?_eq_none]
      rw [List.length_append, List.length_singleton]
      exact hgt

/-- The positions inside of a list of nodes, in order. -/
def listed (ids : γ → List κ) (items : List γ) : List (Nat × κ) :=
  items.zipIdx.flatMap fun (c, i) => (ids c).map fun k => (i, k)

theorem mem_listed {ids : γ → List κ} (h : ∀ c k, k ∈ ids c ↔ (look c k).isSome) (items : List γ)
    (k : Nat × κ) : k ∈ listed ids items ↔ (within look items k).isSome := by
  obtain ⟨i, k⟩ := k
  rw [listed, List.mem_flatMap, within]
  constructor
  · rintro ⟨⟨c, j⟩, hc, hk⟩
    obtain ⟨k', hk', he⟩ := List.mem_map.1 hk
    cases he
    rw [List.mem_zipIdx_iff_getElem?.1 hc]
    exact (h c k).1 hk'
  · intro hsome
    cases hc : items[i]? with
    | none => rw [hc] at hsome; cases hsome
    | some c =>
      rw [hc] at hsome
      exact ⟨(c, i), List.mem_zipIdx_iff_getElem?.2 hc, List.mem_map.2 ⟨k, (h c k).2 hsome, rfl⟩⟩

theorem pairwise_listed {ids : γ → List κ} {R : κ → κ → Prop} (h : ∀ c, (ids c).Pairwise R)
    (items : List γ) : (listed ids items).Pairwise (Prod.Lex (· < ·) R) := by
  rw [listed, List.pairwise_flatMap]
  constructor
  · rintro ⟨c, i⟩ -
    rw [List.pairwise_map]
    exact (h c).imp fun hR => Prod.Lex.right i hR
  · have hpositions : (items.zipIdx.map Prod.snd).Pairwise (· < ·) := by
      rw [List.zipIdx_map_snd]
      exact List.pairwise_lt_range'
    refine (List.pairwise_map.1 hpositions).imp ?_
    rintro ⟨c, i⟩ ⟨d, j⟩ hij k hk k' hk'
    obtain ⟨_, _, rfl⟩ := List.mem_map.1 hk
    obtain ⟨_, _, rfl⟩ := List.mem_map.1 hk'
    exact Prod.Lex.left _ _ hij

end Nested

/-! Reports in a layout -/

def Column.at? (c : Column α) (n : Nat) : Option α := c.reports[n]?

def Row.at? (r : Row α) : Nat × Nat → Option α := within Column.at? r.columns

def Part.at? (p : Part α) : Nat × Nat × Nat → Option α := within Row.at? p.rows

def at? (l : Layout α) : Nat × Nat × Nat × Nat → Option α := within Part.at? l.parts

def Column.ids (c : Column α) : List Nat := List.range c.reports.length

def Row.ids (r : Row α) : List (Nat × Nat) := listed Column.ids r.columns

def Part.ids (p : Part α) : List (Nat × Nat × Nat) := listed Row.ids p.rows

theorem Column.mem_ids (c : Column α) (n : Nat) : n ∈ c.ids ↔ (c.at? n).isSome := by
  rw [ids, at?, List.mem_range, isSome_getElem?]

theorem Row.mem_ids (r : Row α) (k : Nat × Nat) : k ∈ r.ids ↔ (r.at? k).isSome :=
  mem_listed Column.mem_ids r.columns k

theorem Part.mem_ids (p : Part α) (k : Nat × Nat × Nat) : k ∈ p.ids ↔ (p.at? k).isSome :=
  mem_listed Row.mem_ids p.rows k

theorem Column.pairwise_ids (c : Column α) : c.ids.Pairwise (· < ·) := List.pairwise_lt_range

theorem Row.pairwise_ids (r : Row α) : r.ids.Pairwise (Prod.Lex (· < ·) (· < ·)) :=
  pairwise_listed Column.pairwise_ids r.columns

theorem Part.pairwise_ids (p : Part α) :
    p.ids.Pairwise (Prod.Lex (· < ·) (Prod.Lex (· < ·) (· < ·))) :=
  pairwise_listed Row.pairwise_ids p.rows

end Layout

namespace ReportId

/-- A position as the positions inside of each other that it consists of. -/
def path (id : ReportId) : Nat × Nat × Nat × Nat := (id.part, id.row, id.column, id.report)

/-- The order of the document: by parts, in a part by rows, in a row by columns, and down each column. -/
def Before (x y : ReportId) : Prop :=
  x.part < y.part ∨ x.part = y.part ∧ (x.row < y.row ∨ x.row = y.row ∧
    (x.column < y.column ∨ x.column = y.column ∧ x.report < y.report))

variable {x y : ReportId}

theorem path_inj (h : x.path = y.path) : x = y := by
  cases x
  cases y
  cases h
  rfl

theorem before_iff : x.Before y ↔
    Prod.Lex (· < ·) (Prod.Lex (· < ·) (Prod.Lex (· < ·) (· < ·))) x.path y.path := by
  rw [Before, path, path, Prod.lex_def, Prod.lex_def, Prod.lex_def]

theorem Before.ne (h : x.Before y) : x ≠ y := by
  rintro rfl
  simp only [Before, Nat.lt_irrefl, false_or, and_false] at h

end ReportId

namespace Layout

variable {α : Type} {l l' : Layout α} {part : Nat} {row : RowId} {column : ColumnId} {id : ReportId} {a : α}

theorem report?_eq (l : Layout α) (id : ReportId) : l.report? id = l.at? id.path := by
  unfold report? column? row? part? at? Part.at? Row.at? Column.at? within ReportId.path
  simp only [Option.bind_eq_bind, Option.bind_assoc]

theorem reportIds_map_path (l : Layout α) : l.reportIds.map ReportId.path = listed Part.ids l.parts := by
  unfold reportIds Part.ids Row.ids Column.ids listed
  simp only [List.flatMap_def, List.map_flatten, List.map_map, Function.comp_def, ReportId.path]

theorem mem_reportIds : id ∈ l.reportIds ↔ (l.report? id).isSome := by
  rw [report?_eq, at?, ← mem_listed Part.mem_ids, ← reportIds_map_path]
  exact (List.mem_map_of_injective fun x y => ReportId.path_inj).symm

theorem pairwise_reportIds (l : Layout α) : l.reportIds.Pairwise ReportId.Before := by
  have hpath := pairwise_listed Part.pairwise_ids l.parts
  rw [← reportIds_map_path, List.pairwise_map] at hpath
  exact hpath.imp ReportId.before_iff.2

/-! What the steps add -/

theorem report?_of_at? (h : l'.at? = l.at?) : l'.report? = l.report? := by
  funext id
  rw [report?_eq, report?_eq, h]

theorem adds_of_at? (h : Adds l.at? l'.at? id.path a) : Adds l.report? l'.report? id a where
  vacant := (report?_eq l id).trans h.vacant
  named := (report?_eq l' id).trans h.named
  kept := by
    intro id' hne
    rw [report?_eq, report?_eq]
    exact h.kept _ fun hpath => hne (ReportId.path_inj hpath)

theorem report?_newPart (l : Layout α) : l.newPart.1.report? = l.report? :=
  report?_of_at? (within_concat fun _ => rfl)

theorem report?_newRow (h : l.newRow part = .ok (l', row)) : l'.report? = l.report? := by
  unfold newRow at h
  split at h
  · cases h
  · rename_i p hp
    cases h
    exact report?_of_at? (within_modify hp (within_concat fun _ => rfl))

theorem report?_newColumn (h : l.newColumn row = .ok (l', column)) : l'.report? = l.report? := by
  unfold newColumn at h
  split at h
  · cases h
  · rename_i r hr
    cases h
    obtain ⟨p, hp, hrow⟩ := Option.bind_eq_some_iff.1 hr
    exact report?_of_at? (within_modify hp (within_modify hrow (within_concat fun _ => rfl)))

theorem adds_newReport (h : l.newReport column a = .ok (l', id)) : Adds l.report? l'.report? id a := by
  unfold newReport at h
  split at h
  · cases h
  · rename_i c hc
    cases h
    obtain ⟨r, hr, hcolumn⟩ := Option.bind_eq_some_iff.1 hc
    obtain ⟨p, hp, hrow⟩ := Option.bind_eq_some_iff.1 hr
    have hlast : Adds c.at? (Column.mk (c.reports ++ [a])).at? c.reports.length a := adds_concat c.reports a
    exact adds_of_at? (Adds.within hp (Adds.within hrow (Adds.within hcolumn hlast)))

theorem report?_partOrLast (l : Layout α) (part : Option Nat) :
    (l.partOrLast part).1.report? = l.report? := by
  unfold partOrLast
  split
  · rfl
  · split
    · exact report?_newPart l
    · rfl

theorem report?_lastRow (h : l.lastRow part = .ok (l', row)) : l'.report? = l.report? := by
  unfold lastRow at h
  split at h
  · split at h
    · exact report?_newRow h
    · cases h
      rfl
  · cases h

theorem report?_lastColumn (h : l.lastColumn row = .ok (l', column)) : l'.report? = l.report? := by
  unfold lastColumn at h
  split at h
  · split at h
    · exact report?_newColumn h
    · cases h
      rfl
  · cases h

theorem adds_append {part : Option Nat} (h : l.append part a = .ok (l', id)) :
    Adds l.report? l'.report? id a := by
  have hpart := report?_partOrLast l part
  unfold append at h
  generalize l.partOrLast part = chosen at hpart h
  obtain ⟨l₁, part⟩ := chosen
  obtain ⟨⟨l₂, row⟩, hrow, h⟩ := Compiler.bind_eq_ok h
  obtain ⟨⟨l₃, column⟩, hcolumn, h⟩ := Compiler.bind_eq_ok h
  have hsame : l₃.report? = l.report? :=
    (report?_lastColumn hcolumn).trans ((report?_lastRow hrow).trans hpart)
  exact hsame ▸ adds_newReport h

end Layout
end Reporting
