import Reporting.Proofs.Expr.Compiled
import Reporting.Proofs.Expr.Joining
import Reporting.Proofs.Function.Whole
/-!
Trees of integers: sums, differences, products and opposites whose leaves are integers. As long as the
precision has room for the size of such a tree, it is worth the integer that it denotes, and so is what
simplifying makes of it, however the operands are regrouped.
-/
namespace Reporting

/-- The integer that a value is, if it is one. -/
def Value.integer (v : Value) : Int := (v.number?.map fun x => x.toRat.num).getD 0

theorem Value.Holds.integer_eq {v : Value} {k : Int} (h : v.Holds k) : v.integer = k := by
  obtain ⟨x, hx, hk⟩ := h
  rw [Value.integer, hx, Option.map_some, Option.getD_some, hk, Rat.num_intCast]

/-- What the table says of the functions of integers. -/
theorem Entry.traits_of_takes {en : Entry} {n : Nat} (he : en ∈ Entry.all) (h : en.builtin.TakesIntegers n) :
    en.traits.volatileCall = false ∧ en.arity.accepts n = true ∧
      (en.builtin = .add ∨ en.builtin = .mul ↔ en.traits.isCommAssoc = true) ∧
      (en.builtin = .sub ↔ en.traits.isCommAssoc = false ∧ en.traits.leftAssociative = true) := by
  have htable : ∀ en ∈ Entry.all, (en.builtin = .add ∨ en.builtin = .sub ∨ en.builtin = .mul →
      en.arity = .variadic) ∧ (en.builtin = .uminus → en.arity = .exact 1) ∧
      (en.builtin = .add ∨ en.builtin = .sub ∨ en.builtin = .mul ∨ en.builtin = .uminus →
        en.traits.volatileCall = false ∧
        (en.builtin = .add ∨ en.builtin = .mul ↔ en.traits.isCommAssoc = true) ∧
        (en.builtin = .sub ↔
          en.traits.isCommAssoc = false ∧ en.traits.leftAssociative = true)) := by
    decide
  obtain ⟨hvariadic, hexact, htraits⟩ := htable en he
  obtain ⟨hb, -⟩ | ⟨hb, rfl⟩ := h
  · obtain ⟨hv, hcomm, hleft⟩ := htraits (by tauto)
    exact ⟨hv, by rw [hvariadic hb]; rfl, hcomm, hleft⟩
  · obtain ⟨hv, hcomm, hleft⟩ := htraits (by tauto)
    exact ⟨hv, by rw [hexact hb]; rfl, hcomm, hleft⟩

namespace Expr

mutual

/-- The integer that a tree denotes. -/
def integer (c : Context) (self : Option Value) : Expr → Int
  | call f operands _ _ => (f.builtin?.map (·.ofIntegers (integerAll c self operands))).getD 0
  | e => (e.meaning c self).integer

def integerAll (c : Context) (self : Option Value) : List Expr → List Int
  | [] => []
  | e :: es => integer c self e :: integerAll c self es

end

mutual

/-- What bounds the integer that a tree denotes, and all that is computed on the way. -/
def size (c : Context) (self : Option Value) : Expr → Nat
  | call f operands _ _ => (f.builtin?.map (·.ofExtents (sizeAll c self operands))).getD 1
  | e => extent (e.integer c self)

def sizeAll (c : Context) (self : Option Value) : List Expr → List Nat
  | [] => []
  | e :: es => size c self e :: sizeAll c self es

end

/-- The expression stays an operand of its own when it stands behind another operand. -/
def StaysBehind (f : Function) (e : Expr) : Prop :=
  f.traits.isCommAssoc = true ∨ (callsSame f e = true → e.isGrouped = true)

/-- The expression itself is an integer, or a sum, difference, product or opposite. -/
def Whole (c : Context) (self : Option Value) : Expr → Prop
  | call (.builtin en) es ring _ =>
    en ∈ Entry.all ∧ boundTo? ring = none ∧ en.builtin.TakesIntegers es.length ∧
      ∀ e ∈ es.tail, StaysBehind (.builtin en) e
  | call (.user _) _ _ _ => False
  | e => ∃ k, (e.meaning c self).Holds k

variable {c c₀ : Context} {self : Option Value} {e e' : Expr} {es before : List Expr} {f : Function}
  {en : Entry} {ring : Ring (Option Cell)} {g : Bool} {v : Value}

@[simp] theorem integerAll_eq_map (c : Context) (self : Option Value) (es : List Expr) :
    integerAll c self es = es.map (integer c self) := by
  induction es with
  | nil => rfl
  | cons e es ih => rw [integerAll, ih, List.map_cons]

@[simp] theorem sizeAll_eq_map (c : Context) (self : Option Value) (es : List Expr) :
    sizeAll c self es = es.map (size c self) := by
  induction es with
  | nil => rfl
  | cons e es ih => rw [sizeAll, ih, List.map_cons]

theorem integer_call : (call (.builtin en) es ring g).integer c self =
    en.builtin.ofIntegers (es.map (integer c self)) := by
  rw [integer, integerAll_eq_map]
  rfl

theorem size_call : (call (.builtin en) es ring g).size c self =
    en.builtin.ofExtents (es.map (size c self)) := by
  rw [size, sizeAll_eq_map]
  rfl

theorem integer_constant (v : Value) (g : Bool) : (constant v g).integer c self = v.integer := rfl

theorem size_constant (v : Value) (g : Bool) : (constant v g).size c self = extent v.integer := rfl

/-- A call in a tree of integers. -/
theorem Every.whole_call (h : (call f es ring g).Every (Whole c self)) :
    ∃ en ∈ Entry.all, f = .builtin en ∧ boundTo? ring = none ∧
      en.builtin.TakesIntegers es.length ∧ ∀ e ∈ es.tail, StaysBehind (.builtin en) e := by
  have hnode := h.node
  cases f with
  | user u => cases hnode
  | builtin en =>
    obtain ⟨he, hring, htakes, htail⟩ := hnode
    exact ⟨en, he, rfl, hring, htakes, htail⟩

theorem operands_ne_nil {es : List Expr} (h : en.builtin.TakesIntegers es.length) : es ≠ [] := by
  rintro rfl
  obtain ⟨-, hlen⟩ | ⟨-, hlen⟩ := h <;> cases hlen

theorem one_le_size (h : e.Every (Whole c self)) : 1 ≤ e.size c self := by
  induction e using tree_induction with
  | constant | reference => exact one_le_extent _
  | call f es ring g ih =>
    obtain ⟨en, -, rfl, -, htakes, -⟩ := h.whole_call
    have hone : ∀ n ∈ es.map (size c self), 1 ≤ n :=
      List.forall_mem_map.2 fun e he => ih e he (h.operand he)
    obtain ⟨e, es, rfl⟩ := List.exists_cons_of_ne_nil (operands_ne_nil htakes)
    rw [size_call]
    exact (hone _ List.mem_cons_self).trans (Builtin.le_ofExtents List.mem_cons_self hone)

theorem size_operand_le (h : (call (.builtin en) es ring g).Every (Whole c self)) (he : e ∈ es) :
    e.size c self ≤ (call (.builtin en) es ring g).size c self := by
  rw [size_call]
  exact Builtin.le_ofExtents (List.mem_map_of_mem he)
    (List.forall_mem_map.2 fun e he => one_le_size (h.operand he))

theorem extent_integers_le {es : List Expr}
    (h : ∀ e ∈ es, extent (e.integer c self) ≤ e.size c self) (b : Builtin) :
    b.ofExtents ((es.map (integer c self)).map extent) ≤ b.ofExtents (es.map (size c self)) := by
  apply Builtin.ofExtents_mono
  rw [List.map_map, List.forall₂_map_left_iff, List.forall₂_map_right_iff, List.forall₂_same]
  exact h

theorem extent_integer_le (h : e.Every (Whole c self)) :
    extent (e.integer c self) ≤ e.size c self := by
  induction e using tree_induction with
  | constant | reference => exact Nat.le_refl _
  | call f es ring g ih =>
    obtain ⟨en, -, rfl, -, htakes, -⟩ := h.whole_call
    have hops := extent_integers_le (fun e he => ih e he (h.operand he)) en.builtin
    rw [integer_call, size_call]
    exact (extent_ofIntegers_le (by rwa [List.length_map])).trans hops

/-! What a tree is worth -/

theorem holds_call {vs : List Value} {ks : List Int} (he : en ∈ Entry.all)
    (hvs : List.Forall₂ Value.Holds vs ks) (htakes : en.builtin.TakesIntegers vs.length)
    (hsize : en.builtin.ofExtents (ks.map extent) < 10 ^ min c.precision.digits Decimal.maxExponent) :
    ((Function.builtin en).apply vs c).Holds (en.builtin.ofIntegers ks) := by
  obtain ⟨-, hlen, -⟩ := Entry.traits_of_takes he htakes
  have happly : (Function.builtin en).apply vs c = (en.builtin.apply vs c).value := by
    rw [Function.apply, Function.arity, hlen]
    rfl
  rw [happly]
  exact holds_apply hvs htakes hsize

/-- A tree of integers is worth the integer that it denotes. -/
theorem holds_meaning (h : e.Every (Whole c self))
    (hsize : e.size c self < 10 ^ min c.precision.digits Decimal.maxExponent) :
    (e.meaning c self).Holds (e.integer c self) := by
  induction e using tree_induction with
  | constant v g =>
    obtain ⟨k, hk⟩ : ∃ k, ((constant v g).meaning c self).Holds k := h.node
    obtain rfl := hk.integer_eq
    exact hk
  | reference r t g =>
    obtain ⟨k, hk⟩ : ∃ k, ((reference r t g).meaning c self).Holds k := h.node
    obtain rfl := hk.integer_eq
    exact hk
  | call f es ring g ih =>
    obtain ⟨en, he, rfl, hring, htakes, -⟩ := h.whole_call
    have hvs : List.Forall₂ Value.Holds (es.map (meaning c self)) (es.map (integer c self)) := by
      rw [List.forall₂_map_left_iff, List.forall₂_map_right_iff, List.forall₂_same]
      exact fun e he => ih e he (h.operand he)
        (Nat.lt_of_le_of_lt (size_operand_le h he) hsize)
    have hext := extent_integers_le (fun e he => extent_integer_le (h.operand he)) en.builtin
    rw [meaning_call hring, integer_call]
    rw [size_call] at hsize
    exact holds_call he hvs (by rwa [List.length_map]) (Nat.lt_of_le_of_lt hext hsize)

/-! Joining -/

section Join

variable {α : Type} {F : List α → α} {w : Expr → α}
  (hw : ∀ f es ring g, f.sameAs (.builtin en) = true → w (call f es ring g) = F (es.map w))
  (hF : ∀ before ks later, before = [] ∨ en.traits.isCommAssoc = true → ks ≠ [] →
    F (before ++ ks ++ later) = F (before ++ F ks :: later))

/-- What is joined stands first, or may stand anywhere. -/
theorem first_of_joins (h : joins (.builtin en) before.isEmpty g = true)
    (hb : before = [] ∨ StaysBehind (.builtin en) (call (.builtin en) es ring g)) :
    before = [] ∨ en.traits.isCommAssoc = true := by
  obtain hb | hcomm | hgrouped := hb
  · exact .inl hb
  · exact .inr hcomm
  · obtain rfl : g = true := hgrouped (sameAs_self en)
    simp only [joins, Function.traits, Bool.and_eq_true, Bool.or_eq_true, Bool.not_true,
      Bool.or_false, List.isEmpty_iff] at h
    tauto

theorem fold_joinAll
    (ih : ∀ e ∈ es, ∀ before later, before = [] ∨ StaysBehind (.builtin en) e →
      F ((join (.builtin en) before e).map w ++ later) = F (before.map w ++ w e :: later))
    (before : List Expr) (hfirst : before = [] ∨ ∀ e ∈ es, StaysBehind (.builtin en) e)
    (htail : ∀ e ∈ es.tail, StaysBehind (.builtin en) e) (later : List α) :
    F ((joinAll (.builtin en) before es).map w ++ later) =
      F (before.map w ++ es.map w ++ later) := by
  induction es generalizing before with
  | nil => rw [joinAll_nil, List.map_nil, List.append_nil]
  | cons e es ihs =>
    have hrest := ihs (fun e he => ih e (List.mem_cons_of_mem _ he)) (join (.builtin en) before e)
      (.inr htail) fun e he => htail e (List.mem_of_mem_tail he)
    rw [joinAll_cons, hrest, List.append_assoc,
      ih e List.mem_cons_self before _ (hfirst.imp_right fun h => h e List.mem_cons_self),
      List.map_cons, List.append_assoc, List.cons_append]

include hw hF in
/-- Joining keeps what is computed from the operands, if groups of operands may stand for them. -/
theorem fold_join (he : en ∈ Entry.all) (h : e.Every (Whole c self)) (before : List Expr) (later : List α)
    (hb : before = [] ∨ StaysBehind (.builtin en) e) :
    F ((join (.builtin en) before e).map w ++ later) = F (before.map w ++ w e :: later) := by
  have hlast (hj : join (.builtin en) before e = before ++ [e]) :
      F ((join (.builtin en) before e).map w ++ later) = F (before.map w ++ w e :: later) := by
    rw [hj, List.map_append, List.map_singleton, List.append_assoc, List.singleton_append]
  induction e using tree_induction generalizing before later with
  | constant => exact hlast (join_constant ..)
  | reference => exact hlast (join_reference ..)
  | call f es ring g ih =>
    by_cases hj : (f.sameAs (.builtin en) && joins (.builtin en) before.isEmpty g) = true
    · obtain ⟨hsame, hjoins⟩ := Bool.and_eq_true_iff.1 hj
      obtain ⟨en', he', rfl, -, htakes, htail⟩ := h.whole_call
      have ht : (en.traits.isCommAssoc || en.traits.leftAssociative) = true := by
        simp only [joins, Function.traits, Bool.and_eq_true, Bool.or_eq_true] at hjoins ⊢
        tauto
      obtain rfl := Function.builtin.inj (eq_of_sameAs he ht he' hsame)
      have hfirst := first_of_joins hjoins hb
      rw [join_call_of_joins hj, hw _ _ _ _ hsame,
        ← hF _ _ _ (hfirst.imp_left fun h => List.map_eq_nil_iff.2 h)
          (mt List.map_eq_nil_iff.1 (operands_ne_nil htakes))]
      refine fold_joinAll (fun e hm before later hb => ih e hm (h.operand hm) before later hb ?_)
        before (hfirst.imp_right fun hcomm e _ => .inl hcomm) htail later
      intro hj
      rw [hj, List.map_append, List.map_singleton, List.append_assoc, List.singleton_append]
    · exact hlast (join_call_of_not_joins hj)

end Join

/-- The function of two operands or more whose operands are joined. -/
theorem integer_flat (h : (call (.builtin en) es ring g).Every (Whole c self))
    (hb : en.builtin = .add ∨ en.builtin = .mul ∨ en.builtin = .sub) :
    (call (.builtin en) (flat (.builtin en) es) ring g).integer c self =
        (call (.builtin en) es ring g).integer c self ∧
      (call (.builtin en) (flat (.builtin en) es) ring g).size c self =
        (call (.builtin en) es ring g).size c self := by
  obtain ⟨he, -, htakes, htail⟩ := h.node
  obtain ⟨-, -, hcomm, -⟩ := Entry.traits_of_takes he htakes
  have hoperand {f : Function} (hs : f.sameAs (.builtin en) = true) : f.builtin? = some en.builtin := by
    cases f with
    | user u => cases hs
    | builtin en' => exact congrArg some (beq_iff_eq.1 hs)
  have hflat {α : Type} {F : List α → α} {w : Expr → α}
      (hw : ∀ f es ring g, f.sameAs (.builtin en) = true → w (call f es ring g) = F (es.map w))
      (hF : ∀ before ks later, before = [] ∨ en.traits.isCommAssoc = true → ks ≠ [] →
        F (before ++ ks ++ later) = F (before ++ F ks :: later)) :
      F ((flat (.builtin en) es).map w) = F (es.map w) := by
    have hjoin := fold_joinAll (F := F) (w := w)
      (fun e hm before later hb => fold_join hw hF he (h.operand hm) before later hb) []
      (.inl rfl) htail []
    rwa [List.append_nil, List.append_nil, List.map_nil, List.nil_append] at hjoin
  rw [integer_call, integer_call, size_call, size_call]
  refine ⟨hflat ?_ ?_, hflat ?_ fun before ns later _ _ =>
    Builtin.ofExtents_group en.builtin before ns later⟩
  · intro f es ring g hs
    rw [integer, hoperand hs, integerAll_eq_map]
    rfl
  · intro before ks later hfirst hks
    refine Builtin.ofIntegers_group ?_ hks later
    rw [← hcomm] at hfirst
    tauto
  · intro f es ring g hs
    rw [size, hoperand hs, sizeAll_eq_map]
    rfl

/-- What stays behind the first operand is not joined again. -/
theorem staysBehind_flat (hv : en.traits.volatileCall = false)
    (ht : (en.traits.isCommAssoc || en.traits.leftAssociative) = true) (es : List Expr) :
    ∀ x ∈ (flat (.builtin en) es).tail, StaysBehind (.builtin en) x := by
  have hlast {e : Expr} {before : List Expr} (hb : ∀ x ∈ before.tail, StaysBehind (.builtin en) x)
      (he : before ≠ [] → StaysBehind (.builtin en) e) :
      ∀ x ∈ (before ++ [e]).tail, StaysBehind (.builtin en) x := by
    cases before with
    | nil => exact List.forall_mem_nil _
    | cons b before =>
      rw [List.cons_append, List.tail_cons]
      exact List.forall_mem_append.2 ⟨hb, List.forall_mem_singleton.2 (he (List.cons_ne_nil _ _))⟩
  have hjoin (e : Expr) (before : List Expr) (hb : ∀ x ∈ before.tail, StaysBehind (.builtin en) x) :
      ∀ x ∈ (join (.builtin en) before e).tail, StaysBehind (.builtin en) x := by
    induction e using tree_induction generalizing before with
    | constant v g =>
      rw [join_constant]
      exact hlast hb fun _ => .inr nofun
    | reference r t g =>
      rw [join_reference]
      exact hlast hb fun _ => .inr nofun
    | call f es ring g ih =>
      by_cases hj : (f.sameAs (.builtin en) && joins (.builtin en) before.isEmpty g) = true
      · rw [join_call_of_joins hj]
        exact joinAll_of_join (P := fun es => ∀ x ∈ es.tail, StaysBehind (.builtin en) x)
          (fun e he before hb => ih e he before hb) hb
      · rw [join_call_of_not_joins hj]
        refine hlast hb fun hne => ?_
        by_cases hcomm : en.traits.isCommAssoc = true
        · exact .inl hcomm
        · refine .inr fun hs => ?_
          have hsame : f.sameAs (.builtin en) = true := hs
          have hleft : en.traits.leftAssociative = true := by
            rw [Bool.or_eq_true] at ht
            tauto
          simp only [hsame, joins, Function.traits, hv, hleft, List.isEmpty_eq_false_iff.2 hne,
            Bool.eq_false_iff.2 hcomm, Bool.true_and, Bool.not_false, Bool.false_or, Bool.not_eq_true,
            Bool.not_eq_false'] at hj
          exact hj
  exact joinAll_of_join (P := fun es => ∀ x ∈ es.tail, StaysBehind (.builtin en) x)
    (fun e _ before hb => hjoin e before hb) (List.forall_mem_nil _)

/-- Joining takes no operand away. -/
theorem length_joinAll_le (ih : ∀ e ∈ es, ∀ before : List Expr,
      before.length + 1 ≤ (join f before e).length) (before : List Expr) :
    before.length + es.length ≤ (joinAll f before es).length := by
  induction es generalizing before with
  | nil => exact Nat.le_refl _
  | cons e es ihs =>
    have hfirst := ih e List.mem_cons_self before
    have hrest := ihs (fun e he => ih e (List.mem_cons_of_mem _ he)) (join f before e)
    rw [joinAll_cons, List.length_cons]
    omega

theorem length_join_le (h : e.Every (Whole c self)) (before : List Expr) :
    before.length + 1 ≤ (join f before e).length := by
  have hlast {e : Expr} {before : List Expr} :
      before.length + 1 ≤ (before ++ [e]).length := by
    rw [List.length_append, List.length_singleton]
  induction e using tree_induction generalizing before with
  | constant v g =>
    rw [join_constant]
    exact hlast
  | reference r t g =>
    rw [join_reference]
    exact hlast
  | call f' es ring g ih =>
    by_cases hj : (f'.sameAs f && joins f before.isEmpty g) = true
    · obtain ⟨en, -, -, -, htakes, -⟩ := h.whole_call
      have hpos := List.length_pos_iff.2 (operands_ne_nil htakes)
      have hle := length_joinAll_le (fun e he before => ih e he (h.operand he) before) before
      rw [join_call_of_joins hj]
      omega
    · rw [join_call_of_not_joins hj]
      exact hlast

/-! Simplifying -/

/-- What a tree of integers is replaced by. -/
structure Keeps (c : Context) (last : Option Value) (e e' : Expr) : Prop where
  whole : e'.Every (Whole c last)
  integer : e'.integer c last = e.integer c last
  size : e'.size c last ≤ e.size c last

theorem Keeps.trans {e'' : Expr} (h : Keeps c self e e') (h' : Keeps c self e' e'') :
    Keeps c self e e'' :=
  ⟨h'.whole, h'.integer.trans h.integer, h'.size.trans h.size⟩

theorem keeps_operands {simple : Expr → Expr}
    (h : (call (.builtin en) es ring g).Every (Whole c self))
    (hops : ∀ e ∈ es, Keeps c self e (simple e))
    (hcalls : ∀ e, StaysBehind (.builtin en) e → StaysBehind (.builtin en) (simple e)) :
    Keeps c self (call (.builtin en) es ring g) (call (.builtin en) (es.map simple) ring g) where
  whole := by
    obtain ⟨he, hring, htakes, htail⟩ := h.node
    refine every_call.2 ⟨⟨he, hring, by rwa [List.length_map], ?_⟩,
      List.forall_mem_map.2 fun e hm => (hops e hm).whole⟩
    rw [← List.map_tail]
    exact List.forall_mem_map.2 fun e hm => hcalls e (htail e hm)
  integer := by
    rw [integer_call, integer_call, List.map_map]
    exact congrArg _ (List.map_congr_left fun e hm => (hops e hm).integer)
  size := by
    rw [size_call, size_call, List.map_map]
    apply Builtin.ofExtents_mono
    rw [List.forall₂_map_left_iff, List.forall₂_map_right_iff, List.forall₂_same]
    exact fun e hm => (hops e hm).size

theorem keeps_flat (h : (call (.builtin en) es ring g).Every (Whole c self)) :
    Keeps c self (call (.builtin en) es ring g)
      (call (.builtin en) (flat (.builtin en) es) ring g) := by
  obtain ⟨he, hring, htakes, htail⟩ := h.node
  obtain ⟨hv, -, hcomm, hleft⟩ := Entry.traits_of_takes he htakes
  obtain ⟨hb, hlen⟩ | ⟨hb, hlen⟩ := htakes
  · have hb' : en.builtin = .add ∨ en.builtin = .mul ∨ en.builtin = .sub := by tauto
    obtain ⟨hinteger, hsize⟩ := integer_flat h hb'
    have ht : (en.traits.isCommAssoc || en.traits.leftAssociative) = true := by
      rw [Bool.or_eq_true]
      tauto
    have hlen' := length_joinAll_le
      (fun e hm before => length_join_le (f := .builtin en) (h.operand hm) before) []
    refine ⟨every_call.2 ⟨⟨he, hring, .inl ⟨hb, ?_⟩, staysBehind_flat hv ht es⟩, ?_⟩, hinteger,
      Nat.le_of_eq hsize⟩
    · rw [List.length_nil] at hlen'
      rw [flat]
      omega
    · exact joinAll_of_join (P := fun es => ∀ e ∈ es, e.Every (Whole c self))
        (fun e hm before hb => every_join hb (h.operand hm)) (List.forall_mem_nil _)
  · have hnone (first grouped : Bool) : joins (.builtin en) first grouped = false := by
      have hnot : en.traits.isCommAssoc = false := by
        rw [← Bool.not_eq_true, ← hcomm, hb]
        rintro (h | h) <;> cases h
      have hnotLeft : en.traits.leftAssociative = false := by
        rw [← Bool.not_eq_true]
        intro hl
        have hsub := hleft.2 ⟨hnot, hl⟩
        rw [hb] at hsub
        cases hsub
      simp only [joins, Function.traits, hnot, hnotLeft, Bool.false_and, Bool.or_false,
        Bool.and_false]
    rw [flat_of_not_joins hnone]
    exact ⟨h, rfl, Nat.le_refl _⟩

/-- A value that is computed in advance stands for the call. -/
theorem keeps_folded (hc : SameFolding c₀ c) (h : (call (.builtin en) es ring g).Every (Whole c self))
    (hsize : (call (.builtin en) es ring g).size c self <
      10 ^ min c.precision.digits Decimal.maxExponent)
    (hfolds : folds (.builtin en) es = true) :
    Keeps c self (call (.builtin en) es ring g)
      (constant ((Function.builtin en).apply (es.filterMap constant?) c₀) g) := by
  obtain ⟨he, hring, -, -⟩ := h.node
  have hmeaning : (constant ((Function.builtin en).apply (es.filterMap constant?) c₀) g).meaning c self =
      (Function.builtin en).apply (es.map (meaning c self)) c := meaning_folded hc he hfolds g
  have hholds := holds_meaning h hsize
  rw [meaning_call hring, ← hmeaning] at hholds
  refine ⟨⟨_, hholds⟩, hholds.integer_eq, ?_⟩
  rw [size_constant]
  exact (congrArg _ hholds.integer_eq).trans_le (extent_integer_le h)

theorem forall₂_constants (h : ∀ e ∈ es, e.Every (Whole c self)) :
    List.Forall₂ Value.Holds (es.filterMap constant?)
      ((es.filter isConstant).map (integer c self)) := by
  induction es with
  | nil => exact .nil
  | cons e es ih =>
    have hrest := ih fun e he => h e (List.mem_cons_of_mem _ he)
    cases e with
    | constant v g =>
      obtain ⟨k, hk⟩ : ∃ k, v.Holds k := (h _ List.mem_cons_self).node
      refine .cons ?_ hrest
      rw [integer_constant, hk.integer_eq]
      exact hk
    | reference => exact hrest
    | call => exact hrest

theorem size_of_constants (es : List Expr) :
    ((es.filter isConstant).map (integer c self)).map extent = (es.filter isConstant).map (size c self) := by
  rw [List.map_map]
  refine List.map_congr_left fun e he => ?_
  cases e with
  | constant v g => rfl
  | reference => cases (List.mem_filter.1 he).2
  | call => cases (List.mem_filter.1 he).2

/-- The constants among operands are put in front of the others that stand behind the first one. -/
theorem perm_constants {first rest : List Expr} {k : Value}
    (hfirst : nonConstants first = first) :
    (first ++ constant k g :: rest).Perm
      (first ++ (first ++ constant k g :: rest).filter isConstant ++ nonConstants rest) := by
  have hnone : first.filter isConstant = [] := by
    rw [List.filter_eq_nil_iff, ← hfirst]
    intro e he
    have hnot := (List.mem_filter.1 he).2
    rw [Bool.not_eq_true'] at hnot
    rw [hnot]
    exact Bool.false_ne_true
  have hsplit := List.filter_append_perm isConstant rest
  rw [List.filter_append, hnone, List.nil_append, List.append_assoc]
  exact (hsplit.symm.cons _).append_left first

/-- Some operands of a sum or product are replaced by what they amount to. -/
theorem keeps_group {first part rest : List Expr}
    (h : (call (.builtin en) es ring g).Every (Whole c self))
    (hregroup : en.traits.isCommAssoc = true) (hperm : es.Perm (first ++ part ++ rest))
    (htwo : 2 ≤ part.length) (hlen : 2 ≤ (first ++ constant v false :: rest).length)
    (hv : v.Holds (en.builtin.ofIntegers (part.map (integer c self)))) :
    Keeps c self (call (.builtin en) es ring g)
      (call (.builtin en) (first ++ constant v false :: rest) ring g) := by
  obtain ⟨he, hring, htakes, -⟩ := h.node
  obtain ⟨-, -, hcomm, -⟩ := Entry.traits_of_takes he htakes
  have hb := hcomm.2 hregroup
  have hmem {e : Expr} (hm : e ∈ first ++ part ++ rest) := h.operand (hperm.mem_iff.2 hm)
  have hpart {e : Expr} (hm : e ∈ part) : e.Every (Whole c self) :=
    hmem (List.mem_append_left _ (List.mem_append_right _ hm))
  refine ⟨every_call.2 ⟨⟨he, hring, .inl ⟨by tauto, hlen⟩, fun _ _ => .inl hregroup⟩, ?_⟩, ?_, ?_⟩
  · refine List.forall_mem_append.2 ⟨fun e hm => hmem ?_, List.forall_mem_cons.2
      ⟨⟨_, hv⟩, fun e hm => hmem ?_⟩⟩
    · exact List.mem_append_left _ (List.mem_append_left _ hm)
    · exact List.mem_append_right _ hm
  · have hne : part.map (integer c self) ≠ [] :=
      List.ne_nil_of_length_pos (by rw [List.length_map]; omega)
    rw [integer_call, integer_call, Builtin.ofIntegers_perm hb (hperm.map _), List.map_append,
      List.map_append, List.map_append, Builtin.ofIntegers_group (by tauto) hne, List.map_cons,
      integer_constant, hv.integer_eq]
  · have hbelow : extent (en.builtin.ofIntegers (part.map (integer c self))) ≤
        en.builtin.ofExtents (part.map (size c self)) :=
      (extent_ofIntegers_le (.inl ⟨by tauto, by rwa [List.length_map]⟩)).trans
        (extent_integers_le (fun e hm => extent_integer_le (hpart hm)) _)
    rw [size_call, size_call, Builtin.ofExtents_perm (hperm.map _), List.map_append,
      List.map_append, List.map_append, Builtin.ofExtents_group, List.map_cons, size_constant,
      hv.integer_eq]
    exact Builtin.ofExtents_replace hbelow

theorem length_constants (es : List Expr) :
    (es.filterMap constant?).length = (es.filter isConstant).length := by
  induction es with
  | nil => rfl
  | cons e es ih =>
    cases e with
    | constant v g => exact congrArg (· + 1) ih
    | reference => exact ih
    | call => exact ih

/-- What the constants among the operands of a sum or product amount to. -/
theorem holds_constants (hc : SameFolding c₀ c)
    (h : (call (.builtin en) es ring g).Every (Whole c self))
    (hsize : (call (.builtin en) es ring g).size c self <
      10 ^ min c.precision.digits Decimal.maxExponent)
    (htakes : en.builtin.TakesIntegers (es.filterMap constant?).length) :
    ((Function.builtin en).apply (es.filterMap constant?) c₀).Holds
      (en.builtin.ofIntegers ((es.filter isConstant).map (integer c self))) := by
  have hbelow := Builtin.ofExtents_sublist (b := en.builtin)
    (List.filter_sublist.map (size c self) : ((es.filter isConstant).map _).Sublist (es.map _))
    (List.forall_mem_map.2 fun e hm => one_le_size (h.operand hm))
  rw [size_call] at hsize
  refine holds_call h.node.1 (forall₂_constants fun e hm => h.operand hm) htakes ?_
  rw [hc.precision, size_of_constants]
  exact Nat.lt_of_le_of_lt hbelow hsize

theorem keeps_gather (hc : SameFolding c₀ c) (h : (call (.builtin en) es ring g).Every (Whole c self))
    (hsize : (call (.builtin en) es ring g).size c self <
      10 ^ min c.precision.digits Decimal.maxExponent) :
    Keeps c self (call (.builtin en) es ring g)
      (call (.builtin en) (gather c₀ (.builtin en) es) ring g) := by
  cases hregroup : en.traits.isCommAssoc with
  | false =>
    rw [gather_of_not_commAssoc (f := .builtin en) hregroup]
    exact ⟨h, rfl, Nat.le_refl _⟩
  | true =>
    obtain ⟨he, -, htakes, -⟩ := h.node
    obtain ⟨hv, -, hcomm, -⟩ := Entry.traits_of_takes he htakes
    have hb := hcomm.2 hregroup
    rcases gather_cases c₀ (.builtin en) es with heq | ⟨hsome, -, -, -, heq⟩
    · rw [heq]
      exact ⟨h, rfl, Nat.le_refl _⟩
    · have hne : es.filterMap constant? ≠ [] := List.ne_nil_of_length_pos (by omega)
      obtain ⟨first, k, g', rest, hes, -, hfirst, hrep⟩ :=
        replaceConstants_eq ((Function.builtin en).apply (es.filterMap constant?) c₀) hne
      have hperm : es.Perm (first ++ es.filter isConstant ++ nonConstants rest) := by
        rw [hes]
        exact perm_constants hfirst
      have happly (vs : List Value) :
          (Function.builtin en).apply vs c₀ = (Function.builtin en).apply vs c :=
        Function.apply_settings he hv hc.precision hc.dateOrder vs
      have hlen := (regroups_gather happly (hsome.trans (List.length_filterMap_le _ _)) self).2
      rw [heq, hrep] at hlen ⊢
      exact keeps_group h hregroup hperm (length_constants es ▸ hsome) hlen
        (holds_constants hc h hsize (.inl ⟨by tauto, hsome⟩))

theorem staysBehind_simplify (h : StaysBehind f e) : StaysBehind f (e.simplify c₀) := by
  refine h.imp_right fun h hs => ?_
  rw [isGrouped_simplify]
  exact h (callsSame_simplify hs)

/-- Simplifying keeps the integer that a tree denotes. -/
theorem keeps_simplify (hc : SameFolding c₀ c) (h : e.Every (Whole c self))
    (hsize : e.size c self < 10 ^ min c.precision.digits Decimal.maxExponent) :
    Keeps c self e (e.simplify c₀) := by
  induction e using tree_induction with
  | constant | reference => exact ⟨h, rfl, Nat.le_refl _⟩
  | call f es ring g ih =>
    obtain ⟨en, he, rfl, -⟩ := h.whole_call
    have hops : Keeps c self (call (.builtin en) es ring g)
        (call (.builtin en) (es.map (simplify c₀)) ring g) :=
      keeps_operands h (fun e hm => ih e hm (h.operand hm)
        (Nat.lt_of_le_of_lt (size_operand_le h hm) hsize)) fun e => staysBehind_simplify
    have hflat := hops.trans (keeps_flat hops.whole)
    have hsize' := Nat.lt_of_le_of_lt hflat.size hsize
    rw [simplify_call]
    rcases simplifyCall_cases c₀ (.builtin en) (es.map (simplify c₀)) ring g with
      ⟨hfolds, heq⟩ | heq
    · rw [heq]
      exact hflat.trans (keeps_folded hc hflat.whole hsize' hfolds)
    · rw [heq]
      exact hflat.trans (keeps_gather hc hflat.whole hsize')

end Expr
end Reporting
