import Reporting.Proofs.Decimal.Reading
import Reporting.Proofs.Expr.Whole
import Reporting.Proofs.Expr.Optimized
import Reporting.Proofs.Formula.Grouping
import Reporting.Proofs.Formula.Spelling
/-!
Formulas of integers: digits and columns with the operators `+`, `-` and `*`, the sign minus and
parentheses. They are computed exactly as long as the precision has room for their size, whether they
are optimized or not.
-/
namespace Reporting

namespace Formula

/-- A formula of digits and columns with the operators `+`, `-` and `*`, the sign minus and
parentheses. -/
inductive OfIntegers : Formula → Prop
  | literal {numeral : String} (hne : numeral.toList ≠ []) (hd : numeral.toList.all Char.isDigit = true) :
    OfIntegers (.literal (.number numeral))
  | column (name : ColumnName) : OfIntegers (.column name)
  | binary {op : BinaryOp} {left right : Formula} (hop : op ∈ [.add, .subtract, .multiply])
    (hleft : OfIntegers left) (hright : OfIntegers right) : OfIntegers (.binary op left right)
  | negate {operand : Formula} (h : OfIntegers operand) : OfIntegers (.unary .negate operand)
  | grouped {inner : Formula} (h : OfIntegers inner) : OfIntegers (.grouped inner)

/-- The integer that a formula denotes where columns have the values `ρ`. -/
def denote (ρ : ColumnName → Int) : Formula → Int
  | .literal (.number numeral) => Digits.value numeral.toList
  | .column name => ρ name
  | .binary .add left right => left.denote ρ + right.denote ρ
  | .binary .subtract left right => left.denote ρ - right.denote ρ
  | .binary .multiply left right => left.denote ρ * right.denote ρ
  | .unary .negate operand => -operand.denote ρ
  | .grouped inner => inner.denote ρ
  | _ => 0

/-- What bounds the integer that a formula denotes, and all that is computed on the way. -/
def size (ρ : ColumnName → Int) : Formula → Nat
  | .binary .multiply left right => left.size ρ * right.size ρ
  | .binary _ left right => left.size ρ + right.size ρ
  | .unary _ operand => operand.size ρ
  | .grouped inner => inner.size ρ
  | f => extent (f.denote ρ)

/-- The columns of a formula of integers. -/
def columns : Formula → List ColumnName
  | .column name => [name]
  | .binary _ left right => left.columns ++ right.columns
  | .unary _ operand => operand.columns
  | .grouped inner => inner.columns
  | _ => []

end Formula

/-- The names of the functions of integers. -/
def integerNames : List String := ["add", "sub", "mul", "uminus"]

variable {compiler : Compiler} {s : Scope} {c : Context} {self : Option Value} {F : Formula} {e : Expr}
  {es : List Expr} {ρ : ColumnName → Int} {en : Entry} {name : String}

theorem Formula.size_le_binary {op : BinaryOp} {left right : Formula}
    (hop : op ∈ [.add, .subtract, .multiply]) (hl : 1 ≤ left.size ρ) (hr : 1 ≤ right.size ρ) :
    left.size ρ ≤ (binary op left right).size ρ ∧ right.size ρ ≤ (binary op left right).size ρ := by
  simp only [List.mem_cons, List.not_mem_nil, or_false] at hop
  obtain rfl | rfl | rfl := hop
  · exact ⟨Nat.le_add_right _ _, Nat.le_add_left _ _⟩
  · exact ⟨Nat.le_add_right _ _, Nat.le_add_left _ _⟩
  · exact ⟨Nat.le_mul_of_pos_right _ hr, Nat.le_mul_of_pos_left _ hl⟩

theorem Formula.OfIntegers.one_le_size (h : F.OfIntegers) (ρ : ColumnName → Int) : 1 ≤ F.size ρ := by
  induction h with
  | literal | column => exact one_le_extent _
  | binary hop _ _ ihl ihr => exact ihl.trans (Formula.size_le_binary hop ihl ihr).1
  | negate _ ih => exact ih
  | grouped _ ih => exact ih

theorem Compiler.call_of_takes (hname : name ∈ integerNames)
    (hhidden : ∀ u ∈ compiler.functions.users, u.name ∉ integerNames)
    (hen : Entry.find? name = some en) (htakes : en.builtin.TakesIntegers es.length) :
    compiler.call name es = .ok (.ofCall (.builtin en) es) := by
  have hlower : ∀ name ∈ integerNames, String.ofList (name.toList.map Char.toLower) = name := by
    decide
  have hnone : compiler.functions.users.find? (fun f => f.name = name) = none := by
    refine List.find?_eq_none.2 fun u hu heq => hhidden u hu ?_
    rwa [of_decide_eq_true heq]
  have hfind : compiler.functions.find? name = some (.builtin en) := by
    rw [FunctionTable.find?, hlower name hname, hnone, hen]
    rfl
  obtain ⟨-, hlen, -⟩ := Entry.traits_of_takes (List.mem_of_find?_eq_some hen) htakes
  rw [Compiler.call, hfind]
  dsimp only [Function.arity]
  split
  · rename_i n hn
    rw [hn] at hlen
    rw [if_pos (beq_iff_eq.1 hlen)]
  · rfl

/-- Subtraction. -/
def subtraction : Entry := ⟨"sub", .sub, .variadic, .leftAssoc⟩

namespace Expr

theorem meaning_group (e : Expr) : e.group.meaning c self = e.meaning c self := by
  cases e with
  | constant => rfl
  | reference r t g => cases t <;> rfl
  | call => rfl

theorem integer_group (e : Expr) : e.group.integer c self = e.integer c self := by
  cases e with
  | constant => rfl
  | reference r t g => exact congrArg Value.integer (meaning_group (.reference r t g))
  | call => rfl

theorem size_group (e : Expr) : e.group.size c self = e.size c self := by
  cases e with
  | constant => rfl
  | reference r t g => exact congrArg extent (integer_group (.reference r t g))
  | call => rfl

theorem whole_group (h : e.Every (Whole c self)) : e.group.Every (Whole c self) := by
  cases e with
  | constant => exact h
  | reference r t g =>
    obtain ⟨k, hk⟩ : ∃ k, ((reference r t g).meaning c self).Holds k := h
    rw [← meaning_group] at hk
    exact ⟨k, hk⟩
  | call f es ring g =>
    refine every_call.2 ⟨?_, fun e he => h.operand he⟩
    have hnode := h.node
    cases f <;> exact hnode

theorem bind_call_of_none {f : Function} {ring : Ring (Option Cell)} {g : Bool} (h : counter? f = none) :
    bind s (call f es ring g) = call f (es.map (bind s)) ring g := by
  rcases bind_call_cases s f es ring g with ⟨hc, -⟩ | ⟨hc, -⟩ | heq
  · rw [h] at hc
    cases hc
  · rw [h] at hc
    cases hc
  · exact heq

end Expr

/-- A formula of integers and the tree that it is compiled to. -/
structure CompilesTo (compiler : Compiler) (s : Scope) (c : Context) (last : Option Value)
    (ρ : ColumnName → Int) (F : Formula) (e : Expr) : Prop where
  compiles : compiler.compile F = .ok e
  whole : (Expr.bind s e).Every (Expr.Whole c last)
  integer : (Expr.bind s e).integer c last = F.denote ρ
  size : (Expr.bind s e).size c last = F.size ρ
  group : Expr.bind s e.group = (Expr.bind s e).group
  subtracts : Expr.callsSame (.builtin subtraction) (Expr.bind s e) = true →
    (Expr.bind s e).isGrouped = true ∨ F.level? = BinaryOp.subtract.level?

namespace CompilesTo

theorem literal {numeral : String} (hne : numeral.toList ≠ [])
    (hd : numeral.toList.all Char.isDigit = true) (hp : compiler.precision = c.precision)
    (hsize : (Formula.literal (.number numeral)).size ρ < 10 ^ min c.precision.digits Decimal.maxExponent) :
    ∃ e, CompilesTo compiler s c self ρ (.literal (.number numeral)) e := by
  have hfits : Decimal.Fits c.precision (Digits.value numeral.toList) :=
    Nat.lt_of_le_of_lt (natAbs_le_extent _) hsize
  obtain ⟨x, hx, hvalue⟩ := Decimal.parse?_digits hne hd hfits
  have hholds := Value.holds_number hvalue hfits
  refine ⟨.constant (.number x) false, ?_, ⟨_, hholds⟩, hholds.integer_eq,
    congrArg extent hholds.integer_eq, rfl, nofun⟩
  simp only [Compiler.compile, Compiler.literal, hp, hx]
  rfl

theorem column {name : ColumnName} {q : QueryId} {i : Nat} {v : Value}
    (hname : s.column? name = some (.column q i))
    (hv : c.scope.lookup? (.column q i) c.slot = some v) (hholds : v.Holds (ρ name)) :
    ∃ e, CompilesTo compiler s c self ρ (.column name) e := by
  have hbind (g : Bool) : Expr.bind s (.reference (.column name) none g) =
      .reference (.column name) (some (.column q i)) g := by
    rw [Expr.bind, Expr.resolve, Scope.find?, hname]
  have hmeaning : ((Expr.reference (.column name) (some (.column q i)) false).meaning c self).Holds
      (ρ name) := by
    have hread : Expr.readSource c.scope self c.slot (.column q i) = some v := hv
    simp only [Expr.meaning, Expr.value, hread]
    exact hholds
  have hinteger := hmeaning.integer_eq
  refine ⟨.reference (.column name) none false, rfl, ?_, ?_, ?_, ?_, ?_⟩
  · rw [hbind]
    exact ⟨_, hmeaning⟩
  · rw [hbind]
    exact hinteger
  · rw [hbind]
    exact congrArg extent hinteger
  · rw [hbind, Expr.group, hbind]
    rfl
  · rw [hbind]
    intro h
    cases h

theorem grouped (h : CompilesTo compiler s c self ρ F e) :
    CompilesTo compiler s c self ρ (.grouped F) e.group := by
  refine ⟨?_, ?_, ?_, ?_, ?_, ?_⟩
  · simp only [Compiler.compile, h.compiles]
    rfl
  · rw [h.group]
    exact Expr.whole_group h.whole
  · rw [h.group, Expr.integer_group]
    exact h.integer
  · rw [h.group, Expr.size_group]
    exact h.size
  · have htwice (e : Expr) : e.group.group = e.group := by cases e <;> rfl
    rw [htwice, h.group, htwice]
  · rw [h.group]
    exact fun _ => .inl (by cases Expr.bind s e <;> rfl)

/-- A call of a function of integers with compiled operands. -/
theorem call (es : List Expr) (hname : name ∈ integerNames) (hen : Entry.find? name = some en)
    (htakes : en.builtin.TakesIntegers es.length)
    (hops : ∀ e ∈ es, (Expr.bind s e).Every (Expr.Whole c self))
    (htail : ∀ e ∈ es.tail, Expr.StaysBehind (.builtin en) (Expr.bind s e))
    (hinteger : en.builtin.ofIntegers (es.map fun e => (Expr.bind s e).integer c self) = F.denote ρ)
    (hsize : en.builtin.ofExtents (es.map fun e => (Expr.bind s e).size c self) = F.size ρ)
    (hlevel : en.builtin = .sub → F.level? = BinaryOp.subtract.level?)
    (hhidden : ∀ u ∈ compiler.functions.users, u.name ∉ integerNames)
    (hcompile : compiler.compile F = compiler.call name es) :
    CompilesTo compiler s c self ρ F (.ofCall (.builtin en) es) := by
  have hcounter : Expr.counter? (.builtin en) = none := by
    obtain ⟨hb | hb | hb, -⟩ | ⟨hb, -⟩ := htakes <;>
      rw [Expr.counter?, Function.builtin?, hb]
  have hbind (g : Bool) : Expr.bind s (.call (.builtin en) es (.fill none) g) =
      .call (.builtin en) (es.map (Expr.bind s)) (.fill none) g := Expr.bind_call_of_none hcounter
  rw [Expr.ofCall]
  refine ⟨?_, ?_, ?_, ?_, ?_, ?_⟩
  · rw [hcompile, Compiler.call_of_takes hname hhidden hen htakes]
    rfl
  · rw [hbind]
    refine Expr.every_call.2 ⟨⟨List.mem_of_find?_eq_some hen, rfl, by rwa [List.length_map], ?_⟩,
      List.forall_mem_map.2 hops⟩
    rw [← List.map_tail]
    exact List.forall_mem_map.2 htail
  · rw [hbind, Expr.integer_call, List.map_map]
    exact hinteger
  · rw [hbind, Expr.size_call, List.map_map]
    exact hsize
  · rw [hbind, Expr.group, hbind]
    rfl
  · rw [hbind]
    intro hs
    have hsub : en.builtin = .sub := beq_iff_eq.1 hs
    exact .inr (hlevel hsub)

theorem negate (h : CompilesTo compiler s c self ρ F e)
    (hhidden : ∀ u ∈ compiler.functions.users, u.name ∉ integerNames) :
    ∃ e, CompilesTo compiler s c self ρ (.unary .negate F) e := by
  have huminus : Entry.find? "uminus" = some ⟨"uminus", .uminus, .exact 1, .plain⟩ := rfl
  refine ⟨_, call [e] (by decide) huminus (.inr ⟨rfl, rfl⟩)
    (List.forall_mem_singleton.2 h.whole) (List.forall_mem_nil _) ?_ ?_ nofun hhidden ?_⟩
  · exact congrArg (-·) h.integer
  · exact (List.sum_singleton).trans h.size
  · simp only [Compiler.compile, h.compiles]
    rfl

/-- The functions of the operators between integers. -/
theorem exists_entry {op : BinaryOp} (hop : op ∈ [.add, .subtract, .multiply]) :
    ∃ en, op.functionName ∈ integerNames ∧ Entry.find? op.functionName = some en ∧
      (en.builtin = .add ∨ en.builtin = .sub ∨ en.builtin = .mul) ∧
      (en.traits.isCommAssoc = true ∨ en = subtraction ∧ op = .subtract) ∧
      (en.builtin = .sub → op = .subtract) ∧
      ∀ left right : Formula,
        en.builtin.ofIntegers [left.denote ρ, right.denote ρ] = (Formula.binary op left right).denote ρ ∧
        en.builtin.ofExtents [left.size ρ, right.size ρ] = (Formula.binary op left right).size ρ := by
  simp only [List.mem_cons, List.not_mem_nil, or_false] at hop
  obtain rfl | rfl | rfl := hop
  · refine ⟨⟨"add", .add, .variadic, .commAssoc⟩, by decide, by decide, by decide, by decide,
      by decide, fun left right => ?_⟩
    simp [Builtin.ofIntegers, Builtin.ofExtents, Formula.denote, Formula.size]
  · refine ⟨subtraction, by decide, by decide, by decide, by decide, by decide, fun left right => ?_⟩
    simp [subtraction, Builtin.ofIntegers, Builtin.ofExtents, Formula.denote, Formula.size]
  · refine ⟨⟨"mul", .mul, .variadic, .commAssoc⟩, by decide, by decide, by decide, by decide,
      by decide, fun left right => ?_⟩
    simp [Builtin.ofIntegers, Builtin.ofExtents, Formula.denote, Formula.size]

theorem binary {op : BinaryOp} {left right : Formula} {l r : Expr}
    (hop : op ∈ [.add, .subtract, .multiply]) (hl : CompilesTo compiler s c self ρ left l)
    (hr : CompilesTo compiler s c self ρ right r)
    (hgrouped : (Formula.binary op left right).LeftGrouped)
    (hhidden : ∀ u ∈ compiler.functions.users, u.name ∉ integerNames) :
    ∃ e, CompilesTo compiler s c self ρ (.binary op left right) e := by
  obtain ⟨en, hname, hen, hb, hbehind, hsub, hdenote⟩ := exists_entry (ρ := ρ) hop
  obtain ⟨hinteger, hsize⟩ := hdenote left right
  refine ⟨_, call [l, r] hname hen (.inl ⟨hb, Nat.le_refl 2⟩) ?_ ?_ ?_ ?_ ?_ hhidden ?_⟩
  · exact List.forall_mem_cons.2 ⟨hl.whole, List.forall_mem_singleton.2 hr.whole⟩
  · refine List.forall_mem_singleton.2 (hbehind.imp_right ?_)
    rintro ⟨rfl, rfl⟩ hs
    refine (hr.subtracts hs).resolve_right fun hlevel => ?_
    exact absurd (hgrouped _ rfl _ hlevel) (Nat.lt_irrefl _)
  · rw [List.map_cons, List.map_singleton, hl.integer, hr.integer, hinteger]
  · rw [List.map_cons, List.map_singleton, hl.size, hr.size, hsize]
  · exact fun h => congrArg BinaryOp.level? (hsub h)
  · simp only [Compiler.compile, hl.compiles, hr.compiles]
    rfl

end CompilesTo

/-- The columns of a formula have these integers in a row. -/
def Formula.Reads (s : Scope) (c : Context) (ρ : ColumnName → Int) (F : Formula) : Prop :=
  ∀ name ∈ F.columns, ∃ q i v, s.column? name = some (.column q i) ∧
    c.scope.lookup? (.column q i) c.slot = some v ∧ v.Holds (ρ name)

/-- A formula of integers is compiled to a tree of integers. -/
theorem Formula.OfIntegers.exists_compilesTo (h : F.OfIntegers) (hgrouped : F.Everywhere Formula.LeftGrouped)
    (hcolumns : F.Reads s c ρ) (hp : compiler.precision = c.precision)
    (hhidden : ∀ u ∈ compiler.functions.users, u.name ∉ integerNames)
    (hsize : F.size ρ < 10 ^ min c.precision.digits Decimal.maxExponent) (self : Option Value) :
    ∃ e, CompilesTo compiler s c self ρ F e := by
  induction h with
  | literal hne hd => exact CompilesTo.literal hne hd hp hsize
  | column name =>
    obtain ⟨q, i, v, hname, hv, hholds⟩ := hcolumns name List.mem_cons_self
    exact CompilesTo.column hname hv hholds
  | binary hop hleft hright ihl ihr =>
    obtain ⟨hbelow, hbelow'⟩ :=
      Formula.size_le_binary hop (hleft.one_le_size ρ) (hright.one_le_size ρ)
    obtain ⟨l, hl⟩ := ihl hgrouped.2.1 (fun n hn => hcolumns n (List.mem_append_left _ hn))
      (Nat.lt_of_le_of_lt hbelow hsize)
    obtain ⟨r, hr⟩ := ihr hgrouped.2.2 (fun n hn => hcolumns n (List.mem_append_right _ hn))
      (Nat.lt_of_le_of_lt hbelow' hsize)
    exact CompilesTo.binary hop hl hr hgrouped.1 hhidden
  | negate _ ih =>
    obtain ⟨e, he⟩ := ih hgrouped.2 hcolumns hsize
    exact he.negate hhidden
  | grouped _ ih =>
    obtain ⟨e, he⟩ := ih hgrouped.2 hcolumns hsize
    exact ⟨_, he.grouped⟩

namespace Expr

theorem plain_of_whole (h : e.Every (Whole c self)) :
    e.Every (Calls fun f => f.builtin? ≠ some .prevval) ∧ e.Every BoundWhole := by
  have hnode : ∀ e, Whole c self e → Calls (fun f => f.builtin? ≠ some .prevval) e ∧ BoundWhole e := by
    intro e h
    cases e with
    | constant | reference => exact ⟨trivial, trivial⟩
    | call f es ring g =>
      cases f with
      | user u => cases h
      | builtin en =>
        obtain ⟨-, hring, htakes, -⟩ := h
        refine ⟨fun hp => ?_, fun src hsrc => ?_⟩
        · have hp : en.builtin = .prevval := Option.some.inj hp
          rw [hp] at htakes
          obtain ⟨hb | hb | hb, -⟩ | ⟨hb, -⟩ := htakes <;> cases hb
        · rw [hring] at hsrc
          cases hsrc
  exact ⟨h.imp fun e h => (hnode e h).1, h.imp fun e h => (hnode e h).2⟩

end Expr

namespace Computation

variable {x : Computation}

/-- A tree of integers is evaluated to the integer that it denotes, whatever it was evaluated to
before. -/
theorem evaluate_holds (hx : x.startsWithInitial = false) (hroot : x.root.forget = e.forget)
    (he : e.Every (Expr.Whole c (some (x.before c))))
    (hsize : e.size c (some (x.before c)) < 10 ^ min c.precision.digits Decimal.maxExponent) :
    (x.evaluate c).2.Holds (e.integer c (some (x.before c))) := by
  obtain ⟨hplain, hwhole⟩ := Expr.plain_of_whole he
  rw [value_of_forget hroot hx hplain hwhole]
  exact Expr.holds_meaning he hsize

end Computation

/-- A text of integers, columns, `+`, `-`, `*` and parentheses is computed exactly in every row where
the columns are integers, whether it is optimized or not, as long as the precision has room for its
size. -/
theorem Formula.evaluate_integers {text : String} (hF : Formula.parse text = .ok F) (h : F.OfIntegers)
    (hcolumns : F.Reads s c ρ) (hp : compiler.precision = c.precision)
    (hhidden : ∀ u ∈ compiler.functions.users, u.name ∉ integerNames)
    (hsize : F.size ρ < 10 ^ min c.precision.digits Decimal.maxExponent) :
    ∃ x, compiler.compileText text = .ok x ∧ ∀ y : Computation,
      y.forget = (x.resolve s).1.forget ∨
        y.forget = ((x.resolve s).1.optimize c.precision c.dateOrder).forget →
      (y.evaluate c).2.Holds (F.denote ρ) := by
  have htree := h.exists_compilesTo (leftGrouped_of_parse hF) hcolumns hp hhidden hsize
  obtain ⟨e, he⟩ := htree none
  have hcompile : compiler.compileText text = .ok { root := e, source := text } := by
    simp only [Compiler.compileText, hF, he.compiles]
    rfl
  refine ⟨_, hcompile, fun y hy => ?_⟩
  obtain ⟨e', he'⟩ := htree (some (y.before c))
  obtain rfl : e' = e := Except.ok.inj (he'.compiles.symm.trans he.compiles)
  have hroom := he'.size.symm ▸ hsize
  rw [← he'.integer]
  obtain hy | hy := hy
  · obtain ⟨hy, hroot⟩ := Computation.root_of_forget hy rfl
    exact Computation.evaluate_holds hy hroot he'.whole hroom
  · obtain ⟨hy, hroot⟩ := Computation.root_of_forget hy rfl
    have hfold : Expr.SameFolding (Expr.foldContext c.precision c.dateOrder) c := ⟨rfl, rfl⟩
    have hkeeps := Expr.keeps_simplify hfold he'.whole hroom
    rw [← hkeeps.integer]
    exact Computation.evaluate_holds hy hroot hkeeps.whole (Nat.lt_of_le_of_lt hkeeps.size hroom)

/-! Samples -/

/-- The formula `k - (3 - k) * 2 + -k`. -/
def integersFormula : Formula :=
  .binary .add (.binary .subtract (.column (.plain "k"))
    (.binary .multiply (.grouped (.binary .subtract (.literal (.number "3")) (.column (.plain "k"))))
      (.literal (.number "2")))) (.unary .negate (.column (.plain "k")))

/-- A context in which the column `k` is five. -/
def integersContext : Context where
  precision := .ofBits 128 .nearest
  dateOrder := .dayFirst
  clock := {}
  scope := {
    column? := fun name => if name = .plain "k" then some (.column ⟨0⟩ 0) else none
    lookup? := fun s _ => if s = .column ⟨0⟩ 0 then some (.plain (.ofInt 5)) else none }

set_option maxRecDepth 8000 in
/-- Both trees of `k - (3 - k) * 2 + -k` give four. -/
theorem Formula.evaluate_integers_of_five :
    ∃ x, (Computation.sampleCompiler integersContext.precision).compileText "k - (3 - k) * 2 + -k" = .ok x ∧
      ∀ y : Computation, y.forget = (x.resolve integersContext.scope).1.forget ∨
        y.forget = ((x.resolve integersContext.scope).1.optimize integersContext.precision
          integersContext.dateOrder).forget →
      (y.evaluate integersContext).2.Holds 4 := by
  have hparse : Formula.parse "k - (3 - k) * 2 + -k" = .ok integersFormula := by cbv
  have hdigits (n : String) (hne : n.toList ≠ []) (hd : n.toList.all Char.isDigit = true) :=
    OfIntegers.literal hne hd
  have hcolumn := OfIntegers.column (.plain "k")
  have hints : integersFormula.OfIntegers :=
    .binary (by decide) (.binary (by decide) hcolumn
      (.binary (by decide) (.grouped (.binary (by decide) (hdigits "3" (by decide) (by decide)) hcolumn))
        (hdigits "2" (by decide) (by decide)))) (.negate hcolumn)
  have hreads : integersFormula.Reads integersContext.scope integersContext fun _ => 5 := by
    intro name hname
    have hk : name = .plain "k" := by
      simp only [integersFormula, columns, List.nil_append, List.append_nil,
        List.cons_append, List.mem_cons, List.not_mem_nil, or_false, or_self] at hname
      exact hname
    exact ⟨⟨0⟩, 0, .plain (.ofInt 5), by rw [hk]; rfl, rfl, _, rfl, Decimal.toRat_ofInt 5⟩
  exact Formula.evaluate_integers hparse hints hreads rfl (List.forall_mem_nil _) (by decide +kernel)

end Reporting
