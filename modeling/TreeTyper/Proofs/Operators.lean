import TreeTyper.Api.Standard
import TreeTyper.Proofs.Law.Module
import TreeTyper.Proofs.Matching
import TreeTyper.Proofs.Parts
import TreeTyper.Tree.Build

/-!
# Operators and conditions are well typed

Conditions and operations are built in many places: by the operators of the
source, by the coercion of a condition, by a chain of comparisons, by an
augmented assignment.  In a module that was translated all of them have operands
and results of the types below, whatever the standard tables say.

    translate api m = .ok typed → ∀ e ∈ typed.nodes, e.OperatorTyped        (operators_typed)
-/

namespace TreeTyper

namespace Typed.Expr

/-- A test whether a number is positive, which stands for the number as a condition. -/
def IsPositiveTest (op : String) (left right : Expr) : Prop :=
  op = ">" ∧ left.type = .float ∧ right.kind = .int 0

/-- The types of the operands and of the result, if this is an operation or has a test. -/
def OperatorTyped (e : Expr) : Prop :=
  match e.kind with
  | .binaryOp op left right =>
    if op = "and" ∨ op = "or" then
      left.type = .boolean ∧ right.type = .boolean ∧ e.type = .boolean
    else
      left.type.isNumeric ∧ right.type.isNumeric ∧
        e.type = (if left.type = .int ∧ right.type = .int then .int else .float) ∧
        (op = "%" → left.type = .int ∧ right.type = .int)
  | .unaryOp op value =>
    if op = "not" then value.type = .boolean ∧ e.type = .boolean
    else op = "-" ∧ value.type.isNumeric ∧ e.type = value.type
  | .comparison op left right =>
    e.type = .boolean ∧
      (left.type = .string ∧ right.type = .string ∨ left.type.isNumeric ∧ right.type.isNumeric) ∧
      (left.type = right.type ∨ IsPositiveTest op left right)
  | .iterate _ _ test _ => ∀ t ∈ test, t.type = .boolean
  | _ => True

/-- All operations in an expression, at any depth, are well typed. -/
def OperatorsTyped (e : Expr) : Prop := ∀ x ∈ e.nodes, x.OperatorTyped

theorem IsAuxiliary.operatorTyped {free : String → Prop} {e : Expr}
    (auxiliary : e.IsAuxiliary free) : e.OperatorTyped := by
  unfold IsAuxiliary at auxiliary
  unfold OperatorTyped
  split at auxiliary
  · next same => rw [same]; trivial
  · next same => rw [same]; trivial
  · next same => rw [same]; trivial
  · next same => rw [same]; trivial
  · contradiction

theorem IsData.operatorTyped {e : Expr} (data : e.IsData) : e.OperatorTyped := by
  obtain ⟨kind, type⟩ := e
  cases kind <;> trivial

end Typed.Expr

namespace Ty

/-! ## Results of operators -/

theorem isNumeric_iff {t : Ty} : t.isNumeric ↔ t = .int ∨ t = .float := by
  rw [isNumeric, Bool.or_eq_true, isAtom_iff, isAtom_iff]
  rfl

theorem arithmetic?_cases {left right t : Ty} (h : arithmetic? left right = some t) :
    left.isNumeric ∧ right.isNumeric ∧ t = if left = .int ∧ right = .int then .int else .float := by
  unfold arithmetic? at h
  split at h
  · next ints =>
    cases h
    rw [Bool.and_eq_true, isAtom_iff, isAtom_iff] at ints
    obtain ⟨rfl, rfl⟩ : left = .int ∧ right = .int := ints
    exact ⟨rfl, rfl, rfl⟩
  split at h
  · next notInts numbers =>
    cases h
    rw [Bool.and_eq_true, isAtom_iff, isAtom_iff] at notInts
    have notBoth : ¬(left = .int ∧ right = .int) := notInts
    rw [if_neg notBoth]
    exact ⟨(Bool.and_eq_true_iff.mp numbers).1, (Bool.and_eq_true_iff.mp numbers).2, rfl⟩
  · cases h

theorem isPrimitive_eq (t : Ty) : t.isPrimitive = t.isNumeric := rfl

/-- Filling does not make a number of anything but a number or a hole. -/
theorem not_numeric_fill {left right : Ty} (notHole : left.head ≠ "?")
    (notNumeric : left.isNumeric = false) : (fill left right).isNumeric = false := by
  cases left with
  | hole => exact absurd rfl notHole
  | tuple ts =>
    cases right <;> simp only [fill] <;> try rfl
    split <;> rfl
  | function ps r =>
    cases right <;> simp only [fill] <;> try rfl
    split <;> rfl
  | atom name => cases right <;> exact notNumeric
  | _ => cases right <;> rfl

theorem not_primitive_merged {headName : String} {left right t : Ty}
    (h : merged? headName left right = some t) (notInt : headName ≠ intName)
    (notFloat : headName ≠ floatName) (notHole : headName ≠ "?") : t.isPrimitive = false := by
  unfold merged? at h
  split at h
  · next same =>
    cases h
    rw [isPrimitive_eq]
    have notNumeric : left.isNumeric = false := by
      cases left with
      | atom name =>
        have named : name = headName := same.1
        simp [isNumeric, isAtom, named, notInt, notFloat]
      | _ => rfl
    exact not_numeric_fill (by rw [same.1]; exact notHole) notNumeric
  · cases h

theorem not_primitive_repeated {left right t : Ty} (h : repeated? left right = some t) :
    t.isPrimitive = false := by
  have repeatable : ∀ {t : Ty}, t.isRepeatable → t.isPrimitive = false := by
    intro t ht
    cases t with
    | atom name =>
      have named : name = stringName := by simpa [isRepeatable, isAtom] using ht
      rw [named]
      decide
    | _ => rfl
  unfold repeated? at h
  split at h
  · next ok =>
    cases h
    exact repeatable (Bool.and_eq_true_iff.mp ok).2
  split at h
  · next ok =>
    cases h
    exact repeatable (Bool.and_eq_true_iff.mp ok).2
  · cases h

theorem remainder?_cases {left right t : Ty} (h : remainder? left right = some t) :
    left = .int ∧ right = .int ∧ t = .int ∨ t.isPrimitive = false := by
  unfold remainder? at h
  split at h
  · next ints =>
    cases h
    rw [Bool.and_eq_true, isAtom_iff, isAtom_iff] at ints
    exact .inl ⟨ints.1, ints.2, rfl⟩
  split at h
  · cases h
    exact .inr (by decide)
  split at h
  · split at h
    · cases h
      exact .inr (by decide)
    · cases h
  · cases h

theorem concatenated?_cases {left right t : Ty} (h : concatenated? left right = some t) :
    t.isPrimitive = false := by
  unfold concatenated? at h
  split at h
  · cases h
    decide
  · exact not_primitive_merged h (by decide) (by decide) (by decide)

/-- A primitive operation is arithmetic; a primitive remainder has two integers. -/
theorem binaryResult?_primitive {op : String} {left right t : Ty}
    (h : binaryResult? op left right = some t) (primitive : t.isPrimitive) :
    op ≠ "and" ∧ op ≠ "or" ∧ left.isNumeric ∧ right.isNumeric ∧
      t = (if left = .int ∧ right = .int then .int else .float) ∧
      (op = "%" → left = .int ∧ right = .int) := by
  have arithmetic : ∀ {op : String}, arithmetic? left right = some t → op ≠ "and" → op ≠ "or" →
      op ≠ "%" → op ≠ "and" ∧ op ≠ "or" ∧ left.isNumeric ∧ right.isNumeric ∧
        t = (if left = .int ∧ right = .int then .int else .float) ∧
        (op = "%" → left = .int ∧ right = .int) := by
    intro op h notAnd notOr notRemainder
    obtain ⟨numericLeft, numericRight, result⟩ := arithmetic?_cases h
    exact ⟨notAnd, notOr, numericLeft, numericRight, result, fun same => absurd same notRemainder⟩
  -- an operator that also joins containers, whose types are not primitive
  have orElse : ∀ {op : String} {other : Option Ty}, (arithmetic? left right).or other = some t →
      (other = some t → t.isPrimitive = false) → op ≠ "and" → op ≠ "or" → op ≠ "%" →
      op ≠ "and" ∧ op ≠ "or" ∧ left.isNumeric ∧ right.isNumeric ∧
        t = (if left = .int ∧ right = .int then .int else .float) ∧
        (op = "%" → left = .int ∧ right = .int) := by
    intro op other h notPrimitive
    rcases Option.or_eq_some_iff.mp h with h | ⟨-, h⟩
    · exact arithmetic h
    · rw [notPrimitive h] at primitive
      contradiction
  have set : ∀ {other : Ty}, merged? "Set" left right = some other → other.isPrimitive = false :=
    fun h => not_primitive_merged h (by decide) (by decide) (by decide)
  unfold binaryResult? at h
  split at h
  · exact orElse h concatenated?_cases (by decide) (by decide) (by decide)
  · exact orElse h set (by decide) (by decide) (by decide)
  · exact orElse h not_primitive_repeated (by decide) (by decide) (by decide)
  · exact arithmetic h (by decide) (by decide) (by decide)
  · exact arithmetic h (by decide) (by decide) (by decide)
  · rcases remainder?_cases h with ⟨rfl, rfl, rfl⟩ | notPrimitive
    · exact ⟨by decide, by decide, rfl, rfl, rfl, fun _ => ⟨rfl, rfl⟩⟩
    · rw [notPrimitive] at primitive
      contradiction
  all_goals first
    | (rw [set h] at primitive; contradiction)
    | cases h

end Ty

namespace Translate

open Typed

variable {api : ApiTables} {σ : Site} {s : State} {free : String → Prop}
  {below : List String → Expr → Prop} {called : DefKey → CellId → List Ty → Ty → Prop}
  {parts : List Expr} {e : Expr}

/-! ## New nodes -/

theorem greater_operatorTyped {value : Expr} (numeric : value.type.isNumeric) :
    (greater value (.int 0)).OperatorTyped := by
  refine ⟨rfl, .inr ⟨numeric, rfl⟩, ?_⟩
  rcases Ty.isNumeric_iff.mp numeric with isInt | isFloat
  · exact .inl isInt
  · exact .inr ⟨rfl, isFloat, rfl⟩

theorem comparison_operatorTyped {op : String} {left right : Expr}
    (comparable : confirmComparable left.type right.type = .ok ()) :
    Expr.OperatorTyped ⟨.comparison op left right, .boolean⟩ := by
  unfold confirmComparable at comparable
  split at comparable
  · next name isAtom =>
    split at comparable
    · next both =>
      have known : name = Ty.intName ∨ name = Ty.floatName ∨ name = Ty.stringName := by
        simpa [Cause.comparableNames] using both.2
      refine ⟨rfl, ?_, .inl both.1⟩
      rw [← both.1, isAtom]
      rcases known with rfl | rfl | rfl
      · exact .inr ⟨rfl, rfl⟩
      · exact .inr ⟨rfl, rfl⟩
      · exact .inl ⟨rfl, rfl⟩
    · cases comparable
  · cases comparable

theorem Makes.operatorTyped (made : Makes api σ s free below called parts e) : e.OperatorTyped := by
  cases made with
  | literal isLiteral => cases isLiteral <;> trivial
  | binary made =>
    obtain ⟨result, typed, ⟨primitive, rfl⟩ | ⟨_, _, _, -, -, rfl⟩⟩ := binary_cases made
    · obtain ⟨notAnd, notOr, arithmetic⟩ := Ty.binaryResult?_primitive typed primitive
      dsimp only [Expr.OperatorTyped]
      rw [if_neg fun connective => connective.elim notAnd notOr]
      exact arithmetic
    · trivial
  | test made differs =>
    rcases testable_cases made with rfl | ⟨-, rfl⟩ | ⟨numeric, rfl⟩ | rfl
    · exact absurd rfl differs
    · exact greater_operatorTyped rfl
    · exact greater_operatorTyped numeric
    · trivial
  | @connect op left right isBoolean isBoolean' =>
    dsimp only [Expr.OperatorTyped]
    rw [if_pos (by cases op <;> decide)]
    exact ⟨isBoolean, isBoolean', rfl⟩
  | negative numeric => exact ⟨rfl, numeric, rfl⟩
  | not isBoolean => exact ⟨isBoolean, rfl⟩
  | comparison comparable => exact comparison_operatorTyped comparable
  | regexp made differs =>
    rcases toRegexp_cases made with rfl | ⟨value, rfl⟩ | rfl
    · exact absurd rfl differs
    · trivial
    · trivial
  | iterate _ areBoolean => exact areBoolean
  | _ => trivial

theorem Makes.operatorsTyped (made : Makes api σ s free below called parts e)
    (known : ∀ p ∈ parts, p.OperatorsTyped) : e.OperatorsTyped := by
  intro x hx
  rcases made.mem_nodes hx with rfl | auxiliary | ⟨p, hp, hx⟩
  · exact made.operatorTyped
  · exact auxiliary.operatorTyped
  · exact known p hp x hx

/-- No operation has a type that a later use can change. -/
theorem Refinement.operatorsTyped {h : Hierarchy} {evidence : List Ty} {ty : Ty}
    (refines : Refinement h e.type evidence ty) (known : e.OperatorsTyped) :
    Expr.OperatorsTyped { e with type := ty } := by
  obtain ⟨kind, type⟩ := e
  obtain ⟨root, below⟩ := Expr.forall_nodes.mp known
  refine Expr.forall_nodes.mpr ⟨?_, below⟩
  have notAtom := refines.not_atom
  cases kind with
  | binaryOp op left right =>
    dsimp only [Expr.OperatorTyped] at root
    split at root
    · exact absurd root.2.2 (notAtom _)
    · have result := root.2.2.1
      split at result
      · exact absurd result (notAtom _)
      · exact absurd result (notAtom _)
  | unaryOp op value =>
    dsimp only [Expr.OperatorTyped] at root
    split at root
    · exact absurd root.2 (notAtom _)
    · obtain ⟨-, numeric, same⟩ := root
      rcases Ty.isNumeric_iff.mp numeric with isInt | isFloat
      · exact absurd (same.trans isInt) (notAtom _)
      · exact absurd (same.trans isFloat) (notAtom _)
  | comparison op left right => exact absurd root.1 (notAtom _)
  | iterate sequence iterators test block => exact root
  | _ => trivial

/-! ## Runs -/

/-- The operations in the nodes at hand and in the finished routines are well typed. -/
def operatorLaw (setting : Setting) : Law setting where
  Inv _ s := ∀ key r, s.definitions.Finished key r →
    BlockKeeps (fun _ => Expr.OperatorsTyped) (fun _ => True) r.block
  Node _ _ := Expr.OperatorsTyped
  Kept _ _ _ := Expr.OperatorsTyped
  kept_closed _ _ _ kept := kept
  kept_target kept _ := Expr.forall_nodes.mpr
    ⟨trivial, fun c hc => by rw [List.mem_singleton.mp hc]; exact kept⟩
  make _ _ known _ _ made := made.operatorsTyped known
  depend _ _ inv := ⟨inv, trivial⟩
  retype inv _ known _ refines :=
    ⟨by rwa [State.definitions_refined], trivial, refines.operatorsTyped known⟩
  openScope inv _ _ _ := ⟨inv, trivial⟩
  closeScope _ _ inv _ _ := ⟨inv, trivial⟩
  declare inv _ _ _ _ _ := ⟨inv, trivial⟩
  join inv _ _ _ _ _ _ := ⟨inv, trivial⟩
  joinAttribute _ _ inv _ _ _ := ⟨inv, trivial, trivial⟩
  register _ inv _ _ := ⟨inv, trivial⟩
  merge inv _ _ _ _ _ _ := ⟨inv, trivial, trivial⟩
  answer inv _ _ _ _ _ := ⟨inv, trivial, trivial⟩
  enter inv _ _ beginning :=
    ⟨fun key r finished => inv key r (Definitions.finished_of_begin beginning.begins finished),
      trivial⟩
  leave _ _ _ _ _ inv _ _ _ keeps := by
    refine ⟨fun key r finished => ?_, trivial, trivial⟩
    rcases Definitions.finished_of_finish finished with ⟨-, rfl⟩ | held
    · exact keeps
    · exact inv key r held

theorem mainBlock_operatorsTyped (api : ApiTables) (m : Tree.Module) :
    Runs (mainBlock api m) .empty
      (fun found s => (∀ c ∈ found.1.constants, c.init.OperatorsTyped) ∧
        BlockKeeps (fun _ => Expr.OperatorsTyped) (fun _ => True) found.2 ∧
        ∀ key r, s.definitions.Finished key r →
          BlockKeeps (fun _ => Expr.OperatorsTyped) (fun _ => True) r.block)
      fun _ _ => True := by
  refine mainBlock_runs (fun _ _ _ => trivial) fun o s _ run => ?_
  have untouched := run.untouched .empty
  have values := run.constants (by simp [Outline.empty])
  refine ⟨operatorLaw (o.setting api), ⟨fun key r finished => ?_, trivial⟩, {}, ?_,
    fun _ _ _ => trivial⟩
  · exact (untouched.not_finished finished).elim
  · intro main s' at' _ keeps
    exact ⟨fun c hc x hx => ((values c hc).data x hx).operatorTyped, keeps, at'.inv⟩

end Translate

open Translate in
/-- In a module that is translated, every operation has operands and a result of fitting types,
and every condition is a `Boolean`. -/
theorem operators_typed (api : ApiTables) (m : Tree.Module) (typed : Typed.Module)
    (translated : translate api m = .ok typed) :
    (∀ e ∈ typed.nodes, e.OperatorTyped) ∧ ∀ test ∈ typed.tests, test.type = .boolean := by
  have runs := typedModule_runs (mainBlock_operatorsTyped api m) fun _ _ _ _ _ _ => trivial
  obtain ⟨s', run⟩ := run_of_translate translated
  obtain ⟨o, s, ⟨values, keepsMain, keepsRoutines⟩, constants, taken⟩ := runs.of_ok run
  have keeps : ∀ r ∈ typed.routines,
      BlockKeeps (fun _ => Typed.Expr.OperatorsTyped) (fun _ => True) r.block := by
    intro r hr
    obtain ⟨key, finished⟩ := taken.held r hr
    exact keepsRoutines key r finished
  constructor
  · intro e he
    obtain ⟨root, hroot, he⟩ := List.mem_flatMap.mp he
    rcases List.mem_append.mp hroot with hroot | hroot
    · rcases List.mem_append.mp hroot with hroot | hroot
      · obtain ⟨c, hc, rfl⟩ := List.mem_map.mp hroot
        rw [constants] at hc
        exact values c hc e he
      · obtain ⟨_, kept⟩ := keepsMain.roots root hroot
        exact kept e he
    · obtain ⟨r, hr, hroot⟩ := List.mem_flatMap.mp hroot
      obtain ⟨_, kept⟩ := (keeps r hr).roots root hroot
      exact kept e he
  · intro test htest
    rcases List.mem_append.mp htest with htest | htest
    · exact keepsMain.tests test htest
    · obtain ⟨r, hr, htest⟩ := List.mem_flatMap.mp htest
      exact (keeps r hr).tests test htest

open Tree.Build in
/-- A function with a loop over a number as condition, and a list as condition. -/
def countdown : Tree.Module :=
  ⟨[define "countdown" ["n"]
      [whileLoop (name "n") [augAssign (name "n") .sub (int 1)],
        ret (some (compare (binOp (name "n") .mod (int 2)) [(.gt, unary .minus (name "n"))]))],
    assign (name "xs") (list [float 0x4000000000000000]),
    ifElse (boolOp .and [name "xs", unary .not (call (name "countdown") [int 3])])
      [exprStmt (listComp (name "x") (name "x") (name "xs") [name "x"])] []]⟩

set_option maxRecDepth 100000 in
theorem operators_typed_countdown : ∃ typed, translate ApiTables.standard countdown = .ok typed ∧
    (∀ e ∈ typed.nodes, e.OperatorTyped) ∧ ∀ test ∈ typed.tests, test.type = .boolean := by
  have isOk : (translate ApiTables.standard countdown).isOk = true := by decide +kernel
  obtain ⟨typed, translated⟩ := exists_of_isOk isOk
  exact ⟨typed, translated, operators_typed _ _ typed translated⟩

end TreeTyper
