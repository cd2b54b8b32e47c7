import TreeTyper.Proofs.Format.Stmt
import TreeTyper.Proofs.Json.Parsing

/-!
# Trees without floats are legible

A tree without float literals has no float in the value that is written for it, all of which is in
the focus of the reader and all integers of which are words; so the value is one that a text
denotes.

    m.isFloatFree → Legible Module.focus m.json          (Module.legible)
-/

namespace TreeTyper

open Json

/-! ## Legible values -/

namespace Json

/-- The order of the fields does not matter. -/
theorem legible_object {focus : Focus} (inFocus : focus.isNothing = false)
    {fields : List (String × Json)} (legible : FieldsLegible focus fields) :
    Legible focus (object fields) := by
  refine ⟨inFocus, fieldsLegible_iff.mpr fun field listed => ?_⟩
  exact fieldsLegible_iff.mp legible field (Table.mem_of_mem_ofList listed)

theorem legible_map {α : Type} {write : α → Json} (as : List α)
    (each : ∀ a, Legible .all (write a)) : Legible .all (.arr (as.map write)) := by
  refine ⟨rfl, ?_⟩
  induction as with
  | nil => trivial
  | cons a as ih => exact ⟨each a, ih⟩

theorem legible_ofOption {α : Type} {write : α → Json} (o : Option α)
    (each : ∀ a, Legible .all (write a)) : Legible .all (ofOption write o) := by
  cases o with
  | none => exact rfl
  | some a => exact each a

theorem legible_str (s : String) : Legible .all (.str s) := rfl

theorem legible_word (w : UInt32) : Legible .all (.int w.toNat) := by
  have small : w.toNat < UInt32.size := w.toNat_lt
  have least : Int64.minValue.toInt = -2 ^ 63 := rfl
  have sizes : UInt32.size = 2 ^ 32 ∧ UInt64.size = 2 ^ 64 := ⟨rfl, rfl⟩
  refine ⟨rfl, ?_, ?_⟩ <;> omega

theorem legible_int64 (n : Int64) : Legible .all (.int n.toInt) := by
  have low := n.minValue_le_toInt
  have high := n.toInt_le
  have most : Int64.maxValue.toInt = 2 ^ 63 - 1 := rfl
  have size : UInt64.size = 2 ^ 64 := rfl
  exact ⟨rfl, low, by omega⟩

end Json

theorem Pos.legible {focus : Focus} (inFocus : focus.isNothing = false)
    (line : focus.field "line" = .all) (col : focus.field "col" = .all) (p : Pos) :
    Legible focus p.json := by
  refine legible_object inFocus ⟨?_, ?_, trivial⟩
  · rw [line]
    exact legible_word p.line
  · rw [col]
    exact legible_word p.col

namespace Tree

theorem Arg.legible (a : Arg) : Legible .all a.json :=
  legible_object rfl ⟨rfl, a.pos.legible rfl rfl rfl, trivial⟩

theorem Alias.legible (a : Alias) : Legible .all a.json :=
  legible_object rfl ⟨rfl, legible_ofOption a.asname legible_str, trivial⟩

mutual

theorem Expr.legible : ∀ e : Expr, e.isFloatFree → Legible .all e.json
  | ⟨kind, pos⟩, free => legible_object rfl ⟨pos.legible rfl rfl rfl, kind.legible free⟩

theorem ExprKind.legible : ∀ kind : ExprKind, kind.isFloatFree → FieldsLegible .all kind.fields
  | .int value, _ => ⟨rfl, legible_int64 value, trivial⟩
  | .str _, _ | .bool _, _ | .name _, _ => ⟨rfl, rfl, trivial⟩
  | .none, _ => ⟨rfl, trivial⟩
  | .attr value _, free => ⟨rfl, value.legible free, rfl, trivial⟩
  | .call func args keywords, free => by
    simp only [ExprKind.isFloatFree, Bool.and_eq_true] at free
    exact ⟨rfl, func.legible free.1, exprs_legible args free.2.1,
      keywords_legible keywords free.2.2, trivial⟩
  | .binOp left _ right, free => by
    simp only [ExprKind.isFloatFree, Bool.and_eq_true] at free
    exact ⟨rfl, left.legible free.1, rfl, right.legible free.2, trivial⟩
  | .unaryOp _ operand, free => ⟨rfl, rfl, operand.legible free, trivial⟩
  | .boolOp _ values, free => ⟨rfl, rfl, exprs_legible values free, trivial⟩
  | .compare left ops comparators, free => by
    simp only [ExprKind.isFloatFree, Bool.and_eq_true] at free
    exact ⟨rfl, left.legible free.1, legible_map ops fun _ => rfl,
      exprs_legible comparators free.2, trivial⟩
  | .list elts, free => ⟨rfl, exprs_legible elts free, trivial⟩
  | .tuple elts, free => ⟨rfl, exprs_legible elts free, trivial⟩
  | .set elts, free => ⟨rfl, exprs_legible elts free, trivial⟩
  | .dict keys values, free => by
    simp only [ExprKind.isFloatFree, Bool.and_eq_true] at free
    exact ⟨rfl, exprs_legible keys free.1, exprs_legible values free.2, trivial⟩
  | .subscript value slice, free => by
    simp only [ExprKind.isFloatFree, Bool.and_eq_true] at free
    exact ⟨rfl, value.legible free.1, slice.legible free.2, trivial⟩
  | .listComp elt generators, free => by
    simp only [ExprKind.isFloatFree, Bool.and_eq_true] at free
    exact ⟨rfl, elt.legible free.1, generators_legible generators free.2, trivial⟩
  | .setComp elt generators, free => by
    simp only [ExprKind.isFloatFree, Bool.and_eq_true] at free
    exact ⟨rfl, elt.legible free.1, generators_legible generators free.2, trivial⟩
  | .dictComp key value generators, free => by
    simp only [ExprKind.isFloatFree, Bool.and_eq_true] at free
    exact ⟨rfl, key.legible free.1, value.legible free.2.1,
      generators_legible generators free.2.2, trivial⟩
  | .generatorExp elt generators, free => by
    simp only [ExprKind.isFloatFree, Bool.and_eq_true] at free
    exact ⟨rfl, elt.legible free.1, generators_legible generators free.2, trivial⟩
  | .lambda args body, free => by
    simp only [ExprKind.isFloatFree, Bool.and_eq_true] at free
    exact ⟨rfl, args.legible free.1, body.legible free.2, trivial⟩
  | .ifExp test body orelse, free => by
    simp only [ExprKind.isFloatFree, Bool.and_eq_true] at free
    exact ⟨rfl, test.legible free.1, body.legible free.2.1, orelse.legible free.2.2, trivial⟩
  | .starred value, free => ⟨rfl, value.legible free, trivial⟩

theorem exprs_legible : ∀ es : List Expr, allFloatFree es → Legible .all (.arr (exprsJson es))
  | [], _ => ⟨rfl, trivial⟩
  | e :: es, free => by
    simp only [allFloatFree, Bool.and_eq_true] at free
    exact ⟨rfl, e.legible free.1, (exprs_legible es free.2).2⟩

theorem option_legible : ∀ o : Option Expr, optionFloatFree o → Legible .all (optionJson o)
  | some e, free => e.legible free
  | .none, _ => rfl

theorem Slice.legible : ∀ s : Slice, s.isFloatFree → Legible .all s.json
  | .index value, free => legible_object rfl ⟨rfl, value.legible free, trivial⟩
  | .slice lower upper step, free => by
    simp only [Slice.isFloatFree, Bool.and_eq_true] at free
    exact legible_object rfl ⟨rfl, option_legible lower free.1, option_legible upper free.2.1,
      option_legible step free.2.2, trivial⟩

theorem Keyword.legible : ∀ k : Keyword, k.isFloatFree → Legible .all k.json
  | ⟨arg, value⟩, free =>
    legible_object rfl ⟨legible_ofOption arg legible_str, value.legible free, trivial⟩

theorem keywords_legible :
    ∀ ks : List Keyword, keywordsFloatFree ks → Legible .all (.arr (keywordsJson ks))
  | [], _ => ⟨rfl, trivial⟩
  | k :: ks, free => by
    simp only [keywordsFloatFree, Bool.and_eq_true] at free
    exact ⟨rfl, k.legible free.1, (keywords_legible ks free.2).2⟩

theorem Comprehension.legible : ∀ c : Comprehension, c.isFloatFree → Legible .all c.json
  | ⟨target, iter, ifs⟩, free => by
    simp only [Comprehension.isFloatFree, Bool.and_eq_true] at free
    exact legible_object rfl ⟨target.legible free.1, iter.legible free.2.1,
      exprs_legible ifs free.2.2, trivial⟩

theorem generators_legible :
    ∀ cs : List Comprehension, generatorsFloatFree cs → Legible .all (.arr (comprehensionsJson cs))
  | [], _ => ⟨rfl, trivial⟩
  | c :: cs, free => by
    simp only [generatorsFloatFree, Bool.and_eq_true] at free
    exact ⟨rfl, c.legible free.1, (generators_legible cs free.2).2⟩

theorem Arguments.legible : ∀ a : Arguments, a.isFloatFree → Legible .all a.json
  | ⟨args, vararg, kwonlyargs, kwDefaults, kwarg, defaults⟩, free => by
    simp only [Arguments.isFloatFree, Bool.and_eq_true] at free
    exact legible_object rfl ⟨legible_map args Arg.legible, legible_ofOption vararg Arg.legible,
      legible_map kwonlyargs Arg.legible, exprs_legible kwDefaults free.1,
      legible_ofOption kwarg Arg.legible, exprs_legible defaults free.2, trivial⟩

end

theorem WithItem.legible (item : WithItem) (free : item.isFloatFree) : Legible .all item.json := by
  simp only [WithItem.isFloatFree, Bool.and_eq_true] at free
  exact legible_object rfl ⟨item.context.legible free.1, option_legible item.vars free.2, trivial⟩

theorem withItems_legible {items : List WithItem} (free : items.all (·.isFloatFree)) :
    Legible .all (.arr (items.map WithItem.json)) := by
  refine ⟨rfl, ?_⟩
  induction items with
  | nil => trivial
  | cons item items ih =>
    simp only [List.all_cons, Bool.and_eq_true] at free
    exact ⟨item.legible free.1, ih free.2⟩

mutual

theorem Stmt.legible : ∀ s : Stmt, s.isFloatFree → Legible .all s.json
  | ⟨kind, pos⟩, free => legible_object rfl ⟨pos.legible rfl rfl rfl, kind.legible free⟩

theorem StmtKind.legible : ∀ kind : StmtKind, kind.isFloatFree → FieldsLegible .all kind.fields
  | .functionDef definition, free => ⟨rfl, definition.legible free⟩
  | .classDef definition, free => ⟨rfl, definition.legible free⟩
  | .assign targets value, free => by
    simp only [StmtKind.isFloatFree, Bool.and_eq_true] at free
    exact ⟨rfl, exprs_legible targets free.1, value.legible free.2, trivial⟩
  | .augAssign target _ value, free => by
    simp only [StmtKind.isFloatFree, Bool.and_eq_true] at free
    exact ⟨rfl, target.legible free.1, rfl, value.legible free.2, trivial⟩
  | .expr value, free => ⟨rfl, value.legible free, trivial⟩
  | .ret value, free => ⟨rfl, option_legible value free, trivial⟩
  | .ifElse test body orelse, free => by
    simp only [StmtKind.isFloatFree, Bool.and_eq_true] at free
    exact ⟨rfl, test.legible free.1, stmts_legible body free.2.1,
      stmts_legible orelse free.2.2, trivial⟩
  | .whileLoop test body orelse, free => by
    simp only [StmtKind.isFloatFree, Bool.and_eq_true] at free
    exact ⟨rfl, test.legible free.1, stmts_legible body free.2.1,
      stmts_legible orelse free.2.2, trivial⟩
  | .forLoop target iter body orelse, free => by
    simp only [StmtKind.isFloatFree, Bool.and_eq_true] at free
    exact ⟨rfl, target.legible free.1, iter.legible free.2.1, stmts_legible body free.2.2.1,
      stmts_legible orelse free.2.2.2, trivial⟩
  | .tryExcept body handlers orelse finalbody, free => by
    simp only [StmtKind.isFloatFree, Bool.and_eq_true] at free
    exact ⟨rfl, stmts_legible body free.1, handlers_legible handlers free.2.1,
      stmts_legible orelse free.2.2.1, stmts_legible finalbody free.2.2.2, trivial⟩
  | .raise exc cause, free => by
    simp only [StmtKind.isFloatFree, Bool.and_eq_true] at free
    exact ⟨rfl, option_legible exc free.1, option_legible cause free.2, trivial⟩
  | .withItems items body, free => by
    simp only [StmtKind.isFloatFree, Bool.and_eq_true] at free
    exact ⟨rfl, withItems_legible free.1, stmts_legible body free.2, trivial⟩
  | .importNames names, _ => ⟨rfl, legible_map names Alias.legible, trivial⟩
  | .importFrom _ names, _ => ⟨rfl, rfl, legible_map names Alias.legible, trivial⟩
  | .globalNames names, _ | .nonlocalNames names, _ =>
    ⟨rfl, legible_map names legible_str, trivial⟩
  | .delete targets, free => ⟨rfl, exprs_legible targets free, trivial⟩
  | .pass, _ | .breakLoop, _ | .continueLoop, _ => ⟨rfl, trivial⟩

theorem FunctionDef.legible :
    ∀ d : FunctionDef, d.isFloatFree → FieldsLegible .all d.fields
  | ⟨_, args, body, decorators⟩, free => by
    simp only [FunctionDef.isFloatFree, Bool.and_eq_true] at free
    exact ⟨rfl, args.legible free.1, stmts_legible body free.2.1,
      exprs_legible decorators free.2.2, trivial⟩

theorem ClassDef.legible : ∀ d : ClassDef, d.isFloatFree → FieldsLegible .all d.fields
  | ⟨_, bases, body, decorators⟩, free => by
    simp only [ClassDef.isFloatFree, Bool.and_eq_true] at free
    exact ⟨rfl, exprs_legible bases free.1, stmts_legible body free.2.1,
      exprs_legible decorators free.2.2, trivial⟩

theorem ExceptHandler.legible : ∀ h : ExceptHandler, h.isFloatFree → Legible .all h.json
  | ⟨type, name, body, pos⟩, free => by
    simp only [ExceptHandler.isFloatFree, Bool.and_eq_true] at free
    exact legible_object rfl ⟨option_legible type free.1, legible_ofOption name legible_str,
      stmts_legible body free.2, pos.legible rfl rfl rfl, trivial⟩

theorem handlers_legible :
    ∀ hs : List ExceptHandler, handlersFloatFree hs → Legible .all (.arr (handlersJson hs))
  | [], _ => ⟨rfl, trivial⟩
  | h :: hs, free => by
    simp only [handlersFloatFree, Bool.and_eq_true] at free
    exact ⟨rfl, h.legible free.1, (handlers_legible hs free.2).2⟩

theorem stmts_legible : ∀ ss : List Stmt, blockFloatFree ss → Legible .all (.arr (stmtsJson ss))
  | [], _ => ⟨rfl, trivial⟩
  | s :: ss, free => by
    simp only [blockFloatFree, Bool.and_eq_true] at free
    exact ⟨rfl, s.legible free.1, (stmts_legible ss free.2).2⟩

end

/-- Of a statement of the body only the declared fields of its position are in focus, which are all
that is written for it. -/
theorem Stmt.legible_inBody (s : Stmt) (free : s.isFloatFree) : Legible stmtFocus s.json := by
  obtain ⟨kind, pos⟩ := s
  have unplaced : ∀ field ∈ kind.fields, field.1 ≠ "pos" := by
    intro field listed same
    exact (List.nodup_cons.mp (kind.distinct pos.json)).1 (List.mem_map.mpr ⟨field, listed, same⟩)
  refine legible_object rfl ⟨pos.legible rfl rfl rfl, fieldsLegible_iff.mpr fun field listed => ?_⟩
  have other : stmtFocus.field field.1 = .all := by
    simp [stmtFocus, Focus.field, (unplaced field listed).symm]
  rw [other]
  exact fieldsLegible_iff.mp (kind.legible free) field listed

/-- The value written for a module without floats is legible. -/
theorem Module.legible (m : Module) (free : m.isFloatFree) : Legible Module.focus m.json := by
  obtain ⟨body⟩ := m
  refine legible_object rfl ⟨⟨rfl, ?_⟩, trivial⟩
  change AllLegible stmtFocus (stmtsJson body)
  rw [isFloatFree] at free
  induction body with
  | nil => trivial
  | cons s ss ih =>
    simp only [blockFloatFree, Bool.and_eq_true] at free
    exact ⟨s.legible_inBody free.1, ih free.2⟩

end Tree

end TreeTyper
