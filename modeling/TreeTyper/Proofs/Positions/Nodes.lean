import TreeTyper.Proofs.Positions.Relocate

/-!
# The positions of the nodes of a tree

The nodes are the statements, the members of classes among them, the expressions
and the handlers of exceptions.  A relocation that keeps their positions, and
those of the parameters, keeps the tree.

    Fixes f m.positions → m.relocate f = m          (Module.relocate_of_fixed)
-/

namespace TreeTyper.Tree

/-! ## Positions -/

mutual

def Expr.positions : Expr → List Pos
  | ⟨kind, pos⟩ => pos :: kind.positions

def ExprKind.positions : ExprKind → List Pos
  | .int _ | .float _ | .str _ | .bool _ | .none | .name _ => []
  | .attr value _ => value.positions
  | .call func args keywords =>
    func.positions ++ (Expr.positionsAll args ++ Keyword.positionsAll keywords)
  | .binOp left _ right => left.positions ++ right.positions
  | .unaryOp _ operand => operand.positions
  | .boolOp _ values => Expr.positionsAll values
  | .compare left _ comparators => left.positions ++ Expr.positionsAll comparators
  | .list elts => Expr.positionsAll elts
  | .tuple elts => Expr.positionsAll elts
  | .set elts => Expr.positionsAll elts
  | .dict keys values => Expr.positionsAll keys ++ Expr.positionsAll values
  | .subscript value slice => value.positions ++ slice.positions
  | .listComp elt generators => elt.positions ++ Comprehension.positionsAll generators
  | .setComp elt generators => elt.positions ++ Comprehension.positionsAll generators
  | .dictComp key value generators =>
    key.positions ++ (value.positions ++ Comprehension.positionsAll generators)
  | .generatorExp elt generators => elt.positions ++ Comprehension.positionsAll generators
  | .lambda args body => args.positions ++ body.positions
  | .ifExp test body orelse => test.positions ++ (body.positions ++ orelse.positions)
  | .starred value => value.positions

def Expr.positionsAll : List Expr → List Pos
  | [] => []
  | e :: es => e.positions ++ Expr.positionsAll es

def Expr.positionsOption : Option Expr → List Pos
  | some e => e.positions
  | none => []

def Slice.positions : Slice → List Pos
  | .index value => value.positions
  | .slice lower upper step =>
    Expr.positionsOption lower ++ (Expr.positionsOption upper ++ Expr.positionsOption step)

def Keyword.positions : Keyword → List Pos
  | ⟨_, value⟩ => value.positions

def Keyword.positionsAll : List Keyword → List Pos
  | [] => []
  | k :: ks => k.positions ++ Keyword.positionsAll ks

def Comprehension.positions : Comprehension → List Pos
  | ⟨target, iter, ifs⟩ => target.positions ++ (iter.positions ++ Expr.positionsAll ifs)

def Comprehension.positionsAll : List Comprehension → List Pos
  | [] => []
  | c :: cs => c.positions ++ Comprehension.positionsAll cs

/-- The positions of the default values; parameters are no nodes. -/
def Arguments.positions : Arguments → List Pos
  | ⟨_, _, _, kwDefaults, _, defaults⟩ =>
    Expr.positionsAll kwDefaults ++ Expr.positionsAll defaults

end

def WithItem.positions (item : WithItem) : List Pos :=
  item.context.positions ++ Expr.positionsOption item.vars

mutual

def Stmt.positions : Stmt → List Pos
  | ⟨kind, pos⟩ => pos :: kind.positions

def StmtKind.positions : StmtKind → List Pos
  | .functionDef definition => definition.positions
  | .classDef definition => definition.positions
  | .assign targets value => Expr.positionsAll targets ++ value.positions
  | .augAssign target _ value => target.positions ++ value.positions
  | .expr value => value.positions
  | .ret value => Expr.positionsOption value
  | .ifElse test body orelse =>
    test.positions ++ (Stmt.positionsAll body ++ Stmt.positionsAll orelse)
  | .whileLoop test body orelse =>
    test.positions ++ (Stmt.positionsAll body ++ Stmt.positionsAll orelse)
  | .forLoop target iter body orelse =>
    target.positions ++ (iter.positions ++ (Stmt.positionsAll body ++ Stmt.positionsAll orelse))
  | .tryExcept body handlers orelse finalbody =>
    Stmt.positionsAll body ++ (ExceptHandler.positionsAll handlers ++
      (Stmt.positionsAll orelse ++ Stmt.positionsAll finalbody))
  | .raise exc cause => Expr.positionsOption exc ++ Expr.positionsOption cause
  | .withItems items body => items.flatMap WithItem.positions ++ Stmt.positionsAll body
  | .delete targets => Expr.positionsAll targets
  | .importNames _ | .importFrom .. | .globalNames _ | .nonlocalNames _ | .pass | .breakLoop
  | .continueLoop => []

def Stmt.positionsAll : List Stmt → List Pos
  | [] => []
  | s :: rest => s.positions ++ Stmt.positionsAll rest

def FunctionDef.positions : FunctionDef → List Pos
  | ⟨_, args, body, decorators⟩ =>
    args.positions ++ (Stmt.positionsAll body ++ Expr.positionsAll decorators)

def ClassDef.positions : ClassDef → List Pos
  | ⟨_, bases, body, decorators⟩ =>
    Expr.positionsAll bases ++ (Stmt.positionsAll body ++ Expr.positionsAll decorators)

def ExceptHandler.positions : ExceptHandler → List Pos
  | ⟨type, _, body, pos⟩ => pos :: (Expr.positionsOption type ++ Stmt.positionsAll body)

def ExceptHandler.positionsAll : List ExceptHandler → List Pos
  | [] => []
  | h :: rest => h.positions ++ ExceptHandler.positionsAll rest

end

/-- The positions of the nodes of a module. -/
def Module.positions (m : Module) : List Pos := Stmt.positionsAll m.body

/-! ## Relocations that keep them -/

/-- A relocation keeps some positions of nodes and all of parameters. -/
structure Fixes (f : Relocation) (positions : List Pos) : Prop where
  node : ∀ pos ∈ positions, f.node pos = pos
  param : f.param = id

variable {f : Relocation} {ps qs : List Pos} {pos : Pos}

namespace Fixes

theorem head (fixes : Fixes f (pos :: ps)) : f.node pos = pos :=
  fixes.node pos List.mem_cons_self

theorem tail (fixes : Fixes f (pos :: ps)) : Fixes f ps :=
  ⟨fun p hp => fixes.node p (List.mem_cons_of_mem _ hp), fixes.param⟩

theorem left (fixes : Fixes f (ps ++ qs)) : Fixes f ps :=
  ⟨fun p hp => fixes.node p (List.mem_append_left _ hp), fixes.param⟩

theorem right (fixes : Fixes f (ps ++ qs)) : Fixes f qs :=
  ⟨fun p hp => fixes.node p (List.mem_append_right _ hp), fixes.param⟩

theorem arg_relocate (fixes : Fixes f ps) : Arg.relocate f = id := by
  funext a
  rw [Arg.relocate, fixes.param]
  rfl

end Fixes

mutual

theorem Expr.relocate_of_fixed : ∀ e : Expr, Fixes f e.positions → e.relocate f = e
  | ⟨kind, pos⟩, fixes => by
    rw [Expr.relocate, kind.relocate_of_fixed fixes.tail, fixes.head]

theorem ExprKind.relocate_of_fixed :
    ∀ kind : ExprKind, Fixes f kind.positions → kind.relocate f = kind
  | .int _, _ | .float _, _ | .str _, _ | .bool _, _ | .none, _ | .name _, _ => rfl
  | .attr value _, fixes => by rw [ExprKind.relocate, value.relocate_of_fixed fixes]
  | .call func args keywords, fixes => by
    rw [ExprKind.relocate, func.relocate_of_fixed fixes.left,
      Expr.relocateAll_of_fixed args fixes.right.left,
      Keyword.relocateAll_of_fixed keywords fixes.right.right]
  | .binOp left _ right, fixes => by
    rw [ExprKind.relocate, left.relocate_of_fixed fixes.left,
      right.relocate_of_fixed fixes.right]
  | .unaryOp _ operand, fixes => by rw [ExprKind.relocate, operand.relocate_of_fixed fixes]
  | .boolOp _ values, fixes => by rw [ExprKind.relocate, Expr.relocateAll_of_fixed values fixes]
  | .compare left _ comparators, fixes => by
    rw [ExprKind.relocate, left.relocate_of_fixed fixes.left,
      Expr.relocateAll_of_fixed comparators fixes.right]
  | .list elts, fixes => by rw [ExprKind.relocate, Expr.relocateAll_of_fixed elts fixes]
  | .tuple elts, fixes => by rw [ExprKind.relocate, Expr.relocateAll_of_fixed elts fixes]
  | .set elts, fixes => by rw [ExprKind.relocate, Expr.relocateAll_of_fixed elts fixes]
  | .dict keys values, fixes => by
    rw [ExprKind.relocate, Expr.relocateAll_of_fixed keys fixes.left,
      Expr.relocateAll_of_fixed values fixes.right]
  | .subscript value slice, fixes => by
    rw [ExprKind.relocate, value.relocate_of_fixed fixes.left,
      slice.relocate_of_fixed fixes.right]
  | .listComp elt generators, fixes => by
    rw [ExprKind.relocate, elt.relocate_of_fixed fixes.left,
      Comprehension.relocateAll_of_fixed generators fixes.right]
  | .setComp elt generators, fixes => by
    rw [ExprKind.relocate, elt.relocate_of_fixed fixes.left,
      Comprehension.relocateAll_of_fixed generators fixes.right]
  | .dictComp key value generators, fixes => by
    rw [ExprKind.relocate, key.relocate_of_fixed fixes.left,
      value.relocate_of_fixed fixes.right.left,
      Comprehension.relocateAll_of_fixed generators fixes.right.right]
  | .generatorExp elt generators, fixes => by
    rw [ExprKind.relocate, elt.relocate_of_fixed fixes.left,
      Comprehension.relocateAll_of_fixed generators fixes.right]
  | .lambda args body, fixes => by
    rw [ExprKind.relocate, args.relocate_of_fixed fixes.left, body.relocate_of_fixed fixes.right]
  | .ifExp test body orelse, fixes => by
    rw [ExprKind.relocate, test.relocate_of_fixed fixes.left,
      body.relocate_of_fixed fixes.right.left, orelse.relocate_of_fixed fixes.right.right]
  | .starred value, fixes => by rw [ExprKind.relocate, value.relocate_of_fixed fixes]

theorem Expr.relocateAll_of_fixed :
    ∀ es : List Expr, Fixes f (Expr.positionsAll es) → Expr.relocateAll f es = es
  | [], _ => rfl
  | e :: es, fixes => by
    rw [Expr.relocateAll, e.relocate_of_fixed fixes.left,
      Expr.relocateAll_of_fixed es fixes.right]

theorem Expr.relocateOption_of_fixed :
    ∀ e : Option Expr, Fixes f (Expr.positionsOption e) → Expr.relocateOption f e = e
  | none, _ => rfl
  | some e, fixes => by rw [Expr.relocateOption, e.relocate_of_fixed fixes]

theorem Slice.relocate_of_fixed :
    ∀ slice : Slice, Fixes f slice.positions → slice.relocate f = slice
  | .index value, fixes => by rw [Slice.relocate, value.relocate_of_fixed fixes]
  | .slice lower upper step, fixes => by
    rw [Slice.relocate, Expr.relocateOption_of_fixed lower fixes.left,
      Expr.relocateOption_of_fixed upper fixes.right.left,
      Expr.relocateOption_of_fixed step fixes.right.right]

theorem Keyword.relocateAll_of_fixed :
    ∀ ks : List Keyword, Fixes f (Keyword.positionsAll ks) → Keyword.relocateAll f ks = ks
  | [], _ => rfl
  | ⟨arg, value⟩ :: ks, fixes => by
    rw [Keyword.relocateAll, Keyword.relocate, value.relocate_of_fixed fixes.left,
      Keyword.relocateAll_of_fixed ks fixes.right]

theorem Comprehension.relocateAll_of_fixed : ∀ cs : List Comprehension,
    Fixes f (Comprehension.positionsAll cs) → Comprehension.relocateAll f cs = cs
  | [], _ => rfl
  | ⟨target, iter, ifs⟩ :: cs, fixes => by
    rw [Comprehension.relocateAll, Comprehension.relocate,
      target.relocate_of_fixed fixes.left.left, iter.relocate_of_fixed fixes.left.right.left,
      Expr.relocateAll_of_fixed ifs fixes.left.right.right,
      Comprehension.relocateAll_of_fixed cs fixes.right]

theorem Arguments.relocate_of_fixed :
    ∀ args : Arguments, Fixes f args.positions → args.relocate f = args
  | ⟨_, _, _, kwDefaults, _, defaults⟩, fixes => by
    rw [Arguments.relocate, Expr.relocateAll_of_fixed kwDefaults fixes.left,
      Expr.relocateAll_of_fixed defaults fixes.right, fixes.arg_relocate]
    simp only [List.map_id, Option.map_id_fun, id]

end

theorem WithItem.map_relocate_of_fixed {items : List WithItem}
    (fixes : Fixes f (items.flatMap WithItem.positions)) : items.map (relocate f) = items := by
  induction items with
  | nil => rfl
  | cons item rest ih =>
    obtain ⟨context, vars⟩ := item
    have here : Fixes f ((WithItem.mk context vars).positions ++ rest.flatMap positions) := fixes
    rw [List.map_cons, ih here.right, relocate, context.relocate_of_fixed here.left.left,
      Expr.relocateOption_of_fixed vars here.left.right]

mutual

theorem Stmt.relocate_of_fixed : ∀ s : Stmt, Fixes f s.positions → s.relocate f = s
  | ⟨kind, pos⟩, fixes => by
    rw [Stmt.relocate, kind.relocate_of_fixed fixes.tail, fixes.head]

theorem StmtKind.relocate_of_fixed :
    ∀ kind : StmtKind, Fixes f kind.positions → kind.relocate f = kind
  | .functionDef ⟨name, args, body, decorators⟩, fixes => by
    rw [StmtKind.relocate, FunctionDef.relocate, args.relocate_of_fixed fixes.left,
      Stmt.relocateAll_of_fixed body fixes.right.left,
      Expr.relocateAll_of_fixed decorators fixes.right.right]
  | .classDef ⟨name, bases, body, decorators⟩, fixes => by
    rw [StmtKind.relocate, ClassDef.relocate, Expr.relocateAll_of_fixed bases fixes.left,
      Stmt.relocateAll_of_fixed body fixes.right.left,
      Expr.relocateAll_of_fixed decorators fixes.right.right]
  | .assign targets value, fixes => by
    rw [StmtKind.relocate, Expr.relocateAll_of_fixed targets fixes.left,
      value.relocate_of_fixed fixes.right]
  | .augAssign target _ value, fixes => by
    rw [StmtKind.relocate, target.relocate_of_fixed fixes.left,
      value.relocate_of_fixed fixes.right]
  | .expr value, fixes => by rw [StmtKind.relocate, value.relocate_of_fixed fixes]
  | .ret value, fixes => by rw [StmtKind.relocate, Expr.relocateOption_of_fixed value fixes]
  | .ifElse test body orelse, fixes => by
    rw [StmtKind.relocate, test.relocate_of_fixed fixes.left,
      Stmt.relocateAll_of_fixed body fixes.right.left,
      Stmt.relocateAll_of_fixed orelse fixes.right.right]
  | .whileLoop test body orelse, fixes => by
    rw [StmtKind.relocate, test.relocate_of_fixed fixes.left,
      Stmt.relocateAll_of_fixed body fixes.right.left,
      Stmt.relocateAll_of_fixed orelse fixes.right.right]
  | .forLoop target iter body orelse, fixes => by
    rw [StmtKind.relocate, target.relocate_of_fixed fixes.left,
      iter.relocate_of_fixed fixes.right.left,
      Stmt.relocateAll_of_fixed body fixes.right.right.left,
      Stmt.relocateAll_of_fixed orelse fixes.right.right.right]
  | .tryExcept body handlers orelse finalbody, fixes => by
    rw [StmtKind.relocate, Stmt.relocateAll_of_fixed body fixes.left,
      ExceptHandler.relocateAll_of_fixed handlers fixes.right.left,
      Stmt.relocateAll_of_fixed orelse fixes.right.right.left,
      Stmt.relocateAll_of_fixed finalbody fixes.right.right.right]
  | .raise exc cause, fixes => by
    rw [StmtKind.relocate, Expr.relocateOption_of_fixed exc fixes.left,
      Expr.relocateOption_of_fixed cause fixes.right]
  | .withItems items body, fixes => by
    rw [StmtKind.relocate, WithItem.map_relocate_of_fixed fixes.left,
      Stmt.relocateAll_of_fixed body fixes.right]
  | .delete targets, fixes => by rw [StmtKind.relocate, Expr.relocateAll_of_fixed targets fixes]
  | .importNames _, _ | .importFrom .., _ | .globalNames _, _ | .nonlocalNames _, _ | .pass, _
  | .breakLoop, _ | .continueLoop, _ => rfl

theorem Stmt.relocateAll_of_fixed :
    ∀ body : List Stmt, Fixes f (Stmt.positionsAll body) → Stmt.relocateAll f body = body
  | [], _ => rfl
  | s :: rest, fixes => by
    rw [Stmt.relocateAll, s.relocate_of_fixed fixes.left,
      Stmt.relocateAll_of_fixed rest fixes.right]

theorem ExceptHandler.relocateAll_of_fixed : ∀ hs : List ExceptHandler,
    Fixes f (ExceptHandler.positionsAll hs) → ExceptHandler.relocateAll f hs = hs
  | [], _ => rfl
  | ⟨type, name, body, pos⟩ :: rest, fixes => by
    rw [ExceptHandler.relocateAll, ExceptHandler.relocate, fixes.left.head,
      Expr.relocateOption_of_fixed type fixes.left.tail.left,
      Stmt.relocateAll_of_fixed body fixes.left.tail.right,
      ExceptHandler.relocateAll_of_fixed rest fixes.right]

end

theorem Module.relocate_of_fixed {m : Module} (fixes : Fixes f m.positions) : m.relocate f = m :=
  congrArg mk (Stmt.relocateAll_of_fixed m.body fixes)

end TreeTyper.Tree
