import TreeTyper.Tree.Basic

/-!
# Trees at other positions

A relocation sends the nodes and the parameters of a tree to other positions and
keeps all the rest; what is read off a tree other than its positions stays.

    (e.relocate f).name? = e.name?                    (Expr.name?_relocate)
    (e.relocate f).isLiteral = e.isLiteral            (Expr.isLiteral_relocate)
-/

namespace TreeTyper

/-- Where the nodes of a tree and the parameters of its definitions go. -/
structure Relocation where
  node : Pos → Pos
  param : Pos → Pos

namespace Tree

/-! ## Definitions -/

def Arg.relocate (f : Relocation) (a : Arg) : Arg := { a with pos := f.param a.pos }

mutual

def Expr.relocate (f : Relocation) : Expr → Expr
  | ⟨kind, pos⟩ => ⟨kind.relocate f, f.node pos⟩

def ExprKind.relocate (f : Relocation) : ExprKind → ExprKind
  | .int value => .int value
  | .float bits => .float bits
  | .str value => .str value
  | .bool value => .bool value
  | .none => .none
  | .name id => .name id
  | .attr value name => .attr (value.relocate f) name
  | .call func args keywords =>
    .call (func.relocate f) (Expr.relocateAll f args) (Keyword.relocateAll f keywords)
  | .binOp left op right => .binOp (left.relocate f) op (right.relocate f)
  | .unaryOp op operand => .unaryOp op (operand.relocate f)
  | .boolOp op values => .boolOp op (Expr.relocateAll f values)
  | .compare left ops comparators =>
    .compare (left.relocate f) ops (Expr.relocateAll f comparators)
  | .list elts => .list (Expr.relocateAll f elts)
  | .tuple elts => .tuple (Expr.relocateAll f elts)
  | .set elts => .set (Expr.relocateAll f elts)
  | .dict keys values => .dict (Expr.relocateAll f keys) (Expr.relocateAll f values)
  | .subscript value slice => .subscript (value.relocate f) (slice.relocate f)
  | .listComp elt generators =>
    .listComp (elt.relocate f) (Comprehension.relocateAll f generators)
  | .setComp elt generators => .setComp (elt.relocate f) (Comprehension.relocateAll f generators)
  | .dictComp key value generators =>
    .dictComp (key.relocate f) (value.relocate f) (Comprehension.relocateAll f generators)
  | .generatorExp elt generators =>
    .generatorExp (elt.relocate f) (Comprehension.relocateAll f generators)
  | .lambda args body => .lambda (args.relocate f) (body.relocate f)
  | .ifExp test body orelse => .ifExp (test.relocate f) (body.relocate f) (orelse.relocate f)
  | .starred value => .starred (value.relocate f)

def Expr.relocateAll (f : Relocation) : List Expr → List Expr
  | [] => []
  | e :: es => e.relocate f :: Expr.relocateAll f es

def Expr.relocateOption (f : Relocation) : Option Expr → Option Expr
  | some e => some (e.relocate f)
  | none => none

def Slice.relocate (f : Relocation) : Slice → Slice
  | .index value => .index (value.relocate f)
  | .slice lower upper step =>
    .slice (Expr.relocateOption f lower) (Expr.relocateOption f upper)
      (Expr.relocateOption f step)

def Keyword.relocate (f : Relocation) : Keyword → Keyword
  | ⟨arg, value⟩ => ⟨arg, value.relocate f⟩

def Keyword.relocateAll (f : Relocation) : List Keyword → List Keyword
  | [] => []
  | k :: ks => k.relocate f :: Keyword.relocateAll f ks

def Comprehension.relocate (f : Relocation) : Comprehension → Comprehension
  | ⟨target, iter, ifs⟩ => ⟨target.relocate f, iter.relocate f, Expr.relocateAll f ifs⟩

def Comprehension.relocateAll (f : Relocation) : List Comprehension → List Comprehension
  | [] => []
  | c :: cs => c.relocate f :: Comprehension.relocateAll f cs

def Arguments.relocate (f : Relocation) : Arguments → Arguments
  | ⟨args, vararg, kwonlyargs, kwDefaults, kwarg, defaults⟩ =>
    ⟨args.map (Arg.relocate f), vararg.map (Arg.relocate f), kwonlyargs.map (Arg.relocate f),
      Expr.relocateAll f kwDefaults, kwarg.map (Arg.relocate f), Expr.relocateAll f defaults⟩

end

def WithItem.relocate (f : Relocation) (item : WithItem) : WithItem :=
  ⟨item.context.relocate f, Expr.relocateOption f item.vars⟩

mutual

def Stmt.relocate (f : Relocation) : Stmt → Stmt
  | ⟨kind, pos⟩ => ⟨kind.relocate f, f.node pos⟩

def StmtKind.relocate (f : Relocation) : StmtKind → StmtKind
  | .functionDef definition => .functionDef (definition.relocate f)
  | .classDef definition => .classDef (definition.relocate f)
  | .assign targets value => .assign (Expr.relocateAll f targets) (value.relocate f)
  | .augAssign target op value => .augAssign (target.relocate f) op (value.relocate f)
  | .expr value => .expr (value.relocate f)
  | .ret value => .ret (Expr.relocateOption f value)
  | .ifElse test body orelse =>
    .ifElse (test.relocate f) (Stmt.relocateAll f body) (Stmt.relocateAll f orelse)
  | .whileLoop test body orelse =>
    .whileLoop (test.relocate f) (Stmt.relocateAll f body) (Stmt.relocateAll f orelse)
  | .forLoop target iter body orelse =>
    .forLoop (target.relocate f) (iter.relocate f) (Stmt.relocateAll f body)
      (Stmt.relocateAll f orelse)
  | .tryExcept body handlers orelse finalbody =>
    .tryExcept (Stmt.relocateAll f body) (ExceptHandler.relocateAll f handlers)
      (Stmt.relocateAll f orelse) (Stmt.relocateAll f finalbody)
  | .raise exc cause => .raise (Expr.relocateOption f exc) (Expr.relocateOption f cause)
  | .withItems items body =>
    .withItems (items.map (WithItem.relocate f)) (Stmt.relocateAll f body)
  | .importNames names => .importNames names
  | .importFrom module names => .importFrom module names
  | .globalNames names => .globalNames names
  | .nonlocalNames names => .nonlocalNames names
  | .delete targets => .delete (Expr.relocateAll f targets)
  | .pass => .pass
  | .breakLoop => .breakLoop
  | .continueLoop => .continueLoop

def Stmt.relocateAll (f : Relocation) : List Stmt → List Stmt
  | [] => []
  | s :: rest => s.relocate f :: Stmt.relocateAll f rest

def FunctionDef.relocate (f : Relocation) : FunctionDef → FunctionDef
  | ⟨name, args, body, decorators⟩ =>
    ⟨name, args.relocate f, Stmt.relocateAll f body, Expr.relocateAll f decorators⟩

def ClassDef.relocate (f : Relocation) : ClassDef → ClassDef
  | ⟨name, bases, body, decorators⟩ =>
    ⟨name, Expr.relocateAll f bases, Stmt.relocateAll f body, Expr.relocateAll f decorators⟩

def ExceptHandler.relocate (f : Relocation) : ExceptHandler → ExceptHandler
  | ⟨type, name, body, pos⟩ =>
    ⟨Expr.relocateOption f type, name, Stmt.relocateAll f body, f.node pos⟩

def ExceptHandler.relocateAll (f : Relocation) : List ExceptHandler → List ExceptHandler
  | [] => []
  | h :: rest => h.relocate f :: ExceptHandler.relocateAll f rest

end

def Module.relocate (f : Relocation) (m : Module) : Module := ⟨Stmt.relocateAll f m.body⟩

variable {f : Relocation}

/-! ## Fields -/

@[simp] theorem Expr.pos_relocate (e : Expr) : (e.relocate f).pos = f.node e.pos := by
  cases e
  rfl

@[simp] theorem Expr.kind_relocate (e : Expr) : (e.relocate f).kind = e.kind.relocate f := by
  cases e
  rfl

@[simp] theorem Stmt.pos_relocate (s : Stmt) : (s.relocate f).pos = f.node s.pos := by
  cases s
  rfl

@[simp] theorem Stmt.kind_relocate (s : Stmt) : (s.relocate f).kind = s.kind.relocate f := by
  cases s
  rfl

@[simp] theorem FunctionDef.name_relocate (d : FunctionDef) : (d.relocate f).name = d.name := by
  cases d
  rfl

@[simp] theorem FunctionDef.body_relocate (d : FunctionDef) :
    (d.relocate f).body = Stmt.relocateAll f d.body := by
  cases d
  rfl

@[simp] theorem FunctionDef.args_relocate (d : FunctionDef) :
    (d.relocate f).args.args = d.args.args.map (Arg.relocate f) := by
  obtain ⟨name, ⟨args, vararg, kwonlyargs, kwDefaults, kwarg, defaults⟩, body, decorators⟩ := d
  rfl

/-! ## Lists -/

theorem Expr.relocateAll_eq_map (es : List Expr) :
    Expr.relocateAll f es = es.map (Expr.relocate f) := by
  induction es with
  | nil => rfl
  | cons e es ih => rw [Expr.relocateAll, ih, List.map_cons]

theorem Stmt.relocateAll_eq_map (body : List Stmt) :
    Stmt.relocateAll f body = body.map (Stmt.relocate f) := by
  induction body with
  | nil => rfl
  | cons s rest ih => rw [Stmt.relocateAll, ih, List.map_cons]

@[simp] theorem Expr.isEmpty_relocateAll (es : List Expr) :
    (Expr.relocateAll f es).isEmpty = es.isEmpty := by
  rw [Expr.relocateAll_eq_map, List.isEmpty_map]

@[simp] theorem Expr.length_relocateAll (es : List Expr) :
    (Expr.relocateAll f es).length = es.length := by
  rw [Expr.relocateAll_eq_map, List.length_map]

@[simp] theorem Keyword.isEmpty_relocateAll (ks : List Keyword) :
    (Keyword.relocateAll f ks).isEmpty = ks.isEmpty := by
  cases ks with
  | nil => rfl
  | cons k ks => rfl

@[simp] theorem Stmt.isEmpty_relocateAll (body : List Stmt) :
    (Stmt.relocateAll f body).isEmpty = body.isEmpty := by
  rw [Stmt.relocateAll_eq_map, List.isEmpty_map]

@[simp] theorem Expr.isSome_relocateOption (e : Option Expr) :
    (Expr.relocateOption f e).isSome = e.isSome := by
  cases e with
  | none => rfl
  | some e => rfl

@[simp] theorem name_arg_relocate (args : List Arg) :
    (args.map (Arg.relocate f)).map (·.name) = args.map (·.name) := by
  rw [List.map_map]
  rfl

/-! ## Views -/

@[simp] theorem Expr.name?_relocate (e : Expr) : (e.relocate f).name? = e.name? := by
  obtain ⟨kind, pos⟩ := e
  cases kind <;> rfl

mutual

theorem Expr.isLiteral_relocate : ∀ e : Expr, (e.relocate f).isLiteral = e.isLiteral
  | ⟨kind, _⟩ => kind.isLiteral_relocate

theorem ExprKind.isLiteral_relocate :
    ∀ kind : ExprKind, (kind.relocate f).isLiteral = kind.isLiteral
  | .list elts => allLiteral_relocateAll elts
  | .tuple elts => allLiteral_relocateAll elts
  | .set elts => allLiteral_relocateAll elts
  | .dict keys values => by
    rw [ExprKind.relocate, ExprKind.isLiteral, allLiteral_relocateAll keys,
      allLiteral_relocateAll values, ExprKind.isLiteral]
  | .unaryOp op ⟨kind, _⟩ => by cases op <;> cases kind <;> rfl
  | .int _ | .float _ | .str _ | .bool _ | .none | .name _ | .attr .. | .call .. | .binOp ..
  | .boolOp .. | .compare .. | .subscript .. | .listComp .. | .setComp .. | .dictComp ..
  | .generatorExp .. | .lambda .. | .ifExp .. | .starred _ => rfl

theorem allLiteral_relocateAll :
    ∀ es : List Expr, allLiteral (Expr.relocateAll f es) = allLiteral es
  | [] => rfl
  | e :: es => by
    rw [Expr.relocateAll, allLiteral, e.isLiteral_relocate, allLiteral_relocateAll es, allLiteral]

end

end Tree

end TreeTyper
