import TreeTyper.Typed.Basic

/-!
# The nodes of a typed tree

`Expr.nodes` lists an expression with all its parts at any depth.  The roots of a
statement are the expressions that stand in it directly, at any depth of blocks;
its tests are those roots that decide which block is entered, and what it returns
are those that its returns give.

    e.nodes = e :: e.children.flatMap Expr.nodes        (Expr.nodes_eq)
-/

namespace TreeTyper.Typed

/-! ## Expressions -/

def Sequence.roots : Sequence → List Expr
  | single sequence => [sequence]
  | withIndex sequence => [sequence]
  | withItems sequence => [sequence]
  | zip sequences => sequences

/-- The keys and values of some pairs. -/
def pairRoots (pairs : List Pair) : List Expr := pairs.flatMap fun p => [p.key, p.value]

def ExprKind.children : ExprKind → List Expr
  | .attr object _ => [object]
  | .index sequence place => [sequence, place]
  | .call function args => function :: args
  | .methodCall receiver _ args => receiver :: args
  | .thisMethodCall _ args => args
  | .standardCall _ _ args => args
  | .standardMethodCall receiver _ args => receiver :: args
  | .newInstance _ params => params
  | .binaryOp _ left right => [left, right]
  | .unaryOp _ value => [value]
  | .comparison _ left right => [left, right]
  | .list elements | .set elements | .tuple elements | .array elements => elements
  | .dictionary pairs => pairRoots pairs
  | .iterate sequence _ test block => sequence.roots ++ test.toList ++ [block]
  | _ => []

/-- Whether an expression is a comprehension. -/
def Expr.isIterate (e : Expr) : Bool :=
  match e.kind with
  | .iterate .. => true
  | _ => false

/-- The variables of a comprehension. -/
def Expr.binders (e : Expr) : List Binder :=
  match e.kind with
  | .iterate _ iterators _ _ => iterators.binders
  | _ => []

/-- The parts from which an expression is put together. -/
def Expr.children (e : Expr) : List Expr := e.kind.children

mutual

/-- An expression and all its parts. -/
def Expr.nodes : Expr → List Expr
  | ⟨kind, type⟩ => ⟨kind, type⟩ :: kind.nodes

/-- The parts of a kind of expression. -/
def ExprKind.nodes : ExprKind → List Expr
  | .attr object _ => object.nodes
  | .index sequence place => sequence.nodes ++ place.nodes
  | .call function args => function.nodes ++ allNodes args
  | .methodCall receiver _ args => receiver.nodes ++ allNodes args
  | .thisMethodCall _ args => allNodes args
  | .standardCall _ _ args => allNodes args
  | .standardMethodCall receiver _ args => receiver.nodes ++ allNodes args
  | .newInstance _ params => allNodes params
  | .binaryOp _ left right => left.nodes ++ right.nodes
  | .unaryOp _ value => value.nodes
  | .comparison _ left right => left.nodes ++ right.nodes
  | .list elements => allNodes elements
  | .set elements => allNodes elements
  | .tuple elements => allNodes elements
  | .array elements => allNodes elements
  | .dictionary pairs => pairNodes pairs
  | .iterate sequence _ test block => sequence.nodes ++ optionNodes test ++ block.nodes
  | _ => []

def allNodes : List Expr → List Expr
  | [] => []
  | e :: es => e.nodes ++ allNodes es

def pairNodes : List Pair → List Expr
  | [] => []
  | ⟨key, value⟩ :: pairs => key.nodes ++ value.nodes ++ pairNodes pairs

def optionNodes : Option Expr → List Expr
  | none => []
  | some e => e.nodes

def Sequence.nodes : Sequence → List Expr
  | .single sequence => sequence.nodes
  | .withIndex sequence => sequence.nodes
  | .withItems sequence => sequence.nodes
  | .zip sequences => allNodes sequences

end

theorem allNodes_eq (es : List Expr) : allNodes es = es.flatMap Expr.nodes := by
  induction es with
  | nil => rfl
  | cons e es ih => rw [allNodes, ih, List.flatMap_cons]

theorem pairNodes_eq (pairs : List Pair) :
    pairNodes pairs = (pairRoots pairs).flatMap Expr.nodes := by
  induction pairs with
  | nil => rfl
  | cons p pairs ih =>
    obtain ⟨key, value⟩ := p
    rw [pairNodes, ih]
    simp [pairRoots]

theorem optionNodes_eq (o : Option Expr) : optionNodes o = o.toList.flatMap Expr.nodes := by
  cases o with
  | none => rfl
  | some e => simp [optionNodes]

theorem Sequence.nodes_eq (s : Sequence) : s.nodes = s.roots.flatMap Expr.nodes := by
  cases s <;> simp [Sequence.nodes, Sequence.roots, allNodes_eq]

theorem Expr.nodes_eq (e : Expr) : e.nodes = e :: e.children.flatMap Expr.nodes := by
  obtain ⟨kind, type⟩ := e
  rw [Expr.nodes]
  cases kind <;> simp [ExprKind.nodes, Expr.children, ExprKind.children, allNodes_eq,
    pairNodes_eq, optionNodes_eq, Sequence.nodes_eq]

theorem Expr.mem_nodes_self (e : Expr) : e ∈ e.nodes := by
  rw [nodes_eq]
  exact List.mem_cons_self

/-- A property of all nodes holds of the root and of all nodes of its parts. -/
theorem Expr.forall_nodes {p : Expr → Prop} {e : Expr} :
    (∀ x ∈ e.nodes, p x) ↔ p e ∧ ∀ c ∈ e.children, ∀ x ∈ c.nodes, p x := by
  rw [nodes_eq]
  simp only [List.mem_cons, forall_eq_or_imp, List.mem_flatMap]
  constructor
  · rintro ⟨root, below⟩
    exact ⟨root, fun c hc x hx => below x ⟨c, hc, hx⟩⟩
  · rintro ⟨root, below⟩
    exact ⟨root, fun x ⟨c, hc, hx⟩ => below c hc x hx⟩

/-- The types that stand in an expression: those of its nodes and of the variables of its
comprehensions. -/
def Expr.nodeTypes (e : Expr) : List Ty := e.nodes.flatMap fun x => x.type :: x.binders.map (·.type)

theorem Expr.forall_nodeTypes {V : Ty → Prop} {e : Expr} :
    (∀ t ∈ e.nodeTypes, V t) ↔ ∀ x ∈ e.nodes, V x.type ∧ ∀ b ∈ x.binders, V b.type := by
  simp only [nodeTypes, List.forall_mem_flatMap, List.forall_mem_cons, List.forall_mem_map]

/-! ## Statements -/

mutual

/-- The expressions that stand in a statement. -/
def Stmt.roots : Stmt → List Expr
  | .expr e => [e]
  | .localAssignment _ value => [value]
  | .instanceAssignment _ value => [value]
  | .attrAssignment target value => [target, value]
  | .indexAssignment sequence index value => [sequence, index, value]
  | .ret _ value => [value]
  | .ifElse test block otherwise => test :: (blockRoots block ++ otherwise.roots)
  | .whileLoop test block => test :: blockRoots block
  | .forEach sequence _ block => sequence.roots ++ blockRoots block
  | .forRange start stop step _ block => start :: stop :: step :: blockRoots block
  | .tryExcept block handlers => blockRoots block ++ handlerRoots handlers
  | .throw _ value => [value]
  | .breakLoop => []
  | .continueLoop => []

def Otherwise.roots : Otherwise → List Expr
  | .nothing => []
  | .elseIf test block otherwise => test :: (blockRoots block ++ otherwise.roots)
  | .block block => blockRoots block

/-- The expressions that stand in a block. -/
def blockRoots : List Stmt → List Expr
  | [] => []
  | s :: rest => s.roots ++ blockRoots rest

def handlerRoots : List Handler → List Expr
  | [] => []
  | ⟨_, _, block⟩ :: rest => blockRoots block ++ handlerRoots rest

end

mutual

/-- The expressions that stand in a statement, each with the names that the handlers around it
catch, the innermost first. -/
def Stmt.placed : Stmt → List (List String × Expr)
  | .ifElse test block otherwise => ([], test) :: (blockPlaced block ++ otherwise.placed)
  | .whileLoop test block => ([], test) :: blockPlaced block
  | .forEach sequence _ block => sequence.roots.map ([], ·) ++ blockPlaced block
  | .forRange start stop step _ block => [start, stop, step].map ([], ·) ++ blockPlaced block
  | .tryExcept block handlers => blockPlaced block ++ handlerPlaced handlers
  | s => s.roots.map ([], ·)

def Otherwise.placed : Otherwise → List (List String × Expr)
  | .nothing => []
  | .elseIf test block otherwise => ([], test) :: (blockPlaced block ++ otherwise.placed)
  | .block block => blockPlaced block

/-- The expressions that stand in a block, each with the names that the handlers around it catch,
the innermost first. -/
def blockPlaced : List Stmt → List (List String × Expr)
  | [] => []
  | s :: rest => s.placed ++ blockPlaced rest

def handlerPlaced : List Handler → List (List String × Expr)
  | [] => []
  | ⟨_, name, block⟩ :: rest =>
    (blockPlaced block).map (fun x => (x.1 ++ name.toList, x.2)) ++ handlerPlaced rest

end

mutual

theorem Stmt.roots_eq : ∀ s : Stmt, s.roots = s.placed.map (·.2)
  | .ifElse _ block otherwise => by
    simp [Stmt.roots, Stmt.placed, blockRoots_eq block, otherwise.roots_eq]
  | .whileLoop _ block => by simp [Stmt.roots, Stmt.placed, blockRoots_eq block]
  | .forEach _ _ block => by
    simp [Stmt.roots, Stmt.placed, blockRoots_eq block, Function.comp_def]
  | .forRange _ _ _ _ block => by simp [Stmt.roots, Stmt.placed, blockRoots_eq block]
  | .tryExcept block handlers => by
    simp [Stmt.roots, Stmt.placed, blockRoots_eq block, handlerRoots_eq handlers]
  | .expr _ => rfl
  | .localAssignment .. => rfl
  | .instanceAssignment .. => rfl
  | .attrAssignment .. => rfl
  | .indexAssignment .. => rfl
  | .ret .. => rfl
  | .throw .. => rfl
  | .breakLoop => rfl
  | .continueLoop => rfl

theorem Otherwise.roots_eq : ∀ o : Otherwise, o.roots = o.placed.map (·.2)
  | .nothing => rfl
  | .elseIf _ block otherwise => by
    simp [Otherwise.roots, Otherwise.placed, blockRoots_eq block, otherwise.roots_eq]
  | .block block => by simp [Otherwise.roots, Otherwise.placed, blockRoots_eq block]

theorem blockRoots_eq : ∀ block : List Stmt, blockRoots block = (blockPlaced block).map (·.2)
  | [] => rfl
  | s :: rest => by simp [blockRoots, blockPlaced, s.roots_eq, blockRoots_eq rest]

theorem handlerRoots_eq : ∀ handlers : List Handler,
    handlerRoots handlers = (handlerPlaced handlers).map (·.2)
  | [] => rfl
  | ⟨_, _, block⟩ :: rest => by
    simp [handlerRoots, handlerPlaced, blockRoots_eq block, handlerRoots_eq rest, Function.comp_def]

end

mutual

/-- The conditions of the conditionals and `while` loops in a statement. -/
def Stmt.tests : Stmt → List Expr
  | .ifElse test block otherwise => test :: (blockTests block ++ otherwise.tests)
  | .whileLoop test block => test :: blockTests block
  | .forEach _ _ block => blockTests block
  | .forRange _ _ _ _ block => blockTests block
  | .tryExcept block handlers => blockTests block ++ handlerTests handlers
  | _ => []

def Otherwise.tests : Otherwise → List Expr
  | .nothing => []
  | .elseIf test block otherwise => test :: (blockTests block ++ otherwise.tests)
  | .block block => blockTests block

/-- The conditions of the conditionals and `while` loops in a block. -/
def blockTests : List Stmt → List Expr
  | [] => []
  | s :: rest => s.tests ++ blockTests rest

def handlerTests : List Handler → List Expr
  | [] => []
  | ⟨_, _, block⟩ :: rest => blockTests block ++ handlerTests rest

end

mutual

/-- The values that the returns in a statement give. -/
def Stmt.returned : Stmt → List Expr
  | .ret _ value => [value]
  | .ifElse _ block otherwise => blockReturned block ++ otherwise.returned
  | .whileLoop _ block => blockReturned block
  | .forEach _ _ block => blockReturned block
  | .forRange _ _ _ _ block => blockReturned block
  | .tryExcept block handlers => blockReturned block ++ handlerReturned handlers
  | _ => []

def Otherwise.returned : Otherwise → List Expr
  | .nothing => []
  | .elseIf _ block otherwise => blockReturned block ++ otherwise.returned
  | .block block => blockReturned block

/-- The values that the returns in a block give. -/
def blockReturned : List Stmt → List Expr
  | [] => []
  | s :: rest => s.returned ++ blockReturned rest

def handlerReturned : List Handler → List Expr
  | [] => []
  | ⟨_, _, block⟩ :: rest => blockReturned block ++ handlerReturned rest

end

mutual

/-- The variables of the `for` loops in a statement. -/
def Stmt.binders : Stmt → List Binder
  | .ifElse _ block otherwise => blockBinders block ++ otherwise.binders
  | .whileLoop _ block => blockBinders block
  | .forEach _ iterators block => iterators.binders ++ blockBinders block
  | .forRange _ _ _ index block => ⟨index, .int⟩ :: blockBinders block
  | .tryExcept block handlers => blockBinders block ++ handlerBinders handlers
  | _ => []

def Otherwise.binders : Otherwise → List Binder
  | .nothing => []
  | .elseIf _ block otherwise => blockBinders block ++ otherwise.binders
  | .block block => blockBinders block

/-- The variables of the `for` loops in a block. -/
def blockBinders : List Stmt → List Binder
  | [] => []
  | s :: rest => s.binders ++ blockBinders rest

def handlerBinders : List Handler → List Binder
  | [] => []
  | ⟨_, _, block⟩ :: rest => blockBinders block ++ handlerBinders rest

end

theorem blockPlaced_append (as bs : List Stmt) :
    blockPlaced (as ++ bs) = blockPlaced as ++ blockPlaced bs := by
  induction as with
  | nil => rfl
  | cons a as ih => simp [blockPlaced, ih]

theorem blockTests_append (as bs : List Stmt) :
    blockTests (as ++ bs) = blockTests as ++ blockTests bs := by
  induction as with
  | nil => rfl
  | cons a as ih => simp [blockTests, ih]

theorem blockReturned_append (as bs : List Stmt) :
    blockReturned (as ++ bs) = blockReturned as ++ blockReturned bs := by
  induction as with
  | nil => rfl
  | cons a as ih => simp [blockReturned, ih]

theorem blockBinders_append (as bs : List Stmt) :
    blockBinders (as ++ bs) = blockBinders as ++ blockBinders bs := by
  induction as with
  | nil => rfl
  | cons a as ih => simp [blockBinders, ih]

/-! ## Modules -/

/-- The routines of a definition. -/
def Definition.routines : Definition → List Routine
  | .routine r => [r]
  | .classDef c => c.methods ++ c.constructor.toList
  | .exception _ _ => []

def Module.routines (m : Module) : List Routine := m.definitions.flatMap Definition.routines

/-- The expressions that stand in a module. -/
def Module.roots (m : Module) : List Expr :=
  m.constants.map (·.init) ++ blockRoots m.main ++ m.routines.flatMap fun r => blockRoots r.block

/-- All expressions of a module, at any depth. -/
def Module.nodes (m : Module) : List Expr := m.roots.flatMap Expr.nodes

/-- The types that stand in a block: those of its expressions and of the variables of its loops. -/
def blockTypes (block : List Stmt) : List Ty :=
  (blockRoots block).flatMap Expr.nodeTypes ++ (blockBinders block).map (·.type)

def Routine.types (r : Routine) : List Ty := r.type :: r.returns :: blockTypes r.block

def Definition.attributes : Definition → List Attribute
  | .classDef c => c.attributes
  | _ => []

/-- The types that stand in a module.  A statement stands for `void`, and where a class or an
exception is named for itself its type is the name. -/
def Module.types (m : Module) : List Ty :=
  m.constants.flatMap (·.init.nodeTypes) ++ blockTypes m.main ++ m.routines.flatMap Routine.types ++
    m.definitions.flatMap fun d => d.attributes.map (·.ty)

/-- The conditions of the conditionals and `while` loops of a module. -/
def Module.tests (m : Module) : List Expr :=
  blockTests m.main ++ m.routines.flatMap fun r => blockTests r.block

end TreeTyper.Typed
