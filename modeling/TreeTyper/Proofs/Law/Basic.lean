import TreeTyper.Proofs.Answers
import TreeTyper.Proofs.Code
import TreeTyper.Proofs.Ends
import TreeTyper.Proofs.Nodes
import TreeTyper.Proofs.Run

/-!
# Laws of the translator

A law is an invariant of the tables together with what it says about the nodes
that are being put together, closed under every operation of the translator on
the tables and under every way to build a node.  That the translator obeys each
law is proved once, along its recursion; a property of its runs is a law and owes
only the closure conditions.

    Law.Holds n m σ s act post        what a run at the site σ owes, from s
-/

namespace TreeTyper.Translate

open Typed

/-! ## Sites -/

/-- Where a node stands: its scope, the scope of new variables of its body, and the definition
whose body it is. -/
structure Site where
  scope : ScopeId
  body : ScopeId
  definition : Option (DefKey × CellId)
  deriving DecidableEq, Repr

namespace Site

def ofModule : Site := ⟨Scopes.moduleScope, Scopes.moduleScope, none⟩

def ofBody (scope : ScopeId) (key : DefKey) (cell : CellId) : Site :=
  ⟨scope, scope, some (key, cell)⟩

def inScope (σ : Site) (scope : ScopeId) : Site := { σ with scope }

def key? (σ : Site) : Option DefKey := σ.definition.map (·.1)

def className? (σ : Site) : Option String := σ.definition.bind (·.1.className?)

end Site

def Context.site (ctx : Context) : Site := ⟨ctx.scope, ctx.body, ctx.definition⟩

@[simp] theorem Context.site_scope (ctx : Context) : ctx.site.scope = ctx.scope := rfl

/-! ## States -/

namespace State

/-- Tables of which only attributes, bindings, signatures and phases may differ. -/
structure SameShape (s s' : State) : Prop where
  hierarchy : s.hierarchy.SameShape s'.hierarchy
  functions : s'.definitions.functions = s.definitions.functions

theorem SameShape.refl (s : State) : SameShape s s := ⟨.refl _, rfl⟩

theorem SameShape.trans {s s' s'' : State} (a : SameShape s s') (b : SameShape s' s'') :
    SameShape s s'' :=
  ⟨a.hierarchy.trans b.hierarchy, b.functions.trans a.functions⟩

theorem SameShape.function?_eq {s s' : State} (same : SameShape s s') (name : String) :
    s'.definitions.function? name = s.definitions.function? name := by
  rw [Definitions.function?, Definitions.function?, same.functions]

/-- A cell holds the signature of a definition: a function has one cell; that of a method is in the
entries of the classes which see it. -/
def Links (s : State) : DefKey → CellId → Prop
  | .function name, cell => s.definitions.function? name = some cell
  | .method className name, cell => ∃ seenBy, (name, ⟨cell, className⟩) ∈ s.hierarchy.methods seenBy

theorem SameShape.links_iff {s s' : State} (same : SameShape s s') {key : DefKey} {cell : CellId} :
    s'.Links key cell ↔ s.Links key cell := by
  cases key with
  | function name => rw [Links, Links, same.function?_eq]
  | method className name => simp only [Links, same.hierarchy.methods_eq]

/-- A class that sees a method knows the cell of the definition. -/
theorem links_of_method? {s : State} {className name : String} {entry : MethodEntry}
    (declared : s.hierarchy.method? className name = some entry) :
    s.Links (.method entry.definedIn name) entry.cell := by
  obtain ⟨info, found, listed⟩ := Option.bind_eq_some_iff.mp declared
  refine ⟨className, ?_⟩
  rw [Hierarchy.methods, found]
  exact Table.mem_of_findIn listed

/-- The scope that owns a name as a local of the body at a site. -/
def localOwner? (s : State) (σ : Site) (name : String) : Option ScopeId :=
  let owner := s.scopes.resolveLocal σ.scope name
  if σ.body ≠ Scopes.moduleScope then owner
  else
    owner.or
      ((s.scopes.lookupLocal Scopes.moduleScope name).map fun _ => Scopes.moduleScope)

/-- The state after a name of one scope is bound. -/
def bound (s : State) (id : ScopeId) (name : String) (ty : Ty) : State :=
  { s with scopes := s.scopes.define id name ty }

def withHierarchy (s : State) (hierarchy : Hierarchy) : State := { s with hierarchy }

def withSignature (s : State) (cell : CellId) (signature : Signature) : State :=
  { s with cells := s.cells.set cell signature }

def withAttribute (s : State) (className name : String) (ty : Ty) : State :=
  match s.hierarchy.attribute? className name with
  | some (owner, _) => s.withHierarchy (s.hierarchy.updateAttribute owner name ty false)
  | none => s

/-- The state after the variable or attribute from which a node was read takes a new type. -/
def refined (s : State) (σ : Site) (node : Expr) (ty : Ty) : State :=
  match node.kind with
  | .localVar name => { s with scopes := s.scopes.assign σ.scope name ty }
  | .instanceVar name =>
    match σ.className? with
    | some className => s.withAttribute className name ty
    | none => s
  | .attr object name => s.withAttribute object.type.head name ty
  | _ => s

/-- A new type reaches the scopes or the attributes, and nothing else. -/
theorem refined_eq (s : State) (σ : Site) (node : Expr) (ty : Ty) :
    ∃ scopes hierarchy, s.refined σ node ty = { s with scopes, hierarchy } := by
  have viaAttribute : ∀ className name,
      ∃ hierarchy, s.withAttribute className name ty = { s with hierarchy } := by
    intro className name
    unfold withAttribute
    split
    · exact ⟨_, rfl⟩
    · exact ⟨_, rfl⟩
  unfold refined
  split
  · exact ⟨_, _, rfl⟩
  · next name _ =>
    split
    · next className _ =>
      obtain ⟨hierarchy, same⟩ := viaAttribute className name
      exact ⟨s.scopes, hierarchy, same⟩
    · exact ⟨_, _, rfl⟩
  · next object name _ =>
    obtain ⟨hierarchy, same⟩ := viaAttribute object.type.head name
    exact ⟨s.scopes, hierarchy, same⟩
  · exact ⟨_, _, rfl⟩

theorem definitions_refined (s : State) (σ : Site) (node : Expr) (ty : Ty) :
    (s.refined σ node ty).definitions = s.definitions := by
  obtain ⟨scopes, hierarchy, same⟩ := s.refined_eq σ node ty
  rw [same]

theorem calls_refined (s : State) (σ : Site) (node : Expr) (ty : Ty) :
    (s.refined σ node ty).calls = s.calls := by
  obtain ⟨scopes, hierarchy, same⟩ := s.refined_eq σ node ty
  rw [same]

/-- The state in which the body of a definition begins, with the types of its parameters. -/
def begun (s : State) (key : DefKey) (cell : CellId) (definitions : Definitions)
    (params : List Ty) : State :=
  { s with
    definitions
    progress := s.progress ++ [Progress.began key]
    cells := s.cells.set cell { s.cells.get cell with params } }

/-- The routine of a body that ended with the return slot `found`. -/
def routine (s : State) (key : DefKey) (cell : CellId) (names : List String)
    (block : List Stmt) : Routine :=
  let ret := returnAfter key (s.cells.get cell)
  ⟨routineForm key, key.name, names, block, Signature.toTy ⟨(s.cells.get cell).params, ret⟩, ret⟩

/-- The state after the body of a definition. -/
def finished (s : State) (key : DefKey) (cell : CellId) (names : List String)
    (block : List Stmt) : State :=
  { s with
    cells := s.cells.set cell { s.cells.get cell with ret := returnAfter key (s.cells.get cell) }
    definitions := s.definitions.finish key (s.routine key cell names block)
    progress := s.progress ++ [Progress.finished key] }

/-- The state after a call was answered. -/
def answered (s : State) (key : DefKey) (cell : CellId) (args : List Ty) (ret : Ty) (phase : Phase) :
    State :=
  { s with calls := ⟨key, cell, args, ret, (s.cells.get cell).toTy, phase⟩ :: s.calls }

/-- The latest call of the log, with the type that is still in the cell. -/
def JustAnswered (s : State) (key : DefKey) (cell : CellId) (args : List Ty) (ret : Ty) : Prop :=
  ∃ phase, s.calls.head? = some ⟨key, cell, args, ret, (s.cells.get cell).toTy, phase⟩

end State

/-! ## Types -/

/-- The types that some types are brought to by compatibility and joins under a hierarchy. -/
inductive Gathered (h : Hierarchy) (given : List Ty) : Ty → Prop
  | hole : Gathered h given .hole
  | given {t : Ty} : t ∈ given → Gathered h given t
  | compatible {a b c : Ty} : Gathered h given a → Gathered h given b →
      compatible h a b = some c → Gathered h given c
  | unify {a b c : Ty} : Gathered h given a → Gathered h given b →
      unify h a b = some c → Gathered h given c

theorem Gathered.sameShape {h h' : Hierarchy} {given : List Ty} {t : Ty}
    (gathered : Gathered h given t) (same : h.SameShape h') : Gathered h' given t := by
  induction gathered with
  | hole => exact .hole
  | given known => exact .given known
  | compatible _ _ found ihLeft ihRight =>
    exact .compatible ihLeft ihRight ((same.compatible_eq ..).trans found)
  | unify _ _ found ihLeft ihRight => exact .unify ihLeft ihRight ((same.unify_eq ..).trans found)

/-- The types of the variables of a loop over sequences of some types. -/
inductive Taken (sequences : List Ty) : Ty → Prop
  | index : Taken sequences .int
  | element {t elem : Ty} : t ∈ sequences → t.element? = some elem → Taken sequences elem
  | value {key value : Ty} : .dictionary key value ∈ sequences → Taken sequences value

theorem Taken.mono {sequences sequences' : List Ty} {t : Ty} (taken : Taken sequences t)
    (more : sequences ⊆ sequences') : Taken sequences' t := by
  cases taken with
  | index => exact .index
  | element listed iterates => exact .element (more listed) iterates
  | value listed => exact .value (more listed)

/-- The types that a receiver's type `old` is changed to: by a standard method with the given
arguments, or by a value that is stored at an index. -/
inductive Refinement (h : Hierarchy) (old : Ty) : List Ty → Ty → Prop
  | matched {signature : ApiSignature} {name : String} {args : List Ty} {found : SignatureMatch}
      {ty : Ty} : matchSignature h signature name (some old) args = .ok found →
      found.refined = some ty → Refinement h old args ty
  | stored {index value ty : Ty} : storeAt h old index value = .ok ty →
      Refinement h old [index, value] ty

/-! ## Nodes -/

/-- The literals. -/
inductive Literal : Expr → Prop
  | int (value : Int64) : Literal (.int value)
  | float (bits : UInt64) : Literal (.float bits)
  | string (value : String) : Literal (.string value)
  | boolean (value : Bool) : Literal (.boolean value)
  | null : Literal .null

/-- The ways to put a node together from parts, at the site `σ` in the state `s`.  No scope there
binds the names that are `free`, and a definition that was called with arguments of some types
answered with a return type as `called` says; what stands below new variables of some names is
`below` them. -/
inductive Makes (api : ApiTables) (σ : Site) (s : State) (free : String → Prop)
    (below : List String → Expr → Prop)
    (called : DefKey → CellId → List Ty → Ty → Prop) : List Expr → Expr → Prop
  | literal {e} : Literal e → Makes api σ s free below called [] e
  | this {ty} : σ.className?.isSome → s.scopes.lookup σ.scope "self" = some ty →
      Makes api σ s free below called [] ⟨.this, ty⟩
  | variable {id ty} : ¬(id = "self" ∧ σ.className?.isSome) →
      s.scopes.lookup σ.scope id = some ty → Makes api σ s free below called [] (.localVar id ty)
  | function {id cell} : free id → s.definitions.function? id = some cell →
      Makes api σ s free below called [] (.localVar id (s.cells.get cell).toTy)
  | typename {id} : (s.hierarchy.isClass id || s.hierarchy.isException id) →
      Makes api σ s free below called [] (.typename id)
  | instanceVar {object name owner entry} : object.kind = .this →
      s.hierarchy.attribute? object.type.head name = some (owner, entry) →
      Makes api σ s free below called [object] ⟨.instanceVar name, entry.ty⟩
  | attr {object name owner entry} :
      s.hierarchy.attribute? object.type.head name = some (owner, entry) →
      Makes api σ s free below called [object] ⟨.attr object name, entry.ty⟩
  | binary {op left right e} : binary api op left right = .ok e →
      Makes api σ s free below called [left, right] e
  | test {value e} : testable value = .ok e → e ≠ value → Makes api σ s free below called [value] e
  | connect {op : Tree.BooleanOperator} {left right} : left.type = .boolean →
      right.type = .boolean →
      Makes api σ s free below called [left, right] ⟨.binaryOp op.symbol left right, .boolean⟩
  | negative {value} : value.type.isNumeric →
      Makes api σ s free below called [value] ⟨.unaryOp "-" value, value.type⟩
  | not {value} : value.type = .boolean →
      Makes api σ s free below called [value] ⟨.unaryOp "not" value, .boolean⟩
  | comparison {op left right} : confirmComparable left.type right.type = .ok () →
      Makes api σ s free below called [left, right] ⟨.comparison op left right, .boolean⟩
  | list {nodes elem} : Gathered s.hierarchy (types nodes) elem →
      Makes api σ s free below called nodes ⟨.list nodes, .list elem⟩
  | set {nodes elem} : Gathered s.hierarchy (types nodes) elem →
      Makes api σ s free below called nodes ⟨.set nodes, .set elem⟩
  | dictionary {pairs key value} : Gathered s.hierarchy (types (pairs.map (·.key))) key →
      Gathered s.hierarchy (types (pairs.map (·.value))) value →
      Makes api σ s free below called (pairRoots pairs) ⟨.dictionary pairs, .dictionary key value⟩
  | tuple {nodes} : Makes api σ s free below called nodes ⟨.tuple nodes, .tuple (types nodes)⟩
  | array {nodes elem} : Gathered s.hierarchy (types nodes) elem →
      Makes api σ s free below called nodes ⟨.array nodes, .array elem nodes.length⟩
  | index {sequence place source ty} :
      indexType s.hierarchy sequence.type place.type source = .ok ty →
      Makes api σ s free below called [sequence, place] ⟨.index sequence place, ty⟩
  | standardCall {space function name signature args found} :
      Reached api s.hierarchy (.call space function) →
      signatureOf api space function = .ok signature →
      matchSignature s.hierarchy signature name none (types args) = .ok found →
      Makes api σ s free below called args ⟨.standardCall space function args, found.ret⟩
  | standardMethodCall {receiver refined owner message h expansion name signature args found} :
      Reached api s.hierarchy expansion → expansion.method? = some (owner, message) →
      receiver.type.head = owner → signatureOf api owner message = .ok signature →
      matchSignature h signature name (some receiver.type) (types args) = .ok found →
      Makes api σ s free below called (receiver :: refined :: args)
        ⟨.standardMethodCall refined message args, found.ret⟩
  | length {value} : value.type.isSized → Makes api σ s free below called [value] (lengthOf value)
  | regexp {pattern e} : toRegexp pattern = .ok e → e ≠ pattern →
      Makes api σ s free below called [pattern] e
  | valueCall {callee params ret name args found} : callee.type = .function params ret →
      callee.type.hasHoles = false →
      matchParams s.hierarchy params (types args) name = .ok found →
      Makes api σ s free below called (callee :: args) ⟨.call callee args, ret⟩
  | functionCall {id cell args ret} : free id → s.definitions.function? id = some cell →
      called (.function id) cell (types args) ret →
      s.JustAnswered (.function id) cell (types args) ret →
      Makes api σ s free below called args ⟨.call (.localVar id (s.cells.get cell).toTy) args, ret⟩
  | methodCall {receiver message entry args ret} :
      s.hierarchy.method? receiver.type.head message = some entry →
      called (.method entry.definedIn message) entry.cell (types args) ret →
      Makes api σ s free below called (receiver :: args) ⟨.methodCall receiver message args, ret⟩
  | thisMethodCall {className message entry args ret} : σ.className? = some className →
      s.hierarchy.method? className message = some entry →
      called (.method entry.definedIn message) entry.cell (types args) ret →
      Makes api σ s free below called args ⟨.thisMethodCall message args, ret⟩
  | newInstance {className entry args ret} :
      s.hierarchy.method? className Hierarchy.constructorName = some entry →
      called (.method entry.definedIn Hierarchy.constructorName) entry.cell (types args) ret →
      Makes api σ s free below called args ⟨.newInstance className args, .atom className⟩
  | plainInstance {className} : s.hierarchy.isClass className →
      s.hierarchy.method? className Hierarchy.constructorName = none →
      Makes api σ s free below called [] ⟨.newInstance className [], .atom className⟩
  | iterate {sequence iterators test block} :
      (∀ b ∈ iterators.binders, Taken (types sequence.roots) b.type) →
      (∀ e ∈ test, e.type = .boolean) →
      (∀ e ∈ sequence.roots, below [] e) →
      (∀ e ∈ test.toList ++ [block], below (iterators.binders.map (·.name)) e) →
      Makes api σ s free below called (sequence.roots ++ test.toList ++ [block])
        ⟨.iterate sequence iterators test block, .list block.type⟩

/-! ## Laws -/

/-- How far a run can change the tables: an expression binds no new names. -/
inductive Mode where
  | expr
  | stmt
  deriving DecidableEq, Repr

/-- The expressions of a block are `kept` below handlers that catch some names, its tests are
conditions, its returns give what may be `returned`, and its loop variables have `fine` types. -/
structure BlockKeeps (kept : List String → Expr → Prop) (returned : Expr → Prop)
    (block : List Stmt) (fine : Ty → Prop := fun _ => True) : Prop where
  placed : ∀ x ∈ blockPlaced block, kept x.1 x.2
  tests : ∀ e ∈ blockTests block, e.type = .boolean
  returns : ∀ e ∈ blockReturned block, returned e
  binders : ∀ b ∈ blockBinders block, fine b.type

theorem BlockKeeps.roots {kept : List String → Expr → Prop} {returned : Expr → Prop}
    {fine : Ty → Prop} {block : List Stmt} (keeps : BlockKeeps kept returned block fine) :
    ∀ e ∈ blockRoots block, ∃ names, kept names e := by
  intro e he
  rw [blockRoots_eq] at he
  obtain ⟨x, hx, rfl⟩ := List.mem_map.mp he
  exact ⟨x.1, keeps.placed x hx⟩

/-- A call reaches an unresolved definition. -/
structure Beginning (s : State) (key : DefKey) (cell : CellId) (args : List Ty)
    (definition : Tree.FunctionDef) (definitions : Definitions) (params : List Ty) : Prop where
  matched : matchParams s.hierarchy (s.cells.get cell).params args key.render = .ok params
  begins : s.definitions.begin? key = some (definition, definitions)

/-- The state in which the block of a body is translated. -/
def State.entered (s : State) (key : DefKey) (cell : CellId) (definition : Tree.FunctionDef)
    (definitions : Definitions) (params : List Ty) : State :=
  (s.begun key cell definitions params).opened Scopes.moduleScope
    (bodyBindings key (parameterNames key definition) params)

/-! ## Laws -/

/-- Nothing is owed for a site by a law that leaves faults alone. -/
theorem Law.alive_of_false {σ : Site} {s : State} (impossible : False) :
    s.scopes.isAlive σ.scope ∧ s.scopes.isAlive σ.body := impossible.elim

theorem Law.complete_of_false {s : State} (impossible : False) : s.hierarchy.Complete :=
  impossible.elim

theorem Law.blockFaultless_of_false {definition : Tree.FunctionDef} (impossible : False) :
    Tree.blockFaultless definition.body := impossible.elim

/-- An invariant of the translator with what it says about nodes.  What a law does not speak of
holds everywhere, and then nothing is owed for it. -/
structure Law (setting : Setting) where
  /-- Holds of the tables when at most so many bodies can begin inside each other. -/
  Inv : Nat → State → Prop := fun _ _ => True
  /-- Holds of the tables at a site. -/
  Here : Site → State → Prop := fun _ _ => True
  /-- What an expression or a statement at a site changes. -/
  Rel : Mode → Site → State → State → Prop := fun _ _ _ _ => True
  /-- What a call of a definition changes. -/
  Call : State → State → Prop := fun _ _ => True
  /-- The definition whose signature is in a cell can be called. -/
  Knows : State → DefKey → CellId → Prop := fun _ _ _ => True
  /-- No scope binds a name. -/
  Free : Site → State → String → Prop := fun _ _ _ => True
  /-- A definition was called with arguments of the given types and answered. -/
  Called : State → DefKey → CellId → List Ty → Ty → Prop := fun _ _ _ _ _ => True
  /-- A node of the statement that is being translated. -/
  Node : Site → State → Expr → Prop := fun _ _ _ => True
  /-- A node that stands at a site, or in handlers there that catch some names. -/
  Kept : Site → List String → State → Expr → Prop := fun _ _ _ _ => True
  /-- A node that stands at a site below new variables of the given names. -/
  Below : Site → State → List String → Expr → Prop := fun _ _ _ _ => True
  /-- A node that a return in the body of a definition gives. -/
  Returned : Option (DefKey × CellId) → State → Expr → Prop := fun _ _ _ => True
  /-- The types of nodes. -/
  Fine : Ty → Prop := fun _ => True
  /-- The names that a body may bind. -/
  Binds : Option DefKey → String → Prop := fun _ _ => True
  /-- The definitions whose bodies may return. -/
  Returns : Option DefKey → Prop := fun _ => True
  /-- Whether the code that is translated has to be without faults; then a run has none either. -/
  Faultless : Prop := False
  /-- How a run stops. -/
  Stopped : State → Stop → State → Prop := fun _ _ _ => True
  rel_refl : ∀ m σ s, Rel m σ s s := by intros; trivial
  rel_trans : ∀ {m σ s s' s''}, Rel m σ s s' → Rel m σ s' s'' → Rel m σ s s'' := by intros; trivial
  rel_stmt : ∀ {σ s s'}, Rel .expr σ s s' → Rel .stmt σ s s' := by intros; trivial
  rel_call : ∀ {m σ s s'}, Call s s' → Rel m σ s s' := by intros; trivial
  here_rel : ∀ {m σ s s'}, Here σ s → Rel m σ s s' → s.SameShape s' → Here σ s' := by
    intros; trivial
  node_rel : ∀ {σ s s' e}, Node σ s e → Rel .expr σ s s' → s.SameShape s' → Node σ s' e := by
    intros; trivial
  kept_rel : ∀ {m σ s s' names e}, Kept σ names s e → Rel m σ s s' → s.SameShape s' →
    Kept σ names s' e := by intros; trivial
  knows_links : ∀ {s key cell}, s.Links key cell → Knows s key cell := by intros; trivial
  free_lookup : ∀ {σ s id}, s.scopes.lookup σ.scope id = none → Free σ s id := by intros; trivial
  free_rel : ∀ {σ s s' id}, Free σ s id → Rel .expr σ s s' → Free σ s' id := by intros; trivial
  returned_rel : ∀ {m σ s s' d e}, Returned d s e → Rel m σ s s' → s.SameShape s' → Returned d s' e := by
    intros; trivial
  called_rel : ∀ {m σ s s' key cell args ret}, Called s key cell args ret → Rel m σ s s' →
    s.SameShape s' → Called s' key cell args ret := by intros; trivial
  kept_node : ∀ {σ s e}, Node σ s e → Kept σ [] s e := by intros; trivial
  fine_node : ∀ {σ s e}, Node σ s e → Fine e.type := by intros; trivial
  below_node : ∀ {σ s e}, Node σ s e → Below σ s [] e := by intros; trivial
  below_closed : ∀ {σ e} {s s' : State} {bindings : List (String × Ty)},
    (∀ b ∈ bindings, s.scopes.lookup σ.scope b.1 = none) →
    Rel .expr (σ.inScope s.scopes.size) (s.opened σ.scope bindings) s' →
    Node (σ.inScope s.scopes.size) s' e →
    Below σ (s'.closed s.scopes.size) (bindings.map (·.1)) e := by intros; trivial
  kept_closed : ∀ {m σ s bindings caught names s' e}, Here σ s →
    (∀ b ∈ bindings, b.1 ∈ caught ∨ s.scopes.lookup σ.scope b.1 = none) →
    Rel m (σ.inScope s.scopes.size) (s.opened σ.scope bindings) s' →
    Kept (σ.inScope s.scopes.size) names s' e → Kept σ (names ++ caught) (s'.closed s.scopes.size) e := by
    intros; trivial
  returned_scopes : ∀ {d s e}, Returned d s e → ∀ scopes, Returned d { s with scopes } e := by
    intros; trivial
  kept_target : ∀ {σ s object name ty}, Kept σ [] s object → Fine ty →
    Kept σ [] s ⟨.attr object name, ty⟩ := by intros; trivial
  fine_int : Fine .int := by intros; trivial
  fine_boolean : Fine .boolean := by intros; trivial
  fine_exception : ∀ {n s name}, Inv n s → s.hierarchy.isException name → Fine (.atom name) := by
    intros; trivial
  fine_element : ∀ {t elem}, Fine t → t.element? = some elem → Fine elem := by intros; trivial
  fine_items : ∀ {key value}, Fine (.dictionary key value) → Fine key ∧ Fine value := by
    intros; exact ⟨trivial, trivial⟩
  stop_here : ∀ {s stop}, stop ≠ .fault .depth → (Faultless → stop.IsFailure) →
    (setting.api.Closed → ¬stop.AsksSignature) → Stopped s stop s := by intros; trivial
  stop_depth : ∀ {s}, Inv 0 s → Stopped s (.fault .depth) s := by intros; trivial
  stop_locate : ∀ {s stop s'} pos, Stopped s stop s' → Stopped s (stop.locate pos) s' := by
    intros; trivial
  stop_rel : ∀ {m σ s s' stop s''}, Rel m σ s s' → Stopped s' stop s'' → Stopped s stop s'' := by
    intros; trivial
  stop_closed : ∀ {s parent bindings stop s'}, Stopped (s.opened parent bindings) stop s' →
    Stopped s stop (s'.closed s.scopes.size) := by intros; trivial
  stop_entered : ∀ {n s key cell args definition definitions params stop s'}, Inv (n + 1) s →
    Beginning s key cell args definition definitions params →
    Stopped (s.entered key cell definition definitions params) stop s' →
    Stopped s stop (s'.closed s.scopes.size) := by intros; trivial
  alive : ∀ {n σ s}, Faultless → Inv n s → Here σ s →
    s.scopes.isAlive σ.scope ∧ s.scopes.isAlive σ.body := by intros; exact Law.alive_of_false ‹_›
  complete : ∀ {n s}, Faultless → Inv n s → s.hierarchy.Complete := by
    intros; exact Law.complete_of_false ‹_›
  make : ∀ {n σ s parts e}, Inv n s → Here σ s → (∀ p ∈ parts, Kept σ [] s p) →
    (∀ p ∈ parts, Fine p.type) → (e.isIterate = false → ∀ p ∈ parts, Node σ s p) →
    Makes setting.api σ s (Free σ s) (Below σ s) (Called s) parts e → Node σ s e := by
    intros; trivial
  depend : ∀ {n s} σ dependencies, Inv n s →
    Inv n { s with dependencies } ∧ Rel .expr σ s { s with dependencies }
  retype : ∀ {n σ s e evidence ty}, Inv n s → Here σ s → Node σ s e → (∀ t ∈ evidence, Fine t) →
    Refinement s.hierarchy e.type evidence ty →
    Inv n (s.refined σ e ty) ∧ Rel .expr σ s (s.refined σ e ty) ∧
      Node σ (s.refined σ e ty) { e with type := ty }
  openScope : ∀ {n σ s bindings}, Inv n s → Here σ s →
    (∀ b ∈ bindings, Binds σ.key? b.1 ∨ s.scopes.lookup σ.scope b.1 = none) →
    (∀ b ∈ bindings, Fine b.2) → Inv n (s.opened σ.scope bindings) ∧
      Here (σ.inScope s.scopes.size) (s.opened σ.scope bindings) := by
    intros; exact ⟨trivial, trivial⟩
  closeScope : ∀ {n m σ s bindings s'}, Inv n s → Here σ s → Inv n s' →
    Rel m (σ.inScope s.scopes.size) (s.opened σ.scope bindings) s' → s.SameShape s' →
    Inv n (s'.closed s.scopes.size) ∧ Rel m σ s (s'.closed s.scopes.size)
  declare : ∀ {n σ s id ty}, Inv n s → Here σ s → Binds σ.key? id → id ∉ setting.constants →
    Fine ty → s.localOwner? σ id = none → Inv n (s.bound σ.body id ty) ∧ Rel .stmt σ s (s.bound σ.body id ty)
  join : ∀ {n σ s id owner ty found}, Inv n s → Here σ s → Binds σ.key? id →
    id ∉ setting.constants → Fine ty → s.localOwner? σ id = some owner →
    unify s.hierarchy ((s.scopes.lookupLocal owner id).getD .hole) ty = some found →
    Inv n (s.bound owner id found) ∧ Rel .stmt σ s (s.bound owner id found)
  joinAttribute : ∀ {n s className name owner entry ty found} σ makePublic, Inv n s → Fine ty →
    s.hierarchy.attribute? className name = some (owner, entry) →
    unify s.hierarchy entry.ty ty = some found →
    Inv n (s.withHierarchy (s.hierarchy.updateAttribute owner name found makePublic)) ∧
      Rel .stmt σ s (s.withHierarchy (s.hierarchy.updateAttribute owner name found makePublic)) ∧
      Fine found
  register : ∀ {n s className name ty} σ, Inv n s → Fine ty →
    s.hierarchy.attribute? className name = none →
    Inv n (s.withHierarchy (s.hierarchy.registerAttribute className ⟨name, ty, false⟩)) ∧
      Rel .stmt σ s (s.withHierarchy (s.hierarchy.registerAttribute className ⟨name, ty, false⟩))
  /-- A constructor returns nothing. -/
  leaves : ∀ {n σ s key cell}, Inv n s → Here σ s → σ.definition = some (key, cell) →
    key.isConstructor → Returned (some (key, cell)) s .null := by intros; trivial
  merge : ∀ {n σ s key cell name e merged}, Inv n s → Here σ s → σ.definition = some (key, cell) →
    Returns (some key) → key.isConstructor = false → Node σ s e →
    mergeReturn name (s.cells.get cell).ret e.type = .ok merged →
    let s' := s.withSignature cell { s.cells.get cell with ret := merged }
    Inv n s' ∧ Rel .stmt σ s s' ∧ Returned (some (key, cell)) s' e
  answer : ∀ {n s key cell args params phase}, Inv n s → Knows s key cell → (∀ t ∈ args, Fine t) →
    matchParams s.hierarchy (s.cells.get cell).params args key.render = .ok params →
    s.definitions.phase? key = some phase →
    (phase = .resolved ∨ phase = .inProgress ∧ (s.cells.get cell).hasReturn) →
    let s' := (s.withSignature cell { s.cells.get cell with params }).answered
      key cell args (s.cells.get cell).ret phase
    Inv n s' ∧ Call s s' ∧ Called s' key cell args (s.cells.get cell).ret
  enter : ∀ {n s key cell args definition definitions params}, Inv (n + 1) s → Knows s key cell →
    (∀ t ∈ args, Fine t) → Beginning s key cell args definition definitions params →
    let s' := s.entered key cell definition definitions params
    Inv n s' ∧ Here (.ofBody s.scopes.size key cell) s' := by exact fun _ _ _ _ => ⟨trivial, trivial⟩
  enter_binds : ∀ {n s key cell args definition definitions params}, Inv (n + 1) s →
    Beginning s key cell args definition definitions params →
    ∀ x ∈ Tree.blockNames definition.body, Binds (some key) x := by intros; trivial
  enter_returns : ∀ {n s key cell args definition definitions params}, Inv (n + 1) s →
    Knows s key cell → Beginning s key cell args definition definitions params →
    Tree.blockReturns definition.body → Returns (some key) := by intros; trivial
  enter_faultless : ∀ {n s key cell args definition definitions params}, Inv (n + 1) s →
    Beginning s key cell args definition definitions params →
    Faultless → Tree.blockFaultless definition.body := by
    intros; exact Law.blockFaultless_of_false ‹_›
  leave : ∀ {n s key cell args definition definitions params s' block}, Inv (n + 1) s →
    Knows s key cell → (∀ t ∈ args, Fine t) → Beginning s key cell args definition definitions params →
    (Translate.block ⟨setting, inferAt setting n⟩ definition.body
      ((Context.ofBody s.scopes.size key cell).last true)).run
      (s.entered key cell definition definitions params) = (.ok block, s') →
    Inv n s' → Here (.ofBody s.scopes.size key cell) s' →
    Rel .stmt (.ofBody s.scopes.size key cell)
      (s.entered key cell definition definitions params) s' → s.SameShape s' →
    BlockKeeps (fun names => Kept (.ofBody s.scopes.size key cell) names s')
      (Returned (some (key, cell)) s') block Fine →
    let ret := returnAfter key (s'.cells.get cell)
    let s'' := ((s'.closed s.scopes.size).finished key cell (parameterNames key definition)
      block).answered key cell args ret .unresolved
    Inv (n + 1) s'' ∧ Call s s'' ∧ Called s'' key cell args ret

end TreeTyper.Translate
