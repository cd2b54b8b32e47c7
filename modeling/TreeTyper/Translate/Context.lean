import TreeTyper.Translate.State

/-!
# Where a run is

The setting of a module does not change while it is translated.  A context says
in which scope and definition a statement or an expression stands; nested
constructs derive a context of their own.

Parts of an expression that are to be translated later are `Deferred`: the syntax
together with the run that translates it.
-/

namespace TreeTyper.Translate

/-- What is known about a module before its statements are translated. -/
structure Setting where
  api : ApiTables
  imports : List String
  constants : List String

/-- The return type of calling a definition with arguments of the given types; the body is
translated first if no call reached it yet. -/
abbrev Infer := DefKey → CellId → List Ty → Pos → Run Ty

/-- The setting with the way to infer definitions. -/
structure Translator where
  setting : Setting
  infer : Infer

structure Context where
  /-- The innermost scope: variables of loops and handlers live here. -/
  scope : ScopeId
  /-- The scope of new local variables: that of the body, or the module scope. -/
  body : ScopeId
  /-- The definition whose body this is, with the cell of its signature. -/
  definition : Option (DefKey × CellId)
  /-- Whether the statement is in tail position. -/
  isLast : Bool
  inLoop : Bool
  deriving DecidableEq, Repr

namespace Context

def ofModule : Context := ⟨Scopes.moduleScope, Scopes.moduleScope, none, false, false⟩

/-- The context of a body that opened `scope`. -/
def ofBody (scope : ScopeId) (key : DefKey) (cell : CellId) : Context :=
  ⟨scope, scope, some (key, cell), false, false⟩

def inScope (ctx : Context) (scope : ScopeId) : Context := { ctx with scope }

def last (ctx : Context) (isLast : Bool) : Context := { ctx with isLast }

def looping (ctx : Context) : Context := { ctx with inLoop := true, isLast := false }

/-- The class of the method whose body this is. -/
def className? (ctx : Context) : Option String := ctx.definition.bind (·.1.className?)

/-- The name of the definition, for messages. -/
def name (ctx : Context) : String :=
  match ctx.definition with
  | some (key, _) => key.render
  | none => "global scope"

def isConstructor (ctx : Context) : Bool := ctx.definition.any (·.1.isConstructor)

end Context

/-- An expression with the run that translates it. -/
structure Deferred where
  source : Tree.Expr
  run : Context → Run Typed.Expr

/-- Translates some expressions from left to right. -/
def runAll (ctx : Context) : List Deferred → Run (List Typed.Expr)
  | [] => pure []
  | d :: ds => do
    let node ← d.run ctx
    let nodes ← runAll ctx ds
    return node :: nodes

/-! ## Names -/

/-- How a name is spelled. -/
inductive NameCase where
  | snake
  | screaming
  | mixed
  deriving DecidableEq, Repr

def nameCase (name : String) : NameCase :=
  if !name.toList.any Text.isUppercase then .snake
  else if name.toList.any Text.isLowercase then .mixed
  else .screaming

/-- The scope that owns a name as a local of the body around `ctx`. -/
def localOwner (ctx : Context) (name : String) : Run (Option ScopeId) := do
  requireAlive ctx.scope
  let scopes := (← get).scopes
  let owner := scopes.resolveLocal ctx.scope name
  if ctx.body ≠ Scopes.moduleScope then return owner
  else
    return owner.or
      ((scopes.lookupLocal Scopes.moduleScope name).map fun _ => Scopes.moduleScope)

end TreeTyper.Translate
