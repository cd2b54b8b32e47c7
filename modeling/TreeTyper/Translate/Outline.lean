import TreeTyper.Translate.Infer

/-!
# The top level of a module

A first pass over the statements of a module enters imports, constants,
functions, classes and custom exceptions into the tables, and keeps the other
statements, in order, as the main block.  Imports come before all else but
constants, constants before the main block.  The bodies of definitions stay
untranslated.
-/

namespace TreeTyper.Translate

/-- A definition of the top level. -/
inductive TopDefinition where
  | function (name : String) (pos : Pos)
  | classDef (name : String) (base : Option String) (pos : Pos)
  /-- A custom exception with its custom base. -/
  | exception (name : String) (base : Option String)
  deriving DecidableEq, Repr

/-- What the first pass has found. -/
structure Outline where
  imports : List String
  constants : List Typed.Constant
  /-- The definitions, in source order. -/
  definitions : List TopDefinition
  /-- The statements of the main block, in source order. -/
  main : List Tree.Stmt

namespace Outline

def empty : Outline := ⟨[], [], [], []⟩

/-- What the statements of a module can refer to. -/
def setting (o : Outline) (api : ApiTables) : Setting :=
  ⟨api, o.imports, o.constants.map (·.name)⟩

def addDefinition (o : Outline) (d : TopDefinition) : Outline :=
  { o with definitions := o.definitions ++ [d] }

def addMain (o : Outline) (s : Tree.Stmt) : Outline := { o with main := o.main ++ [s] }

end Outline

/-! ## Imports and constants -/

/-- The namespaces imported by some names. -/
def importedNames (api : ApiTables) : List Tree.Alias → Except Cause (List String)
  | [] => .ok []
  | ⟨name, some asname⟩ :: _ => .error (.importAlias name asname)
  | ⟨name, none⟩ :: rest =>
    if api.isLibrary name then (importedNames api rest).map (name :: ·)
    else .error (.unknownModule name api.libraries)

def declareImport (api : ApiTables) (o : Outline) (names : List Tree.Alias) : Run Outline :=
  if !o.definitions.isEmpty || !o.main.isEmpty then fail .lateImport
  else do
    let imported ← check (importedNames api names)
    return { o with imports := o.imports ++ imported }

/-- Enters a constant. -/
def declareConstant (api : ApiTables) (o : Outline) (name : String) (value : Tree.Expr) :
    Run Outline :=
  if o.constants.any (·.name == name) then fail (.constantOverride name)
  else if !o.main.isEmpty then fail .lateConstant
  else if !value.isLiteral then failAt value.pos .constantNotLiteral
  else do
    let init ← expr ⟨o.setting api, inferAt (o.setting api) 0⟩ value Context.ofModule
    define Scopes.moduleScope name init.type
    return { o with constants := o.constants ++ [⟨name, init⟩] }

/-! ## Functions and classes -/

/-- What a definition has that cannot be translated. -/
def unsupportedForm? (d : Tree.FunctionDef) : Option String :=
  if !d.decorators.isEmpty then some "decorators"
  else if d.args.vararg.isSome then some "*args"
  else if d.args.kwarg.isSome then some "**kwargs"
  else if !d.args.kwonlyargs.isEmpty || !d.args.kwDefaults.isEmpty then
    some "keyword-only arguments"
  else if !d.args.defaults.isEmpty then some "default arguments"
  else none

def checkDefinition (pos : Pos) (d : Tree.FunctionDef) : Run Unit :=
  match unsupportedForm? d with
  | some what => failAt pos (.definitionForm what d.name)
  | none => return ()

def declareFunction (pos : Pos) (d : Tree.FunctionDef) : Run Unit := do
  checkDefinition pos d
  modify fun s =>
    let (definitions, cells, _) := s.definitions.declareFunction s.cells d
    { s with definitions, cells }

def declareMethod (pos : Pos) (className : String) (d : Tree.FunctionDef) : Run Unit := do
  if (d.args.args.head?.map (·.name)) ≠ some "self" then failAt pos (.selfArgument className)
  else
    checkDefinition pos d
    let s ← get
    if d.name ∈ s.hierarchy.ownMethods className then
      failAt pos (.methodRedefined className d.name)
    else
      match s.hierarchy.declareMethod s.cells className d.name (d.args.args.length - 1) with
      | none => abort (.undeclaredClass className)
      | some (hierarchy, cells, _) =>
        let definitions := s.definitions.declareMethod className d
        set { s with hierarchy, cells, definitions }

def declareMembers (className : String) : List Tree.Stmt → Run Unit
  | [] => return ()
  | ⟨kind, pos⟩ :: rest => do
    match kind with
    | .functionDef d => declareMethod pos className d
    | .pass => pure ()
    | other => failAt pos (.classMember other.describe)
    declareMembers className rest

/-- What the bases of a class make of it. -/
inductive Ancestry where
  | base (name : Option String)
  | exception (base : String)
  deriving DecidableEq, Repr

def ancestry (h : Hierarchy) : List Tree.Expr → Run Ancestry
  | [] => return .base none
  | [base] =>
    match base.kind with
    | .name id =>
      if h.isException id then return .exception id
      else if h.isClass id then return .base (some id)
      else failAt base.pos .inheritance
    | _ => failAt base.pos .inheritance
  | _ :: second :: _ => failAt second.pos .inheritance

/-- Enters a class or a custom exception; the body of an exception is not looked at. -/
def declareClass (pos : Pos) (d : Tree.ClassDef) : Run TopDefinition := do
  if !d.decorators.isEmpty then failAt pos (.classDecorators d.name)
  else
    let h := (← get).hierarchy
    match ← ancestry h d.bases with
    | .exception base =>
      modify fun s => { s with hierarchy := h.declareException d.name base }
      return .exception d.name (if base = Ty.exceptionName then none else some base)
    | .base base =>
      match h.declareClass d.name base with
      | none => abort (.undeclaredClass (base.getD d.name))
      | some hierarchy =>
        modify fun s => { s with hierarchy }
        declareMembers d.name d.body
        return .classDef d.name base pos

/-! ## The pass -/

/-- The name in a single assignment to a name, with its position. -/
def assignedName? : List Tree.Expr → Option (String × Pos)
  | [target] => target.name?.map (·, target.pos)
  | _ => none

def outlineStmt (api : ApiTables) (o : Outline) (s : Tree.Stmt) : Run Outline :=
  match s.kind with
  | .importNames names => located s.pos (declareImport api o names)
  | .importFrom module _ => failAt s.pos (.importFrom module)
  | .functionDef d => do
    declareFunction s.pos d
    return o.addDefinition (.function d.name s.pos)
  | .classDef d => o.addDefinition <$> declareClass s.pos d
  | .assign targets value =>
    match assignedName? targets with
    | none => pure (o.addMain s)
    | some (id, pos) =>
      match nameCase id with
      | .snake => pure (o.addMain s)
      | .mixed => failAt pos (.spelling id)
      | .screaming => located pos (declareConstant api o id value)
  | _ => pure (o.addMain s)

def outlineFrom (api : ApiTables) (o : Outline) : List Tree.Stmt → Run Outline
  | [] => return o
  | s :: rest => do
    let o ← outlineStmt api o s
    outlineFrom api o rest

/-- The outline of a module. -/
def outline (api : ApiTables) (m : Tree.Module) : Run Outline :=
  outlineFrom api Outline.empty m.body

end TreeTyper.Translate
