import TreeTyper.Translate.Stmt

/-!
# Inference of definitions

The first call of a definition translates its body, in a scope of its own right
inside the module scope, with the types of the arguments as the types of the
parameters.  A call from inside that body finds the definition in progress and
can be answered only after a return has fixed its type.  Later calls are checked
against the signature and may fill its holes.

A body that is being translated is in progress, so bodies nest at most as deep as
there are definitions; `inferAt` counts the bodies that may still begin.
-/

namespace TreeTyper.Translate

open Typed

/-- The names of the parameters of a definition; a method's own instance is none of them. -/
def parameterNames (key : DefKey) (definition : Tree.FunctionDef) : List String :=
  let names := definition.args.args.map (·.name)
  match key with
  | .function _ => names
  | .method .. => names.drop 1

/-- The variables of the scope of a body. -/
def bodyBindings (key : DefKey) (names : List String) (params : List Ty) : List (String × Ty) :=
  names.zip params ++
    match key.className? with
    | some className => [("self", .atom className)]
    | none => []

/-- The return type of a body that ended with the return slot `found`. -/
def returnAfter (key : DefKey) (found : Signature) : Ty :=
  match key with
  | .method className _ =>
    if key.isConstructor then .atom className else if found.hasReturn then found.ret else .void
  | .function _ => if found.hasReturn then found.ret else .void

def routineForm : DefKey → RoutineForm
  | .function _ => .function
  | key@(.method className name) =>
    if key.isConstructor then .constructor className
    else .method className (!name.startsWith "_")

/-- Moves an unresolved definition to the phase in progress and gives its syntax. -/
def beginDefinition (key : DefKey) : Run Tree.FunctionDef := do
  let s ← get
  match s.definitions.begin? key with
  | none => abort (.notUnresolved key)
  | some (definition, definitions) =>
    set { s with definitions, progress := s.progress ++ [Progress.began key] }
    return definition

/-- Fixes the return type after the body and keeps the typed routine. -/
def finishDefinition (key : DefKey) (cell : CellId) (names : List String) (block : List Stmt) :
    Run Ty := do
  let found ← signature cell
  let final := { found with ret := returnAfter key found }
  setSignature cell final
  let routine := ⟨routineForm key, key.name, names, block, final.toTy, final.ret⟩
  modify fun s => { s with
    definitions := s.definitions.finish key routine
    progress := s.progress ++ [Progress.finished key] }
  return final.ret

/-- Translates the body of a definition for parameters of the given types. -/
def inferBody (t : Translator) (key : DefKey) (cell : CellId) (params : List Ty) : Run Ty := do
  let definition ← beginDefinition key
  setSignature cell { ← signature cell with params }
  let names := parameterNames key definition
  let block ← inScope Scopes.moduleScope (bodyBindings key names params) fun scope =>
    block t definition.body ((Context.ofBody scope key cell).last true)
  finishDefinition key cell names block

/-- Logs a call with its answer and with the type that it leaves in the cell. -/
def answer (key : DefKey) (cell : CellId) (args : List Ty) (ret : Ty) (phase : Phase) : Run Ty := do
  let type := (← signature cell).toTy
  modify fun s => { s with calls := ⟨key, cell, args, ret, type, phase⟩ :: s.calls }
  return ret

/-- The return type of a call of a definition; `t` infers what the body calls. -/
def inferCall (t : Translator) : Infer := fun key cell args pos => do
  let current ← signature cell
  let h := (← get).hierarchy
  walk (matchParamsEnds h current.params args)
  let params ← located pos (check (matchParams h current.params args key.render))
  match (← get).definitions.phase? key with
  | some .resolved =>
    setSignature cell { current with params }
    answer key cell args current.ret .resolved
  | some .inProgress =>
    if !current.hasReturn then failAt pos (.recursion key.name)
    else
      setSignature cell { current with params }
      answer key cell args current.ret .inProgress
  | some .unresolved =>
    let ret ← inferBody t key cell params
    answer key cell args ret .unresolved
  | none => failAt pos (.notDefined key.render)

/-- Inference while at most `depth` bodies may be inside each other. -/
def inferAt (setting : Setting) : Nat → Infer
  | 0 => fun _ _ _ _ => abort .depth
  | depth + 1 => inferCall ⟨setting, inferAt setting depth⟩

end TreeTyper.Translate
