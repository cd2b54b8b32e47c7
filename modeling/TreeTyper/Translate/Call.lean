import TreeTyper.Translate.Standard

/-!
# Calls

A called name is, in this order, a function of the global namespace, a variable
of a function type, a defined function or a class; a called attribute is a
function of an imported namespace, a method of the own instance, a method of a
class or a standard method of a builtin type.  Any other callee has to be a value
of a function type without holes.

Making an instance infers the constructor with the arguments of the call and
every method without parameters, which needs no evidence.
-/

namespace TreeTyper.Translate

open Typed

/-- How an expression is called: its form, with the parts still to be translated. -/
inductive Callee where
  | name (id : String)
  | attr (receiver : Deferred) (name : String)
  | value (callee : Deferred)

/-- Names that only make sense at the head of a construct, with the construct. -/
def constructNames : List (String × String) :=
  [("range", "a for loop"), ("enumerate", "a for loop"), ("zip", "a for loop"),
    ("open", "a with statement")]

/-! ## Names and values -/

/-- A name used as a value. -/
def nameNode (t : Translator) (ctx : Context) (id : String) : Run Expr := do
  match ← lookup ctx.scope id with
  | some ty =>
    if id = "self" ∧ ctx.className?.isSome then return ⟨.this, ty⟩ else return .localVar id ty
  | none =>
    let s ← get
    match s.definitions.function? id with
    | some cell => return .localVar id (s.cells.get cell).toTy
    | none =>
      if s.hierarchy.isClass id || s.hierarchy.isException id then return .typename id
      else if id ∈ t.setting.imports then fail (.moduleAsValue id)
      else fail (.notDefined id)

/-- The call of a value of a function type. -/
def callValue (ctx : Context) (callee : Expr) (args : List Deferred) : Run Expr := do
  match callee.type with
  | .function params ret =>
    if ret.hasHoles || params.any Ty.hasHoles then fail (.unresolvedCall callee.type)
    else
      let nodes ← runAll ctx args
      let h := (← get).hierarchy
      walk (matchParamsEnds h params (types nodes))
      let _ ← check (matchParams h params (types nodes) callee.type.render)
      return ⟨.call callee nodes, ret⟩
  | ty => fail (.notCallable ty)

/-! ## Definitions -/

/-- The definition that implements a method of a class, with its signature cell. -/
def methodOf (t : Translator) (className method : String) : Run (DefKey × CellId) := do
  let h := (← get).hierarchy
  match h.method? className method with
  | some entry => return (.method entry.definedIn method, entry.cell)
  | none => fail (unknownAttribute t.setting.api h (.atom className) method)

/-- The methods of a class that need no evidence: all without parameters but the constructor. -/
def pureMethods (s : State) (className : String) : List (DefKey × CellId) :=
  ((s.hierarchy.methods className).filter fun (name, entry) =>
    name ≠ Hierarchy.constructorName && (s.cells.get entry.cell).params.isEmpty).map
    fun (name, entry) => (.method entry.definedIn name, entry.cell)

/-- Infers those definitions that are still unresolved, without arguments. -/
def inferUnresolved (t : Translator) (pos : Pos) : List (DefKey × CellId) → Run Unit
  | [] => return ()
  | (key, cell) :: rest => do
    if (← get).definitions.phase? key = some .unresolved then
      let _ ← t.infer key cell [] pos
    inferUnresolved t pos rest

/-- The instance of a class made with the given arguments. -/
def newInstance (t : Translator) (ctx : Context) (pos : Pos) (className : String)
    (args : List Deferred) : Run Expr := do
  let nodes ← runAll ctx args
  match (← get).hierarchy.method? className Hierarchy.constructorName with
  | some entry =>
    let key := .method entry.definedIn Hierarchy.constructorName
    let _ ← t.infer key entry.cell (types nodes) pos
  | none =>
    if !nodes.isEmpty then fail (.constructorArguments className nodes.length)
  inferUnresolved t pos (pureMethods (← get) className)
  return ⟨.newInstance className nodes, .atom className⟩

/-! ## Called names and attributes -/

def callName (t : Translator) (ctx : Context) (pos : Pos) (id : String) (args : List Deferred) :
    Run Expr := do
  match t.setting.api.function? ApiTables.globalSpace id with
  | some entry =>
    let nodes ← runAll ctx args
    let expansion ← check (select entry id nodes.length)
    expand t.setting.api ctx expansion id nodes
  | none =>
    if (← lookup ctx.scope id).isSome then
      let callee ← nameNode t ctx id
      callValue ctx callee args
    else
      let s ← get
      match s.definitions.function? id with
      | some cell =>
        let nodes ← runAll ctx args
        let ret ← t.infer (.function id) cell (types nodes) pos
        let function := Expr.localVar id (← signature cell).toTy
        return ⟨.call function nodes, ret⟩
      | none =>
        if s.hierarchy.isClass id then newInstance t ctx pos id args
        else if s.hierarchy.isException id then fail (.exceptionCall id)
        else
          match constructNames.find? (·.1 == id) with
          | some (_, construct) => fail (.constructOnly id construct)
          | none => fail (.notDefined id)

/-- The call of a library function. -/
def libraryCall (t : Translator) (ctx : Context) (space function : String)
    (args : List Deferred) : Run Expr := do
  let api := t.setting.api
  if space ∉ t.setting.imports then fail (.notImported space function)
  else
    match api.function? space function with
    | none => fail (.unknownFunction space function (api.describe api.functions space))
    | some entry =>
      useDependency space
      let nodes ← runAll ctx args
      let name := s!"{space}.{function}"
      let expansion ← check (select entry name nodes.length)
      expand api ctx expansion name nodes

/-- The call of a method of the own instance. -/
def thisMethodCall (t : Translator) (ctx : Context) (pos : Pos) (className message : String)
    (args : List Deferred) : Run Expr := do
  let (key, cell) ← methodOf t className message
  let nodes ← runAll ctx args
  let ret ← t.infer key cell (types nodes) pos
  return ⟨.thisMethodCall message nodes, ret⟩

/-- The call of a method of a value. -/
def methodCall (t : Translator) (ctx : Context) (pos : Pos) (receiver : Expr) (message : String)
    (args : List Deferred) : Run Expr := do
  let api := t.setting.api
  let owner := receiver.type.head
  let h := (← get).hierarchy
  if h.isClass owner then
    let (key, cell) ← methodOf t owner message
    let nodes ← runAll ctx args
    let ret ← t.infer key cell (types nodes) pos
    return ⟨.methodCall receiver message nodes, ret⟩
  else
    match api.method? owner message with
    | none => fail (unknownAttribute api h receiver.type message)
    | some entry =>
      let nodes ← runAll ctx args
      let name := s!"{owner}#{message}"
      let expansion ← check (select entry name nodes.length)
      expand api ctx expansion name (receiver :: nodes)

def callAttribute (t : Translator) (ctx : Context) (pos : Pos) (receiver : Deferred)
    (message : String) (args : List Deferred) : Run Expr := do
  let onValue : Run Expr := do
    let node ← receiver.run ctx
    methodCall t ctx pos node message args
  match receiver.source.name? with
  | none => onValue
  | some id =>
    if (← lookup ctx.scope id).isNone && t.setting.api.isLibrary id then
      libraryCall t ctx id message args
    else
      match ctx.className? with
      | some className =>
        if id = "self" then thisMethodCall t ctx pos className message args else onValue
      | none => onValue

/-- A call with the given callee and arguments. -/
def callNode (t : Translator) (ctx : Context) (pos : Pos) (callee : Callee)
    (args : List Deferred) (keywords : List Tree.Keyword) : Run Expr :=
  match keywords with
  | keyword :: _ => failAt keyword.value.pos .keywordArguments
  | [] =>
    match args.find? fun d => match d.source.kind with
        | .starred _ => true
        | _ => false with
    | some starred => failAt starred.source.pos .starredArguments
    | none =>
      match callee with
      | .name id => callName t ctx pos id args
      | .attr receiver name => callAttribute t ctx pos receiver name args
      | .value callee => do
        let node ← callee.run ctx
        callValue ctx node args

end TreeTyper.Translate
