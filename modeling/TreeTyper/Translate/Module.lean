import TreeTyper.Translate.Outline

/-!
# Modules

A module is translated in three steps: its outline; the functions without
parameters, which need no evidence from a call; the main block, whose calls reach
the other definitions.  Then the definitions are put out in source order.  One
that no call reached has no types and fails the module.
-/

namespace TreeTyper.Translate

open Typed

/-- The functions without parameters, in source order. -/
def pureFunctions (s : State) (definitions : List TopDefinition) : List (DefKey × CellId × Pos) :=
  definitions.filterMap fun d =>
    match d with
    | .function name pos =>
      match s.definitions.function? name with
      | some cell =>
        if (s.cells.get cell).params.isEmpty then some (.function name, cell, pos) else none
      | none => none
    | _ => none

/-- Infers those of some functions that are still unresolved, without arguments. -/
def inferPure (t : Translator) : List (DefKey × CellId × Pos) → Run Unit
  | [] => return ()
  | (key, cell, pos) :: rest => do
    if (← get).definitions.phase? key = some .unresolved then
      let _ ← t.infer key cell [] pos
    inferPure t rest

/-! ## Definitions -/

/-- Takes the routine of a definition out. -/
def takeRoutine (pos : Pos) (key : DefKey) : Run Routine := do
  let s ← get
  match s.definitions.takeResolved? key with
  | some (routine, definitions) =>
    set { s with definitions }
    return routine
  | none => failAt pos (.unreached key)

def takeRoutines (pos : Pos) : List DefKey → Run (List Routine)
  | [] => return []
  | key :: rest => do
    let routine ← takeRoutine pos key
    let routines ← takeRoutines pos rest
    return routine :: routines

def isConstructorRoutine (r : Routine) : Bool :=
  match r.form with
  | .constructor _ => true
  | _ => false

/-- The definition of a class from its routines, in the order of its methods. -/
def classOf (h : Hierarchy) (name : String) (base : Option String) (routines : List Routine) :
    ClassDefinition :=
  ⟨name, base, h.ownAttributes name, routines.filter (!isConstructorRoutine ·),
    (routines.filter isConstructorRoutine).getLast?⟩

def collectDefinition : TopDefinition → Run Definition
  | .function name pos => .routine <$> takeRoutine pos (.function name)
  | .exception name base => return .exception name base
  | .classDef name base pos => do
    let h := (← get).hierarchy
    let routines ← takeRoutines pos ((h.ownMethods name).map (.method name ·))
    return .classDef (classOf h name base routines)

def collectDefinitions : List TopDefinition → Run (List Definition)
  | [] => return []
  | d :: ds => do
    let definition ← collectDefinition d
    let definitions ← collectDefinitions ds
    return definition :: definitions

/-! ## The module -/

/-- The translator of a module with the given outline and number of definitions. -/
def translatorOf (api : ApiTables) (o : Outline) (count : Nat) : Translator :=
  ⟨o.setting api, inferAt (o.setting api) (count + 1)⟩

/-- The outline of a module and its main block, which is translated after the functions that
need no evidence. -/
def mainBlock (api : ApiTables) (m : Tree.Module) : Run (Outline × List Typed.Stmt) := do
  let o ← outline api m
  let s ← get
  let t := translatorOf api o s.definitions.size
  inferPure t (pureFunctions s o.definitions)
  let main ← block t o.main Context.ofModule
  return (o, main)

/-- The run that translates a module. -/
def typedModule (api : ApiTables) (m : Tree.Module) : Run Typed.Module := do
  let (o, main) ← mainBlock api m
  let definitions ← collectDefinitions o.definitions
  return ⟨(← get).dependencies, o.constants, definitions, main⟩

/-- The failure that a stop reports, with the line of the source if there is a source; a fault
reports none. -/
def Stop.failure? (source : Option String) : Stop → Option Failure
  | failure cause location =>
    let f := { cause.failure with location }
    match source with
    | some text => some (f.withSource text)
    | none => some f
  | fault _ => none

end TreeTyper.Translate

namespace TreeTyper

/-- The typed form of a module, or why there is none. -/
def translate (api : ApiTables) (m : Tree.Module) : Except Translate.Stop Typed.Module :=
  ((Translate.typedModule api m).run Translate.State.empty).1

end TreeTyper
