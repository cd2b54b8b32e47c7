import TreeTyper.Translate.Expr

/-!
# Raised and handled exceptions

An exception is raised by name with one `String` message.  A handler catches one
exception by name, or every exception if it names none; a handler that an earlier
one leaves nothing to catch is refused.
-/

namespace TreeTyper.Translate

open Typed

/-- The statement that raises what an expression makes. -/
def raiseNode (t : Translator) (ctx : Context) (exc : Tree.Expr) : Run Stmt :=
  match exc.kind with
  | .call func args [] =>
    match func.kind with
    | .name id => do
      if !(← get).hierarchy.isException id then failAt func.pos (.notException id)
      else
        match args with
        | [message] =>
          let value ← expr t message ctx
          if value.type.isAtom Ty.stringName then return .throw id value
          else failAt message.pos (.raiseMessage id value.type)
        | args => fail (.raiseArguments id args.length)
    | _ => fail .raisedCallee
  | _ => fail .raiseForm

/-- The exception named by the type of a handler. -/
def handledException (h : Hierarchy) : Option Tree.Expr → Run String
  | none => pure Ty.exceptionName
  | some type =>
    match type.kind with
    | .name id => if h.isException id then pure id else failAt type.pos (.notException id)
    | _ => failAt type.pos .handlerForm

/-- The exception of a handler after handlers of the exceptions `caught`. -/
def nextException (pos : Pos) (type : Option Tree.Expr) (caught : List String) : Run String := do
  let h := (← get).hierarchy
  let exception ← handledException h type
  walk (h.caughtEnds exception caught)
  match caught.find? (h.catches · exception) with
  | some earlier => failAt pos (.alreadyCaught exception earlier)
  | none => return exception

/-- The variables of the scope of a handler. -/
def handlerBindings (exception : String) (name : Option String) : List (String × Ty) :=
  name.toList.map fun n => (n, .atom exception)

end TreeTyper.Translate
