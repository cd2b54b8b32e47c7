import TreeTyper.Definition
import TreeTyper.Failure.Basic
import TreeTyper.Ty.Render

/-!
# Causes of failures

Every way in which a module can fail to be typed is a cause with its data; `failure`
gives each its kind, its wording and its hints.  A cause knows no position.
-/

namespace TreeTyper

/-- The members that are known on a value whose member is unknown. -/
inductive KnownMembers where
  | nothing
  /-- The described standard methods of a head. -/
  | standard (head methods : String)
  /-- The names of the methods of a class. -/
  | ofClass (name : String) (methods : List String)
  deriving DecidableEq, Repr

inductive Cause where
  -- the top level
  | importFrom (module : String)
  | lateImport
  | importAlias (module newName : String)
  | unknownModule (module : String) (supported : List String)
  | spelling (name : String)
  | constantOverride (name : String)
  | lateConstant
  | constantNotLiteral
  | classDecorators (className : String)
  | inheritance
  | selfArgument (className : String)
  | methodRedefined (className name : String)
  | classMember (what : String)
  | definitionForm (what name : String)
  -- definitions
  | notDefined (name : String)
  | recursion (name : String)
  | unreached (key : DefKey)
  -- arguments
  | argumentCount (name : String) (expected : List Nat) (given : Nat)
  | incompatible (what : String) (source target : Ty)
  | unexpectedArgument (name : String) (param arg : Ty)
  | keywordArguments
  | starredArguments
  -- calls
  | exceptionCall (name : String)
  | constructOnly (name construct : String)
  | notImported (space function : String)
  | unknownFunction (space function known : String)
  | constructorArguments (className : String) (given : Nat)
  | notCallable (ty : Ty)
  | unresolvedCall (ty : Ty)
  | notSized (name : String) (ty : Ty)
  | receiver (owner message : String) (ty : Ty)
  | pattern (ty : Ty)
  | arity (name : String) (given : Nat)
  | missingSignature (owner name : String)
  -- names, attributes and operators
  | unsupported (what : String)
  | emptyOperation (symbol : String)
  | moduleAsValue (module : String)
  | moduleAttribute (module attr : String)
  | unknownAttribute (ty : Ty) (attr : String) (known : KnownMembers)
  | unsupportedOperator (symbol : String)
  | operandTypes (symbol : String) (left right : Ty)
  | noOperator (owner symbol : String)
  | negated (ty : Ty)
  | unaryPlus (ty : Ty)
  | unsupportedComparison (symbol : String)
  | emptyComparison
  | notComparable (left right : Ty)
  | notTestable (ty : Ty)
  -- containers and subscripts
  | mixedElements (container : String) (ty : Ty)
  | mixedKeys (ty : Ty)
  | mixedValues (ty : Ty)
  | sliceStep
  | notSliceable (ty : Ty)
  | wholeSlice
  | nonIntIndex (sequence index : Ty)
  | keyIndex (key sequence index : Ty)
  | tupleIndexForm (sequence : Ty)
  | tupleIndexRange (sequence : Ty) (size : Nat)
  | notIndexable (ty : Ty)
  -- assignments
  | chainedAssignment
  | variableType (name owner : String) (old new : Ty)
  | attributeOwner (attr : String) (ty : Ty)
  | attributeType (className attr : String) (old new : Ty)
  | sliceAssignment
  | unpacking
  | assignmentTarget (what : String)
  | storedValue (value sequence : Ty)
  | storeIndex (sequence index : Ty)
  | storeKey (key sequence : Ty)
  | immutableString
  | immutable (ty : Ty)
  | notStorable (ty : Ty)
  -- statements
  | whileElse
  | forElse
  | tryElse
  | raiseFrom
  | bareRaise
  | outsideLoop (what : String)
  | nestedDefinition (what : String)
  | returnOutside
  | constructorReturn (name : String)
  | returnType (current : Ty) (name : String) (found : Ty)
  | notException (name : String)
  | handlerForm
  | alreadyCaught (exception earlier : String)
  | raisedCallee
  | raiseForm
  | raiseArguments (name : String) (given : Nat)
  | raiseMessage (name : String) (ty : Ty)
  | fileBlock
  -- loops
  | notIterable (ty : Ty)
  | comprehensionFors
  | comprehensionIfs
  | comprehensionRange
  | shadowing (name owner : String)
  | rangeTarget
  | rangeArguments (given : Nat)
  | rangeBound (role : String) (ty : Ty)
  | enumerateTarget
  | enumerateArguments (given : Nat)
  | zipArguments (given : Nat)
  | zipTarget (sequences : Nat)
  | itemsTarget
  | severalVariables
  deriving DecidableEq, Repr

namespace Cause

open Failure

def unwords (words : List String) : String := String.intercalate " " words

/-- The types whose values can be compared. -/
def comparableNames : List String := [Ty.intName, Ty.floatName, Ty.stringName]

/-- The forms in which a file can be read or written. -/
def fileBlockForms : String :=
  "with open(path, 'r') as f:\n    text = f.read()\n\n" ++
  "with open(path, 'w') as f:\n    f.write(text)"

def recursionRight : String :=
  "def countdown(n):\n    if n == 0:\n        return 0\n    else:\n" ++
  "        return countdown(n - 1)"

def recursionWrong : String :=
  "def countdown(n):\n    if n > 0:\n        return countdown(n - 1)\n    .."

/-- The suggestion that goes with an unknown member. -/
def suggestMembers (f : Failure) : KnownMembers → Failure
  | .nothing => f
  | .standard head methods =>
    f.withSuggestion ("known " ++ head ++ " methods:\n" ++ methods)
  | .ofClass name methods =>
    f.withSuggestion (name ++ " has the methods: " ++ unwords methods)

/-- The failure of a cause. -/
def failure : Cause → Failure
  | importFrom module =>
    (notTranslatable s!"from {module} import .. is not supported").withSuggestion
      ("use `import " ++ module ++ "` and call `" ++ module ++ ".name(..)`")
  | lateImport => notTranslatable "imports can be only on top"
  | importAlias module newName =>
    (notTranslatable s!"import {module} as {newName} is not supported").withSuggestion
      ("use `import " ++ module ++ "`")
  | unknownModule module supported =>
    (notTranslatable s!"module {module} is not supported").withSuggestion
      ("supported modules: " ++ unwords supported)
  | spelling name =>
    (typeCheck (name ++ " is neither snake_case nor SCREAMING_SNAKE_CASE: use snake_case for " ++
      "variables and SCREAMING_SNAKE_CASE for constants")).withSuggestion
      "example:\ns = 2 # local\nK = 2 # constant"
  | constantOverride name =>
    (typeCheck "you can't override a constant").withExample
      s!"{name} = .." s!"{name} = ..\n{name} = .."
  | lateConstant =>
    (notTranslatable "constants must be initialized before all other top level code").withExample
      "K = 2\ndef .." "def ..\nK = 2"
  | constantNotLiteral =>
    (notTranslatable "You can initialize constants only with literals").withExample
      "K = [2, 4]" "K = [2, x]"
  | classDecorators className =>
    notTranslatable s!"decorators on class {className} are not supported"
  | inheritance =>
    notTranslatable "only single inheritance from an already defined class is supported"
  | selfArgument className =>
    (notTranslatable
      s!"only methods with a self argument are supported (class {className})").withSuggestion
      "example: def method_name(self, x):"
  | methodRedefined className name =>
    (typeCheck s!"{className}#{name} is already defined").withSuggestion
      "rename one of the methods"
  | classMember what => notTranslatable s!"only methods are supported in classes, not {what}"
  | definitionForm what name => notTranslatable s!"{what} in {name} are not supported"
  | notDefined name => typeCheck s!"{name} is not defined"
  | recursion name =>
    ((typeCheck s!"please move recursion in a next branch in {name}").withSuggestion
      ("a recursive call can be inferred only after a branch that returns without " ++
        "recursing")).withExample recursionRight recursionWrong
  | unreached key =>
    (typeCheck s!"cannot infer the types of {key.render}").withSuggestion
      "types are inferred from calls: call it at least once"
  | argumentCount name expected given =>
    let counts := String.intercalate " or " (expected.map toString)
    typeCheck s!"{name} expects {counts} args, not {given}"
  | incompatible what source target =>
    (typeCheck s!"{what} from {source.render} to {target.render}").withWrongType source
  | unexpectedArgument name param arg =>
    (typeCheck s!"{name} expected {param.render} not {arg.render}").withWrongType arg
  | keywordArguments => notTranslatable "keyword arguments are not supported"
  | starredArguments => notTranslatable "*args in calls are not supported"
  | exceptionCall name =>
    (notTranslatable s!"exception {name} can be created only in a raise statement").withExample
      s!"raise {name}(\"message\")" s!"e = {name}(\"message\")"
  | constructOnly name construct => notTranslatable s!"{name} can be used only in {construct}"
  | notImported space function =>
    (typeCheck s!"module {space} not imported: impossible to use {space}.{function}").withSuggestion
      ("add `import " ++ space ++ "` at the top of the file")
  | unknownFunction space function known =>
    (typeCheck s!"{space}.{function} is not supported").withSuggestion
      s!"supported functions of {space}:\n{known}"
  | constructorArguments className given =>
    typeCheck s!"constructor of {className} didn't expect {given} arguments"
  | notCallable ty =>
    (typeCheck s!"only Function[..] type is callable, not {ty.render}").withWrongType ty
  | unresolvedCall ty => typeCheck s!"can't infer the type of a call to {ty.render}"
  | notSized name ty =>
    (typeCheck (name ++ " expects a String, List, Dictionary, Set, Array or Tuple, not " ++
      ty.render)).withWrongType ty
  | receiver owner message ty =>
    (typeCheck s!"{owner}#{message} expects a {owner} receiver, not {ty.render}").withWrongType ty
  | pattern ty =>
    (typeCheck s!"a regular expression pattern must be a String, not {ty.render}").withWrongType ty
  | arity name given => typeCheck s!"{name} can't be called with {given} args"
  | missingSignature owner name =>
    typeCheck s!"{owner}:{name} has no signature in the api tables"
  | unsupported what => notTranslatable s!"{what} is not supported"
  | emptyOperation symbol => notTranslatable s!"an empty {symbol}"
  | moduleAsValue module =>
    (typeCheck s!"module {module} can be used only to call its functions").withSuggestion
      s!"{module}.function(..)"
  | moduleAttribute module attr => notTranslatable s!"{module}.{attr} can be used only as a call"
  | unknownAttribute ty attr known =>
    suggestMembers (typeCheck s!"can't infer the type of {ty.render}#{attr}") known
  | unsupportedOperator symbol => notTranslatable s!"operator {symbol} is not supported"
  | operandTypes symbol left right =>
    (typeCheck
      s!"unsupported operand types for {symbol}: {left.render} and {right.render}").withWrongType
      right
  | noOperator owner symbol => typeCheck s!"{owner} doesn't support {symbol}"
  | negated ty => (typeCheck s!"unary - expects a number, not {ty.render}").withWrongType ty
  | unaryPlus ty => typeCheck s!"unary + expects a number, not {ty.render}"
  | unsupportedComparison symbol =>
    notTranslatable s!"comparison operator {symbol} is not supported"
  | emptyComparison => notTranslatable "empty comparison"
  | notComparable left right =>
    ((typeCheck s!"{left.render} not comparable with {right.render}").withSuggestion
      ("comparable types: " ++ unwords comparableNames)).withWrongType right
  | notTestable ty =>
    (typeCheck s!"expected a Boolean or RegexpMatch test, not {ty.render}").withWrongType ty
  | mixedElements container ty =>
    (typeCheck s!"can't use different types in a {container}").withWrongType ty
  | mixedKeys ty =>
    (typeCheck "can't use different types for keys of a dictionary").withWrongType ty
  | mixedValues ty =>
    (typeCheck "can't use different types for values of a dictionary").withWrongType ty
  | sliceStep => notTranslatable "slice steps are not supported"
  | notSliceable ty =>
    (typeCheck s!"only String and List can be sliced, not {ty.render}").withWrongType ty
  | wholeSlice => notTranslatable "a[:] is not supported"
  | nonIntIndex sequence index =>
    (typeCheck s!"a non Int index for {sequence.render}: {index.render}").withWrongType index
  | keyIndex key sequence index =>
    (typeCheck
      s!"a non {key.render} index for {sequence.render}: {index.render}").withWrongType index
  | tupleIndexForm sequence =>
    (typeCheck s!"only literal Int indices are supported for {sequence.render}").withSuggestion
      "the element type of a heterogeneous tuple depends on the index"
  | tupleIndexRange sequence size => typeCheck s!"{sequence.render} has only {size} elements"
  | notIndexable ty =>
    (typeCheck ("[] can be used only on String, List, Array, Dictionary or Tuple, not " ++
      ty.render)).withWrongType ty
  | chainedAssignment =>
    (notTranslatable "chained assignment is not supported").withExample "a = 0\nb = 0" "a = b = 0"
  | variableType name owner old new =>
    (typeCheck (s!"can't change the type of variable {name} in {owner} from " ++
      s!"{old.render} to {new.render}")).withWrongType new
  | attributeOwner attr ty => typeCheck s!"can't assign the attribute {attr} of {ty.render}"
  | attributeType className attr old new =>
    (typeCheck (s!"can't change the type of {className}#{attr} from " ++
      s!"{old.render} to {new.render}")).withWrongType new
  | sliceAssignment => notTranslatable "slice assignment is not supported"
  | unpacking =>
    (notTranslatable "unpacking assignment is not supported").withExample
      "a = t[0]\nb = t[1]" "a, b = t"
  | assignmentTarget what => notTranslatable s!"assignment to a {what} is not supported"
  | storedValue value sequence =>
    (typeCheck s!"can't store a value of type {value.render} in {sequence.render}").withWrongType
      value
  | storeIndex sequence index =>
    (typeCheck s!"a non Int index for {sequence.render}").withWrongType index
  | storeKey key sequence =>
    (typeCheck s!"can't use a {key.render} key for {sequence.render}").withWrongType key
  | immutableString =>
    (typeCheck "String is immutable").withSuggestion "build a new String instead"
  | immutable ty => typeCheck s!"{ty.render} is immutable"
  | notStorable ty => (typeCheck s!"[]= can't be used on {ty.render}").withWrongType ty
  | whileElse => notTranslatable "while .. else is not supported"
  | forElse => notTranslatable "for .. else is not supported"
  | tryElse => notTranslatable "try .. else and try .. finally are not supported"
  | raiseFrom => notTranslatable "raise .. from is not supported"
  | bareRaise => notTranslatable "a bare raise is not supported"
  | outsideLoop what => notTranslatable s!"{what} outside of a loop"
  | nestedDefinition what =>
    (notTranslatable s!"a nested {what} is not supported").withSuggestion
      "move the definition to the top level"
  | returnOutside => notTranslatable "return outside of a function"
  | constructorReturn name => typeCheck s!"{name} is a constructor and can't return a value"
  | returnType current name found =>
    (typeCheck s!"expected {current.render} return type for {name}").withWrongType found
  | notException name =>
    (typeCheck s!"{name} is not an exception").withSuggestion
      "declare it with `class Name(Exception): pass`"
  | handlerForm => notTranslatable "a handler catches exactly one named exception"
  | alreadyCaught exception earlier =>
    typeCheck s!"{exception} is already caught by the {earlier} handler"
  | raisedCallee => notTranslatable "only `raise Name(message)` is supported"
  | raiseForm =>
    (notTranslatable "only `raise Name(message)` is supported").withExample
      "raise ValueError(\"bad input\")" "raise ValueError"
  | raiseArguments name given => typeCheck s!"{name} expects one String message, not {given} args"
  | raiseMessage name ty =>
    (typeCheck s!"{name} expects a String message, not {ty.render}").withWrongType ty
  | fileBlock =>
    (notTranslatable "only reading or writing a whole file is supported in with").withSuggestion
      fileBlockForms
  | notIterable ty => (typeCheck s!"expected an iterable type, not {ty.render}").withWrongType ty
  | comprehensionFors =>
    notTranslatable "only one for clause is supported in a list comprehension"
  | comprehensionIfs => notTranslatable "only one if clause is supported in a list comprehension"
  | comprehensionRange =>
    (notTranslatable "range is not supported in a list comprehension").withSuggestion
      "use a for loop"
  | shadowing name owner =>
    (typeCheck s!"the loop variable {name} shadows a variable of {owner}").withSuggestion
      "rename the loop variable"
  | rangeTarget =>
    (notTranslatable "range binds a single loop variable").withExample
      "for i in range(n):" "for i, j in range(n):"
  | rangeArguments given => typeCheck s!"range expects 1 to 3 args, not {given}"
  | rangeBound role ty => (typeCheck s!"expected Int for range {role}").withWrongType ty
  | enumerateTarget =>
    (notTranslatable "enumerate binds an index and a value").withExample
      "for i, x in enumerate(xs):" "for p in enumerate(xs):"
  | enumerateArguments given => typeCheck s!"enumerate expects 1 arg, not {given}"
  | zipArguments given => typeCheck s!"zip expects at least 2 args, not {given}"
  | zipTarget sequences =>
    typeCheck s!"zip of {sequences} sequences binds {sequences} loop variables"
  | itemsTarget =>
    (notTranslatable ".items() binds a key and a value").withExample
      "for k, v in d.items():" "for kv in d.items():"
  | severalVariables => notTranslatable "several loop variables need enumerate, zip or .items()"

end Cause

end TreeTyper
