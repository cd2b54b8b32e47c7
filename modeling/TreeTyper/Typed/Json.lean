import TreeTyper.Ty.Json
import TreeTyper.Typed.Basic

/-!
# The JSON form of the typed tree

Every node is an object with its form under `type`; expressions and statements
have their type under `pseudo_type`.
-/

namespace TreeTyper.Typed

/-- An object of the form `form`. -/
def tagged (form : String) (fields : List (String × Json)) : Json :=
  .object (("type", .str form) :: fields)

/-- A node of the form `form` with the type of its value. -/
def typed (form : String) (type : Ty) (fields : List (String × Json)) : Json :=
  tagged form (("pseudo_type", type.json) :: fields)

def typenameJson (name : String) : Json := typed "typename" (.atom name) [("name", .str name)]

def Binder.json (b : Binder) : Json := typed "local" b.type [("name", .str b.name)]

def Iterators.json : Iterators → Json
  | single b => tagged "for_iterator" [("iterator", b.json)]
  | withIndex i b => tagged "for_iterator_with_index" [("index", i.json), ("iterator", b.json)]
  | withItems k v => tagged "for_iterator_with_items" [("key", k.json), ("value", v.json)]
  | zip bs => tagged "for_iterator_zip" [("iterators", .arr (bs.map Binder.json))]

mutual

def Expr.json : Expr → Json
  | ⟨kind, type⟩ => kind.json type

def ExprKind.json (type : Ty) : ExprKind → Json
  | .int value => typed "int" type [("value", .int value.toInt)]
  | .float bits => typed "float" type [("value", Json.ofFloat bits)]
  | .string value => typed "string" type [("value", .str value)]
  | .boolean value => typed "boolean" type [("value", .bool value)]
  | .null => typed "null" type []
  | .regex value => typed "regex" type [("value", .str value)]
  | .localVar name => typed "local" type [("name", .str name)]
  | .this => typed "this" type []
  | .typename name => typed "typename" type [("name", .str name)]
  | .instanceVar name => typed "instance_variable" type [("name", .str name)]
  | .attr object name => typed "attr" type [("object", object.json), ("attr", .str name)]
  | .index sequence index =>
    typed "index" type [("sequence", sequence.json), ("index", index.json)]
  | .call function args =>
    typed "call" type [("function", function.json), ("args", .arr (exprsJson args))]
  | .methodCall receiver message args =>
    typed "method_call" type [("receiver", receiver.json), ("message", .str message),
      ("args", .arr (exprsJson args))]
  | .thisMethodCall message args =>
    typed "this_method_call" type [("message", .str message), ("args", .arr (exprsJson args))]
  | .standardCall space function args =>
    typed "standard_call" type [("namespace", .str space), ("function", .str function),
      ("args", .arr (exprsJson args))]
  | .standardMethodCall receiver message args =>
    typed "standard_method_call" type [("receiver", receiver.json), ("message", .str message),
      ("args", .arr (exprsJson args))]
  | .newInstance className params =>
    typed "new_instance" type [("class", typenameJson className),
      ("params", .arr (exprsJson params))]
  | .binaryOp op left right =>
    typed "binary_op" type [("op", .str op), ("left", left.json), ("right", right.json)]
  | .unaryOp op value => typed "unary_op" type [("op", .str op), ("value", value.json)]
  | .comparison op left right =>
    typed "comparison" type [("op", .str op), ("left", left.json), ("right", right.json)]
  | .list elements => typed "list" type [("elements", .arr (exprsJson elements))]
  | .set elements => typed "set" type [("elements", .arr (exprsJson elements))]
  | .tuple elements => typed "tuple" type [("elements", .arr (exprsJson elements))]
  | .array elements => typed "array" type [("elements", .arr (exprsJson elements))]
  | .dictionary pairs => typed "dictionary" type [("pairs", .arr (pairsJson pairs))]
  | .iterate sequence iterators none block =>
    typed "standard_iterable_call" type [("function", .str "map"), ("sequences", sequence.json),
      ("iterators", iterators.json), ("block", block.json)]
  | .iterate sequence iterators (some test) block =>
    typed "standard_iterable_call" type [("function", .str "filter_map"),
      ("sequences", sequence.json), ("iterators", iterators.json), ("test", test.json),
      ("block", block.json)]

def exprsJson : List Expr → List Json
  | [] => []
  | e :: es => e.json :: exprsJson es

def Pair.json : Pair → Json
  | ⟨key, value⟩ => tagged "pair" [("key", key.json), ("value", value.json)]

def pairsJson : List Pair → List Json
  | [] => []
  | p :: ps => p.json :: pairsJson ps

def Sequence.json : Sequence → Json
  | .single sequence => tagged "for_sequence" [("sequence", sequence.json)]
  | .withIndex sequence => tagged "for_sequence_with_index" [("sequence", sequence.json)]
  | .withItems sequence => tagged "for_sequence_with_items" [("sequence", sequence.json)]
  | .zip sequences => tagged "for_sequence_zip" [("sequences", .arr (exprsJson sequences))]

end

/-- The fields of an assignment. -/
def assigned (value : Expr) : List (String × Json) :=
  [("value", value.json), ("value_type", value.type.json)]

mutual

def Stmt.json : Stmt → Json
  | .expr e => e.json
  | .localAssignment name value =>
    typed "local_assignment" .void (("local", .str name) :: assigned value)
  | .instanceAssignment name value =>
    typed "instance_assignment" .void (("name", .str name) :: assigned value)
  | .attrAssignment target value =>
    typed "attr_assignment" .void (("attr", target.json) :: assigned value)
  | .indexAssignment sequence index value =>
    typed "index_assignment" .void
      (("sequence", sequence.json) :: ("index", index.json) :: assigned value)
  | .ret isImplicit value =>
    typed (if isImplicit then "implicit_return" else "explicit_return") value.type
      [("value", value.json)]
  | .ifElse test block otherwise =>
    typed "if_statement" .void [("test", test.json), ("block", .arr (stmtsJson block)),
      ("otherwise", otherwise.json)]
  | .whileLoop test block =>
    typed "while_statement" .void [("test", test.json), ("block", .arr (stmtsJson block))]
  | .forEach sequence iterators block =>
    typed "for_statement" .void [("sequences", sequence.json), ("iterators", iterators.json),
      ("block", .arr (stmtsJson block))]
  | .forRange start stop step index block =>
    typed "for_range_statement" .void [("start", start.json), ("end", stop.json),
      ("step", step.json), ("index", (Binder.mk index .int).json),
      ("block", .arr (stmtsJson block))]
  | .tryExcept block handlers =>
    typed "try_statement" .void [("block", .arr (stmtsJson block)),
      ("handlers", .arr (handlersJson handlers))]
  | .throw exception value =>
    typed "throw_statement" .void [("exception", .str exception), ("value", value.json)]
  | .breakLoop => typed "break" .void []
  | .continueLoop => typed "continue" .void []

def Otherwise.json : Otherwise → Json
  | .nothing => .null
  | .elseIf test block otherwise =>
    typed "elseif_statement" .void [("test", test.json), ("block", .arr (stmtsJson block)),
      ("otherwise", otherwise.json)]
  | .block block => typed "else_statement" .void [("block", .arr (stmtsJson block))]

def Handler.json : Handler → Json
  | ⟨exception, instanceName, block⟩ =>
    typed "exception_handler" (.atom exception) [("exception", .str exception),
      ("is_builtin", .bool (exception == Ty.exceptionName)),
      ("instance", Json.ofOption .str instanceName), ("block", .arr (stmtsJson block))]

def handlersJson : List Handler → List Json
  | [] => []
  | h :: hs => h.json :: handlersJson hs

def stmtsJson : List Stmt → List Json
  | [] => []
  | s :: ss => s.json :: stmtsJson ss

end

/-! ## Definitions -/

def Routine.json (r : Routine) : Json :=
  let fields := [("name", .str r.name), ("params", Json.ofStrings r.params),
    ("block", .arr (stmtsJson r.block)), ("return_type", r.returns.json)]
  match r.form with
  | .function => typed "function_definition" r.type fields
  | .method className isPublic =>
    typed "method_definition" r.type
      (("this", typenameJson className) :: ("is_public", .bool isPublic) :: fields)
  | .constructor className =>
    typed "constructor" r.type (("this", typenameJson className) :: fields)

def attributeJson (a : Attribute) : Json :=
  typed "class_attr" a.ty [("name", .str a.name), ("is_public", .bool a.isPublic)]

def ClassDefinition.json (c : ClassDefinition) : Json :=
  tagged "class_definition" [("name", .str c.name), ("base", Json.ofOption .str c.base),
    ("attrs", .arr (c.attributes.map attributeJson)),
    ("methods", .arr (c.methods.map Routine.json)),
    ("constructor", Json.ofOption Routine.json c.constructor)]

def Definition.json : Definition → Json
  | routine r => r.json
  | classDef c => c.json
  | exception name base =>
    tagged "custom_exception" [("name", .str name), ("base", Json.ofOption .str base)]

def Constant.json (c : Constant) : Json :=
  typed "constant" c.init.type [("constant", .str c.name), ("init", c.init.json)]

def Module.json (m : Module) : Json :=
  tagged "module" [("dependencies", Json.ofStrings m.dependencies),
    ("constants", .arr (m.constants.map Constant.json)),
    ("definitions", .arr (m.definitions.map Definition.json)), ("main", .arr (stmtsJson m.main))]

end TreeTyper.Typed
