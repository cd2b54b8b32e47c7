import TreeTyper.Signature
import TreeTyper.Table

/-!
# Classes and exceptions

A class has at most one base, declared before it.  It starts with the method
table of its base, whose entries keep their signature cells: an override with
the same number of parameters keeps the inherited cell, so that a signature
filled in through one class of a chain is seen through all of them.
Constructors and overrides with other parameters have cells of their own.

An attribute belongs to the class through which it was first assigned and is
seen by the classes below it.

Walks along the bases visit at most as many classes as are declared, which is
every class of a chain that does not return to itself.  A class that is declared
again below itself has such a chain, and a walk that does not find what it looks
for would go around in it: what ends in `Ends` says of a question whether the walks
that answer it end.
-/

namespace TreeTyper

/-- A method as one class sees it. -/
structure MethodEntry where
  cell : CellId
  /-- The class whose body implements the method. -/
  definedIn : String
  deriving DecidableEq, Repr, Inhabited

structure Attribute where
  name : String
  ty : Ty
  isPublic : Bool
  deriving DecidableEq, Repr, Inhabited

structure ClassInfo where
  base : Option String
  subclasses : List String
  methods : Table String MethodEntry
  /-- The methods written in the class, in declaration order. -/
  ownMethods : List String
  /-- The attributes first assigned through the class, in that order. -/
  attributes : List Attribute
  deriving DecidableEq, Repr, Inhabited

/-- The classes and custom exceptions of a module. -/
structure Hierarchy where
  classes : Table String ClassInfo
  /-- The custom base of a custom exception; none below `Exception` itself. -/
  exceptions : Table String (Option String)
  deriving DecidableEq, Repr

namespace Hierarchy

def constructorName : String := "__init__"

def empty : Hierarchy := ⟨Table.empty, Table.empty⟩

instance : Inhabited Hierarchy := ⟨empty⟩

/-! ## Classes -/

def isClass (h : Hierarchy) (name : String) : Bool := h.classes.contains name

/-- Declares a class; fails if its base is not declared. -/
def declareClass (h : Hierarchy) (name : String) (base : Option String) : Option Hierarchy :=
  match base with
  | none => some { h with classes := h.classes.insert name ⟨none, [], Table.empty, [], []⟩ }
  | some b => do
    let info ← h.classes.find? b
    let extended := { info with subclasses := info.subclasses ++ [name] }
    some { h with classes :=
      (h.classes.insert b extended).insert name ⟨some b, [], info.methods, [], []⟩ }

/-- Declares a method written in a class and gives the number of its signature cell; fails if the
class is not declared. -/
def declareMethod (h : Hierarchy) (cells : Cells) (className method : String) (arity : Nat) :
    Option (Hierarchy × Cells × CellId) := do
  let info ← h.classes.find? className
  let inherited := (info.methods.find? method).filter fun entry =>
    method ≠ constructorName && (cells.get entry.cell).params.length = arity
  let (cells, cell) := match inherited with
    | some entry => (cells, entry.cell)
    | none => cells.alloc (Signature.placeholder arity)
  let declared := { info with
    methods := info.methods.insert method ⟨cell, className⟩
    ownMethods := info.ownMethods ++ [method] }
  some ({ h with classes := h.classes.insert className declared }, cells, cell)

def method? (h : Hierarchy) (className method : String) : Option MethodEntry :=
  (h.classes.find? className).bind (·.methods.find? method)

/-- The methods a class sees, in the order of their names. -/
def methods (h : Hierarchy) (className : String) : List (String × MethodEntry) :=
  ((h.classes.find? className).map (·.methods.entries)).getD []

def ownMethods (h : Hierarchy) (className : String) : List String :=
  ((h.classes.find? className).map (·.ownMethods)).getD []

def base? (h : Hierarchy) (className : String) : Option String :=
  (h.classes.find? className).bind (·.base)

def subclasses (h : Hierarchy) (className : String) : List String :=
  ((h.classes.find? className).map (·.subclasses)).getD []

/-! ## Ancestry -/

/-- A name and its ancestors along `next`, at most `steps` of them. -/
def chain (next : String → Option String) (steps : Nat) (name : String) : List String :=
  name :: match steps with
    | 0 => []
    | steps + 1 =>
      match next name with
      | some up => chain next steps up
      | none => []

/-- Whether the walk from a name along `next` ends within some steps. -/
def chainEnds (next : String → Option String) (steps : Nat) (name : String) : Bool :=
  match next name, steps with
  | none, _ => true
  | some _, 0 => false
  | some up, steps + 1 => chainEnds next steps up

/-- A class and its ancestors, the nearest first. -/
def ancestors (h : Hierarchy) (className : String) : List String :=
  chain h.base? h.classes.size className

def ancestorsEnd (h : Hierarchy) (className : String) : Bool :=
  chainEnds h.base? h.classes.size className

/-- Whether `sub` is `super` or inherits from it. -/
def isSubclass (h : Hierarchy) (sub super : String) : Bool := super ∈ h.ancestors sub

def isSubclassEnds (h : Hierarchy) (sub super : String) : Bool :=
  h.isSubclass sub super || h.ancestorsEnd sub

/-- The nearest declared class from which both classes inherit. -/
def commonAncestor (h : Hierarchy) (a b : String) : Option String :=
  ((h.ancestors a).find? fun c => h.isSubclass b c).filter h.isClass

/-- Every ancestor of `a` is looked for among those of `b`, until one is there. -/
def commonAncestorEnds (h : Hierarchy) (a b : String) : Bool :=
  if h.ancestorsEnd b then (h.ancestors a).any (h.isSubclass b ·) || h.ancestorsEnd a
  else h.isSubclass b a

/-! ## Attributes -/

def ownAttributes (h : Hierarchy) (className : String) : List Attribute :=
  ((h.classes.find? className).map (·.attributes)).getD []

/-- The attribute a class sees, with the class that owns it. -/
def attribute? (h : Hierarchy) (className name : String) : Option (String × Attribute) :=
  (h.ancestors className).findSome? fun owner =>
    ((h.ownAttributes owner).find? (·.name == name)).map (owner, ·)

def attributeEnds (h : Hierarchy) (className name : String) : Bool :=
  (h.attribute? className name).isSome || h.ancestorsEnd className

def registerAttribute (h : Hierarchy) (className : String) (entry : Attribute) : Hierarchy :=
  { h with classes := h.classes.modify className fun info =>
      { info with attributes := info.attributes ++ [entry] } }

/-- Changes the first entry of a name. -/
def updateIn (name : String) (ty : Ty) (makePublic : Bool) : List Attribute → List Attribute
  | [] => []
  | a :: rest =>
    if a.name = name then { a with ty, isPublic := a.isPublic || makePublic } :: rest
    else a :: updateIn name ty makePublic rest

/-- Gives the attribute of an owner a type, and makes it public if asked to. -/
def updateAttribute (h : Hierarchy) (owner name : String) (ty : Ty) (makePublic : Bool) :
    Hierarchy :=
  { h with classes := h.classes.modify owner fun info =>
      { info with attributes := updateIn name ty makePublic info.attributes } }

/-! ## Exceptions -/

def declareException (h : Hierarchy) (name base : String) : Hierarchy :=
  let customBase := if base = Ty.exceptionName then none else some base
  { h with exceptions := h.exceptions.insert name customBase }

def isCustomException (h : Hierarchy) (name : String) : Bool := h.exceptions.contains name

def isException (h : Hierarchy) (name : String) : Bool :=
  name == Ty.exceptionName || h.isCustomException name

/-- Whether a handler of one exception catches another that is raised: `Exception` catches every
exception, a custom exception itself and those derived from it. -/
def catches (h : Hierarchy) (handler raised : String) : Bool :=
  handler == Ty.exceptionName ||
    handler ∈ chain (fun name => (h.exceptions.find? name).join) h.exceptions.size raised

def catchesEnds (h : Hierarchy) (handler raised : String) : Bool :=
  h.catches handler raised ||
    chainEnds (fun name => (h.exceptions.find? name).join) h.exceptions.size raised

/-- Whether an exception is looked for among those that some handlers catch to the end. -/
def caughtEnds (h : Hierarchy) (raised : String) : List String → Bool
  | [] => true
  | handler :: rest =>
    h.catchesEnds handler raised && (h.catches handler raised || h.caughtEnds raised rest)

end Hierarchy

end TreeTyper
