import TreeTyper.Table
import TreeTyper.Ty.Basic

/-!
# Scopes

Scopes are numbered in the order in which they are opened; number 0 is the
module scope, which has no parent.  They are closed in the opposite order, by
cutting the arena back to an earlier size.

The arena lists the newest scope first, so the number of a scope is the number
of scopes behind it, and its chain of parents lies behind it too: looking a name
up is a recursion on the list.

    (s.child p bs).1.size = s.size + 1          (size_child)
    (s.child p bs).1.discard s.size = s         (discard_child)
-/

namespace TreeTyper

abbrev ScopeId := Nat

structure Scope where
  bindings : Table String Ty
  parent : Option ScopeId
  deriving DecidableEq, Repr, Inhabited

/-- The live scopes, newest first. -/
structure Scopes where
  arena : List Scope
  deriving DecidableEq, Repr

namespace Scopes

def moduleScope : ScopeId := 0

/-- The module scope alone. -/
def empty : Scopes := ⟨[⟨Table.empty, none⟩]⟩

instance : Inhabited Scopes := ⟨empty⟩

/-- The number of live scopes, which is also the number of the next one. -/
def size (s : Scopes) : Nat := s.arena.length

def isAlive (s : Scopes) (id : ScopeId) : Bool := id < s.size

def scope? (s : Scopes) (id : ScopeId) : Option Scope :=
  if id < s.size then s.arena[s.size - 1 - id]? else none

/-! ## Looking up -/

/-- The nearest scope on the chain from `id` outwards that binds `name`, with the type. -/
def resolveIn (name : String) : List Scope → ScopeId → Option (ScopeId × Ty)
  | [], _ => none
  | scope :: older, id =>
    if id = older.length then
      match scope.bindings.find? name with
      | some ty => some (id, ty)
      | none => scope.parent.bind (resolveIn name older)
    else resolveIn name older id

def resolve (s : Scopes) (id : ScopeId) (name : String) : Option (ScopeId × Ty) :=
  resolveIn name s.arena id

/-- The type of a name, looked up outwards from a scope. -/
def lookup (s : Scopes) (id : ScopeId) (name : String) : Option Ty :=
  (s.resolve id name).map (·.2)

/-- The type of a name in one scope alone. -/
def lookupLocal (s : Scopes) (id : ScopeId) (name : String) : Option Ty :=
  (s.scope? id).bind (·.bindings.find? name)

/-- The scope that binds `name` as a local of the body around `id`: the module scope counts only
when `id` is the module scope, since a body sees module names but does not own them. -/
def resolveLocal (s : Scopes) (id : ScopeId) (name : String) : Option ScopeId :=
  match s.resolve id name with
  | some (owner, _) => if owner = moduleScope ∧ id ≠ moduleScope then none else some owner
  | none => none

/-! ## Changing -/

def defineIn (name : String) (ty : Ty) : List Scope → ScopeId → List Scope
  | [], _ => []
  | scope :: older, id =>
    if id = older.length then { scope with bindings := scope.bindings.insert name ty } :: older
    else scope :: defineIn name ty older id

/-- Binds a name in one scope. -/
def define (s : Scopes) (id : ScopeId) (name : String) (ty : Ty) : Scopes :=
  ⟨defineIn name ty s.arena id⟩

/-- Binds a name again in the nearest scope that binds it, or in `id` when none does. -/
def assign (s : Scopes) (id : ScopeId) (name : String) (ty : Ty) : Scopes :=
  match s.resolve id name with
  | some (owner, _) => s.define owner name ty
  | none => s.define id name ty

/-- Opens a scope inside `parent`. -/
def child (s : Scopes) (parent : ScopeId) (bindings : List (String × Ty)) : Scopes × ScopeId :=
  (⟨⟨Table.ofList bindings, some parent⟩ :: s.arena⟩, s.size)

/-- Closes the scopes opened since the arena had size `mark`. -/
def discard (s : Scopes) (mark : Nat) : Scopes := ⟨s.arena.drop (s.size - mark)⟩

/-! ## Lemmas -/

@[simp] theorem size_child (s : Scopes) (parent : ScopeId) (bindings : List (String × Ty)) :
    (s.child parent bindings).1.size = s.size + 1 := rfl

theorem discard_child (s : Scopes) (parent : ScopeId) (bindings : List (String × Ty)) :
    (s.child parent bindings).1.discard s.size = s := by
  simp [discard, child, size]

end Scopes

end TreeTyper
