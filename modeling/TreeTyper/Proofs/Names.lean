import TreeTyper.Tree.Basic

/-!
# The names that a block binds

Assignments bind the name they assign, handlers the name of what they caught.
The variables of a loop are new names and shadow nothing, so they do not count.
-/

namespace TreeTyper.Tree

mutual

/-- The names that a statement assigns, or binds in a handler. -/
def Stmt.names : Stmt → List String
  | ⟨kind, _⟩ => kind.names

def StmtKind.names : StmtKind → List String
  | .assign targets _ => targets.filterMap Expr.name?
  | .augAssign target _ _ => target.name?.toList
  | .ifElse _ body orelse => blockNames body ++ blockNames orelse
  | .whileLoop _ body orelse => blockNames body ++ blockNames orelse
  | .forLoop _ _ body orelse => blockNames body ++ blockNames orelse
  | .tryExcept body handlers orelse finalbody =>
    blockNames body ++ handlerNames handlers ++ blockNames orelse ++ blockNames finalbody
  | .withItems _ body => blockNames body
  | _ => []

/-- The names that the statements of a block assign, or bind in a handler. -/
def blockNames : List Stmt → List String
  | [] => []
  | s :: rest => s.names ++ blockNames rest

def handlerNames : List ExceptHandler → List String
  | [] => []
  | ⟨_, name, body, _⟩ :: rest => name.toList ++ blockNames body ++ handlerNames rest

end

end TreeTyper.Tree
