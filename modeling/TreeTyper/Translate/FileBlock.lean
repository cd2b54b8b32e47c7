import TreeTyper.Translate.Assign

/-!
# File blocks

The only context that can be entered is an opened file, and only to read the
whole of it into a variable or to write a whole text to it:

    with open(path, 'r') as f:        with open(path, 'w') as f:
        text = f.read()                   f.write(text)

`FileBlock.ofParts?` recognises the two forms by their syntax; `none` in its
error stands for the position of the block as a whole.
-/

namespace TreeTyper.Translate

open Typed

/-- A whole-file operation, with the position of the statement that does it. -/
inductive FileBlock where
  | read (path target : Tree.Expr) (pos : Pos)
  | write (path text : Tree.Expr) (pos : Pos)

namespace FileBlock

/-- The arguments of the call of a method of the variable `file`. -/
def fileCall? (file message : String) (e : Tree.Expr) : Option (List Tree.Expr) :=
  match e.kind with
  | .call ⟨.attr ⟨.name id, _⟩ attr, _⟩ args [] =>
    if id = file ∧ attr = message then some args else none
  | _ => none

/-- The operation that a statement does with a file opened in the given mode. -/
def ofStmt? (path : Tree.Expr) (mode file : String) (s : Tree.Stmt) :
    Except (Option Pos) FileBlock :=
  match s.kind with
  | .assign [target] value =>
    if mode ≠ "r" then .error none
    else
      match fileCall? file "read" value with
      | some [] => .ok (.read path target s.pos)
      | _ => .error (some s.pos)
  | .expr value =>
    if mode ≠ "w" then .error none
    else
      match fileCall? file "write" value with
      | some [text] => .ok (.write path text s.pos)
      | _ => .error (some s.pos)
  | _ => .error none

def ofParts? (items : List Tree.WithItem) (body : List Tree.Stmt) :
    Except (Option Pos) FileBlock :=
  match items with
  | [⟨⟨.call ⟨.name opener, _⟩ [path, mode] keywords, _⟩, some ⟨.name file, _⟩⟩] =>
    match mode.kind with
    | .str mode =>
      if opener ≠ "open" ∨ !keywords.isEmpty then .error none
      else
        match body with
        | [s] => ofStmt? path mode file s
        | _ => .error none
    | _ => .error (some mode.pos)
  | _ => .error none

end FileBlock

/-- The statement of a block that opens some contexts. -/
def withNode (t : Translator) (ctx : Context) (items : List Tree.WithItem)
    (body : List Tree.Stmt) : Run Stmt := do
  let api := t.setting.api
  match FileBlock.ofParts? items body with
  | .error (some pos) => failAt pos .fileBlock
  | .error none => fail .fileBlock
  | .ok (.read path target pos) =>
    let path ← expr t path ctx
    let text ← expand api ctx (.call "io" "read_file") "open" [path]
    located pos (assignTo t ctx target text)
  | .ok (.write path text pos) =>
    let path ← expr t path ctx
    let text ← expr t text ctx
    return .expr (← located pos (expand api ctx (.call "io" "write_file") "open" [path, text]))

end TreeTyper.Translate
