import TreeTyper.Translate.Expr

/-!
# Assignments

A value is stored in a variable, an attribute or an element of a container.  A
variable is a local of the body that assigns it, and keeps its type up to a join.
An attribute comes into being when a method of the class first assigns it to its
own instance; through any other value it only changes, and then becomes public.
-/

namespace TreeTyper.Translate

open Typed

/-- Assigns a variable of the body around `ctx`. -/
def assignName (t : Translator) (ctx : Context) (pos : Pos) (id : String) (value : Expr) :
    Run Stmt := do
  if id ∈ t.setting.constants then failAt pos (.constantOverride id)
  else if nameCase id ≠ .snake then failAt pos (.spelling id)
  else
    match ← localOwner ctx id with
    | some owner =>
      let s ← get
      let old := (s.scopes.lookupLocal owner id).getD .hole
      walk (unifyEnds s.hierarchy old value.type)
      match unify s.hierarchy old value.type with
      | some ty => define owner id ty
      | none => failAt pos (.variableType id ctx.name old value.type)
    | none => define ctx.body id value.type
    return .localAssignment id value

/-- The type of an attribute after an assignment to it, which is entered into the hierarchy. -/
def attributeAfter (t : Translator) (pos : Pos) (object : Expr) (throughThis : Bool)
    (attr : String) (assigned : Ty) : Run Ty := do
  let className := object.type.head
  let h := (← get).hierarchy
  let enter (h : Hierarchy) : Run Unit := modify fun s => { s with hierarchy := h }
  walk (h.attributeEnds className attr)
  match h.attribute? className attr with
  | some (owner, entry) =>
    walk (unifyEnds h entry.ty assigned)
    match unify h entry.ty assigned with
    | none => failAt pos (.attributeType className attr entry.ty assigned)
    | some ty =>
      enter (h.updateAttribute owner attr ty (!throughThis))
      return ty
  | none =>
    if throughThis then
      enter (h.registerAttribute className ⟨attr, assigned, false⟩)
      return assigned
    else failAt pos (unknownAttribute t.setting.api h object.type attr)

/-- Assigns an attribute of a translated object. -/
def assignAttribute (t : Translator) (pos : Pos) (object : Expr) (attr : String) (value : Expr) :
    Run Stmt := do
  if !(← get).hierarchy.isClass object.type.head then
    failAt pos (.attributeOwner attr object.type)
  else
    match object.kind with
    | .this =>
      let _ ← attributeAfter t pos object true attr value.type
      return .instanceAssignment attr value
    | _ =>
      let ty ← attributeAfter t pos object false attr value.type
      return .attrAssignment ⟨.attr object attr, ty⟩ value

/-- Assigns an element of a translated container, which may fill holes of its type. -/
def assignElement (ctx : Context) (sequence index value : Expr) : Run Stmt := do
  let h := (← get).hierarchy
  walk (storeAtEnds h sequence.type index.type value.type)
  let stored ← check (storeAt h sequence.type index.type value.type)
  let sequence ← if stored = sequence.type then pure sequence else refine ctx sequence stored
  return .indexAssignment sequence index value

/-- Assigns a translated value to a target. -/
def assignTo (t : Translator) (ctx : Context) (target : Tree.Expr) (value : Expr) : Run Stmt :=
  match target.kind with
  | .name id => assignName t ctx target.pos id value
  | .attr object attr => do
    let object ← expr t object ctx
    assignAttribute t target.pos object attr value
  | .subscript sequence (.index index) => do
    let sequence ← expr t sequence ctx
    let index ← expr t index ctx
    assignElement ctx sequence index value
  | .subscript _ (.slice ..) => fail .sliceAssignment
  | .tuple _ => fail .unpacking
  | .list _ => fail .unpacking
  | kind => fail (.assignmentTarget kind.describe)

end TreeTyper.Translate
