import TreeTyper.Proofs.Positions.Tracks
import TreeTyper.Translate.Call

/-!
# Calls do not see positions

Standard calls, names and calls of definitions over parts that do the same in the
relocated tree.  The position of a call only goes into the stops of what it
infers.

    Infer.Tracks f t.infer → callee.Tracks f callee' → List.Forall₂ (Deferred.Tracks f) args args' →
      Tracks f (callNode t ctx pos callee args keywords) …                 (Tracks.callNode)
-/

namespace TreeTyper.Translate

open Typed

variable {f : Relocation} {t : Translator}

namespace Tracks

/-! ## Standard calls -/

theorem refineAttribute (className name : String) (ty : Ty) :
    Tracks f (refineAttribute className name ty)
      (Translate.refineAttribute className name ty) := by
  unfold Translate.refineAttribute
  refine .get fun s => .walk_bind (.modify fun s => ?_)
  rw [State.hierarchy_relocate]
  cases s.hierarchy.attribute? className name with
  | none => rfl
  | some found => rfl

theorem refine (ctx : Context) (node : Expr) (ty : Ty) :
    Tracks f (refine ctx node ty) (Translate.refine ctx node ty) := by
  unfold Translate.refine
  cases node.kind with
  | localVar name => exact (assign ctx.scope name ty).bind fun _ => .pure _
  | instanceVar name =>
    cases ctx.className? with
    | none => exact .pure _
    | some className => exact (refineAttribute className name ty).bind fun _ => .pure _
  | attr object name => exact (refineAttribute object.type.head name ty).bind fun _ => .pure _
  | _ => exact .pure _

theorem standardMethod (api : ApiTables) (ctx : Context) (owner message : String)
    (receiver : Expr) (args : List Expr) :
    Tracks f (standardMethod api ctx owner message receiver args)
      (Translate.standardMethod api ctx owner message receiver args) := by
  unfold Translate.standardMethod
  refine .check_bind fun receiver => .ite rfl (.fail _) ?_
  refine .check_bind fun signature => .get fun s => .walk_bind (.check_bind fun found => ?_)
  cases found.refined with
  | none => exact .pure _
  | some ty => exact (refine ctx receiver ty).bind fun _ => .pure _

theorem standardCall (api : ApiTables) (space function name : String) (args : List Expr) :
    Tracks f (standardCall api space function name args)
      (Translate.standardCall api space function name args) :=
  .check_bind fun _ => .get fun _ => .walk_bind (.check_bind fun _ => .pure _)

theorem expand (api : ApiTables) (ctx : Context) (expansion : Expansion) (name : String)
    (nodes : List Expr) :
    Tracks f (expand api ctx expansion name nodes)
      (Translate.expand api ctx expansion name nodes) := by
  unfold Translate.expand
  cases expansion with
  | call space function => exact standardCall ..
  | method owner message =>
    cases nodes with
    | nil => exact .fail _
    | cons receiver args => exact standardMethod ..
  | swapped owner message =>
    match nodes with
    | [arg, receiver] => exact standardMethod ..
    | [] | [_] | _ :: _ :: _ :: _ => exact .fail _
  | length =>
    match nodes with
    | [receiver] => exact .ite rfl (.pure _) (.fail _)
    | [] | _ :: _ :: _ => exact .fail _
  | regex =>
    match nodes with
    | [pattern] => exact .check _
    | [] | _ :: _ :: _ => exact .fail _

/-! ## Names and values -/

theorem nameNode (t : Translator) (ctx : Context) (id : String) :
    Tracks f (nameNode t ctx id) (Translate.nameNode t ctx id) := by
  unfold Translate.nameNode
  refine (lookup ctx.scope id).bind fun found => ?_
  cases found with
  | some ty => exact .ite rfl (.pure _) (.pure _)
  | none =>
    refine .get fun s => ?_
    rw [State.definitions_relocate, Definitions.function?_relocate]
    cases s.definitions.function? id with
    | some cell => exact .pure _
    | none => exact .ite rfl (.pure _) (.ite rfl (.fail _) (.fail _))

theorem methodOf (t : Translator) (className method : String) :
    Tracks f (methodOf t className method) (Translate.methodOf t className method) := by
  unfold Translate.methodOf
  refine .get fun s => ?_
  rw [State.hierarchy_relocate]
  dsimp only
  cases s.hierarchy.method? className method with
  | some entry => exact .pure _
  | none => exact .fail _

theorem inferUnresolved (infers : t.infer.Tracks f) (pos : Pos)
    (unresolved : List (DefKey × CellId)) :
    Tracks f (inferUnresolved t pos unresolved)
      (Translate.inferUnresolved t (f.node pos) unresolved) := by
  induction unresolved with
  | nil => exact .pure ()
  | cons entry rest ih =>
    unfold Translate.inferUnresolved
    refine .get fun s => .ite ?_ ((infers entry.1 entry.2 [] pos).bind fun _ => ih) ih
    rw [State.definitions_relocate, Definitions.phase?_relocate]

section Arguments

variable {args args' : List Deferred} (parts : List.Forall₂ (Deferred.Tracks f) args args')

include parts

theorem callValue (ctx : Context) (callee : Expr) :
    Tracks f (callValue ctx callee args) (Translate.callValue ctx callee args') := by
  unfold Translate.callValue
  cases callee.type with
  | function params ret =>
    refine .ite rfl (.fail _) ?_
    exact (runAll parts ctx).bind fun _ =>
      .get fun _ => .walk_bind (.check_bind fun _ => .pure _)
  | _ => exact .fail _

theorem libraryCall (t : Translator) (ctx : Context) (space function : String) :
    Tracks f (libraryCall t ctx space function args)
      (Translate.libraryCall t ctx space function args') := by
  unfold Translate.libraryCall
  refine .ite rfl (.fail _) ?_
  dsimp only
  cases t.setting.api.function? space function with
  | none => exact .fail _
  | some entry =>
    refine (useDependency space).bind fun _ => (runAll parts ctx).bind fun nodes => ?_
    exact .check_bind fun expansion => expand ..

variable (infers : t.infer.Tracks f)

include infers

theorem newInstance (ctx : Context) (pos : Pos) (className : String) :
    Tracks f (newInstance t ctx pos className args)
      (Translate.newInstance t ctx (f.node pos) className args') := by
  unfold Translate.newInstance
  refine (runAll parts ctx).bind fun nodes => .get fun s => ?_
  rw [State.hierarchy_relocate]
  cases s.hierarchy.method? className Hierarchy.constructorName with
  | some entry =>
    refine (infers _ entry.cell _ pos).bind fun _ => .get fun _ => ?_
    exact (inferUnresolved infers pos _).bind fun _ => .pure _
  | none =>
    refine .ite rfl ((fail _).bind fun _ => ?_) ?_
    all_goals exact .get fun _ => (inferUnresolved infers pos _).bind fun _ => .pure _

theorem callName (ctx : Context) (pos : Pos) (id : String) :
    Tracks f (callName t ctx pos id args) (Translate.callName t ctx (f.node pos) id args') := by
  unfold Translate.callName
  cases t.setting.api.function? ApiTables.globalSpace id with
  | some entry =>
    exact (runAll parts ctx).bind fun nodes => .check_bind fun expansion => expand ..
  | none =>
    refine (lookup ctx.scope id).bind fun found => .ite rfl ?_ (.get fun s => ?_)
    · exact (nameNode t ctx id).bind fun callee => callValue parts ctx callee
    rw [State.definitions_relocate, Definitions.function?_relocate, State.hierarchy_relocate]
    cases s.definitions.function? id with
    | some cell =>
      refine (runAll parts ctx).bind fun nodes => (infers _ cell _ pos).bind fun ret => ?_
      exact (signature cell).bind fun _ => .pure _
    | none =>
      refine .ite rfl (newInstance parts infers ctx pos id) (.ite rfl (.fail _) ?_)
      cases constructNames.find? (·.1 == id) with
      | some found => exact .fail _
      | none => exact .fail _

theorem thisMethodCall (ctx : Context) (pos : Pos) (className message : String) :
    Tracks f (thisMethodCall t ctx pos className message args)
      (Translate.thisMethodCall t ctx (f.node pos) className message args') :=
  (methodOf t className message).bind fun found => (runAll parts ctx).bind fun _ =>
    (infers _ found.2 _ pos).bind fun _ => .pure _

theorem methodCall (ctx : Context) (pos : Pos) (receiver : Expr) (message : String) :
    Tracks f (methodCall t ctx pos receiver message args)
      (Translate.methodCall t ctx (f.node pos) receiver message args') := by
  unfold Translate.methodCall
  refine .get fun s => .ite rfl ?_ ?_
  · exact (methodOf t receiver.type.head message).bind fun found => (runAll parts ctx).bind
      fun _ => (infers _ found.2 _ pos).bind fun _ => .pure _
  · dsimp only
    cases t.setting.api.method? receiver.type.head message with
    | none => exact .fail _
    | some entry =>
      exact (runAll parts ctx).bind fun nodes => .check_bind fun expansion => expand ..

theorem callAttribute {receiver receiver' : Deferred} (part : receiver.Tracks f receiver')
    (ctx : Context) (pos : Pos) (message : String) :
    Tracks f (callAttribute t ctx pos receiver message args)
      (Translate.callAttribute t ctx (f.node pos) receiver' message args') := by
  have onValue : Tracks f
      (do
        let node ← receiver.run ctx
        Translate.methodCall t ctx pos node message args)
      (do
        let node ← receiver'.run ctx
        Translate.methodCall t ctx (f.node pos) node message args') :=
    (part.run ctx).bind fun node => methodCall parts infers ctx pos node message
  unfold Translate.callAttribute
  rw [part.source, Tree.Expr.name?_relocate]
  dsimp only
  cases receiver.source.name? with
  | none => exact onValue
  | some id =>
    refine (lookup ctx.scope id).bind fun found => .ite rfl ?_ ?_
    · exact libraryCall parts t ctx id message
    cases ctx.className? with
    | none => exact onValue
    | some className =>
      exact .ite rfl (thisMethodCall parts infers ctx pos className message) onValue

end Arguments

end Tracks

/-! ## Calls -/

/-- The callee of the relocated tree in the place of a callee. -/
inductive Callee.Tracks (f : Relocation) : Callee → Callee → Prop where
  | name (id : String) : Tracks f (.name id) (.name id)
  | attr {receiver receiver' : Deferred} (part : receiver.Tracks f receiver') (name : String) :
    Tracks f (.attr receiver name) (.attr receiver' name)
  | value {callee callee' : Deferred} (part : callee.Tracks f callee') :
    Tracks f (.value callee) (.value callee')

/-- Whether a part is a starred expression. -/
theorem Deferred.Tracks.find?_starred {args args' : List Deferred}
    (parts : List.Forall₂ (Deferred.Tracks f) args args') :
    Option.Rel (Deferred.Tracks f)
      (args.find? fun d => match d.source.kind with
        | .starred _ => true
        | _ => false)
      (args'.find? fun d => match d.source.kind with
        | .starred _ => true
        | _ => false) := by
  induction parts with
  | nil => exact .none
  | @cons d d' _ _ first _ ih =>
    have same : d'.source.kind = d.source.kind.relocate f := by
      rw [first.source, Tree.Expr.kind_relocate]
    rw [List.find?_cons, List.find?_cons, same]
    cases d.source.kind with
    | starred value => exact .some first
    | _ => exact ih

theorem Tracks.callNode (infers : t.infer.Tracks f) {args args' : List Deferred}
    (parts : List.Forall₂ (Deferred.Tracks f) args args') {callee callee' : Callee}
    (called : callee.Tracks f callee') (ctx : Context) (pos : Pos)
    (keywords : List Tree.Keyword) :
    Tracks f (callNode t ctx pos callee args keywords)
      (Translate.callNode t ctx (f.node pos) callee' args'
        (Tree.Keyword.relocateAll f keywords)) := by
  unfold Translate.callNode
  cases keywords with
  | cons keyword _ =>
    obtain ⟨arg, value⟩ := keyword
    simp only [Tree.Keyword.relocateAll, Tree.Keyword.relocate, Tree.Expr.pos_relocate]
    exact .failAt ..
  | nil =>
    have starred := Deferred.Tracks.find?_starred parts
    simp only [Tree.Keyword.relocateAll]
    generalize args.find? _ = found, args'.find? _ = found' at starred
    cases starred with
    | some part =>
      dsimp only
      rw [part.pos]
      exact .failAt ..
    | none =>
      cases called with
      | name id => exact callName parts infers ctx pos id
      | attr part name => exact callAttribute parts infers part ctx pos name
      | value part => exact (part.run ctx).bind fun node => callValue parts ctx node

end TreeTyper.Translate
