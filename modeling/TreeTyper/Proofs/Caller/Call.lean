import TreeTyper.Proofs.Caller.Mirrors
import TreeTyper.Translate.Call

/-!
# Calls do not see the callers of their body

A call reads variables from the scopes of the body and gives its receiver a new
type there; what it reaches of other definitions goes through the translator's
`infer`, of which it is assumed that it is blind to the callers too.
-/

namespace TreeTyper.Translate

open Typed
open Scopes (raise)

/-- A part of an expression is translated alike under all callers of the body. -/
def Deferred.IsBlind (locals : List Scope) (d : Deferred) : Prop :=
  ∀ ctx s, ctx.Inside s → Mirrors locals s (d.run ctx) (d.run (ctx.calledFrom locals))

/-- Definitions are inferred alike under all callers. -/
def Infer.IsBlind (locals : List Scope) (infer : Infer) : Prop :=
  ∀ key cell args pos s, 0 < s.scopes.size →
    Mirrors locals s (infer key cell args pos) (infer key cell args pos)

variable {locals : List Scope} {s : State} {ctx : Context} {t : Translator}

namespace Context

@[simp] theorem className?_calledFrom (ctx : Context) (locals : List Scope) :
    (ctx.calledFrom locals).className? = ctx.className? := rfl

@[simp] theorem definition_calledFrom (ctx : Context) (locals : List Scope) :
    (ctx.calledFrom locals).definition = ctx.definition := rfl

end Context

namespace Mirrors

theorem runAll {ds : List Deferred} (blind : ∀ d ∈ ds, d.IsBlind locals) (inside : ctx.Inside s) :
    Mirrors locals s (runAll ctx ds) (Translate.runAll (ctx.calledFrom locals) ds) := by
  induction ds generalizing s with
  | nil => exact .pure []
  | cons d ds ih =>
    refine (blind d List.mem_cons_self ctx s inside).bind fun node s₁ confined => ?_
    refine (ih (fun d' hd' => blind d' (List.mem_cons_of_mem _ hd'))
      (inside.confined confined)).bind fun nodes s₂ _ => ?_
    exact .pure (node :: nodes)

/-! ## Standard calls -/

theorem refineAttribute (className name : String) (ty : Ty) :
    Mirrors locals s (refineAttribute className name ty)
      (Translate.refineAttribute className name ty) := by
  refine .get (.walk_bind (.modify ?_ (.of_scopes ?_)))
  · rw [State.hierarchy_calledFrom]
    split <;> rfl
  · split <;> rfl

theorem refine (inside : ctx.Inside s) (node : Expr) (ty : Ty) :
    Mirrors locals s (refine ctx node ty)
      (Translate.refine (ctx.calledFrom locals) node ty) := by
  unfold Translate.refine
  cases node.kind with
  | localVar name => exact (assign inside.scope name ty).bind fun _ _ _ => .pure _
  | instanceVar name =>
    rw [Context.className?_calledFrom]
    cases ctx.className? with
    | none => exact .pure _
    | some className => exact (refineAttribute className name ty).bind fun _ _ _ => .pure _
  | attr object name => exact (refineAttribute object.type.head name ty).bind fun _ _ _ => .pure _
  | _ => exact .pure _

theorem standardMethod (api : ApiTables) (inside : ctx.Inside s) (owner message : String)
    (receiver : Expr) (args : List Expr) :
    Mirrors locals s (standardMethod api ctx owner message receiver args)
      (Translate.standardMethod api (ctx.calledFrom locals) owner message receiver args) := by
  unfold Translate.standardMethod
  refine .check_bind fun receiver => .ite rfl (fun _ => .fail _) fun _ => ?_
  refine .check_bind fun signature => .get (.walk_bind (.check_bind fun found => ?_))
  cases found.refined with
  | none => exact .pure _
  | some ty => exact (refine inside receiver ty).bind fun _ _ _ => .pure _

theorem standardCall (api : ApiTables) (space function name : String) (args : List Expr) :
    Mirrors locals s (standardCall api space function name args)
      (Translate.standardCall api space function name args) := by
  unfold Translate.standardCall
  exact .check_bind fun signature => .get (.walk_bind (.check_bind fun found => .pure _))

theorem expand (api : ApiTables) (inside : ctx.Inside s) (expansion : Expansion) (name : String)
    (nodes : List Expr) :
    Mirrors locals s (expand api ctx expansion name nodes)
      (Translate.expand api (ctx.calledFrom locals) expansion name nodes) := by
  unfold Translate.expand
  cases expansion with
  | call space function => exact standardCall ..
  | method owner message =>
    cases nodes with
    | nil => exact .fail _
    | cons receiver args => exact standardMethod api inside ..
  | swapped owner message =>
    match nodes with
    | [arg, receiver] => exact standardMethod api inside ..
    | [] | [_] | _ :: _ :: _ :: _ => exact .fail _
  | length =>
    match nodes with
    | [receiver] => exact .ite rfl (fun _ => .pure _) fun _ => .fail _
    | [] | _ :: _ :: _ => exact .fail _
  | regex =>
    match nodes with
    | [pattern] => exact .check _
    | [] | _ :: _ :: _ => exact .fail _

/-! ## Names and values -/

theorem nameNode (inside : ctx.Inside s) (id : String) :
    Mirrors locals s (nameNode t ctx id) (Translate.nameNode t (ctx.calledFrom locals) id) := by
  unfold Translate.nameNode
  refine .lookup_bind inside.scope ?_
  cases s.scopes.lookup ctx.scope id with
  | some ty => exact .ite rfl (fun _ => .pure _) fun _ => .pure _
  | none =>
    refine .get ?_
    rw [State.definitions_calledFrom, State.hierarchy_calledFrom, State.cells_calledFrom]
    cases s.definitions.function? id with
    | some cell => exact .pure _
    | none =>
      exact .ite rfl (fun _ => .pure _) fun _ => .ite rfl (fun _ => .fail _) fun _ => .fail _

theorem callValue {args : List Deferred} (blind : ∀ d ∈ args, d.IsBlind locals)
    (inside : ctx.Inside s) (callee : Expr) :
    Mirrors locals s (callValue ctx callee args)
      (Translate.callValue (ctx.calledFrom locals) callee args) := by
  unfold Translate.callValue
  cases callee.type with
  | function params ret =>
    refine .ite rfl (fun _ => .fail _) fun _ => ?_
    refine (runAll blind inside).bind fun nodes s₁ _ => ?_
    exact .get (.walk_bind (.check_bind fun _ => .pure _))
  | _ => exact .fail _

/-! ## Definitions -/

theorem methodOf (className method : String) :
    Mirrors locals s (methodOf t className method) (Translate.methodOf t className method) := by
  unfold Translate.methodOf
  refine .get ?_
  rw [State.hierarchy_calledFrom]
  dsimp only
  cases s.hierarchy.method? className method with
  | some entry => exact .pure _
  | none => exact .fail _

variable (infers : t.infer.IsBlind locals)

include infers

theorem inferUnresolved (pos : Pos) (unresolved : List (DefKey × CellId))
    (positive : 0 < s.scopes.size) :
    Mirrors locals s (inferUnresolved t pos unresolved)
      (Translate.inferUnresolved t pos unresolved) := by
  induction unresolved generalizing s with
  | nil => exact .pure ()
  | cons entry rest ih =>
    unfold Translate.inferUnresolved
    refine .get (.ite rfl (fun _ => ?_) fun _ => ih positive)
    refine (infers entry.1 entry.2 [] pos s positive).bind fun _ s' confined => ih ?_
    rw [confined.size]
    exact positive

variable {args : List Deferred} (blind : ∀ d ∈ args, d.IsBlind locals)

include blind

theorem newInstance (inside : ctx.Inside s) (pos : Pos) (className : String) :
    Mirrors locals s (newInstance t ctx pos className args)
      (Translate.newInstance t (ctx.calledFrom locals) pos className args) := by
  unfold Translate.newInstance
  refine (runAll blind inside).bind fun nodes s₁ confined => ?_
  have positive : 0 < s₁.scopes.size := (inside.confined confined).positive
  refine .get ?_
  rw [State.hierarchy_calledFrom]
  cases s₁.hierarchy.method? className Hierarchy.constructorName with
  | some entry =>
    refine (infers _ entry.cell _ pos s₁ positive).bind fun _ s₂ confined' => .get ?_
    refine (inferUnresolved infers pos _ ?_).bind fun _ _ _ => .pure _
    rw [confined'.size]
    exact positive
  | none =>
    refine .ite rfl (fun _ => ⟨rfl, .refl _⟩) fun _ => ?_
    exact .get ((inferUnresolved infers pos _ positive).bind fun _ _ _ => .pure _)

/-! ## Called names and attributes -/

theorem callName (inside : ctx.Inside s) (pos : Pos) (id : String) :
    Mirrors locals s (callName t ctx pos id args)
      (Translate.callName t (ctx.calledFrom locals) pos id args) := by
  unfold Translate.callName
  cases t.setting.api.function? ApiTables.globalSpace id with
  | some entry =>
    refine (runAll blind inside).bind fun nodes s₁ confined => .check_bind fun expansion => ?_
    exact expand _ (inside.confined confined) ..
  | none =>
    refine .lookup_bind inside.scope (.ite rfl (fun _ => ?_) fun _ => .get ?_)
    · refine (nameNode inside id).bind fun callee s₁ confined => ?_
      exact callValue blind (inside.confined confined) callee
    rw [State.definitions_calledFrom, State.hierarchy_calledFrom]
    cases s.definitions.function? id with
    | some cell =>
      refine (runAll blind inside).bind fun nodes s₁ confined => ?_
      refine (infers _ cell _ pos s₁ (inside.confined confined).positive).bind fun ret s₂ _ => ?_
      exact .get (.pure _)
    | none =>
      refine .ite rfl (fun _ => newInstance infers blind inside pos id) fun _ => ?_
      refine .ite rfl (fun _ => .fail _) fun _ => ?_
      cases constructNames.find? (·.1 == id) with
      | some found => exact .fail _
      | none => exact .fail _

omit infers in
theorem libraryCall (inside : ctx.Inside s) (space function : String) :
    Mirrors locals s (libraryCall t ctx space function args)
      (Translate.libraryCall t (ctx.calledFrom locals) space function args) := by
  unfold Translate.libraryCall
  refine .ite rfl (fun _ => .fail _) fun _ => ?_
  dsimp only
  cases t.setting.api.function? space function with
  | none => exact .fail _
  | some entry =>
    have depends : Mirrors locals s (useDependency space) (useDependency space) := by
      refine .modify ?_ (.of_scopes ?_)
      · change (if space ∈ s.dependencies then _ else _) = _
        split <;> rfl
      · split <;> rfl
    refine depends.bind fun _ s₁ confined => ?_
    have inside₁ := inside.confined confined
    refine (runAll blind inside₁).bind fun nodes s₂ confined' => .check_bind fun expansion => ?_
    exact expand _ (inside₁.confined confined') ..

theorem thisMethodCall (inside : ctx.Inside s) (pos : Pos) (className message : String) :
    Mirrors locals s (thisMethodCall t ctx pos className message args)
      (Translate.thisMethodCall t (ctx.calledFrom locals) pos className message args) := by
  unfold Translate.thisMethodCall
  refine (methodOf className message).bind fun found s₁ confined => ?_
  have inside₁ := inside.confined confined
  refine (runAll blind inside₁).bind fun nodes s₂ confined' => ?_
  exact (infers _ found.2 _ pos s₂ (inside₁.confined confined').positive).bind
    fun _ _ _ => .pure _

theorem methodCall (inside : ctx.Inside s) (pos : Pos) (receiver : Expr) (message : String) :
    Mirrors locals s (methodCall t ctx pos receiver message args)
      (Translate.methodCall t (ctx.calledFrom locals) pos receiver message args) := by
  unfold Translate.methodCall
  refine .get (.ite rfl (fun _ => ?_) fun _ => ?_)
  · refine (methodOf receiver.type.head message).bind fun found s₁ confined => ?_
    have inside₁ := inside.confined confined
    refine (runAll blind inside₁).bind fun nodes s₂ confined' => ?_
    exact (infers _ found.2 _ pos s₂ (inside₁.confined confined').positive).bind
      fun _ _ _ => .pure _
  · dsimp only
    cases t.setting.api.method? receiver.type.head message with
    | none => exact .fail _
    | some entry =>
      refine (runAll blind inside).bind fun nodes s₁ confined => .check_bind fun expansion => ?_
      exact expand _ (inside.confined confined) ..

theorem callAttribute {receiver : Deferred} (blindReceiver : receiver.IsBlind locals)
    (inside : ctx.Inside s) (pos : Pos) (message : String) :
    Mirrors locals s (callAttribute t ctx pos receiver message args)
      (Translate.callAttribute t (ctx.calledFrom locals) pos receiver message args) := by
  have onValue : Mirrors locals s
      (do
        let node ← receiver.run ctx
        Translate.methodCall t ctx pos node message args)
      (do
        let node ← receiver.run (ctx.calledFrom locals)
        Translate.methodCall t (ctx.calledFrom locals) pos node message args) :=
    (blindReceiver ctx s inside).bind fun node s₁ confined =>
      methodCall infers blind (inside.confined confined) pos node message
  unfold Translate.callAttribute
  dsimp only
  cases receiver.source.name? with
  | none => exact onValue
  | some id =>
    refine .lookup_bind inside.scope (.ite rfl (fun _ => ?_) fun _ => ?_)
    · exact libraryCall blind inside id message
    rw [Context.className?_calledFrom]
    cases ctx.className? with
    | none => exact onValue
    | some className =>
      exact .ite rfl (fun _ => thisMethodCall infers blind inside pos className message)
        fun _ => onValue

end Mirrors

/-- The parts of a callee are translated alike under all callers. -/
def Callee.IsBlind (locals : List Scope) : Callee → Prop
  | .name _ => True
  | .attr receiver _ => receiver.IsBlind locals
  | .value callee => callee.IsBlind locals

theorem Mirrors.callNode (infers : t.infer.IsBlind locals) {args : List Deferred}
    (blind : ∀ d ∈ args, d.IsBlind locals) {callee : Callee} (blindCallee : callee.IsBlind locals)
    (inside : ctx.Inside s) (pos : Pos) (keywords : List Tree.Keyword) :
    Mirrors locals s (callNode t ctx pos callee args keywords)
      (Translate.callNode t (ctx.calledFrom locals) pos callee args keywords) := by
  unfold Translate.callNode
  cases keywords with
  | cons keyword _ => exact .failAt ..
  | nil =>
    dsimp only
    cases args.find? _ with
    | some starred => exact .failAt ..
    | none =>
      cases callee with
      | name id => exact callName infers blind inside pos id
      | attr receiver name => exact callAttribute infers blind blindCallee inside pos name
      | value callee =>
        exact (blindCallee ctx s inside).bind fun node s₁ confined =>
          callValue blind (inside.confined confined) node

end TreeTyper.Translate
