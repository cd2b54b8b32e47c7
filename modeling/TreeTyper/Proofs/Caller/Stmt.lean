import TreeTyper.Proofs.Caller.Expr
import TreeTyper.Translate.Stmt

/-!
# Statements do not see the callers of their body

An assignment binds a variable in the scope of the body, or gives a new type to a
local that belongs to one of its scopes; loops and handlers open scopes above them.

    t.infer.IsBlind locals → ctx.Inside s →
      Mirrors locals s (block t body ctx) (block t body (ctx.calledFrom locals))   (block_mirrors)
-/

namespace TreeTyper.Translate

open Typed
open Scopes (raise)

variable {locals : List Scope} {s : State} {ctx : Context} {t : Translator}

namespace Mirrors

/-! ## Assignments -/

theorem assignName (inside : ctx.Inside s) (pos : Pos) (id : String) (value : Expr) :
    Mirrors locals s (assignName t ctx pos id value)
      (Translate.assignName t (ctx.calledFrom locals) pos id value) := by
  unfold Translate.assignName
  refine .ite rfl (fun _ => .failAt ..) fun _ => .ite rfl (fun _ => .failAt ..) fun _ => ?_
  refine .localOwner_bind inside fun owner own => ?_
  cases owner with
  | none => exact (define inside.body id value.type).bind fun _ _ _ => .pure _
  | some owner =>
    have old : (s.calledFrom locals).scopes.lookupLocal (raise locals.length owner) id =
        s.scopes.lookupLocal owner id := Scopes.lookupLocal_calledFrom inside.positive owner id
    refine .get ?_
    rw [State.hierarchy_calledFrom]
    dsimp only [Option.map_some]
    rw [old]
    refine .walk_bind ?_
    cases unify s.hierarchy _ value.type with
    | some ty => exact (define (own owner rfl) id ty).bind fun _ _ _ => .pure _
    | none => exact ⟨rfl, .refl s⟩

theorem attributeAfter (pos : Pos) (object : Expr) (throughThis : Bool) (attr : String)
    (assigned : Ty) :
    Mirrors locals s (attributeAfter t pos object throughThis attr assigned)
      (Translate.attributeAfter t pos object throughThis attr assigned) := by
  unfold Translate.attributeAfter
  refine .get ?_
  rw [State.hierarchy_calledFrom]
  refine .walk_bind ?_
  cases s.hierarchy.attribute? object.type.head attr with
  | some found =>
    refine .walk_bind ?_
    cases unify s.hierarchy found.2.ty assigned with
    | none => exact .failAt ..
    | some ty => exact (modify rfl (.of_scopes rfl)).bind fun _ _ _ => .pure _
  | none =>
    refine .ite rfl (fun _ => ?_) fun _ => .failAt ..
    exact (modify rfl (.of_scopes rfl)).bind fun _ _ _ => .pure _

theorem assignAttribute (pos : Pos) (object : Expr) (attr : String) (value : Expr) :
    Mirrors locals s (assignAttribute t pos object attr value)
      (Translate.assignAttribute t pos object attr value) := by
  unfold Translate.assignAttribute
  refine .get (.ite rfl (fun _ => .failAt ..) fun _ => ?_)
  split
  · exact (attributeAfter ..).bind fun _ _ _ => .pure _
  · exact (attributeAfter ..).bind fun _ _ _ => .pure _

theorem assignElement (inside : ctx.Inside s) (sequence index value : Expr) :
    Mirrors locals s (assignElement ctx sequence index value)
      (Translate.assignElement (ctx.calledFrom locals) sequence index value) := by
  unfold Translate.assignElement
  refine .get (.walk_bind (.check_bind fun stored => .ite rfl (fun _ => .pure _) fun _ => ?_))
  exact (refine inside sequence stored).bind fun _ _ _ => .pure _

variable (infers : t.infer.IsBlind locals)

include infers

theorem expr (inside : ctx.Inside s) (e : Tree.Expr) :
    Mirrors locals s (expr t e ctx) (Translate.expr t e (ctx.calledFrom locals)) :=
  expr_isBlind infers e ctx s inside

theorem assignTo (inside : ctx.Inside s) (target : Tree.Expr) (value : Expr) :
    Mirrors locals s (assignTo t ctx target value)
      (Translate.assignTo t (ctx.calledFrom locals) target value) := by
  unfold Translate.assignTo
  split
  · exact assignName inside ..
  · exact (expr infers inside _).bind fun object s₁ _ => assignAttribute ..
  · refine (expr infers inside _).bind fun sequence s₁ confined => ?_
    have inside₁ := inside.confined confined
    refine (expr infers inside₁ _).bind fun index s₂ confined' => ?_
    exact assignElement (inside₁.confined confined') ..
  all_goals exact .fail _

/-! ## Statements without blocks -/

theorem assignNode (inside : ctx.Inside s) (targets : List Tree.Expr) (value : Tree.Expr) :
    Mirrors locals s (assignNode t ctx targets value)
      (Translate.assignNode t (ctx.calledFrom locals) targets value) := by
  unfold Translate.assignNode
  match targets with
  | [target] =>
    exact (expr infers inside value).bind fun value s₁ confined =>
      assignTo infers (inside.confined confined) target value
  | [] | _ :: _ :: _ => exact .fail _

theorem augAssignNode (inside : ctx.Inside s) (target value : Tree.Expr)
    (op : Tree.BinaryOperator) :
    Mirrors locals s (augAssignNode t ctx target op value)
      (Translate.augAssignNode t (ctx.calledFrom locals) target op value) := by
  unfold Translate.augAssignNode
  refine (expr infers inside target).bind fun current s₁ confined => ?_
  have inside₁ := inside.confined confined
  refine (expr infers inside₁ value).bind fun value s₂ confined' => .check_bind fun combined => ?_
  exact assignTo infers (inside₁.confined confined') target combined

theorem returnNode (inside : ctx.Inside s) (value : Option Tree.Expr) :
    Mirrors locals s (returnNode t ctx value)
      (Translate.returnNode t (ctx.calledFrom locals) value) := by
  have returned : Mirrors locals s (returnValue t ctx value)
      (returnValue t (ctx.calledFrom locals) value) := by
    cases value with
    | some value => exact expr infers inside value
    | none => exact .pure _
  unfold Translate.returnNode
  rw [Context.definition_calledFrom]
  cases ctx.definition with
  | none => exact .fail _
  | some found =>
    refine .ite rfl (fun _ => .fail _) fun _ => ?_
    refine returned.bind fun node s₁ _ => .ite rfl (fun _ => ?_) fun _ => .pure _
    refine .get (.check_bind fun merged => ?_)
    exact (modify rfl (.of_scopes rfl)).bind fun _ _ _ => .pure _

omit infers in
theorem jumpNode (what : String) (jump : Stmt) :
    Mirrors locals s (jumpNode ctx what jump)
      (Translate.jumpNode (ctx.calledFrom locals) what jump) :=
  .ite rfl (fun _ => .pure _) fun _ => .fail _

theorem testOf (inside : ctx.Inside s) (test : Tree.Expr) :
    Mirrors locals s (testOf t ctx test) (Translate.testOf t (ctx.calledFrom locals) test) :=
  (expr infers inside test).bind fun _ _ _ => .check _

theorem raiseNode (inside : ctx.Inside s) (exc : Tree.Expr) :
    Mirrors locals s (raiseNode t ctx exc)
      (Translate.raiseNode t (ctx.calledFrom locals) exc) := by
  unfold Translate.raiseNode
  split
  · split
    · refine .get (.ite rfl (fun _ => .failAt ..) fun _ => ?_)
      split
      · exact (expr infers inside _).bind fun value s₁ _ =>
          .ite rfl (fun _ => .pure _) fun _ => .failAt ..
      · exact .fail _
    · exact .fail _
  · exact .fail _

theorem withNode (inside : ctx.Inside s) (items : List Tree.WithItem) (body : List Tree.Stmt) :
    Mirrors locals s (withNode t ctx items body)
      (Translate.withNode t (ctx.calledFrom locals) items body) := by
  unfold Translate.withNode
  dsimp only
  split
  · exact .failAt ..
  · exact .fail _
  · refine (expr infers inside _).bind fun path s₁ confined => ?_
    have inside₁ := inside.confined confined
    refine (expand _ inside₁ ..).bind fun text s₂ confined' => ?_
    exact (assignTo infers (inside₁.confined confined') ..).located
  · refine (expr infers inside _).bind fun path s₁ confined => ?_
    have inside₁ := inside.confined confined
    refine (expr infers inside₁ _).bind fun text s₂ confined' => ?_
    exact (expand _ (inside₁.confined confined') ..).located.bind fun _ _ _ => .pure _

omit infers in
theorem nextException (pos : Pos) (type : Option Tree.Expr) (caught : List String) :
    Mirrors locals s (nextException pos type caught)
      (Translate.nextException pos type caught) := by
  unfold Translate.nextException
  refine .get ?_
  rw [State.hierarchy_calledFrom]
  have handled : Mirrors locals s (handledException s.hierarchy type)
      (handledException s.hierarchy type) := by
    unfold handledException
    split
    · exact .pure _
    · split
      · exact .ite rfl (fun _ => .pure _) fun _ => .failAt ..
      · exact .failAt ..
  refine handled.bind fun exception s₁ _ => .walk_bind ?_
  cases caught.find? _ with
  | some earlier => exact .failAt ..
  | none => exact .pure _

end Mirrors

/-! ## Blocks -/

mutual

theorem stmt_mirrors (infers : t.infer.IsBlind locals) : ∀ (st : Tree.Stmt) (ctx : Context)
    (s : State), ctx.Inside s → Mirrors locals s (stmt t st ctx) (stmt t st (ctx.calledFrom locals))
  | ⟨kind, pos⟩, ctx, s, inside => by
    simp only [stmt]
    exact (stmtKind_mirrors infers kind ctx s inside).located

theorem stmtKind_mirrors (infers : t.infer.IsBlind locals) :
    ∀ (kind : Tree.StmtKind) (ctx : Context) (s : State), ctx.Inside s →
      Mirrors locals s (stmtKind t kind ctx) (stmtKind t kind (ctx.calledFrom locals))
  | .expr value, ctx, s, inside => by
    simp only [stmtKind]
    exact (Mirrors.expr infers inside value).bind fun _ _ _ => .pure _
  | .assign targets value, ctx, s, inside => by
    simp only [stmtKind]
    exact (Mirrors.assignNode infers inside targets value).map
  | .augAssign target op value, ctx, s, inside => by
    simp only [stmtKind]
    exact (Mirrors.augAssignNode infers inside target value op).map
  | .ret value, ctx, s, inside => by
    simp only [stmtKind]
    exact (Mirrors.returnNode infers inside value).map
  | .ifElse test body orelse, ctx, s, inside => by
    simp only [stmtKind]
    refine (Mirrors.testOf infers inside test).bind fun test s₁ confined => ?_
    have inside₁ := inside.confined confined
    refine (block_mirrors infers body ctx s₁ inside₁).bind fun block s₂ confined' => ?_
    exact (otherwise_mirrors infers orelse (block_mirrors infers orelse) ctx s₂
      (inside₁.confined confined')).bind fun _ _ _ => .pure _
  | .whileLoop test body [], ctx, s, inside => by
    simp only [stmtKind]
    refine (Mirrors.testOf infers inside test).bind fun test s₁ confined => ?_
    have inside₁ := inside.confined confined
    exact (block_mirrors infers body ctx.looping s₁ ⟨inside₁.scope, inside₁.body⟩).bind
      fun _ _ _ => .pure _
  | .whileLoop _ _ (_ :: _), _, _, _ => .fail _
  | .forLoop target iter body [], ctx, s, inside => by
    simp only [stmtKind]
    refine (Mirrors.loopHead (expr_isBlind infers iter) (iterated_isBlind infers iter) inside
      target).bind fun head s₁ confined => ?_
    have inside₁ := inside.confined confined
    -- the loop variables have a scope of their own, opened after the iterated expression
    have inner := inside₁.opened ctx.scope (bindings head.binders)
    refine (Mirrors.inScope inside₁.positive ?_).bind fun _ _ _ => .pure _
    exact block_mirrors infers body (ctx.inScope s₁.scopes.size).looping _ ⟨inner.scope, inner.body⟩
  | .forLoop _ _ _ (_ :: _), _, _, _ => .fail _
  | .tryExcept body cases [] [], ctx, s, inside => by
    simp only [stmtKind]
    refine (block_mirrors infers body (ctx.last false) s ⟨inside.scope, inside.body⟩).bind
      fun block s₁ confined => ?_
    have inside₁ := inside.confined confined
    exact (handlers_mirror infers cases [] (ctx.last false) s₁ ⟨inside₁.scope, inside₁.body⟩).bind
      fun _ _ _ => .pure _
  | .tryExcept _ _ (_ :: _) _, _, _, _ => .fail _
  | .tryExcept _ _ [] (_ :: _), _, _, _ => .fail _
  | .raise none (some _), _, _, _ => .fail _
  | .raise (some _) (some _), _, _, _ => .fail _
  | .raise none none, _, _, _ => .fail _
  | .raise (some exc) none, ctx, s, inside => by
    simp only [stmtKind]
    exact (Mirrors.raiseNode infers inside exc).map
  | .withItems items body, ctx, s, inside => by
    simp only [stmtKind]
    exact (Mirrors.withNode infers inside items body).map
  | .breakLoop, ctx, s, _ => by
    simp only [stmtKind]
    exact (Mirrors.jumpNode ..).map
  | .continueLoop, ctx, s, _ => by
    simp only [stmtKind]
    exact (Mirrors.jumpNode ..).map
  | .pass, _, _, _ => .pure _
  | .functionDef _, _, _, _ => .fail _
  | .classDef _, _, _, _ => .fail _
  | .importNames _, _, _, _ => .fail _
  | .importFrom .., _, _, _ => .fail _
  | .globalNames _, _, _, _ => .fail _
  | .nonlocalNames _, _, _, _ => .fail _
  | .delete _, _, _, _ => .fail _

theorem otherwise_mirrors (infers : t.infer.IsBlind locals) :
    ∀ (orelse : List Tree.Stmt) {whole : Context → Run (List Stmt)},
    (∀ (ctx : Context) (s : State), ctx.Inside s →
      Mirrors locals s (whole ctx) (whole (ctx.calledFrom locals))) →
    ∀ (ctx : Context) (s : State), ctx.Inside s →
      Mirrors locals s (otherwise t whole orelse ctx)
        (otherwise t whole orelse (ctx.calledFrom locals))
  | [], _, _, _, _, _ => .pure _
  | [⟨kind, pos⟩], whole, mirrorsWhole, ctx, s, inside => by
    cases kind with
    | ifElse test body orelse =>
      simp only [otherwise]
      refine Mirrors.located ((Mirrors.testOf infers inside test).bind fun test s₁ confined => ?_)
      have inside₁ := inside.confined confined
      refine (block_mirrors infers body ctx s₁ inside₁).bind fun block s₂ confined' => ?_
      exact (otherwise_mirrors infers orelse (block_mirrors infers orelse) ctx s₂
        (inside₁.confined confined')).bind fun _ _ _ => .pure _
    | _ =>
      simp only [otherwise]
      exact (mirrorsWhole ctx s inside).map
  | _ :: _ :: _, whole, mirrorsWhole, ctx, s, inside => by
    simp only [otherwise]
    exact (mirrorsWhole ctx s inside).map

theorem block_mirrors (infers : t.infer.IsBlind locals) :
    ∀ (body : List Tree.Stmt) (ctx : Context) (s : State), ctx.Inside s →
      Mirrors locals s (block t body ctx) (block t body (ctx.calledFrom locals))
  | [], _, _, _ => .pure _
  | st :: rest, ctx, s, inside => by
    simp only [block]
    refine (stmt_mirrors infers st (ctx.last (ctx.isLast && rest.isEmpty)) s
      ⟨inside.scope, inside.body⟩).bind fun node s₁ confined => ?_
    exact (block_mirrors infers rest ctx s₁ (inside.confined confined)).bind fun _ _ _ => .pure _

theorem handlers_mirror (infers : t.infer.IsBlind locals) :
    ∀ (cases : List Tree.ExceptHandler) (caught : List String) (ctx : Context) (s : State),
      ctx.Inside s → Mirrors locals s (handlers t cases caught ctx)
        (handlers t cases caught (ctx.calledFrom locals))
  | [], _, _, _, _ => .pure _
  | ⟨type, name, body, pos⟩ :: rest, caught, ctx, s, inside => by
    simp only [handlers]
    refine (Mirrors.nextException pos type caught).bind fun exception s₁ confined => ?_
    have inside₁ := inside.confined confined
    have handled : Mirrors locals s₁
        (located pos <| inScope ctx.scope (handlerBindings exception name) fun scope =>
          block t body (ctx.inScope scope))
        (located pos <| inScope (ctx.calledFrom locals).scope (handlerBindings exception name)
          fun scope => block t body ((ctx.calledFrom locals).inScope scope)) := by
      refine Mirrors.located (Mirrors.inScope inside₁.positive ?_)
      exact block_mirrors infers body (ctx.inScope s₁.scopes.size) _ (inside₁.opened ..)
    refine handled.bind fun block s₂ confined' => ?_
    exact (handlers_mirror infers rest (caught ++ [exception]) ctx s₂
      (inside₁.confined confined')).bind fun _ _ _ => .pure _

end

end TreeTyper.Translate
