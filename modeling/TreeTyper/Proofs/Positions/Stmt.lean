import TreeTyper.Proofs.Positions.Expr
import TreeTyper.Translate.Infer

/-!
# Statements and bodies do not see positions

Assignments, exceptions, file blocks and the recursion over blocks, and with it the
inference of definitions: a body that begins in relocated tables is the relocated
body.

    Infer.Tracks f (inferAt setting n)                                    (inferAt_tracks)
    t.infer.Tracks f →
      Tracks f (block t body ctx) (block t (Tree.Stmt.relocateAll f body) ctx)  (block_tracks)
-/

namespace TreeTyper.Translate

open Typed
open TreeTyper.Tree (Expr.relocateAll Expr.relocateOption Stmt.relocateAll
  ExceptHandler.relocateAll)

variable {f : Relocation} {t : Translator}

/-! ## File blocks -/

namespace FileBlock

def relocate (f : Relocation) : FileBlock → FileBlock
  | read path target pos => read (path.relocate f) (target.relocate f) (f.node pos)
  | write path text pos => write (path.relocate f) (text.relocate f) (f.node pos)

/-- A file block or the position that is to blame, relocated. -/
def relocateFound (f : Relocation) :
    Except (Option Pos) FileBlock → Except (Option Pos) FileBlock
  | .ok found => .ok (found.relocate f)
  | .error place => .error (place.map f.node)

theorem fileCall?_relocate (file message : String) (e : Tree.Expr) :
    fileCall? file message (e.relocate f) =
      (fileCall? file message e).map (Expr.relocateAll f) := by
  obtain ⟨kind, pos⟩ := e
  cases kind with
  | call func args keywords =>
    obtain ⟨kind, funcPos⟩ := func
    cases kind with
    | attr value attr =>
      obtain ⟨kind, valuePos⟩ := value
      cases kind with
      | name id =>
        cases keywords with
        | cons keyword rest => rfl
        | nil =>
          change (if id = file ∧ attr = message then some (Expr.relocateAll f args) else none) =
            (if id = file ∧ attr = message then some args else none).map _
          split <;> rfl
      | _ => rfl
    | _ => rfl
  | _ => rfl

theorem ofStmt?_relocate (path : Tree.Expr) (mode file : String) (s : Tree.Stmt) :
    ofStmt? (path.relocate f) mode file (s.relocate f) =
      relocateFound f (ofStmt? path mode file s) := by
  obtain ⟨kind, pos⟩ := s
  cases kind with
  | assign targets value =>
    rcases targets with _ | ⟨target, _ | ⟨other, rest⟩⟩
    · rfl
    · simp only [ofStmt?, Tree.Stmt.relocate, Tree.StmtKind.relocate, Expr.relocateAll,
        fileCall?_relocate]
      split
      · rfl
      rcases fileCall? file "read" value with _ | _ | ⟨_, _⟩ <;> rfl
    · rfl
  | expr value =>
    simp only [ofStmt?, Tree.Stmt.relocate, Tree.StmtKind.relocate, fileCall?_relocate]
    split
    · rfl
    rcases fileCall? file "write" value with _ | _ | ⟨_, _ | ⟨_, _⟩⟩ <;> rfl
  | _ => rfl

theorem ofParts?_relocate (items : List Tree.WithItem) (body : List Tree.Stmt) :
    ofParts? (items.map (Tree.WithItem.relocate f)) (Stmt.relocateAll f body) =
      relocateFound f (ofParts? items body) := by
  -- the forms are taken apart until both sides reduce
  match items with
  | [] => rfl
  | _ :: _ :: _ => simp [ofParts?, relocateFound]
  | [⟨⟨kind, pos⟩, vars⟩] =>
    cases kind with
    | call func args keywords =>
      obtain ⟨kind, funcPos⟩ := func
      cases kind with
      | name opener =>
        match args with
        | [] | [_] | _ :: _ :: _ :: _ => rfl
        | [path, mode] =>
          cases vars with
          | none => rfl
          | some file =>
            obtain ⟨kind, filePos⟩ := file
            cases kind with
            | name file =>
              obtain ⟨kind, modePos⟩ := mode
              cases kind with
              | str mode =>
                change (if opener ≠ "open" ∨ !(Tree.Keyword.relocateAll f keywords).isEmpty
                  then _ else _) = relocateFound f (if _ then _ else _)
                rw [Tree.Keyword.isEmpty_relocateAll]
                split
                · rfl
                match body with
                | [] | _ :: _ :: _ => rfl
                | [s] => exact ofStmt?_relocate path mode file s
              | _ => rfl
            | _ => rfl
      | _ => rfl
    | _ => rfl

end FileBlock

namespace Tracks

/-! ## Assignments -/

theorem assignName (ctx : Context) (pos : Pos) (id : String) (value : Expr) :
    Tracks f (assignName t ctx pos id value)
      (Translate.assignName t ctx (f.node pos) id value) := by
  unfold Translate.assignName
  refine .ite rfl (.failAt ..) (.ite rfl (.failAt ..) ?_)
  refine (localOwner ctx id).bind fun owner => ?_
  cases owner with
  | none => exact (define ctx.body id value.type).bind fun _ => .pure _
  | some owner =>
    refine .get fun s => ?_
    rw [State.hierarchy_relocate, State.scopes_relocate]
    refine .walk_bind ?_
    cases unify s.hierarchy _ value.type with
    | some ty => exact (define owner id ty).bind fun _ => .pure _
    | none => exact (failAt ..).bind fun _ => .pure _

theorem attributeAfter (pos : Pos) (object : Expr) (throughThis : Bool) (attr : String)
    (assigned : Ty) :
    Tracks f (attributeAfter t pos object throughThis attr assigned)
      (Translate.attributeAfter t (f.node pos) object throughThis attr assigned) := by
  unfold Translate.attributeAfter
  refine .get fun s => ?_
  rw [State.hierarchy_relocate]
  refine .walk_bind ?_
  cases s.hierarchy.attribute? object.type.head attr with
  | some found =>
    refine .walk_bind ?_
    cases unify s.hierarchy found.2.ty assigned with
    | none => exact .failAt ..
    | some ty => exact .bind (.modify fun _ => rfl) fun _ => .pure _
  | none => exact .ite rfl (.bind (.modify fun _ => rfl) fun _ => .pure _) (.failAt ..)

theorem assignAttribute (pos : Pos) (object : Expr) (attr : String) (value : Expr) :
    Tracks f (assignAttribute t pos object attr value)
      (Translate.assignAttribute t (f.node pos) object attr value) := by
  unfold Translate.assignAttribute
  refine .get fun s => .ite rfl (.failAt ..) ?_
  split
  · exact (attributeAfter ..).bind fun _ => .pure _
  · exact (attributeAfter ..).bind fun _ => .pure _

theorem assignElement (ctx : Context) (sequence index value : Expr) :
    Tracks f (assignElement ctx sequence index value)
      (Translate.assignElement ctx sequence index value) := by
  unfold Translate.assignElement
  refine .get fun s => .walk_bind (.check_bind fun stored => .ite rfl (.pure _) ?_)
  exact (refine ctx sequence stored).bind fun _ => .pure _

section Statements

variable (infers : t.infer.Tracks f) (ctx : Context)

include infers

theorem expr (e : Tree.Expr) : Tracks f (expr t e ctx) (Translate.expr t (e.relocate f) ctx) :=
  (expr_tracks infers e).run ctx

theorem assignTo (target : Tree.Expr) (value : Expr) :
    Tracks f (assignTo t ctx target value)
      (Translate.assignTo t ctx (target.relocate f) value) := by
  unfold Translate.assignTo
  rw [Tree.Expr.pos_relocate, Tree.Expr.kind_relocate]
  cases target.kind with
  | name id => exact assignName ..
  | attr object attr => exact (expr infers ctx object).bind fun _ => assignAttribute ..
  | subscript sequence slice =>
    cases slice with
    | index index =>
      exact (expr infers ctx sequence).bind fun _ => (expr infers ctx index).bind
        fun _ => assignElement ..
    | slice lower upper step => exact .fail _
  | _ => exact .fail _

/-! ## Statements without blocks -/

theorem assignNode (targets : List Tree.Expr) (value : Tree.Expr) :
    Tracks f (assignNode t ctx targets value)
      (Translate.assignNode t ctx (Expr.relocateAll f targets) (value.relocate f)) := by
  match targets with
  | [target] => exact (expr infers ctx value).bind fun value => assignTo infers ctx target value
  | [] | _ :: _ :: _ => exact .fail _

theorem augAssignNode (target value : Tree.Expr) (op : Tree.BinaryOperator) :
    Tracks f (augAssignNode t ctx target op value)
      (Translate.augAssignNode t ctx (target.relocate f) op (value.relocate f)) :=
  (expr infers ctx target).bind fun _ => (expr infers ctx value).bind fun _ =>
    .check_bind fun combined => assignTo infers ctx target combined

theorem returnNode (value : Option Tree.Expr) :
    Tracks f (returnNode t ctx value)
      (Translate.returnNode t ctx (Expr.relocateOption f value)) := by
  have returned : Tracks f (returnValue t ctx value)
      (returnValue t ctx (Expr.relocateOption f value)) := by
    cases value with
    | some value => exact expr infers ctx value
    | none => exact .pure _
  unfold Translate.returnNode
  rw [Tree.Expr.isSome_relocateOption]
  cases ctx.definition with
  | none => exact .fail _
  | some found =>
    refine .ite rfl (.fail _) (returned.bind fun node => .ite rfl ?_ (.pure _))
    refine (signature found.2).bind fun current => .check_bind fun merged => ?_
    exact (setSignature found.2 _).bind fun _ => .pure _

omit infers in
theorem jumpNode (what : String) (jump : Stmt) :
    Tracks f (jumpNode ctx what jump) (Translate.jumpNode ctx what jump) :=
  .ite rfl (.pure _) (.fail _)

theorem testOf (test : Tree.Expr) :
    Tracks f (testOf t ctx test) (Translate.testOf t ctx (test.relocate f)) :=
  (expr infers ctx test).bind fun _ => .check _

theorem raiseNode (exc : Tree.Expr) :
    Tracks f (raiseNode t ctx exc) (Translate.raiseNode t ctx (exc.relocate f)) := by
  unfold Translate.raiseNode
  rw [Tree.Expr.kind_relocate]
  cases exc.kind with
  | call func args keywords =>
    cases keywords with
    | cons keyword rest => exact .fail _
    | nil =>
      simp only [Tree.ExprKind.relocate, Tree.Keyword.relocateAll, Tree.Expr.kind_relocate,
        Tree.Expr.pos_relocate]
      cases func.kind with
      | name id =>
        refine .get fun s => .ite rfl (.failAt ..) ?_
        match args with
        | [message] =>
          simp only [Expr.relocateAll, Tree.Expr.pos_relocate]
          exact (expr infers ctx message).bind fun value => .ite rfl (.pure _) (.failAt ..)
        | [] => exact .fail _
        | first :: second :: rest =>
          simp only [Expr.relocateAll, List.length_cons, Tree.Expr.length_relocateAll]
          exact .fail _
      | _ => exact .fail _
  | _ => exact .fail _

theorem withNode (items : List Tree.WithItem) (body : List Tree.Stmt) :
    Tracks f (withNode t ctx items body)
      (Translate.withNode t ctx (items.map (Tree.WithItem.relocate f))
        (Stmt.relocateAll f body)) := by
  unfold Translate.withNode
  rw [FileBlock.ofParts?_relocate]
  dsimp only
  cases FileBlock.ofParts? items body with
  | error place =>
    cases place with
    | some pos => exact .failAt ..
    | none => exact .fail _
  | ok found =>
    cases found with
    | read path target pos =>
      refine (expr infers ctx path).bind fun path => (expand ..).bind fun text => ?_
      exact (assignTo infers ctx target text).located pos
    | write path text pos =>
      refine (expr infers ctx path).bind fun path => (expr infers ctx text).bind fun text => ?_
      exact ((expand ..).located pos).bind fun _ => .pure _

end Statements

theorem handledException (h : Hierarchy) (type : Option Tree.Expr) :
    Tracks f (handledException h type)
      (Translate.handledException h (Expr.relocateOption f type)) := by
  cases type with
  | none => exact .pure _
  | some type =>
    unfold Translate.handledException
    simp only [Expr.relocateOption, Tree.Expr.kind_relocate, Tree.Expr.pos_relocate]
    cases type.kind with
    | name id => exact .ite rfl (.pure _) (.failAt ..)
    | _ => exact .failAt ..

theorem nextException (pos : Pos) (type : Option Tree.Expr) (caught : List String) :
    Tracks f (nextException pos type caught)
      (Translate.nextException (f.node pos) (Expr.relocateOption f type) caught) := by
  unfold Translate.nextException
  refine .get fun s => ?_
  rw [State.hierarchy_relocate]
  refine (handledException s.hierarchy type).bind fun exception => .walk_bind ?_
  cases caught.find? _ with
  | some earlier => exact .failAt ..
  | none => exact .pure _

end Tracks

/-! ## Blocks -/

mutual

theorem stmt_tracks (infers : t.infer.Tracks f) : ∀ (s : Tree.Stmt) (ctx : Context),
    Tracks f (stmt t s ctx) (stmt t (s.relocate f) ctx)
  | ⟨kind, pos⟩, ctx => by
    simp only [stmt, Tree.Stmt.relocate]
    exact (stmtKind_tracks infers kind ctx).located pos

theorem stmtKind_tracks (infers : t.infer.Tracks f) : ∀ (kind : Tree.StmtKind) (ctx : Context),
    Tracks f (stmtKind t kind ctx) (stmtKind t (kind.relocate f) ctx)
  | .expr value, ctx => by
    simp only [stmtKind, Tree.StmtKind.relocate]
    exact (Tracks.expr infers ctx value).bind fun _ => .pure _
  | .assign targets value, ctx => by
    simp only [stmtKind, Tree.StmtKind.relocate]
    exact (Tracks.assignNode infers ctx targets value).map
  | .augAssign target op value, ctx => by
    simp only [stmtKind, Tree.StmtKind.relocate]
    exact (Tracks.augAssignNode infers ctx target value op).map
  | .ret value, ctx => by
    simp only [stmtKind, Tree.StmtKind.relocate]
    exact (Tracks.returnNode infers ctx value).map
  | .ifElse test body orelse, ctx => by
    simp only [stmtKind, Tree.StmtKind.relocate]
    refine (Tracks.testOf infers ctx test).bind fun _ => ?_
    refine (block_tracks infers body ctx).bind fun _ => ?_
    exact (otherwise_tracks infers orelse (block_tracks infers orelse) ctx).bind fun _ => .pure _
  | .whileLoop test body [], ctx => by
    simp only [stmtKind, Tree.StmtKind.relocate, Stmt.relocateAll]
    refine (Tracks.testOf infers ctx test).bind fun _ => ?_
    exact (block_tracks infers body ctx.looping).bind fun _ => .pure _
  | .whileLoop _ _ (_ :: _), _ => .fail _
  | .forLoop target iter body [], ctx => by
    simp only [stmtKind, Tree.StmtKind.relocate, Stmt.relocateAll]
    refine (Tracks.loopHead (expr_tracks infers iter) (iterated_tracks infers iter) ctx
      target).bind fun head => ?_
    refine (Tracks.inScope fun scope => ?_).bind fun _ => .pure _
    exact block_tracks infers body (ctx.inScope scope).looping
  | .forLoop _ _ _ (_ :: _), _ => .fail _
  | .tryExcept body cases [] [], ctx => by
    simp only [stmtKind, Tree.StmtKind.relocate, Stmt.relocateAll]
    refine (block_tracks infers body (ctx.last false)).bind fun _ => ?_
    exact (handlers_track infers cases [] (ctx.last false)).bind fun _ => .pure _
  | .tryExcept _ _ (_ :: _) _, _ => .fail _
  | .tryExcept _ _ [] (_ :: _), _ => .fail _
  | .raise none (some _), _ => .fail _
  | .raise (some _) (some _), _ => .fail _
  | .raise none none, _ => .fail _
  | .raise (some exc) none, ctx => by
    simp only [stmtKind, Tree.StmtKind.relocate, Expr.relocateOption]
    exact (Tracks.raiseNode infers ctx exc).map
  | .withItems items body, ctx => by
    simp only [stmtKind, Tree.StmtKind.relocate]
    exact (Tracks.withNode infers ctx items body).map
  | .breakLoop, ctx => by
    simp only [stmtKind, Tree.StmtKind.relocate]
    exact (Tracks.jumpNode ..).map
  | .continueLoop, ctx => by
    simp only [stmtKind, Tree.StmtKind.relocate]
    exact (Tracks.jumpNode ..).map
  | .pass, _ => .pure _
  | .functionDef _, _ => .fail _
  | .classDef _, _ => .fail _
  | .importNames _, _ => .fail _
  | .importFrom .., _ => .fail _
  | .globalNames _, _ => .fail _
  | .nonlocalNames _, _ => .fail _
  | .delete _, _ => .fail _

theorem otherwise_tracks (infers : t.infer.Tracks f) :
    ∀ (orelse : List Tree.Stmt) {whole whole' : Context → Run (List Stmt)},
    (∀ ctx, Tracks f (whole ctx) (whole' ctx)) → ∀ ctx : Context,
      Tracks f (otherwise t whole orelse ctx)
        (otherwise t whole' (Stmt.relocateAll f orelse) ctx)
  | [], _, _, _, _ => .pure _
  | [⟨kind, pos⟩], whole, whole', tracksWhole, ctx => by
    cases kind with
    | ifElse test body orelse =>
      simp only [otherwise, Stmt.relocateAll, Tree.Stmt.relocate, Tree.StmtKind.relocate]
      refine Tracks.located ((Tracks.testOf infers ctx test).bind fun _ => ?_) pos
      refine (block_tracks infers body ctx).bind fun _ => ?_
      exact (otherwise_tracks infers orelse (block_tracks infers orelse) ctx).bind
        fun _ => .pure _
    | _ =>
      simp only [otherwise, Stmt.relocateAll, Tree.Stmt.relocate, Tree.StmtKind.relocate]
      exact (tracksWhole ctx).map
  | first :: second :: rest, whole, whole', tracksWhole, ctx => by
    have several : ∀ (whole : Context → Run (List Stmt)) (a b : Tree.Stmt) rest,
        otherwise t whole (a :: b :: rest) ctx = .block <$> whole ctx := fun _ _ _ _ => by
      simp only [otherwise]
    rw [Stmt.relocateAll, Stmt.relocateAll, several, several]
    exact (tracksWhole ctx).map

theorem block_tracks (infers : t.infer.Tracks f) : ∀ (body : List Tree.Stmt) (ctx : Context),
    Tracks f (block t body ctx) (block t (Stmt.relocateAll f body) ctx)
  | [], _ => .pure _
  | s :: rest, ctx => by
    simp only [block, Stmt.relocateAll, Tree.Stmt.isEmpty_relocateAll]
    refine (stmt_tracks infers s _).bind fun _ => ?_
    exact (block_tracks infers rest ctx).bind fun _ => .pure _

theorem handlers_track (infers : t.infer.Tracks f) :
    ∀ (cases : List Tree.ExceptHandler) (caught : List String) (ctx : Context),
      Tracks f (handlers t cases caught ctx)
        (handlers t (ExceptHandler.relocateAll f cases) caught ctx)
  | [], _, _ => .pure _
  | ⟨type, name, body, pos⟩ :: rest, caught, ctx => by
    simp only [handlers, ExceptHandler.relocateAll, Tree.ExceptHandler.relocate]
    refine (Tracks.nextException pos type caught).bind fun exception => ?_
    have handled : Tracks f
        (located pos <| inScope ctx.scope (handlerBindings exception name) fun scope =>
          block t body (ctx.inScope scope))
        (located (f.node pos) <| inScope ctx.scope (handlerBindings exception name) fun scope =>
          block t (Stmt.relocateAll f body) (ctx.inScope scope)) :=
      Tracks.located (.inScope fun scope => block_tracks infers body (ctx.inScope scope)) pos
    refine handled.bind fun _ => ?_
    exact (handlers_track infers rest (caught ++ [exception]) ctx).bind fun _ => .pure _

end

/-! ## Bodies -/

theorem beginDefinition_tracks (key : DefKey) :
    TracksTo f (Tree.FunctionDef.relocate f) (beginDefinition key) (beginDefinition key) := by
  unfold beginDefinition
  refine .get fun s => ?_
  rw [State.definitions_relocate, Definitions.begin?_relocate]
  cases s.definitions.begin? key with
  | none => exact .abort _
  | some begun => exact .bind (Tracks.set rfl) fun _ => .pure _

theorem parameterNames_relocate (key : DefKey) (definition : Tree.FunctionDef) :
    parameterNames key (definition.relocate f) = parameterNames key definition := by
  unfold parameterNames
  rw [Tree.FunctionDef.args_relocate, Tree.name_arg_relocate]

namespace Tracks

theorem finishDefinition (key : DefKey) (cell : CellId) (names : List String)
    (block : List Stmt) :
    Tracks f (finishDefinition key cell names block)
      (Translate.finishDefinition key cell names block) := by
  refine (signature cell).bind fun found => (setSignature cell _).bind fun _ => ?_
  refine .bind (.modify fun s => ?_) fun _ => .pure _
  rw [State.definitions_relocate, Definitions.finish_relocate]
  rfl

theorem answer (key : DefKey) (cell : CellId) (args : List Ty) (ret : Ty) (phase : Phase) :
    Tracks f (answer key cell args ret phase) (Translate.answer key cell args ret phase) :=
  (signature cell).bind fun _ => .bind (.modify fun _ => rfl) fun _ => .pure _

theorem inferBody (infers : t.infer.Tracks f) (key : DefKey) (cell : CellId)
    (params : List Ty) :
    Tracks f (inferBody t key cell params) (Translate.inferBody t key cell params) := by
  refine TracksTo.bind (beginDefinition_tracks key) fun definition => ?_
  rw [parameterNames_relocate, Tree.FunctionDef.body_relocate]
  refine (signature cell).bind fun found => (setSignature cell _).bind fun _ => ?_
  refine (inScope fun scope => ?_).bind fun block => finishDefinition key cell _ block
  exact block_tracks infers definition.body _

theorem inferCall (infers : t.infer.Tracks f) : (Translate.inferCall t).Tracks f := by
  intro key cell args pos
  unfold Translate.inferCall
  refine (signature cell).bind fun current => .get fun s => .walk_bind ?_
  refine ((check _).located pos).bind fun params => .get fun s => ?_
  rw [State.definitions_relocate, Definitions.phase?_relocate]
  cases s.definitions.phase? key with
  | none => exact .failAt ..
  | some phase =>
    cases phase with
    | resolved => exact (setSignature cell _).bind fun _ => answer ..
    | inProgress => exact .ite rfl (.failAt ..) ((setSignature cell _).bind fun _ => answer ..)
    | unresolved => exact (inferBody infers key cell params).bind fun _ => answer ..

end Tracks

theorem inferAt_tracks (setting : Setting) (n : Nat) : (inferAt setting n).Tracks f := by
  induction n with
  | zero => exact fun _ _ _ _ => .abort _
  | succ n ih => exact Tracks.inferCall (t := ⟨setting, inferAt setting n⟩) ih

end TreeTyper.Translate
