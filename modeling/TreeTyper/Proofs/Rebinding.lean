import TreeTyper.Proofs.Gives
import TreeTyper.Proofs.Sight
import TreeTyper.Translate.Stmt

/-!
# No statement binds a constant again

An assignment to a variable and the head of a loop are both checked against the
constants of the module.  So no block assigns one or has a loop with a variable of
that name; a handler may still catch an exception under it.

    (block t body ctx).run s = (.ok nodes, s') →
      Spares t.setting.constants (blockAssigned nodes) (blockBinders nodes)      (block_spares)
-/

namespace TreeTyper.Translate

open Typed

variable {constants : List String} {t : Translator} {ctx : Context}

/-- No assigned name is a constant, and no variable of a loop has the name of one. -/
structure Spares (constants assigned : List String) (binders : List Binder) : Prop where
  assigned : ∀ name ∈ assigned, name ∉ constants
  binders : ∀ b ∈ binders, b.name ∉ constants

namespace Spares

theorem nil : Spares constants [] [] :=
  ⟨List.forall_mem_nil _, List.forall_mem_nil _⟩

theorem append {assigned assigned' : List String} {binders binders' : List Binder}
    (first : Spares constants assigned binders) (second : Spares constants assigned' binders') :
    Spares constants (assigned ++ assigned') (binders ++ binders') :=
  ⟨List.forall_mem_append.mpr ⟨first.assigned, second.assigned⟩,
    List.forall_mem_append.mpr ⟨first.binders, second.binders⟩⟩

end Spares

/-- A statement binds no constant. -/
abbrev SparesIn (t : Translator) (st : Stmt) : Prop :=
  Spares t.setting.constants st.assigned st.binders

theorem Spares.stmt {st : Stmt} (spares : SparesIn t st) : ∀ st' ∈ some st, SparesIn t st' :=
  fun _ same => Option.mem_some_iff.mp same ▸ spares

/-! ## Assignments -/

theorem assignTo_spares (target : Tree.Expr) (value : Expr) :
    Gives (assignTo t ctx target value) (SparesIn t) := by
  obtain ⟨kind, pos⟩ := target
  unfold assignTo
  dsimp only
  split
  · next id =>
    unfold assignName
    split
    · exact .failAt
    next changes =>
    -- the check for constants has been passed
    have spares : ∀ value, SparesIn t (.localAssignment id value) := fun _ =>
      ⟨fun name listed => List.mem_singleton.mp listed ▸ changes, List.forall_mem_nil _⟩
    split
    · exact .failAt
    refine .skip fun owner => ?_
    split
    · refine .skip fun s => .walk_bind ?_
      split
      · exact .skip fun _ => .pure (spares value)
      · exact .skip fun _ => .pure (spares value)
    · exact .skip fun _ => .pure (spares value)
  · refine .skip fun object => ?_
    unfold assignAttribute
    refine .skip fun s => ?_
    split
    · exact .failAt
    split
    · exact .skip fun _ => .pure .nil
    · exact .skip fun _ => .pure .nil
  · refine .skip fun sequence => .skip fun index => ?_
    unfold assignElement
    refine .skip fun s => .walk_bind (.skip fun stored => ?_)
    dsimp only
    split
    · exact .skip fun sequence => .pure .nil
    · exact .skip fun sequence => .pure .nil
  all_goals exact .fail

theorem assignNode_spares (targets : List Tree.Expr) (value : Tree.Expr) :
    Gives (assignNode t ctx targets value) (SparesIn t) := by
  unfold assignNode
  split
  · exact .skip fun value => assignTo_spares _ value
  · exact .fail

theorem augAssignNode_spares (target : Tree.Expr) (op : Tree.BinaryOperator) (value : Tree.Expr) :
    Gives (augAssignNode t ctx target op value) (SparesIn t) := by
  unfold augAssignNode
  exact .skip fun current => .skip fun value => .skip fun combined => assignTo_spares target _

theorem returnNode_spares (value : Option Tree.Expr) :
    Gives (returnNode t ctx value) (SparesIn t) := by
  unfold returnNode
  split
  · exact .fail
  split
  · exact .fail
  refine .skip fun node => ?_
  split
  · exact .skip fun current => .skip fun merged => .skip fun _ => .pure .nil
  · exact .pure .nil

theorem jumpNode_spares (what : String) {jump : Stmt} (spares : SparesIn t jump) :
    Gives (jumpNode ctx what jump) (SparesIn t) := by
  unfold jumpNode
  split
  · exact .pure spares
  · exact .fail

theorem raiseNode_spares (exc : Tree.Expr) : Gives (raiseNode t ctx exc) (SparesIn t) := by
  unfold raiseNode
  split
  · split
    · refine .skip fun s => ?_
      split
      · exact .failAt
      split
      · refine .skip fun value => ?_
        split
        · exact .pure .nil
        · exact .failAt
      · exact .fail
    · exact .fail
  · exact .fail

theorem withNode_spares (items : List Tree.WithItem) (body : List Tree.Stmt) :
    Gives (withNode t ctx items body) (SparesIn t) := by
  unfold withNode
  split
  · exact .failAt
  · exact .fail
  · exact .skip fun path => .skip fun text => .located (assignTo_spares _ text)
  · exact .skip fun path => .skip fun text => .skip fun call => .pure .nil

/-! ## Loops -/

theorem checkLoopVariable_spares (target : Tree.Expr) (name : String) :
    Gives (checkLoopVariable t ctx target name) fun _ => name ∉ t.setting.constants := by
  unfold checkLoopVariable
  split
  · exact .failAt
  refine .skip fun bound => ?_
  split
  · exact .skip fun owner => .failAt
  · next changes =>
    refine .pure fun isConstant => changes ?_
    rw [decide_eq_true isConstant, Bool.true_or]

theorem checkLoopVariables_spares (target : Tree.Expr) (binders : List Binder) :
    Gives (checkLoopVariables t ctx target binders)
      fun _ => ∀ b ∈ binders, b.name ∉ t.setting.constants := by
  induction binders with
  | nil => exact .pure (List.forall_mem_nil _)
  | cons b rest ih =>
    unfold checkLoopVariables
    refine (checkLoopVariable_spares target b.name).bind fun _ first => ?_
    exact ih.imp fun _ others => List.forall_mem_cons.mpr ⟨first, others⟩

theorem loopHead_spares (target : Tree.Expr) (iter : Deferred) (form : Iterated) :
    Gives (loopHead t ctx target iter form)
      fun head => Spares t.setting.constants [] head.binders := by
  unfold loopHead
  refine .skip fun head => (checkLoopVariables_spares target head.binders).bind fun _ spares => ?_
  exact .pure { Spares.nil with binders := spares }

theorem LoopHead.spares_stmt (head : LoopHead) {inside : List Stmt}
    (spares : Spares constants [] head.binders)
    (block : Spares constants (blockAssigned inside) (blockBinders inside)) :
    Spares constants (head.stmt inside).assigned (head.stmt inside).binders := by
  cases head with
  | range => exact spares.append block
  | iterate => exact spares.append block

/-! ## Blocks -/

mutual

theorem stmt_spares (t : Translator) : ∀ (st : Tree.Stmt) (ctx : Context),
    Gives (stmt t st ctx) fun node => ∀ st ∈ node, SparesIn t st
  | ⟨kind, _⟩, ctx => Gives.located (stmtKind_spares t kind ctx)

theorem stmtKind_spares (t : Translator) : ∀ (kind : Tree.StmtKind) (ctx : Context),
    Gives (stmtKind t kind ctx) fun node => ∀ st ∈ node, SparesIn t st
  | .expr value, ctx => by
    simp only [stmtKind]
    exact .skip fun node => .pure (.stmt .nil)
  | .assign targets value, ctx => by
    simp only [stmtKind]
    exact .map ((assignNode_spares targets value).imp fun st spares => .stmt spares)
  | .augAssign target op value, ctx => by
    simp only [stmtKind]
    exact .map ((augAssignNode_spares target op value).imp fun st spares => .stmt spares)
  | .ret value, ctx => by
    simp only [stmtKind]
    exact .map ((returnNode_spares value).imp fun st spares => .stmt spares)
  | .ifElse test body orelse, ctx => by
    simp only [stmtKind]
    refine .skip fun test => (block_spares t body ctx).bind fun inside first => ?_
    refine (otherwise_spares t orelse (block_spares t orelse) ctx).bind fun after second =>
      .pure (.stmt (first.append second))
  | .whileLoop test body [], ctx => by
    simp only [stmtKind]
    refine .skip fun test => (block_spares t body ctx.looping).bind fun inside spares => .pure (.stmt spares)
  | .whileLoop _ _ (_ :: _), _ => Gives.fail
  | .forLoop target iter body [], ctx => by
    simp only [stmtKind]
    refine (loopHead_spares target _ _).bind fun head first => ?_
    refine (Gives.inScope fun scope =>
      block_spares t body (ctx.inScope scope).looping).bind fun inside second => .pure (.stmt ?_)
    exact head.spares_stmt first second
  | .forLoop _ _ _ (_ :: _), _ => Gives.fail
  | .tryExcept body cases [] [], ctx => by
    simp only [stmtKind]
    refine (block_spares t body (ctx.last false)).bind fun inside first => ?_
    refine (handlers_spare t cases [] (ctx.last false)).bind fun others second => ?_
    exact .pure (.stmt (first.append second))
  | .tryExcept _ _ (_ :: _) _, _ => Gives.fail
  | .tryExcept _ _ [] (_ :: _), _ => Gives.fail
  | .raise none (some _), _ => Gives.fail
  | .raise (some _) (some _), _ => Gives.fail
  | .raise none none, _ => Gives.fail
  | .raise (some exc) none, ctx => by
    simp only [stmtKind]
    exact .map ((raiseNode_spares exc).imp fun st spares => .stmt spares)
  | .withItems items body, ctx => by
    simp only [stmtKind]
    exact .map ((withNode_spares items body).imp fun st spares => .stmt spares)
  | .breakLoop, ctx => by
    simp only [stmtKind]
    exact .map ((jumpNode_spares _ .nil).imp fun st spares => .stmt spares)
  | .continueLoop, ctx => by
    simp only [stmtKind]
    exact .map ((jumpNode_spares _ .nil).imp fun st spares => .stmt spares)
  | .pass, _ => Gives.pure (by simp)
  | .functionDef _, _ => Gives.fail
  | .classDef _, _ => Gives.fail
  | .importNames _, _ => Gives.fail
  | .importFrom .., _ => Gives.fail
  | .globalNames _, _ => Gives.fail
  | .nonlocalNames _, _ => Gives.fail
  | .delete _, _ => Gives.fail

theorem otherwise_spares (t : Translator) : ∀ (orelse : List Tree.Stmt)
    {whole : Context → Run (List Stmt)},
    (∀ ctx, Gives (whole ctx)
      fun nodes => Spares t.setting.constants (blockAssigned nodes) (blockBinders nodes)) →
    ∀ ctx, Gives (otherwise t whole orelse ctx)
      fun after => Spares t.setting.constants after.assigned after.binders
  | [], _, _, _ => Gives.pure .nil
  | [⟨kind, pos⟩], whole, spares, ctx => by
    cases kind with
    | ifElse test body orelse =>
      simp only [otherwise]
      refine .located (.skip fun test => ?_)
      refine (block_spares t body ctx).bind fun inside first => ?_
      refine (otherwise_spares t orelse (block_spares t orelse) ctx).bind fun after second => ?_
      exact .pure (first.append second)
    | _ =>
      simp only [otherwise]
      exact .map (spares ctx)
  | _ :: _ :: _, whole, spares, ctx => by
    simp only [otherwise]
    exact .map (spares ctx)

/-- A block assigns no constant, and no loop in it has a variable of that name. -/
theorem block_spares (t : Translator) : ∀ (body : List Tree.Stmt) (ctx : Context),
    Gives (block t body ctx)
      fun nodes => Spares t.setting.constants (blockAssigned nodes) (blockBinders nodes)
  | [], _ => Gives.pure .nil
  | st :: rest, ctx => by
    simp only [block]
    refine (stmt_spares t st _).bind fun node first => ?_
    refine (block_spares t rest ctx).bind fun nodes second => .pure ?_
    cases node with
    | none => exact second
    | some node => exact (first node rfl).append second

theorem handlers_spare (t : Translator) : ∀ (cases : List Tree.ExceptHandler)
    (caught : List String) (ctx : Context), Gives (handlers t cases caught ctx)
      fun hs => Spares t.setting.constants (handlersAssigned hs) (handlerBinders hs)
  | [], _, _ => Gives.pure .nil
  | ⟨type, name, body, pos⟩ :: rest, caught, ctx => by
    simp only [handlers]
    refine .skip fun exception => ?_
    refine (Gives.located (Gives.inScope fun scope =>
      block_spares t body (ctx.inScope scope))).bind fun handled first => ?_
    refine (handlers_spare t rest (caught ++ [exception]) ctx).bind fun others second => ?_
    exact .pure (first.append second)

end

end TreeTyper.Translate
