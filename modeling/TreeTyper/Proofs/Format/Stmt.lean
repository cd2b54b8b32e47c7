import TreeTyper.Proofs.Format.Expr

/-!
# Written statements and modules are read back

A module without floats is read back from the value that is written for it, at any depth and with
every optional part there or not.

    s.isFloatFree → s.json.depth ≤ levels → Stmt.readAt levels s.json = some s     (Stmt.readAt_json)
    m.isFloatFree → Module.read? m.json = some m                                   (Module.read?_json)
-/

namespace TreeTyper.Tree

open Json

/-! ## Trees without floats -/

def WithItem.isFloatFree (item : WithItem) : Bool :=
  item.context.isFloatFree && optionFloatFree item.vars

mutual

/-- Whether no float literal stands in the statement. -/
def Stmt.isFloatFree : Stmt → Bool
  | ⟨kind, _⟩ => kind.isFloatFree

def StmtKind.isFloatFree : StmtKind → Bool
  | .functionDef definition => definition.isFloatFree
  | .classDef definition => definition.isFloatFree
  | .assign targets value => allFloatFree targets && value.isFloatFree
  | .augAssign target _ value => target.isFloatFree && value.isFloatFree
  | .expr value => value.isFloatFree
  | .ret value => optionFloatFree value
  | .ifElse test body orelse =>
    test.isFloatFree && (blockFloatFree body && blockFloatFree orelse)
  | .whileLoop test body orelse =>
    test.isFloatFree && (blockFloatFree body && blockFloatFree orelse)
  | .forLoop target iter body orelse =>
    target.isFloatFree && (iter.isFloatFree && (blockFloatFree body && blockFloatFree orelse))
  | .tryExcept body handlers orelse finalbody =>
    blockFloatFree body &&
      (handlersFloatFree handlers && (blockFloatFree orelse && blockFloatFree finalbody))
  | .raise exc cause => optionFloatFree exc && optionFloatFree cause
  | .withItems items body => items.all (·.isFloatFree) && blockFloatFree body
  | .importNames _ | .importFrom .. | .globalNames _ | .nonlocalNames _ => true
  | .delete targets => allFloatFree targets
  | .pass | .breakLoop | .continueLoop => true

def FunctionDef.isFloatFree : FunctionDef → Bool
  | ⟨_, args, body, decorators⟩ =>
    args.isFloatFree && (blockFloatFree body && allFloatFree decorators)

def ClassDef.isFloatFree : ClassDef → Bool
  | ⟨_, bases, body, decorators⟩ =>
    allFloatFree bases && (blockFloatFree body && allFloatFree decorators)

def ExceptHandler.isFloatFree : ExceptHandler → Bool
  | ⟨type, _, body, _⟩ => optionFloatFree type && blockFloatFree body

def handlersFloatFree : List ExceptHandler → Bool
  | [] => true
  | h :: hs => h.isFloatFree && handlersFloatFree hs

def blockFloatFree : List Stmt → Bool
  | [] => true
  | s :: ss => s.isFloatFree && blockFloatFree ss

end

/-- Whether no float literal stands in the module. -/
def Module.isFloatFree (m : Module) : Bool := blockFloatFree m.body

theorem handlersFloatFree_iff {hs : List ExceptHandler} :
    handlersFloatFree hs ↔ ∀ h ∈ hs, h.isFloatFree := by
  induction hs with
  | nil => simp [handlersFloatFree]
  | cons h hs ih => rw [handlersFloatFree, Bool.and_eq_true, ih, List.forall_mem_cons]

theorem blockFloatFree_iff {ss : List Stmt} : blockFloatFree ss ↔ ∀ s ∈ ss, s.isFloatFree := by
  induction ss with
  | nil => simp [blockFloatFree]
  | cons s ss ih => rw [blockFloatFree, Bool.and_eq_true, ih, List.forall_mem_cons]

/-! ## Statements -/

theorem stmtsJson_eq (ss : List Stmt) : stmtsJson ss = ss.map Stmt.json := by
  induction ss with
  | nil => rfl
  | cons s ss ih => rw [stmtsJson, ih, List.map_cons]

theorem handlersJson_eq (hs : List ExceptHandler) :
    handlersJson hs = hs.map ExceptHandler.json := by
  induction hs with
  | nil => rfl
  | cons h hs ih => rw [handlersJson, ih, List.map_cons]

/-- The fields of a statement have distinct names. -/
theorem StmtKind.distinct (kind : StmtKind) (pos : Json) :
    ((("pos", pos) :: kind.fields).map (·.1)).Nodup := by
  cases kind with
  | functionDef definition =>
    obtain ⟨name, args, body, decorators⟩ := definition
    simp [StmtKind.fields, FunctionDef.fields, node]
  | classDef definition =>
    obtain ⟨name, bases, body, decorators⟩ := definition
    simp [StmtKind.fields, ClassDef.fields, node]
  | _ => simp [StmtKind.fields, node]

section Statements

variable {expr : Json → Option Expr} {sub : Json → Option Stmt} {n : Nat}

/-- The reader reads back what has no floats and nests at most `n` deep. -/
def ReadsStmts (sub : Json → Option Stmt) (n : Nat) : Prop :=
  ∀ s : Stmt, s.isFloatFree → s.json.depth ≤ n → sub s.json = some s

theorem ReadsStmts.list (reads : ReadsStmts sub n) {ss : List Stmt} (free : blockFloatFree ss)
    (bound : (arr (stmtsJson ss)).depth ≤ n) : list? sub (.arr (stmtsJson ss)) = some ss := by
  rw [stmtsJson_eq] at bound ⊢
  exact list?_of_depth (fun s listed => reads s (blockFloatFree_iff.mp free s listed)) bound

theorem ReadsStmts.handler (inner : ReadsExprs expr n) (reads : ReadsStmts sub n)
    {h : ExceptHandler} (free : h.isFloatFree) (bound : h.json.depth ≤ n) :
    ExceptHandler.readWith expr sub h.json = some h := by
  obtain ⟨type, name, body, pos⟩ := h
  simp only [ExceptHandler.isFloatFree, Bool.and_eq_true] at free
  rw [ExceptHandler.json, depth_object (by simp)] at bound
  simp only [depthOfFields] at bound
  rw [ExceptHandler.readWith, ExceptHandler.json, record?_object (by simp)]
  change (optional expr (some (optionJson type))).bind (fun type =>
    (optional str? (some (ofOption .str name))).bind fun name =>
    (list? sub (.arr (stmtsJson body))).bind fun body =>
    (Pos.field? (some pos.json)).bind fun pos =>
      some (ExceptHandler.mk type name body pos)) = _
  rw [inner.option free.1 (by omega), optional_str, reads.list free.2 (by omega), Pos.field?_json]
  rfl

theorem ReadsStmts.handlers (inner : ReadsExprs expr n) (reads : ReadsStmts sub n)
    {hs : List ExceptHandler} (free : handlersFloatFree hs)
    (bound : (arr (handlersJson hs)).depth ≤ n) :
    list? (ExceptHandler.readWith expr sub) (.arr (handlersJson hs)) = some hs := by
  rw [handlersJson_eq] at bound ⊢
  exact list?_of_depth
    (fun h listed => reads.handler inner (handlersFloatFree_iff.mp free h listed)) bound

theorem ReadsExprs.withItem (reads : ReadsExprs expr n) {item : WithItem}
    (free : item.isFloatFree) (bound : item.json.depth ≤ n) :
    WithItem.readWith expr item.json = some item := by
  obtain ⟨context, vars⟩ := item
  simp only [WithItem.isFloatFree, Bool.and_eq_true] at free
  rw [WithItem.json, depth_object (by simp)] at bound
  simp only [depthOfFields] at bound
  rw [WithItem.readWith, WithItem.json, record?_object (by simp)]
  change (expr context.json).bind (fun context => (optional expr (some (optionJson vars))).bind
    fun vars => some (WithItem.mk context vars)) = _
  rw [reads context free.1 (by omega), reads.option free.2 (by omega)]
  rfl

theorem ReadsExprs.withItems (reads : ReadsExprs expr n) {items : List WithItem}
    (free : items.all (·.isFloatFree)) (bound : (arr (items.map WithItem.json)).depth ≤ n) :
    list? (WithItem.readWith expr) (.arr (items.map WithItem.json)) = some items :=
  list?_of_depth (fun item listed => reads.withItem (List.all_eq_true.mp free item listed)) bound

theorem list?_aliases (names : List Alias) :
    list? Alias.read? (.arr (names.map Alias.json)) = some names :=
  list?_map fun a _ => a.read?_json

/-- A statement is read from the declared fields of its object. -/
theorem StmtKind.readWith_congr {entries fields : List (String × Json)}
    (same : ∀ names, declared? names entries = declared? names fields) :
    StmtKind.readWith expr sub entries = StmtKind.readWith expr sub fields := by
  simp only [StmtKind.readWith, tagged?, same]

/-- Every form of a statement is read back from its fields. -/
theorem ReadsStmts.readWith_fields (inner : ReadsExprs expr n) (reads : ReadsStmts sub n)
    {kind : StmtKind} (free : kind.isFloatFree) (bound : depthOfFields kind.fields ≤ n) (pos : Json) :
    StmtKind.readWith expr sub (("pos", pos) :: kind.fields) = some kind := by
  -- `change` shows the reader of a kind as a chain: each link reads back what was written for it
  cases kind with
    (simp only [StmtKind.fields, node, depthOfFields] at bound
     simp only [StmtKind.isFloatFree, Bool.and_eq_true] at free)
  | functionDef definition =>
    obtain ⟨name, args, body, decorators⟩ := definition
    simp only [FunctionDef.fields, depthOfFields] at bound
    simp only [FunctionDef.isFloatFree, Bool.and_eq_true] at free
    change (Arguments.readWith expr args.json).bind (fun args =>
      (list? sub (.arr (stmtsJson body))).bind fun body =>
      (list? expr (.arr (exprsJson decorators))).bind fun decorators =>
        some (StmtKind.functionDef ⟨name, args, body, decorators⟩)) = _
    rw [inner.arguments free.1 (by omega), reads.list free.2.1 (by omega), inner.list free.2.2 (by omega)]
    rfl
  | classDef definition =>
    obtain ⟨name, bases, body, decorators⟩ := definition
    simp only [ClassDef.fields, depthOfFields] at bound
    simp only [ClassDef.isFloatFree, Bool.and_eq_true] at free
    change (list? expr (.arr (exprsJson bases))).bind (fun bases =>
      (list? sub (.arr (stmtsJson body))).bind fun body =>
      (list? expr (.arr (exprsJson decorators))).bind fun decorators =>
        some (StmtKind.classDef ⟨name, bases, body, decorators⟩)) = _
    rw [inner.list free.1 (by omega), reads.list free.2.1 (by omega), inner.list free.2.2 (by omega)]
    rfl
  | assign targets value =>
    change (list? expr (.arr (exprsJson targets))).bind (fun targets =>
      (expr value.json).bind fun value => some (StmtKind.assign targets value)) = _
    rw [inner.list free.1 (by omega), inner value free.2 (by omega)]
    rfl
  | augAssign target op value =>
    change (expr target.json).bind (fun target => (BinaryOperator.ofName? op.name).bind fun op =>
      (expr value.json).bind fun value => some (StmtKind.augAssign target op value)) = _
    rw [inner target free.1 (by omega), BinaryOperator.ofName?_name, inner value free.2 (by omega)]
    rfl
  | expr value =>
    change (expr value.json).bind (fun value => some (StmtKind.expr value)) = _
    rw [inner value free (by omega)]
    rfl
  | ret value =>
    change (optional expr (some (optionJson value))).bind (fun value =>
      some (StmtKind.ret value)) = _
    rw [inner.option free (by omega)]
    rfl
  | ifElse test body orelse =>
    change (expr test.json).bind (fun test => (list? sub (.arr (stmtsJson body))).bind fun body =>
      (list? sub (.arr (stmtsJson orelse))).bind fun orelse =>
        some (StmtKind.ifElse test body orelse)) = _
    rw [inner test free.1 (by omega), reads.list free.2.1 (by omega), reads.list free.2.2 (by omega)]
    rfl
  | whileLoop test body orelse =>
    change (expr test.json).bind (fun test => (list? sub (.arr (stmtsJson body))).bind fun body =>
      (list? sub (.arr (stmtsJson orelse))).bind fun orelse =>
        some (StmtKind.whileLoop test body orelse)) = _
    rw [inner test free.1 (by omega), reads.list free.2.1 (by omega), reads.list free.2.2 (by omega)]
    rfl
  | forLoop target iter body orelse =>
    change (expr target.json).bind (fun target => (expr iter.json).bind fun iter =>
      (list? sub (.arr (stmtsJson body))).bind fun body =>
      (list? sub (.arr (stmtsJson orelse))).bind fun orelse =>
        some (StmtKind.forLoop target iter body orelse)) = _
    rw [inner target free.1 (by omega), inner iter free.2.1 (by omega), reads.list free.2.2.1 (by omega),
      reads.list free.2.2.2 (by omega)]
    rfl
  | tryExcept body handlers orelse finalbody =>
    change (list? sub (.arr (stmtsJson body))).bind (fun body =>
      (list? (ExceptHandler.readWith expr sub) (.arr (handlersJson handlers))).bind fun handlers =>
      (list? sub (.arr (stmtsJson orelse))).bind fun orelse =>
      (list? sub (.arr (stmtsJson finalbody))).bind fun finalbody =>
        some (StmtKind.tryExcept body handlers orelse finalbody)) = _
    rw [reads.list free.1 (by omega), reads.handlers inner free.2.1 (by omega), reads.list free.2.2.1 (by omega),
      reads.list free.2.2.2 (by omega)]
    rfl
  | raise exc cause =>
    change (optional expr (some (optionJson exc))).bind (fun exc =>
      (optional expr (some (optionJson cause))).bind fun cause =>
        some (StmtKind.raise exc cause)) = _
    rw [inner.option free.1 (by omega), inner.option free.2 (by omega)]
    rfl
  | withItems items body =>
    change (list? (WithItem.readWith expr) (.arr (items.map WithItem.json))).bind (fun items =>
      (list? sub (.arr (stmtsJson body))).bind fun body =>
        some (StmtKind.withItems items body)) = _
    rw [inner.withItems free.1 (by omega), reads.list free.2 (by omega)]
    rfl
  | importNames names =>
    change (list? Alias.read? (.arr (names.map Alias.json))).bind (fun names =>
      some (StmtKind.importNames names)) = _
    rw [list?_aliases]
    rfl
  | importFrom module names =>
    change (list? Alias.read? (.arr (names.map Alias.json))).bind (fun names =>
      some (StmtKind.importFrom module names)) = _
    rw [list?_aliases]
    rfl
  | globalNames names =>
    change (list? str? (ofStrings names)).bind (fun names => some (StmtKind.globalNames names)) = _
    rw [list?_str]
    rfl
  | nonlocalNames names =>
    change (list? str? (ofStrings names)).bind (fun names =>
      some (StmtKind.nonlocalNames names)) = _
    rw [list?_str]
    rfl
  | delete targets =>
    change (list? expr (.arr (exprsJson targets))).bind (fun targets =>
      some (StmtKind.delete targets)) = _
    rw [inner.list free (by omega)]
    rfl
  | pass => rfl
  | breakLoop => rfl
  | continueLoop => rfl

/-- One level of a statement is read back if the levels inside are. -/
theorem ReadsStmts.step (inner : ReadsExprs expr n) (reads : ReadsStmts sub n) :
    ReadsStmts (Stmt.readWith expr sub) (n + 1) := by
  rintro ⟨kind, pos⟩ free bound
  have distinct := kind.distinct pos.json
  rw [Stmt.json, depth_object distinct, depthOfFields] at bound
  rw [Stmt.json, object, Stmt.readWith, declared?_ofList distinct, declared?_head distinct,
    StmtKind.readWith_congr (declared?_ofList distinct), reads.readWith_fields inner free (by omega),
    Option.bind_eq_bind, Option.bind_some]
  change (Pos.field? (some pos.json)).bind (fun pos => some (Stmt.mk kind pos)) = _
  rw [Pos.field?_json]
  rfl

end Statements

/-- Statements without floats that nest at most `levels` deep are read back. -/
theorem Stmt.readAt_json (levels : Nat) : ReadsStmts (Stmt.readAt levels) levels := by
  induction levels with
  | zero =>
    rintro ⟨kind, pos⟩ free bound
    rw [Stmt.json, depth_object (kind.distinct _)] at bound
    omega
  | succ levels ih => exact ih.step (Expr.readAt_json levels)

/-- A module without floats is read back from the value that is written for it. -/
theorem Module.read?_json (m : Module) (free : m.isFloatFree) : Module.read? m.json = some m := by
  obtain ⟨body⟩ := m
  have bound : (arr (stmtsJson body)).depth ≤ (Module.json ⟨body⟩).depth := by
    rw [Module.json, depth_object (by simp)]
    simp only [depthOfFields]
    omega
  have back := (Stmt.readAt_json (Module.json ⟨body⟩).depth).list free bound
  rw [Module.read?]
  generalize (Module.json ⟨body⟩).depth = levels at back ⊢
  rw [Module.json, record?_object (by simp)]
  change (list? (Stmt.readAt levels) (.arr (stmtsJson body))).bind (fun body =>
    some (Module.mk body)) = _
  rw [back]
  rfl

end TreeTyper.Tree
