import TreeTyper.Proofs.Caller.Call
import TreeTyper.Translate.Expr

/-!
# Expressions do not see the callers of their body

Containers, operations, subscripts and the heads of loops hand their context on to
their parts; a comprehension opens a scope of its own, above those of the body.

    t.infer.IsBlind locals → ∀ e, (⟨e, expr t e⟩ : Deferred).IsBlind locals        (expr_isBlind)
-/

namespace TreeTyper.Translate

open Typed
open Scopes (raise)

variable {locals : List Scope} {s : State} {ctx : Context} {t : Translator}

namespace Mirrors

section Containers

variable {ds : List Deferred} (blind : ∀ d ∈ ds, d.IsBlind locals)

include blind

theorem elementNodes (inside : ctx.Inside s) (container : String) (elem : Ty) :
    Mirrors locals s (elementNodes ctx container elem ds)
      (Translate.elementNodes (ctx.calledFrom locals) container elem ds) := by
  induction ds generalizing s elem with
  | nil => exact .pure _
  | cons d ds ih =>
    obtain ⟨first, rest⟩ := List.forall_mem_cons.mp blind
    unfold Translate.elementNodes
    refine (first ctx s inside).bind fun node s₁ confined => .get ?_
    rw [State.hierarchy_calledFrom]
    refine .walk_bind ?_
    cases compatible s₁.hierarchy node.type elem with
    | none => exact .failAt ..
    | some elem =>
      exact (ih rest (inside.confined confined) elem).bind fun _ _ _ => .pure _

theorem listNode (inside : ctx.Inside s) :
    Mirrors locals s (listNode ctx ds) (Translate.listNode (ctx.calledFrom locals) ds) :=
  (elementNodes blind inside "list" .hole).bind fun _ _ _ => .pure _

theorem setNode (inside : ctx.Inside s) :
    Mirrors locals s (setNode ctx ds) (Translate.setNode (ctx.calledFrom locals) ds) :=
  (elementNodes blind inside "set" .hole).bind fun _ _ _ => .pure _

theorem tupleNode (inside : ctx.Inside s) :
    Mirrors locals s (tupleNode ctx ds) (Translate.tupleNode (ctx.calledFrom locals) ds) :=
  (runAll blind inside).bind fun _ _ _ => .get (.walk_bind (.pure _))

omit blind in
theorem pairNodes {pairs : List (Deferred × Deferred)}
    (blind : ∀ p ∈ pairs, p.1.IsBlind locals ∧ p.2.IsBlind locals) (inside : ctx.Inside s)
    (key value : Ty) :
    Mirrors locals s (pairNodes ctx key value pairs)
      (Translate.pairNodes (ctx.calledFrom locals) key value pairs) := by
  induction pairs generalizing s key value with
  | nil => exact .pure _
  | cons p rest ih =>
    obtain ⟨first, others⟩ := List.forall_mem_cons.mp blind
    unfold Translate.pairNodes
    refine (first.1 ctx s inside).bind fun keyNode s₁ confined => ?_
    have inside₁ := inside.confined confined
    refine (first.2 ctx s₁ inside₁).bind fun valueNode s₂ confined' => .get ?_
    rw [State.hierarchy_calledFrom]
    refine .walk_bind ?_
    cases unify s₂.hierarchy key keyNode.type with
    | none => exact .failAt ..
    | some key =>
      refine .walk_bind ?_
      cases unify s₂.hierarchy value valueNode.type with
      | none => exact .failAt ..
      | some value =>
        exact (ih others (inside₁.confined confined') key value).bind fun _ _ _ => .pure _

theorem dictNode {keys : List Deferred} (blindKeys : ∀ d ∈ keys, d.IsBlind locals)
    (inside : ctx.Inside s) :
    Mirrors locals s (dictNode ctx keys ds) (Translate.dictNode (ctx.calledFrom locals) keys ds) := by
  refine (pairNodes (fun p hp => ?_) inside .hole .hole).bind fun _ _ _ => .pure _
  exact ⟨blindKeys p.1 (List.of_mem_zip hp).1, blind p.2 (List.of_mem_zip hp).2⟩

/-! ## Operations on several operands -/

theorem testNodes (inside : ctx.Inside s) :
    Mirrors locals s (testNodes ctx ds) (Translate.testNodes (ctx.calledFrom locals) ds) := by
  induction ds generalizing s with
  | nil => exact .pure _
  | cons d ds ih =>
    obtain ⟨first, rest⟩ := List.forall_mem_cons.mp blind
    unfold Translate.testNodes
    refine (first ctx s inside).bind fun node s₁ confined => .check_bind fun test => ?_
    exact (ih rest (inside.confined confined)).bind fun _ _ _ => .pure _

theorem boolOpNode (inside : ctx.Inside s) (op : Tree.BooleanOperator) :
    Mirrors locals s (boolOpNode ctx op ds)
      (Translate.boolOpNode (ctx.calledFrom locals) op ds) := by
  refine (testNodes blind inside).bind fun tests s₁ _ => ?_
  cases tests with
  | nil => exact .fail _
  | cons first rest => exact .pure _

omit blind in
theorem comparisons (left : Expr) (ops : List Tree.ComparisonOperator)
    (rest : List (Expr × Pos)) :
    Mirrors locals s (comparisons left ops rest) (Translate.comparisons left ops rest) := by
  induction ops generalizing s left rest with
  | nil => exact .pure _
  | cons op ops ih =>
    cases rest with
    | nil => exact .abort _
    | cons operand rest =>
      unfold Translate.comparisons
      refine .ite rfl (fun _ => .failAt ..) fun _ => ?_
      refine (located (check _)).bind fun _ s₁ _ => ?_
      exact (ih operand.1 rest).bind fun _ _ _ => .pure _

theorem compareNode {left : Deferred} (blindLeft : left.IsBlind locals) (inside : ctx.Inside s)
    (ops : List Tree.ComparisonOperator) :
    Mirrors locals s (compareNode ctx left ops ds)
      (Translate.compareNode (ctx.calledFrom locals) left ops ds) := by
  unfold Translate.compareNode
  refine (blindLeft ctx s inside).bind fun first s₁ confined => ?_
  refine (runAll blind (inside.confined confined)).bind fun rest s₂ _ => ?_
  refine (comparisons first ops _).bind fun nodes s₃ _ => ?_
  cases conjoin nodes with
  | some node => exact .pure _
  | none => exact .fail _

end Containers

theorem unaryNode {operand : Deferred} (blind : operand.IsBlind locals) (inside : ctx.Inside s)
    (op : Tree.UnaryOperator) :
    Mirrors locals s (unaryNode ctx op operand)
      (Translate.unaryNode (ctx.calledFrom locals) op operand) := by
  unfold Translate.unaryNode
  cases op with
  | minus =>
    dsimp only
    split
    · exact .ite rfl (fun _ => .abort _) fun _ => .pure _
    · exact .pure _
    · exact (blind ctx s inside).bind fun value s₁ _ =>
        .ite rfl (fun _ => .pure _) fun _ => .fail _
  | plus =>
    exact (blind ctx s inside).bind fun value s₁ _ =>
      .ite rfl (fun _ => .pure _) fun _ => .fail _
  | not => exact (blind ctx s inside).bind fun value s₁ _ => .check_bind fun test => .pure _
  | invert => exact .fail _

end Mirrors

/-! ## Subscripts -/

/-- The parts of an index are translated alike under all callers. -/
def DeferredSlice.IsBlind (locals : List Scope) : DeferredSlice → Prop
  | .index value => value.IsBlind locals
  | .slice lower upper _ => (∀ d ∈ lower, d.IsBlind locals) ∧ ∀ d ∈ upper, d.IsBlind locals

theorem Mirrors.subscriptNode {value : Deferred} (blind : value.IsBlind locals)
    {slice : DeferredSlice} (blindSlice : slice.IsBlind locals) (inside : ctx.Inside s) :
    Mirrors locals s (subscriptNode t ctx value slice)
      (Translate.subscriptNode t (ctx.calledFrom locals) value slice) := by
  unfold Translate.subscriptNode
  refine (blind ctx s inside).bind fun sequence s₁ confined => ?_
  have inside₁ := inside.confined confined
  cases slice with
  | index index =>
    refine (blindSlice ctx s₁ inside₁).bind fun node s₂ _ => ?_
    exact .get (.walk_bind (.check_bind fun ty => .pure _))
  | slice lower upper hasStep =>
    -- the three slices differ in their message and bounds only
    have slicing : ∀ message bounds, (∀ d ∈ bounds, d.IsBlind locals) → Mirrors locals s₁
        (do
          let args ← Translate.runAll ctx bounds
          Translate.standardMethod t.setting.api ctx sequence.type.head message sequence args)
        (do
          let args ← Translate.runAll (ctx.calledFrom locals) bounds
          Translate.standardMethod t.setting.api (ctx.calledFrom locals) sequence.type.head message
            sequence args) := fun message bounds blind =>
      (runAll blind inside₁).bind fun args s₂ confined' =>
        standardMethod _ (inside₁.confined confined') ..
    obtain ⟨blindLower, blindUpper⟩ := blindSlice
    refine .ite rfl (fun _ => .fail _) fun _ => .ite rfl (fun _ => .fail _) fun _ => ?_
    cases lower with
    | none =>
      cases upper with
      | none => exact .fail _
      | some hi => exact slicing "slice_to" [hi] (by simpa using blindUpper)
    | some lo =>
      cases upper with
      | none => exact slicing "slice_from" [lo] (by simpa using blindLower)
      | some hi =>
        refine slicing "slice" [lo, hi] ?_
        simp only [List.mem_cons, List.not_mem_nil, or_false, forall_eq_or_imp, forall_eq]
        exact ⟨blindLower lo rfl, blindUpper hi rfl⟩

/-! ## Heads of loops -/

/-- The parts of what a loop runs over are translated alike under all callers. -/
def Iterated.IsBlind (locals : List Scope) : Iterated → Prop
  | .call _ args => ∀ d ∈ args, d.IsBlind locals
  | .items receiver => receiver.IsBlind locals
  | .other => True

namespace Mirrors

theorem elementOf (pos : Pos) (sequence : Expr) :
    Mirrors locals s (elementOf pos sequence) (Translate.elementOf pos sequence) := by
  unfold Translate.elementOf
  cases sequence.type.element? with
  | some elem => exact .pure _
  | none => exact .failAt ..

theorem boundNodes {ds : List (Deferred × String)} (blind : ∀ d ∈ ds, d.1.IsBlind locals)
    (inside : ctx.Inside s) :
    Mirrors locals s (boundNodes ctx ds) (Translate.boundNodes (ctx.calledFrom locals) ds) := by
  induction ds generalizing s with
  | nil => exact .pure _
  | cons d rest ih =>
    obtain ⟨first, others⟩ := List.forall_mem_cons.mp blind
    unfold Translate.boundNodes
    refine (first ctx s inside).bind fun node s₁ confined => .ite rfl (fun _ => ?_) fun _ => .failAt ..
    exact (ih others (inside.confined confined)).bind fun _ _ _ => .pure _

theorem zipNodes {ds : List (Deferred × String)} (blind : ∀ d ∈ ds, d.1.IsBlind locals)
    (inside : ctx.Inside s) :
    Mirrors locals s (zipNodes ctx ds) (Translate.zipNodes (ctx.calledFrom locals) ds) := by
  induction ds generalizing s with
  | nil => exact .pure _
  | cons d rest ih =>
    obtain ⟨first, others⟩ := List.forall_mem_cons.mp blind
    unfold Translate.zipNodes
    refine (first ctx s inside).bind fun sequence s₁ confined => ?_
    refine (elementOf _ sequence).bind fun elem s₂ confined' => ?_
    exact (ih others ((inside.confined confined).confined confined')).bind fun _ _ _ => .pure _

section Heads

variable {args : List Deferred} (blind : ∀ d ∈ args, d.IsBlind locals) (inside : ctx.Inside s)
  (target : Tree.Expr)

include blind inside

omit inside in
theorem blind_zip {β : Type} (others : List β) : ∀ p ∈ args.zip others, p.1.IsBlind locals :=
  fun p hp => blind p.1 (List.of_mem_zip hp).1

theorem rangeHead :
    Mirrors locals s (rangeHead ctx target args)
      (Translate.rangeHead (ctx.calledFrom locals) target args) := by
  unfold Translate.rangeHead
  cases target.name? with
  | none => exact .failAt ..
  | some index =>
    refine .ite rfl (fun _ => .fail _) fun _ => ?_
    refine (boundNodes (blind_zip blind _) inside).bind fun nodes s₁ _ => ?_
    match nodes with
    | [stop] => exact .pure _
    | [start, stop] => exact .pure _
    | [start, stop, step] => exact .pure _
    | [] | _ :: _ :: _ :: _ :: _ => exact .fail _

theorem enumerateHead :
    Mirrors locals s (enumerateHead ctx target args)
      (Translate.enumerateHead (ctx.calledFrom locals) target args) := by
  unfold Translate.enumerateHead
  cases targetPair? target with
  | none => exact .failAt ..
  | some names =>
    match args with
    | [arg] =>
      refine (blind arg List.mem_cons_self ctx s inside).bind fun sequence s₁ _ => ?_
      split
      · exact .pure _
      · exact (elementOf _ sequence).bind fun _ _ _ => .pure _
    | [] | _ :: _ :: _ => exact .fail _

theorem zipHead :
    Mirrors locals s (zipHead ctx target args)
      (Translate.zipHead (ctx.calledFrom locals) target args) := by
  unfold Translate.zipHead
  refine .ite rfl (fun _ => .fail _) fun _ => ?_
  cases (targetNames? target).filter _ with
  | none => exact .failAt ..
  | some names => exact (zipNodes (blind_zip blind names) inside).bind fun _ _ _ => .pure _

end Heads

theorem itemsHead {receiver : Deferred} (blind : receiver.IsBlind locals) (inside : ctx.Inside s)
    (target : Tree.Expr) :
    Mirrors locals s (itemsHead t ctx target receiver)
      (Translate.itemsHead t (ctx.calledFrom locals) target receiver) := by
  unfold Translate.itemsHead
  refine (blind ctx s inside).bind fun sequence s₁ _ => ?_
  split
  · cases targetPair? target with
    | some names => exact .pure _
    | none => exact .failAt ..
  · exact .get (.fail _)

theorem plainHead {iter : Deferred} (blind : iter.IsBlind locals) (inside : ctx.Inside s)
    (target : Tree.Expr) :
    Mirrors locals s (plainHead ctx target iter)
      (Translate.plainHead (ctx.calledFrom locals) target iter) := by
  unfold Translate.plainHead
  cases target.name? with
  | none => exact .failAt ..
  | some name =>
    refine (blind ctx s inside).bind fun sequence s₁ _ => ?_
    exact (elementOf _ sequence).bind fun _ _ _ => .pure _

theorem isBuiltinIterator (inside : ctx.Inside s) (id : String) :
    Mirrors locals s (isBuiltinIterator ctx id)
      (Translate.isBuiltinIterator (ctx.calledFrom locals) id) :=
  .ite rfl (fun _ => .pure _) fun _ => .lookup_bind inside.scope (.get (.pure _))

theorem checkLoopVariable (inside : ctx.Inside s) (target : Tree.Expr) (name : String) :
    Mirrors locals s (checkLoopVariable t ctx target name)
      (Translate.checkLoopVariable t (ctx.calledFrom locals) target name) := by
  unfold Translate.checkLoopVariable
  refine .ite rfl (fun _ => .failAt ..) fun _ => ?_
  refine .lookup_bind inside.scope (.ite rfl (fun _ => ?_) fun _ => .pure _)
  refine .localOwner_bind inside fun owner _ => ?_
  cases owner with
  | none => exact .failAt ..
  | some id => exact .failAt ..

theorem checkLoopVariables (inside : ctx.Inside s) (target : Tree.Expr) (bs : List Binder) :
    Mirrors locals s (checkLoopVariables t ctx target bs)
      (Translate.checkLoopVariables t (ctx.calledFrom locals) target bs) := by
  induction bs generalizing s with
  | nil => exact .pure _
  | cons b bs ih =>
    exact (checkLoopVariable inside target b.name).bind fun _ s₁ confined =>
      ih (inside.confined confined)

variable {iter : Deferred} (blind : iter.IsBlind locals) {form : Iterated}
  (blindForm : form.IsBlind locals)

include blind blindForm

theorem loopHead (inside : ctx.Inside s) (target : Tree.Expr) :
    Mirrors locals s (loopHead t ctx target iter form)
      (Translate.loopHead t (ctx.calledFrom locals) target iter form) := by
  have unchecked : Mirrors locals s (uncheckedHead t ctx target iter form)
      (uncheckedHead t (ctx.calledFrom locals) target iter form) := by
    unfold uncheckedHead
    cases form with
    | call id args =>
      refine (isBuiltinIterator inside id).bind fun builtin s₁ confined => ?_
      have inside₁ := inside.confined confined
      refine .ite rfl (fun _ => ?_) fun _ => plainHead blind inside₁ target
      refine .ite rfl (fun _ => rangeHead blindForm inside₁ target) fun _ => ?_
      exact .ite rfl (fun _ => enumerateHead blindForm inside₁ target)
        fun _ => zipHead blindForm inside₁ target
    | items receiver => exact itemsHead blindForm inside target
    | other => exact plainHead blind inside target
  refine unchecked.bind fun head s₁ confined => ?_
  exact (checkLoopVariables (inside.confined confined) target _).bind fun _ _ _ => .pure _

end Mirrors

/-! ## Comprehensions -/

/-- The parts of a clause are translated alike under all callers. -/
structure DeferredClause.IsBlind (locals : List Scope) (c : DeferredClause) : Prop where
  iter : c.iter.IsBlind locals
  form : c.form.IsBlind locals
  ifs : ∀ d ∈ c.ifs, d.IsBlind locals

theorem Mirrors.listCompNode {elt : Deferred} (blind : elt.IsBlind locals)
    {clauses : List DeferredClause} (blindClauses : ∀ c ∈ clauses, c.IsBlind locals)
    (inside : ctx.Inside s) :
    Mirrors locals s (listCompNode t ctx elt clauses)
      (Translate.listCompNode t (ctx.calledFrom locals) elt clauses) := by
  unfold Translate.listCompNode
  match clauses with
  | [] | _ :: _ :: _ => exact .fail _
  | [clause] =>
    obtain ⟨blindIter, blindForm, blindIfs⟩ := blindClauses clause List.mem_cons_self
    dsimp only
    split
    · exact .failAt ..
    unfold comprehension
    refine (loopHead blindIter blindForm inside _).bind fun head s₁ confined => ?_
    have inside₁ := inside.confined confined
    cases head with
    | range start stop step index => exact .failAt ..
    | iterate sequence iterators =>
      refine (Mirrors.inScope inside₁.positive ?_).bind fun _ _ _ => .pure _
      -- test and element are read in the scope of the iterators
      have inner := inside₁.opened ctx.scope (bindings iterators.binders)
      have tested : Mirrors locals (s₁.opened ctx.scope (bindings iterators.binders))
          (testNode (ctx.inScope s₁.scopes.size) clause.ifs.head?)
          (testNode ((ctx.inScope s₁.scopes.size).calledFrom locals) clause.ifs.head?) := by
        unfold testNode
        cases found : clause.ifs.head? with
        | none => exact .pure _
        | some d =>
          have blindTest := blindIfs d (List.mem_of_head? found)
          exact (blindTest _ _ inner).bind fun node s₂ _ => .check_bind fun test => .pure _
      refine tested.bind fun test s₂ confined' => ?_
      exact (blind _ s₂ (inner.confined confined')).bind fun _ _ _ => .pure _

/-! ## Expressions -/

theorem Mirrors.attributeOf {value : Deferred} (blind : value.IsBlind locals)
    (inside : ctx.Inside s) (attr : String) :
    Mirrors locals s (attributeOf t ctx value attr)
      (Translate.attributeOf t (ctx.calledFrom locals) value attr) := by
  unfold Translate.attributeOf
  refine (blind ctx s inside).bind fun object s₁ _ => .get ?_
  rw [State.hierarchy_calledFrom]
  refine .walk_bind ?_
  cases s₁.hierarchy.attribute? object.type.head attr with
  | none => exact .fail _
  | some found =>
    dsimp only
    split <;> exact .pure _

theorem Mirrors.attrNode {value : Deferred} (blind : value.IsBlind locals) (inside : ctx.Inside s)
    (attr : String) :
    Mirrors locals s (attrNode t ctx value attr)
      (Translate.attrNode t (ctx.calledFrom locals) value attr) := by
  have onValue := Mirrors.attributeOf (t := t) blind inside attr
  unfold Translate.attrNode
  cases value.source.name? with
  | none => exact onValue
  | some id =>
    refine .ite rfl (fun _ => ?_) fun _ => onValue
    exact .lookup_bind inside.scope (.ite rfl (fun _ => .fail _) fun _ => onValue)

theorem Mirrors.binOpNode {left right : Deferred} (blindLeft : left.IsBlind locals)
    (blindRight : right.IsBlind locals) (inside : ctx.Inside s) (op : Tree.BinaryOperator) :
    Mirrors locals s (binOpNode t ctx op left right)
      (Translate.binOpNode t (ctx.calledFrom locals) op left right) := by
  refine (blindLeft ctx s inside).bind fun left s₁ confined => ?_
  exact (blindRight ctx s₁ (inside.confined confined)).bind fun right _ _ => .check _

/-- The loop over a call: its parts are those of the call. -/
theorem iterated_call_isBlind {whole : Deferred} {func : Tree.Expr} {args : List Tree.Expr}
    {keywords : List Tree.Keyword} {pos : Pos}
    (blindFunc : (callee t whole func).IsBlind locals)
    (blind : ∀ d ∈ exprs t args, d.IsBlind locals) :
    (iterated t ⟨.call func args keywords, pos⟩).IsBlind locals := by
  unfold iterated
  split
  · next same =>
    cases same
    exact blind
  · next same =>
    cases same
    split
    · rw [callee] at blindFunc
      exact blindFunc
    · trivial
  · trivial

mutual

theorem expr_isBlind (infers : t.infer.IsBlind locals) :
    ∀ e : Tree.Expr, (⟨e, expr t e⟩ : Deferred).IsBlind locals
  | ⟨kind, pos⟩ => fun ctx s inside => by
    simp only [expr]
    exact (exprKind_mirrors infers kind pos ctx s inside).located

theorem exprKind_mirrors (infers : t.infer.IsBlind locals) :
    ∀ (kind : Tree.ExprKind) (pos : Pos) (ctx : Context) (s : State), ctx.Inside s →
      Mirrors locals s (exprKind t pos kind ctx) (exprKind t pos kind (ctx.calledFrom locals))
  | .int _, _, _, _, _ => .pure _
  | .float _, _, _, _, _ => .pure _
  | .str _, _, _, _, _ => .pure _
  | .bool _, _, _, _, _ => .pure _
  | .none, _, _, _, _ => .pure _
  | .name id, _, ctx, s, inside => by
    simp only [exprKind]
    exact .nameNode inside id
  | .attr value name, _, ctx, s, inside => by
    simp only [exprKind]
    exact .attrNode (expr_isBlind infers value) inside name
  | .call func args keywords, pos, ctx, s, inside => by
    simp only [exprKind]
    exact .callNode infers (exprs_areBlind infers args)
      (callee_isBlind infers func (expr_isBlind infers func)) inside pos keywords
  | .binOp left op right, _, ctx, s, inside => by
    simp only [exprKind]
    exact .binOpNode (expr_isBlind infers left) (expr_isBlind infers right) inside op
  | .unaryOp op operand, _, ctx, s, inside => by
    simp only [exprKind]
    exact .unaryNode (expr_isBlind infers operand) inside op
  | .boolOp op values, _, ctx, s, inside => by
    simp only [exprKind]
    exact .boolOpNode (exprs_areBlind infers values) inside op
  | .compare left ops comparators, _, ctx, s, inside => by
    simp only [exprKind]
    exact .compareNode (exprs_areBlind infers comparators) (expr_isBlind infers left) inside ops
  | .list elts, _, ctx, s, inside => by
    simp only [exprKind]
    exact .listNode (exprs_areBlind infers elts) inside
  | .set elts, _, ctx, s, inside => by
    simp only [exprKind]
    exact .setNode (exprs_areBlind infers elts) inside
  | .dict keys values, _, ctx, s, inside => by
    simp only [exprKind]
    exact .dictNode (exprs_areBlind infers values) (exprs_areBlind infers keys) inside
  | .tuple elts, _, ctx, s, inside => by
    simp only [exprKind]
    exact .tupleNode (exprs_areBlind infers elts) inside
  | .subscript value slice, _, ctx, s, inside => by
    simp only [exprKind]
    exact .subscriptNode (expr_isBlind infers value) (slice_isBlind infers slice) inside
  | .listComp elt generators, _, ctx, s, inside => by
    simp only [exprKind]
    exact .listCompNode (expr_isBlind infers elt) (clauses_areBlind infers generators) inside
  | .setComp .., _, _, _, _ => .fail _
  | .dictComp .., _, _, _, _ => .fail _
  | .generatorExp .., _, _, _, _ => .fail _
  | .lambda .., _, _, _, _ => .fail _
  | .ifExp .., _, _, _, _ => .fail _
  | .starred _, _, _, _, _ => .fail _

theorem exprs_areBlind (infers : t.infer.IsBlind locals) :
    ∀ es : List Tree.Expr, ∀ d ∈ exprs t es, d.IsBlind locals
  | [], d, hd => by simp [exprs] at hd
  | e :: es, d, hd => by
    simp only [exprs, List.mem_cons] at hd
    rcases hd with rfl | hd
    · exact expr_isBlind infers e
    · exact exprs_areBlind infers es d hd

theorem optional_isBlind (infers : t.infer.IsBlind locals) :
    ∀ e : Option Tree.Expr, ∀ d ∈ optional t e, d.IsBlind locals
  | none, d, hd => by simp [optional] at hd
  | some e, d, hd => by
    simp only [optional, Option.mem_some_iff] at hd
    subst hd
    exact expr_isBlind infers e

theorem callee_isBlind (infers : t.infer.IsBlind locals) {whole : Deferred} :
    ∀ func : Tree.Expr, whole.IsBlind locals → (callee t whole func).IsBlind locals
  | ⟨kind, pos⟩, blind => by
    cases kind with
    | name id => trivial
    | attr value name =>
      simp only [callee]
      exact expr_isBlind infers value
    | _ => exact blind

theorem slice_isBlind (infers : t.infer.IsBlind locals) :
    ∀ slice : Tree.Slice, (deferredSlice t slice).IsBlind locals
  | .index value => by
    simp only [deferredSlice]
    exact expr_isBlind infers value
  | .slice lower upper step => by
    simp only [deferredSlice]
    exact ⟨optional_isBlind infers lower, optional_isBlind infers upper⟩

theorem iterated_isBlind (infers : t.infer.IsBlind locals) :
    ∀ iter : Tree.Expr, (iterated t iter).IsBlind locals
  | ⟨kind, pos⟩ => by
    cases kind with
    | call func args keywords =>
      exact iterated_call_isBlind (callee_isBlind infers func (expr_isBlind infers func))
        (exprs_areBlind infers args)
    | _ => trivial

theorem clauses_areBlind (infers : t.infer.IsBlind locals) :
    ∀ cs : List Tree.Comprehension, ∀ c ∈ clauses t cs, c.IsBlind locals
  | [], c, hc => by simp [clauses] at hc
  | ⟨target, iter, ifs⟩ :: rest, c, hc => by
    simp only [clauses, clause, List.mem_cons] at hc
    rcases hc with rfl | hc
    · exact ⟨expr_isBlind infers iter, iterated_isBlind infers iter, exprs_areBlind infers ifs⟩
    · exact clauses_areBlind infers rest c hc

end

end TreeTyper.Translate
