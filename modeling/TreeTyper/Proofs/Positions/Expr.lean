import TreeTyper.Proofs.Positions.Call
import TreeTyper.Translate.Expr

/-!
# Expressions do not see positions

Containers, operations, subscripts and the heads of loops put the positions of
their parts into stops and into nothing else, so an expression of the relocated
tree is translated as the expression is.

    t.infer.Tracks f → Deferred.Tracks f ⟨e, expr t e⟩ ⟨e.relocate f, expr t (e.relocate f)⟩
                                                                              (expr_tracks)
-/

namespace TreeTyper.Translate

open Typed

variable {f : Relocation} {t : Translator}

/-! ## Views -/

theorem literalIndex?_relocate (source : Tree.Expr) :
    literalIndex? (source.relocate f) = literalIndex? source := by
  obtain ⟨kind, pos⟩ := source
  cases kind <;> rfl

theorem indexType_relocate (h : Hierarchy) (sequence index : Ty) (source : Tree.Expr) :
    indexType h sequence index (source.relocate f) = indexType h sequence index source := by
  unfold indexType
  rw [literalIndex?_relocate]

theorem namesOf_relocateAll (es : List Tree.Expr) :
    namesOf (Tree.Expr.relocateAll f es) = namesOf es := by
  induction es with
  | nil => rfl
  | cons e es ih => rw [Tree.Expr.relocateAll, namesOf, ih, Tree.Expr.name?_relocate, namesOf]

theorem targetNames?_relocate (target : Tree.Expr) :
    targetNames? (target.relocate f) = targetNames? target := by
  unfold targetNames?
  rw [Tree.Expr.kind_relocate]
  cases target.kind with
  | tuple elts => exact namesOf_relocateAll elts
  | _ => rfl

theorem targetPair?_relocate (target : Tree.Expr) :
    targetPair? (target.relocate f) = targetPair? target := by
  unfold targetPair?
  rw [targetNames?_relocate]

/-- Parts beside the same other data. -/
theorem Deferred.Tracks.zip {β : Type} {ds ds' : List Deferred}
    (parts : List.Forall₂ (Deferred.Tracks f) ds ds') (others : List β) :
    List.Forall₂ (fun p p' => p.1.Tracks f p'.1 ∧ p'.2 = p.2) (ds.zip others)
      (ds'.zip others) := by
  induction parts generalizing others with
  | nil => exact .nil
  | cons first _ ih =>
    cases others with
    | nil => exact .nil
    | cons other others => exact .cons ⟨first, rfl⟩ (ih others)

namespace Tracks

/-! ## Containers -/

section Containers

variable {ds ds' : List Deferred} (parts : List.Forall₂ (Deferred.Tracks f) ds ds')

include parts

theorem elementNodes (ctx : Context) (container : String) (elem : Ty) :
    Tracks f (elementNodes ctx container elem ds)
      (Translate.elementNodes ctx container elem ds') := by
  induction parts generalizing elem with
  | nil => exact .pure _
  | cons first _ ih =>
    unfold Translate.elementNodes
    refine (first.run ctx).bind fun node => .get fun s => ?_
    rw [State.hierarchy_relocate, first.pos]
    refine .walk_bind ?_
    cases compatible s.hierarchy node.type elem with
    | none => exact .failAt ..
    | some elem => exact (ih elem).bind fun _ => .pure _

theorem listNode (ctx : Context) : Tracks f (listNode ctx ds) (Translate.listNode ctx ds') :=
  (elementNodes parts ctx "list" .hole).bind fun _ => .pure _

theorem setNode (ctx : Context) : Tracks f (setNode ctx ds) (Translate.setNode ctx ds') :=
  (elementNodes parts ctx "set" .hole).bind fun _ => .pure _

theorem tupleNode (ctx : Context) : Tracks f (tupleNode ctx ds) (Translate.tupleNode ctx ds') :=
  (runAll parts ctx).bind fun _ => .get fun _ => .walk_bind (.pure _)

omit parts in
theorem pairNodes {pairs pairs' : List (Deferred × Deferred)}
    (parts : List.Forall₂ (fun p p' => p.1.Tracks f p'.1 ∧ p.2.Tracks f p'.2) pairs pairs')
    (ctx : Context) (key value : Ty) :
    Tracks f (pairNodes ctx key value pairs) (Translate.pairNodes ctx key value pairs') := by
  induction parts generalizing key value with
  | nil => exact .pure _
  | cons first _ ih =>
    obtain ⟨keyPart, valuePart⟩ := first
    unfold Translate.pairNodes
    refine (keyPart.run ctx).bind fun keyNode => (valuePart.run ctx).bind fun valueNode => ?_
    refine .get fun s => ?_
    rw [State.hierarchy_relocate, keyPart.pos, valuePart.pos]
    refine .walk_bind ?_
    cases unify s.hierarchy key keyNode.type with
    | none => exact .failAt ..
    | some key =>
      refine .walk_bind ?_
      cases unify s.hierarchy value valueNode.type with
      | none => exact .failAt ..
      | some value => exact (ih key value).bind fun _ => .pure _

theorem dictNode {keys keys' : List Deferred}
    (keyParts : List.Forall₂ (Deferred.Tracks f) keys keys') (ctx : Context) :
    Tracks f (dictNode ctx keys ds) (Translate.dictNode ctx keys' ds') := by
  have pairs : List.Forall₂ (fun p p' => p.1.Tracks f p'.1 ∧ p.2.Tracks f p'.2)
      (keys.zip ds) (keys'.zip ds') := by
    clear ctx
    induction keyParts generalizing ds ds' with
    | nil => exact .nil
    | cons first _ ih =>
      cases parts with
      | nil => exact .nil
      | cons second rest => exact .cons ⟨first, second⟩ (ih rest)
  exact (pairNodes pairs ctx .hole .hole).bind fun _ => .pure _

/-! ## Operations on several operands -/

theorem testNodes (ctx : Context) : Tracks f (testNodes ctx ds) (Translate.testNodes ctx ds') := by
  induction parts with
  | nil => exact .pure _
  | cons first _ ih =>
    exact (first.run ctx).bind fun node => .check_bind fun test => ih.bind fun _ => .pure _

theorem boolOpNode (ctx : Context) (op : Tree.BooleanOperator) :
    Tracks f (boolOpNode ctx op ds) (Translate.boolOpNode ctx op ds') := by
  refine (testNodes parts ctx).bind fun tests => ?_
  cases tests with
  | nil => exact .fail _
  | cons first rest => exact .pure _

omit parts in
theorem comparisons (left : Expr) (ops : List Tree.ComparisonOperator)
    (rest : List (Expr × Pos)) :
    Tracks f (comparisons left ops rest)
      (Translate.comparisons left ops (rest.map (Prod.map id f.node))) := by
  induction ops generalizing left rest with
  | nil => exact .pure _
  | cons op ops ih =>
    cases rest with
    | nil => exact .abort _
    | cons operand rest =>
      unfold Translate.comparisons
      refine .ite rfl (.failAt ..) ?_
      refine ((check _).located operand.2).bind fun _ => ?_
      exact (ih operand.1 rest).bind fun _ => .pure _

theorem compareNode {left left' : Deferred} (leftPart : left.Tracks f left') (ctx : Context)
    (ops : List Tree.ComparisonOperator) :
    Tracks f (compareNode ctx left ops ds) (Translate.compareNode ctx left' ops ds') := by
  have places : ds'.map (·.source.pos) = (ds.map (·.source.pos)).map f.node := by
    induction parts with
    | nil => rfl
    | cons first _ ih => simp only [List.map_cons, first.pos, ih]
  have zipped : ∀ rest : List Expr, rest.zip (ds'.map (·.source.pos)) =
      (rest.zip (ds.map (·.source.pos))).map (Prod.map id f.node) := fun rest => by
    rw [places, List.zip_map_right]
  unfold Translate.compareNode
  refine (leftPart.run ctx).bind fun first => (runAll parts ctx).bind fun rest => ?_
  rw [zipped]
  refine (comparisons first ops _).bind fun nodes => ?_
  cases conjoin nodes with
  | some node => exact .pure _
  | none => exact .fail _

end Containers

theorem unaryNode {operand operand' : Deferred} (part : operand.Tracks f operand')
    (ctx : Context) (op : Tree.UnaryOperator) :
    Tracks f (unaryNode ctx op operand) (Translate.unaryNode ctx op operand') := by
  unfold Translate.unaryNode
  cases op with
  | minus =>
    rw [part.source, Tree.Expr.kind_relocate]
    cases operand.source.kind with
    | int value => exact .ite rfl (.abort _) (.pure _)
    | float bits => exact .pure _
    | _ => exact (part.run ctx).bind fun value => .ite rfl (.pure _) (.fail _)
  | plus => exact (part.run ctx).bind fun value => .ite rfl (.pure _) (.fail _)
  | not => exact (part.run ctx).bind fun value => .check_bind fun test => .pure _
  | invert => exact .fail _

end Tracks

/-! ## Subscripts -/

/-- The index of the relocated tree in the place of an index. -/
inductive DeferredSlice.Tracks (f : Relocation) : DeferredSlice → DeferredSlice → Prop where
  | index {value value' : Deferred} (part : value.Tracks f value') :
    Tracks f (.index value) (.index value')
  | slice {lower lower' upper upper' : Option Deferred}
    (lowerPart : Option.Rel (Deferred.Tracks f) lower lower')
    (upperPart : Option.Rel (Deferred.Tracks f) upper upper') (hasStep : Bool) :
    Tracks f (.slice lower upper hasStep) (.slice lower' upper' hasStep)

theorem Tracks.subscriptNode {value value' : Deferred} (part : value.Tracks f value')
    {slice slice' : DeferredSlice} (sliced : slice.Tracks f slice') (ctx : Context) :
    Tracks f (subscriptNode t ctx value slice)
      (Translate.subscriptNode t ctx value' slice') := by
  unfold Translate.subscriptNode
  refine (part.run ctx).bind fun sequence => ?_
  cases sliced with
  | index indexPart =>
    refine (indexPart.run ctx).bind fun node => .get fun s => ?_
    rw [State.hierarchy_relocate, indexPart.source]
    refine .walk_bind ?_
    rw [indexType_relocate]
    exact .check_bind fun _ => .pure _
  | slice lowerPart upperPart hasStep =>
    -- the three slices differ in their message and bounds only
    have slicing : ∀ message bounds bounds', List.Forall₂ (Deferred.Tracks f) bounds bounds' →
        Tracks f
          (do
            let args ← Translate.runAll ctx bounds
            Translate.standardMethod t.setting.api ctx sequence.type.head message sequence args)
          (do
            let args ← Translate.runAll ctx bounds'
            Translate.standardMethod t.setting.api ctx sequence.type.head message sequence
              args) := fun message bounds bounds' parts =>
      (runAll parts ctx).bind fun args => standardMethod ..
    refine .ite rfl (.fail _) (.ite rfl (.fail _) ?_)
    cases lowerPart with
    | none =>
      cases upperPart with
      | none => exact .fail _
      | some hi => exact slicing "slice_to" [_] [_] (.cons hi .nil)
    | some lo =>
      cases upperPart with
      | none => exact slicing "slice_from" [_] [_] (.cons lo .nil)
      | some hi => exact slicing "slice" [_, _] [_, _] (.cons lo (.cons hi .nil))

/-! ## Heads of loops -/

/-- What a loop of the relocated tree runs over in the place of what a loop runs over. -/
inductive Iterated.Tracks (f : Relocation) : Iterated → Iterated → Prop where
  | call (id : String) {args args' : List Deferred}
    (parts : List.Forall₂ (Deferred.Tracks f) args args') :
    Tracks f (.call id args) (.call id args')
  | items {receiver receiver' : Deferred} (part : receiver.Tracks f receiver') :
    Tracks f (.items receiver) (.items receiver')
  | other : Tracks f .other .other

namespace Tracks

theorem elementOf (pos : Pos) (sequence : Expr) :
    Tracks f (elementOf pos sequence) (Translate.elementOf (f.node pos) sequence) := by
  unfold Translate.elementOf
  cases sequence.type.element? with
  | some elem => exact .pure _
  | none => exact .failAt ..

theorem boundNodes {ds ds' : List (Deferred × String)}
    (parts : List.Forall₂ (fun p p' => p.1.Tracks f p'.1 ∧ p'.2 = p.2) ds ds') (ctx : Context) :
    Tracks f (boundNodes ctx ds) (Translate.boundNodes ctx ds') := by
  induction parts with
  | nil => exact .pure _
  | cons first _ ih =>
    obtain ⟨part, role⟩ := first
    unfold Translate.boundNodes
    rw [part.pos, role]
    exact (part.run ctx).bind fun node => .ite rfl (ih.bind fun _ => .pure _) (.failAt ..)

theorem zipNodes {ds ds' : List (Deferred × String)}
    (parts : List.Forall₂ (fun p p' => p.1.Tracks f p'.1 ∧ p'.2 = p.2) ds ds') (ctx : Context) :
    Tracks f (zipNodes ctx ds) (Translate.zipNodes ctx ds') := by
  induction parts with
  | nil => exact .pure _
  | cons first _ ih =>
    obtain ⟨part, name⟩ := first
    unfold Translate.zipNodes
    rw [part.pos, name]
    refine (part.run ctx).bind fun sequence => (elementOf _ sequence).bind fun elem => ?_
    exact ih.bind fun _ => .pure _

section Heads

variable {args args' : List Deferred} (parts : List.Forall₂ (Deferred.Tracks f) args args')
  (ctx : Context) (target : Tree.Expr)

include parts

theorem rangeHead :
    Tracks f (rangeHead ctx target args)
      (Translate.rangeHead ctx (target.relocate f) args') := by
  unfold Translate.rangeHead
  rw [Tree.Expr.name?_relocate, Tree.Expr.pos_relocate, ← parts.length_eq]
  cases target.name? with
  | none => exact .failAt ..
  | some index =>
    refine .ite rfl (.fail _) ?_
    refine (boundNodes (Deferred.Tracks.zip parts _) ctx).bind fun nodes => ?_
    match nodes with
    | [stop] => exact .pure _
    | [start, stop] => exact .pure _
    | [start, stop, step] => exact .pure _
    | [] | _ :: _ :: _ :: _ :: _ => exact .fail _

theorem enumerateHead :
    Tracks f (enumerateHead ctx target args)
      (Translate.enumerateHead ctx (target.relocate f) args') := by
  unfold Translate.enumerateHead
  rw [targetPair?_relocate, Tree.Expr.pos_relocate]
  cases targetPair? target with
  | none => exact .failAt ..
  | some names =>
    cases parts with
    | nil => exact .fail _
    | cons part rest =>
      cases rest with
      | nil =>
        dsimp only
        rw [part.pos]
        refine (part.run ctx).bind fun sequence => ?_
        split
        · exact .pure _
        · exact (elementOf _ sequence).bind fun _ => .pure _
      | cons _ rest =>
        simp only [List.length_cons, rest.length_eq]
        exact .fail _

theorem zipHead :
    Tracks f (zipHead ctx target args) (Translate.zipHead ctx (target.relocate f) args') := by
  unfold Translate.zipHead
  rw [targetNames?_relocate, Tree.Expr.pos_relocate, ← parts.length_eq]
  refine .ite rfl (.fail _) ?_
  cases (targetNames? target).filter _ with
  | none => exact .failAt ..
  | some names => exact (zipNodes (Deferred.Tracks.zip parts names) ctx).bind fun _ => .pure _

end Heads

section Sequence

variable {iter iter' : Deferred} (part : iter.Tracks f iter') (ctx : Context)
  (target : Tree.Expr)

include part

theorem itemsHead :
    Tracks f (itemsHead t ctx target iter)
      (Translate.itemsHead t ctx (target.relocate f) iter') := by
  unfold Translate.itemsHead
  rw [targetPair?_relocate, Tree.Expr.pos_relocate]
  refine (part.run ctx).bind fun sequence => ?_
  split
  · cases targetPair? target with
    | some names => exact .pure _
    | none => exact .failAt ..
  · exact .get fun _ => .fail _

theorem plainHead :
    Tracks f (plainHead ctx target iter) (Translate.plainHead ctx (target.relocate f) iter') := by
  unfold Translate.plainHead
  rw [Tree.Expr.name?_relocate, Tree.Expr.pos_relocate, part.pos]
  cases target.name? with
  | none => exact .failAt ..
  | some name =>
    exact (part.run ctx).bind fun sequence => (elementOf _ sequence).bind fun _ => .pure _

end Sequence

theorem isBuiltinIterator (ctx : Context) (id : String) :
    Tracks f (isBuiltinIterator ctx id) (Translate.isBuiltinIterator ctx id) :=
  .ite rfl (.pure _) ((lookup ctx.scope id).bind fun _ => .get fun _ => .pure _)

theorem checkLoopVariable (ctx : Context) (target : Tree.Expr) (name : String) :
    Tracks f (checkLoopVariable t ctx target name)
      (Translate.checkLoopVariable t ctx (target.relocate f) name) := by
  unfold Translate.checkLoopVariable
  rw [Tree.Expr.pos_relocate]
  refine .ite rfl (.failAt ..) ((lookup ctx.scope name).bind fun found => .ite rfl ?_ (.pure _))
  refine (localOwner ctx name).bind fun owner => ?_
  cases owner with
  | none => exact .failAt ..
  | some id => exact .failAt ..

theorem checkLoopVariables (ctx : Context) (target : Tree.Expr) (bs : List Binder) :
    Tracks f (checkLoopVariables t ctx target bs)
      (Translate.checkLoopVariables t ctx (target.relocate f) bs) := by
  induction bs with
  | nil => exact .pure _
  | cons b bs ih => exact (checkLoopVariable ctx target b.name).bind fun _ => ih

theorem loopHead {iter iter' : Deferred} (part : iter.Tracks f iter') {form form' : Iterated}
    (formed : form.Tracks f form') (ctx : Context) (target : Tree.Expr) :
    Tracks f (loopHead t ctx target iter form)
      (Translate.loopHead t ctx (target.relocate f) iter' form') := by
  have unchecked : Tracks f (uncheckedHead t ctx target iter form)
      (uncheckedHead t ctx (target.relocate f) iter' form') := by
    unfold uncheckedHead
    cases formed with
    | call id parts =>
      refine (isBuiltinIterator ctx id).bind fun builtin =>
        .ite rfl ?_ (plainHead part ctx target)
      refine .ite rfl (rangeHead parts ctx target) ?_
      exact .ite rfl (enumerateHead parts ctx target) (zipHead parts ctx target)
    | items receiver => exact itemsHead receiver ctx target
    | other => exact plainHead part ctx target
  exact unchecked.bind fun head => (checkLoopVariables ctx target _).bind fun _ => .pure _

end Tracks

/-! ## Comprehensions -/

/-- The clause of the relocated tree in the place of a clause. -/
structure DeferredClause.Tracks (f : Relocation) (c c' : DeferredClause) : Prop where
  target : c'.target = c.target.relocate f
  iter : c.iter.Tracks f c'.iter
  form : c.form.Tracks f c'.form
  ifs : List.Forall₂ (Deferred.Tracks f) c.ifs c'.ifs

theorem Tracks.testNode {test test' : Option Deferred}
    (part : Option.Rel (Deferred.Tracks f) test test') (ctx : Context) :
    Tracks f (testNode ctx test) (Translate.testNode ctx test') := by
  cases part with
  | none => exact .pure _
  | some part => exact (part.run ctx).bind fun _ => .check_bind fun _ => .pure _

theorem Tracks.comprehension {elt elt' : Deferred} (part : elt.Tracks f elt')
    {clause clause' : DeferredClause} (clausePart : clause.Tracks f clause') (ctx : Context) :
    Tracks f (comprehension t ctx elt clause) (Translate.comprehension t ctx elt' clause') := by
  unfold Translate.comprehension
  rw [clausePart.target, clausePart.iter.pos]
  refine (loopHead clausePart.iter clausePart.form ctx _).bind fun head => ?_
  have first : Option.Rel (Deferred.Tracks f) clause.ifs.head? clause'.ifs.head? := by
    have tests := clausePart.ifs
    generalize clause.ifs = ifs, clause'.ifs = ifs' at tests ⊢
    cases tests with
    | nil => exact .none
    | cons test _ => exact .some test
  cases head with
  | range start stop step index => exact .failAt ..
  | iterate sequence iterators =>
    refine (Tracks.inScope fun scope => ?_).bind fun _ => .pure _
    exact (testNode first _).bind fun test => (part.run _).bind fun _ => .pure _

theorem Tracks.listCompNode {elt elt' : Deferred} (part : elt.Tracks f elt')
    {clauses clauses' : List DeferredClause}
    (clauseParts : List.Forall₂ (DeferredClause.Tracks f) clauses clauses') (ctx : Context) :
    Tracks f (listCompNode t ctx elt clauses) (Translate.listCompNode t ctx elt' clauses') := by
  unfold Translate.listCompNode
  cases clauseParts with
  | nil => exact .fail _
  | @cons clause clause' _ _ clausePart rest =>
    cases rest with
    | cons _ _ => exact .fail _
    | nil =>
      have comprehended := Tracks.comprehension (t := t) part clausePart ctx
      have tests := clausePart.ifs
      dsimp only
      generalize clause.ifs = ifs, clause'.ifs = ifs' at tests ⊢
      cases tests with
      | nil => exact comprehended
      | cons first rest =>
        cases rest with
        | nil => exact comprehended
        | cons second _ =>
          dsimp only
          rw [second.pos]
          exact .failAt ..

/-! ## Expressions -/

theorem Tracks.attributeOf {value value' : Deferred} (part : value.Tracks f value')
    (ctx : Context) (attr : String) :
    Tracks f (attributeOf t ctx value attr) (Translate.attributeOf t ctx value' attr) := by
  unfold Translate.attributeOf
  refine (part.run ctx).bind fun object => .get fun s => ?_
  rw [State.hierarchy_relocate]
  refine .walk_bind ?_
  cases s.hierarchy.attribute? object.type.head attr with
  | none => exact .fail _
  | some found =>
    dsimp only
    split <;> exact .pure _

theorem Tracks.attrNode {value value' : Deferred} (part : value.Tracks f value')
    (ctx : Context) (attr : String) :
    Tracks f (attrNode t ctx value attr) (Translate.attrNode t ctx value' attr) := by
  have onValue := Tracks.attributeOf (t := t) part ctx attr
  unfold Translate.attrNode
  rw [part.source, Tree.Expr.name?_relocate]
  cases value.source.name? with
  | none => exact onValue
  | some id =>
    refine .ite rfl ((lookup ctx.scope id).bind fun found => ?_) onValue
    exact .ite rfl (.fail _) onValue

theorem Tracks.binOpNode {left left' right right' : Deferred} (leftPart : left.Tracks f left')
    (rightPart : right.Tracks f right') (ctx : Context) (op : Tree.BinaryOperator) :
    Tracks f (binOpNode t ctx op left right) (Translate.binOpNode t ctx op left' right') :=
  (leftPart.run ctx).bind fun _ => (rightPart.run ctx).bind fun _ => .check _

/-- The loop over a call: its parts are those of the call. -/
theorem iterated_call_tracks {whole whole' : Deferred} {func : Tree.Expr}
    {args : List Tree.Expr} {keywords : List Tree.Keyword} {pos pos' : Pos}
    (called : (callee t whole func).Tracks f (callee t whole' (func.relocate f)))
    (parts : List.Forall₂ (Deferred.Tracks f) (exprs t args)
      (exprs t (Tree.Expr.relocateAll f args))) :
    (iterated t ⟨.call func args keywords, pos⟩).Tracks f
      (iterated t ⟨.call (func.relocate f) (Tree.Expr.relocateAll f args)
        (Tree.Keyword.relocateAll f keywords), pos'⟩) := by
  obtain ⟨kind, funcPos⟩ := func
  cases keywords with
  | cons keyword keywords => cases kind <;> cases args <;> exact .other
  | nil =>
    cases kind with
    | name id => exact .call id parts
    | attr value name =>
      cases args with
      | cons arg args => exact .other
      | nil =>
        simp only [Tree.Expr.relocate, Tree.ExprKind.relocate, Tree.Expr.relocateAll,
          Tree.Keyword.relocateAll, iterated, callee] at called ⊢
        cases called with
        | attr receiver _ =>
          split
          · exact .items receiver
          · exact .other
    | _ => cases args <;> exact .other

mutual

theorem expr_tracks (infers : t.infer.Tracks f) :
    ∀ e : Tree.Expr, Deferred.Tracks f ⟨e, expr t e⟩ ⟨e.relocate f, expr t (e.relocate f)⟩
  | ⟨kind, pos⟩ => ⟨rfl, fun ctx => by
    simp only [expr, Tree.Expr.relocate]
    exact (exprKind_tracks infers kind pos ctx).located pos⟩

theorem exprKind_tracks (infers : t.infer.Tracks f) :
    ∀ (kind : Tree.ExprKind) (pos : Pos) (ctx : Context),
      Tracks f (exprKind t pos kind ctx) (exprKind t (f.node pos) (kind.relocate f) ctx)
  | .int _, _, _ => .pure _
  | .float _, _, _ => .pure _
  | .str _, _, _ => .pure _
  | .bool _, _, _ => .pure _
  | .none, _, _ => .pure _
  | .name id, _, ctx => .nameNode t ctx id
  | .attr value name, _, ctx => by
    simp only [exprKind, Tree.ExprKind.relocate]
    exact .attrNode (expr_tracks infers value) ctx name
  | .call func args keywords, pos, ctx => by
    simp only [exprKind, Tree.ExprKind.relocate]
    exact .callNode infers (exprs_track infers args)
      (callee_tracks infers func (expr_tracks infers func)) ctx pos keywords
  | .binOp left op right, _, ctx => by
    simp only [exprKind, Tree.ExprKind.relocate]
    exact .binOpNode (expr_tracks infers left) (expr_tracks infers right) ctx op
  | .unaryOp op operand, _, ctx => by
    simp only [exprKind, Tree.ExprKind.relocate]
    exact .unaryNode (expr_tracks infers operand) ctx op
  | .boolOp op values, _, ctx => by
    simp only [exprKind, Tree.ExprKind.relocate]
    exact .boolOpNode (exprs_track infers values) ctx op
  | .compare left ops comparators, _, ctx => by
    simp only [exprKind, Tree.ExprKind.relocate]
    exact .compareNode (exprs_track infers comparators) (expr_tracks infers left) ctx ops
  | .list elts, _, ctx => by
    simp only [exprKind, Tree.ExprKind.relocate]
    exact .listNode (exprs_track infers elts) ctx
  | .set elts, _, ctx => by
    simp only [exprKind, Tree.ExprKind.relocate]
    exact .setNode (exprs_track infers elts) ctx
  | .dict keys values, _, ctx => by
    simp only [exprKind, Tree.ExprKind.relocate]
    exact .dictNode (exprs_track infers values) (exprs_track infers keys) ctx
  | .tuple elts, _, ctx => by
    simp only [exprKind, Tree.ExprKind.relocate]
    exact .tupleNode (exprs_track infers elts) ctx
  | .subscript value slice, _, ctx => by
    simp only [exprKind, Tree.ExprKind.relocate]
    exact .subscriptNode (expr_tracks infers value) (slice_tracks infers slice) ctx
  | .listComp elt generators, _, ctx => by
    simp only [exprKind, Tree.ExprKind.relocate]
    exact .listCompNode (expr_tracks infers elt) (clauses_track infers generators) ctx
  | .setComp .., _, _ => .fail _
  | .dictComp .., _, _ => .fail _
  | .generatorExp .., _, _ => .fail _
  | .lambda .., _, _ => .fail _
  | .ifExp .., _, _ => .fail _
  | .starred _, _, _ => .fail _

theorem exprs_track (infers : t.infer.Tracks f) :
    ∀ es : List Tree.Expr, List.Forall₂ (Deferred.Tracks f) (exprs t es)
      (exprs t (Tree.Expr.relocateAll f es))
  | [] => .nil
  | e :: es => .cons (expr_tracks infers e) (exprs_track infers es)

theorem optional_tracks (infers : t.infer.Tracks f) :
    ∀ e : Option Tree.Expr, Option.Rel (Deferred.Tracks f) (optional t e)
      (optional t (Tree.Expr.relocateOption f e))
  | none => .none
  | some e => .some (expr_tracks infers e)

theorem callee_tracks (infers : t.infer.Tracks f) {whole whole' : Deferred} :
    ∀ func : Tree.Expr, whole.Tracks f whole' →
      (callee t whole func).Tracks f (callee t whole' (func.relocate f))
  | ⟨kind, pos⟩, part => by
    cases kind with
    | name id => exact .name id
    | attr value name => exact .attr (expr_tracks infers value) name
    | _ => exact .value part

theorem slice_tracks (infers : t.infer.Tracks f) :
    ∀ slice : Tree.Slice, (deferredSlice t slice).Tracks f (deferredSlice t (slice.relocate f))
  | .index value => .index (expr_tracks infers value)
  | .slice lower upper step => by
    simp only [deferredSlice, Tree.Slice.relocate, Tree.Expr.isSome_relocateOption]
    exact .slice (optional_tracks infers lower) (optional_tracks infers upper) _

theorem iterated_tracks (infers : t.infer.Tracks f) :
    ∀ iter : Tree.Expr, (iterated t iter).Tracks f (iterated t (iter.relocate f))
  | ⟨kind, pos⟩ => by
    cases kind with
    | call func args keywords =>
      exact iterated_call_tracks (callee_tracks infers func (expr_tracks infers func))
        (exprs_track infers args)
    | _ => exact .other

theorem clauses_track (infers : t.infer.Tracks f) :
    ∀ cs : List Tree.Comprehension, List.Forall₂ (DeferredClause.Tracks f) (clauses t cs)
      (clauses t (Tree.Comprehension.relocateAll f cs))
  | [] => .nil
  | ⟨_, iter, ifs⟩ :: rest =>
    .cons ⟨rfl, expr_tracks infers iter, iterated_tracks infers iter, exprs_track infers ifs⟩
      (clauses_track infers rest)

end

end TreeTyper.Translate
