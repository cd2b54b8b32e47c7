import TreeTyper.Proofs.Law.Loop
import TreeTyper.Translate.Expr

/-!
# Expressions keep every law

A recursion on the syntax, one case for each form.

    L.Infers n infer → (L.Faultless → e.faultless) →
      L.Evaluates n ⟨e, expr ⟨setting, infer⟩ e⟩        (Law.expr_evaluates)
-/

namespace TreeTyper.Translate

open Typed

namespace Law

variable {setting : Setting} {L : Law setting} {n : Nat} {s : State} {ctx : Context}
  {infer : Infer}

theorem attributeOf_holds (infer : Infer) {value : Deferred} (attr : String)
    (evaluates : L.Evaluates n value) (at_s : L.At n ctx.site s) :
    L.Holds n .expr ctx.site s (attributeOf ⟨setting, infer⟩ ctx value attr)
      fun e s' => L.Node ctx.site s' e := by
  unfold attributeOf
  refine (evaluates ctx s at_s).bind fun object s' at' _ known => ?_
  refine Holds.get (Holds.walk_bind at' (·.classesEnd.attributeEnds ..) ?_)
  have parts : ∀ e ∈ [object], L.Node ctx.site s' e := by simpa using known
  split
  · exact Holds.fail id
  · next owner entry found =>
    split
    · next self => exact Holds.pure at' (at'.make parts (.instanceVar self found))
    · exact Holds.pure at' (at'.make parts (.attr found))

theorem attrNode_holds (infer : Infer) {value : Deferred} {attr : String}
    (evaluates : L.Evaluates n value) (at_s : L.At n ctx.site s) :
    L.Holds n .expr ctx.site s (attrNode ⟨setting, infer⟩ ctx value attr)
      fun e s' => L.Node ctx.site s' e := by
  have onValue := attributeOf_holds infer attr evaluates at_s
  unfold attrNode
  split
  · next id _ =>
    split
    · refine Holds.lookup_bind at_s ?_
      split
      · exact Holds.fail fun asks => asks
      · exact onValue
    · exact onValue
  · exact onValue

theorem binOpNode_holds (infer : Infer) {op : Tree.BinaryOperator} {left right : Deferred}
    (evaluatesLeft : L.Evaluates n left) (evaluatesRight : L.Evaluates n right)
    (at_s : L.At n ctx.site s) :
    L.Holds n .expr ctx.site s (binOpNode ⟨setting, infer⟩ ctx op left right)
      fun e s' => L.Node ctx.site s' e := by
  unfold binOpNode
  refine (evaluatesLeft ctx s at_s).bind fun left s₁ at₁ _ knownLeft => ?_
  refine (evaluatesRight ctx s₁ at₁).bind fun right s₂ at₂ move knownRight => ?_
  refine Holds.check at₂ (fun _ => binary_answers _ _ _ _) fun e made =>
    at₂.make ?_ (.binary made)
  simp only [List.mem_cons, List.not_mem_nil, or_false, forall_eq_or_imp, forall_eq]
  exact ⟨move.node knownLeft, knownRight⟩

/-- The loop over a call: its parts are those of the call. -/
theorem iterated_call {whole : Deferred} {func : Tree.Expr} {args : List Tree.Expr}
    {keywords : List Tree.Keyword} {pos : Pos}
    (evaluatesFunc : Callee.Evaluates L n (callee ⟨setting, infer⟩ whole func))
    (evaluates : ∀ d ∈ exprs ⟨setting, infer⟩ args, L.Evaluates n d) :
    Iterated.Evaluates L n (iterated ⟨setting, infer⟩ ⟨.call func args keywords, pos⟩) := by
  unfold iterated
  split
  · next same =>
    cases same
    exact evaluates
  · next same =>
    cases same
    split
    · rw [callee] at evaluatesFunc
      exact evaluatesFunc
    · trivial
  · trivial

theorem exprs_length (t : Translator) (es : List Tree.Expr) : (exprs t es).length = es.length := by
  induction es with
  | nil => rfl
  | cons e es ih => rw [exprs, List.length_cons, ih, List.length_cons]

mutual

theorem expr_evaluates (infers : L.Infers n infer) : ∀ e : Tree.Expr,
    (L.Faultless → e.faultless) → L.Evaluates n ⟨e, expr ⟨setting, infer⟩ e⟩
  | ⟨kind, pos⟩, sound => fun ctx s at_s => by
    simp only [expr]
    exact Holds.located (exprKind_holds infers pos kind sound ctx s at_s)

theorem exprKind_holds (infers : L.Infers n infer) (pos : Pos) : ∀ (kind : Tree.ExprKind),
    (L.Faultless → kind.faultless) → ∀ (ctx : Context) (s : State),
    L.At n ctx.site s → L.Holds n .expr ctx.site s (exprKind ⟨setting, infer⟩ pos kind ctx)
      fun e s' => L.Node ctx.site s' e
  | .int value, _, ctx, s, at_s => Holds.pure at_s (at_s.make (by simp) (.literal (.int value)))
  | .float bits, _, ctx, s, at_s => Holds.pure at_s (at_s.make (by simp) (.literal (.float bits)))
  | .str value, _, ctx, s, at_s => Holds.pure at_s (at_s.make (by simp) (.literal (.string value)))
  | .bool value, _, ctx, s, at_s => Holds.pure at_s (at_s.make (by simp) (.literal (.boolean value)))
  | .none, _, ctx, s, at_s => Holds.pure at_s (at_s.make (by simp) (.literal .null))
  | .name id, _, ctx, s, at_s => nameNode_holds infer id at_s
  | .attr value name, sound, ctx, s, at_s => by
    simp only [exprKind]
    exact attrNode_holds infer (expr_evaluates infers value sound) at_s
  | .call func args keywords, sound, ctx, s, at_s => by
    simp only [exprKind]
    obtain ⟨soundFunc, soundArgs⟩ := Tree.sound_and sound
    exact callNode_holds infers (exprs_evaluates infers args soundArgs) keywords
      (callee_evaluates infers (expr_evaluates infers func soundFunc) func soundFunc) at_s
  | .binOp left op right, sound, ctx, s, at_s => by
    simp only [exprKind]
    obtain ⟨soundLeft, soundRight⟩ := Tree.sound_and sound
    exact binOpNode_holds infer (expr_evaluates infers left soundLeft)
      (expr_evaluates infers right soundRight) at_s
  | .unaryOp op operand, sound, ctx, s, at_s => by
    simp only [exprKind]
    obtain ⟨fits, soundOperand⟩ := Tree.sound_and sound
    exact unaryNode_holds (fun faultless => by simpa using fits faultless)
      (expr_evaluates infers operand soundOperand) at_s
  | .boolOp op values, sound, ctx, s, at_s => by
    simp only [exprKind]
    exact boolOpNode_holds (exprs_evaluates infers values sound) at_s
  | .compare left ops comparators, sound, ctx, s, at_s => by
    simp only [exprKind]
    obtain ⟨enough, soundOperands⟩ := Tree.sound_and sound
    obtain ⟨soundLeft, soundRest⟩ := Tree.sound_and soundOperands
    refine compareNode_holds (fun faultless => ?_) (expr_evaluates infers left soundLeft)
      (exprs_evaluates infers comparators soundRest) at_s
    rw [exprs_length]
    exact of_decide_eq_true (enough faultless)
  | .list elts, sound, ctx, s, at_s => by
    simp only [exprKind]
    exact listNode_holds (exprs_evaluates infers elts sound) at_s
  | .set elts, sound, ctx, s, at_s => by
    simp only [exprKind]
    exact setNode_holds (exprs_evaluates infers elts sound) at_s
  | .dict keys values, sound, ctx, s, at_s => by
    simp only [exprKind]
    obtain ⟨soundKeys, soundValues⟩ := Tree.sound_and sound
    exact dictNode_holds (exprs_evaluates infers keys soundKeys)
      (exprs_evaluates infers values soundValues) at_s
  | .tuple elts, sound, ctx, s, at_s => by
    simp only [exprKind]
    exact tupleNode_holds (exprs_evaluates infers elts sound) at_s
  | .subscript value slice, sound, ctx, s, at_s => by
    simp only [exprKind]
    obtain ⟨soundValue, soundSlice⟩ := Tree.sound_and sound
    exact subscriptNode_holds infer (expr_evaluates infers value soundValue)
      (deferredSlice_evaluates infers slice soundSlice) at_s
  | .listComp elt generators, sound, ctx, s, at_s => by
    simp only [exprKind]
    obtain ⟨soundElt, soundClauses⟩ := Tree.sound_and sound
    exact listCompNode_holds infer (expr_evaluates infers elt soundElt)
      (clauses_evaluate infers generators soundClauses) at_s
  | .setComp .., _, _, _, _ => Holds.fail id
  | .dictComp .., _, _, _, _ => Holds.fail id
  | .generatorExp .., _, _, _, _ => Holds.fail id
  | .lambda .., _, _, _, _ => Holds.fail id
  | .ifExp .., _, _, _, _ => Holds.fail id
  | .starred _, _, _, _, _ => Holds.fail id

theorem exprs_evaluates (infers : L.Infers n infer) : ∀ es : List Tree.Expr,
    (L.Faultless → Tree.allFaultless es) → ∀ d ∈ exprs ⟨setting, infer⟩ es, L.Evaluates n d
  | [], _ => by simp [exprs]
  | e :: es, sound => by
    obtain ⟨soundFirst, soundRest⟩ := Tree.sound_and sound
    simp only [exprs, List.mem_cons, forall_eq_or_imp]
    exact ⟨expr_evaluates infers e soundFirst, exprs_evaluates infers es soundRest⟩

theorem optional_evaluates (infers : L.Infers n infer) : ∀ e : Option Tree.Expr,
    (L.Faultless → Tree.optionFaultless e) → ∀ d ∈ optional ⟨setting, infer⟩ e, L.Evaluates n d
  | none, _ => by simp [optional]
  | some e, sound => by
    simp only [optional, Option.mem_some_iff, forall_eq']
    exact expr_evaluates infers e sound

theorem callee_evaluates (infers : L.Infers n infer) {whole : Deferred}
    (evaluates : L.Evaluates n whole) :
    ∀ func : Tree.Expr, (L.Faultless → func.faultless) →
      Callee.Evaluates L n (callee ⟨setting, infer⟩ whole func)
  | ⟨kind, pos⟩, sound => by
    cases kind with
    | name id => trivial
    | attr value name =>
      simp only [callee]
      exact expr_evaluates infers value sound
    | _ => exact evaluates

theorem deferredSlice_evaluates (infers : L.Infers n infer) : ∀ slice : Tree.Slice,
    (L.Faultless → slice.faultless) →
    DeferredSlice.Evaluates L n (deferredSlice ⟨setting, infer⟩ slice)
  | .index value, sound => by
    simp only [deferredSlice]
    exact expr_evaluates infers value sound
  | .slice lower upper step, sound => by
    obtain ⟨soundLower, soundUpper⟩ := Tree.sound_and sound
    simp only [deferredSlice]
    exact ⟨optional_evaluates infers lower soundLower, optional_evaluates infers upper soundUpper⟩

theorem clause_evaluates (infers : L.Infers n infer) : ∀ c : Tree.Comprehension,
    (L.Faultless → c.faultless) → DeferredClause.Evaluates L n (clause ⟨setting, infer⟩ c)
  | ⟨target, iter, ifs⟩, sound => by
    obtain ⟨soundIter, soundIfs⟩ := Tree.sound_and sound
    simp only [clause]
    exact ⟨expr_evaluates infers iter soundIter, iterated_evaluates infers iter soundIter,
      exprs_evaluates infers ifs soundIfs⟩

theorem clauses_evaluate (infers : L.Infers n infer) : ∀ cs : List Tree.Comprehension,
    (L.Faultless → Tree.clausesFaultless cs) →
    ∀ c ∈ clauses ⟨setting, infer⟩ cs, DeferredClause.Evaluates L n c
  | [], _ => by simp [clauses]
  | c :: cs, sound => by
    obtain ⟨soundFirst, soundRest⟩ := Tree.sound_and sound
    simp only [clauses, List.mem_cons, forall_eq_or_imp]
    exact ⟨clause_evaluates infers c soundFirst, clauses_evaluate infers cs soundRest⟩

theorem iterated_evaluates (infers : L.Infers n infer) : ∀ iter : Tree.Expr,
    (L.Faultless → iter.faultless) → Iterated.Evaluates L n (iterated ⟨setting, infer⟩ iter)
  | ⟨kind, pos⟩, sound => by
    cases kind with
    | call func args keywords =>
      obtain ⟨soundFunc, soundArgs⟩ := Tree.sound_and sound
      have evaluates := expr_evaluates infers func soundFunc
      exact iterated_call (callee_evaluates infers evaluates func soundFunc)
        (exprs_evaluates infers args soundArgs)
    | _ => trivial

end

end Law

end TreeTyper.Translate
