import TreeTyper.Proofs.Law.Call
import TreeTyper.Translate.Container

/-!
# Containers, operations and subscripts keep every law
-/

namespace TreeTyper.Translate

open Typed

/-! ## Conditions -/

theorem type_testable {value e : Expr} (made : testable value = .ok e) : e.type = .boolean := by
  unfold testable at made
  split at made
  · next isBoolean =>
    cases made
    exact Ty.isAtom_iff.mp isBoolean
  split at made
  · cases made
    rfl
  split at made
  · cases made
    rfl
  split at made
  · cases made
    rfl
  · cases made

namespace Law

variable {setting : Setting} {L : Law setting} {n : Nat} {s : State} {σ : Site} {ctx : Context}

/-- A condition that was put together. -/
structure Condition (L : Law setting) (σ : Site) (s : State) (e : Expr) : Prop where
  node : L.Node σ s e
  type : e.type = .boolean

theorem At.condition {value e : Expr} (at_s : L.At n σ s) (known : L.Node σ s value)
    (made : testable value = .ok e) : Condition L σ s e :=
  ⟨at_s.test known made, type_testable made⟩

theorem At.connect {left right : Expr} (op : Tree.BooleanOperator) (at_s : L.At n σ s)
    (knownLeft : Condition L σ s left) (knownRight : Condition L σ s right) :
    Condition L σ s ⟨.binaryOp op.symbol left right, .boolean⟩ := by
  refine ⟨at_s.make ?_ (.connect knownLeft.type knownRight.type), rfl⟩
  simp only [List.mem_cons, List.not_mem_nil, or_false, forall_eq_or_imp, forall_eq]
  exact ⟨knownLeft.node, knownRight.node⟩

theorem At.conjoin {nodes : List Expr} {e : Expr} (at_s : L.At n σ s)
    (known : ∀ e ∈ nodes, Condition L σ s e) (joined : conjoin nodes = some e) :
    Condition L σ s e := by
  induction nodes generalizing e with
  | nil => cases joined
  | cons left rest ih =>
    cases rest with
    | nil =>
      cases joined
      exact known left (by simp)
    | cons right rest =>
      obtain ⟨right', joined', rfl⟩ := Option.map_eq_some_iff.mp joined
      have knownRight := ih (fun e he => known e (by simp [he])) joined'
      exact at_s.connect .and (known left (by simp)) knownRight

theorem At.connectAll {op : Tree.BooleanOperator} {rest : List Expr} {first : Expr}
    (at_s : L.At n σ s) (knownFirst : Condition L σ s first)
    (known : ∀ e ∈ rest, Condition L σ s e) :
    Condition L σ s
      (rest.foldl (fun left right => ⟨.binaryOp op.symbol left right, .boolean⟩) first) := by
  induction rest generalizing first with
  | nil => exact knownFirst
  | cons right rest ih =>
    exact ih (at_s.connect op knownFirst (known right (by simp))) fun e he => known e (by simp [he])

/-! ## Containers -/

theorem elementNodes_holds {container : String} {elts : List Deferred}
    (evaluates : ∀ d ∈ elts, L.Evaluates n d) {elem : Ty} (at_s : L.At n ctx.site s) :
    L.Holds n .expr ctx.site s (elementNodes ctx container elem elts) fun found s' =>
      (∀ e ∈ found.1, L.Node ctx.site s' e) ∧ ∀ given, Gathered s.hierarchy given elem →
        (∀ t ∈ types found.1, t ∈ given) → Gathered s'.hierarchy given found.2 := by
  induction elts generalizing s elem with
  | nil => exact Holds.pure at_s ⟨by simp, fun given gathered _ => gathered⟩
  | cons d ds ih =>
    unfold elementNodes
    refine (evaluates d (by simp) ctx s at_s).bind fun node s₁ at₁ first known => ?_
    refine Holds.get (Holds.walk_bind at₁ (·.classesEnd.compatibleEnds ..) ?_)
    split
    · exact Holds.failAt id
    next elem' fits =>
    refine (ih (fun d' hd' => evaluates d' (by simp [hd'])) at₁).bind ?_
    rintro ⟨nodes, last⟩ s₂ at₂ move ⟨knownRest, gather⟩
    refine Holds.pure at₂ ⟨?_, fun given gathered within => ?_⟩
    · simp only [List.mem_cons, forall_eq_or_imp]
      exact ⟨move.node known, knownRest⟩
    · have given' : Gathered s₁.hierarchy given node.type := .given (within _ (by simp [types]))
      have gathered' := gathered.sameShape first.shape.hierarchy
      exact gather given (.compatible given' gathered' fits) fun t ht =>
        within t (List.mem_cons_of_mem _ ht)

theorem listNode_holds {elts : List Deferred} (evaluates : ∀ d ∈ elts, L.Evaluates n d)
    (at_s : L.At n ctx.site s) :
    L.Holds n .expr ctx.site s (listNode ctx elts) fun e s' => L.Node ctx.site s' e := by
  unfold listNode
  refine (elementNodes_holds evaluates at_s).bind ?_
  rintro ⟨nodes, elem⟩ s' at' _ ⟨known, gather⟩
  exact Holds.pure at' (at'.make known (.list (gather _ .hole fun t ht => ht)))

theorem setNode_holds {elts : List Deferred} (evaluates : ∀ d ∈ elts, L.Evaluates n d)
    (at_s : L.At n ctx.site s) :
    L.Holds n .expr ctx.site s (setNode ctx elts) fun e s' => L.Node ctx.site s' e := by
  unfold setNode
  refine (elementNodes_holds evaluates at_s).bind ?_
  rintro ⟨nodes, elem⟩ s' at' _ ⟨known, gather⟩
  exact Holds.pure at' (at'.make known (.set (gather _ .hole fun t ht => ht)))

theorem pairNodes_holds {pairs : List (Deferred × Deferred)}
    (evaluates : ∀ d ∈ pairs, L.Evaluates n d.1 ∧ L.Evaluates n d.2) {key value : Ty}
    (at_s : L.At n ctx.site s) :
    L.Holds n .expr ctx.site s (pairNodes ctx key value pairs) fun found s' =>
      (∀ e ∈ pairRoots found.1, L.Node ctx.site s' e) ∧
      (∀ given, Gathered s.hierarchy given key →
        (∀ t ∈ types (found.1.map (·.key)), t ∈ given) → Gathered s'.hierarchy given found.2.1) ∧
      ∀ given, Gathered s.hierarchy given value →
        (∀ t ∈ types (found.1.map (·.value)), t ∈ given) → Gathered s'.hierarchy given found.2.2 := by
  induction pairs generalizing s key value with
  | nil =>
    exact Holds.pure at_s ⟨by simp [pairRoots], fun given gathered _ => gathered,
      fun given gathered _ => gathered⟩
  | cons d ds ih =>
    obtain ⟨k, v⟩ := d
    have evaluatesFirst := evaluates (k, v) (by simp)
    unfold Translate.pairNodes
    refine (evaluatesFirst.1 ctx s at_s).bind fun keyNode s₁ at₁ first knownKey => ?_
    refine (evaluatesFirst.2 ctx s₁ at₁).bind fun valueNode s₂ at₂ move knownValue => ?_
    have same := (first.trans move).shape.hierarchy
    refine Holds.get (Holds.walk_bind at₂ (·.classesEnd.unifyEnds ..) ?_)
    split
    · exact Holds.failAt id
    next key' keyJoins =>
    refine Holds.walk_bind at₂ (·.classesEnd.unifyEnds ..) ?_
    split
    · exact Holds.failAt id
    next value' valueJoins =>
    -- the rest starts from the joined types, which are gathered from one entry more
    refine (ih (fun d' hd' => evaluates d' (by simp [hd'])) at₂).bind ?_
    rintro ⟨pairs, lastKey, lastValue⟩ s₃ at₃ move' ⟨knownRest, gatherKey, gatherValue⟩
    refine Holds.pure at₃ ⟨?_, fun given gathered within => ?_, fun given gathered within => ?_⟩
    · simp only [pairRoots, List.flatMap_cons, List.cons_append, List.nil_append, List.mem_cons,
        forall_eq_or_imp]
      exact ⟨(move.trans move').node knownKey, move'.node knownValue, knownRest⟩
    · have given' : Gathered s₂.hierarchy given keyNode.type := .given (within _ (by simp [types]))
      exact gatherKey given (.unify (gathered.sameShape same) given' keyJoins) fun t ht =>
        within t (List.mem_cons_of_mem _ ht)
    · have given' : Gathered s₂.hierarchy given valueNode.type := .given (within _ (by simp [types]))
      exact gatherValue given (.unify (gathered.sameShape same) given' valueJoins) fun t ht =>
        within t (List.mem_cons_of_mem _ ht)

theorem dictNode_holds {keys values : List Deferred} (evaluatesKeys : ∀ d ∈ keys, L.Evaluates n d)
    (evaluatesValues : ∀ d ∈ values, L.Evaluates n d) (at_s : L.At n ctx.site s) :
    L.Holds n .expr ctx.site s (dictNode ctx keys values) fun e s' => L.Node ctx.site s' e := by
  have evaluates : ∀ d ∈ keys.zip values, L.Evaluates n d.1 ∧ L.Evaluates n d.2 := fun d hd =>
    ⟨evaluatesKeys d.1 (List.of_mem_zip hd).1, evaluatesValues d.2 (List.of_mem_zip hd).2⟩
  unfold dictNode
  refine (pairNodes_holds evaluates at_s).bind ?_
  rintro ⟨pairs, key, value⟩ s' at' _ ⟨known, gatherKey, gatherValue⟩
  refine Holds.pure at' (at'.make known (.dictionary ?_ ?_))
  · exact gatherKey _ .hole fun t ht => ht
  · exact gatherValue _ .hole fun t ht => ht

theorem sharedType_gathered {h : Hierarchy} {given ts : List Ty} {acc shared : Ty}
    (found : sharedType h acc ts = some shared) (gathered : Gathered h given acc)
    (within : ∀ t ∈ ts, t ∈ given) : Gathered h given shared := by
  induction ts generalizing acc with
  | nil =>
    cases found
    exact gathered
  | cons t ts ih =>
    obtain ⟨acc', fits, found'⟩ := Option.bind_eq_some_iff.mp found
    exact ih found' (.compatible gathered (.given (within t (by simp))) fits) fun t' ht' =>
      within t' (by simp [ht'])

theorem tupleNode_holds {elts : List Deferred} (evaluates : ∀ d ∈ elts, L.Evaluates n d)
    (at_s : L.At n ctx.site s) :
    L.Holds n .expr ctx.site s (tupleNode ctx elts) fun e s' => L.Node ctx.site s' e := by
  unfold tupleNode
  refine (runAll_holds evaluates at_s).bind fun nodes s' at' _ known => ?_
  refine Holds.get (Holds.walk_bind at' (·.classesEnd.sharedTypeEnds ..) (Holds.pure at' ?_))
  unfold tupleOf
  dsimp only
  split
  · next elem shared =>
    split
    · exact at'.make known .tuple
    · exact at'.make known (.array (sharedType_gathered shared .hole fun t ht => ht))
  · exact at'.make known .tuple

/-! ## Operations on several operands -/

theorem testNodes_holds {values : List Deferred} (evaluates : ∀ d ∈ values, L.Evaluates n d)
    (at_s : L.At n ctx.site s) :
    L.Holds n .expr ctx.site s (testNodes ctx values) fun es s' =>
      ∀ e ∈ es, Condition L ctx.site s' e := by
  induction values generalizing s with
  | nil => exact Holds.pure at_s (by simp)
  | cons d ds ih =>
    unfold testNodes
    refine (evaluates d (by simp) ctx s at_s).bind fun node s₁ at₁ _ known => ?_
    refine Holds.check_bind at₁ (fun _ => testable_answers node) fun test made => ?_
    have condition := at₁.condition known made
    refine (ih (fun d' hd' => evaluates d' (by simp [hd'])) at₁).bind fun es s₂ at₂ move rest => ?_
    refine Holds.pure at₂ ?_
    simp only [List.mem_cons, forall_eq_or_imp]
    exact ⟨⟨move.node condition.node, condition.type⟩, rest⟩

theorem boolOpNode_holds {op : Tree.BooleanOperator} {values : List Deferred}
    (evaluates : ∀ d ∈ values, L.Evaluates n d) (at_s : L.At n ctx.site s) :
    L.Holds n .expr ctx.site s (boolOpNode ctx op values) fun e s' => L.Node ctx.site s' e := by
  unfold boolOpNode
  refine (testNodes_holds evaluates at_s).bind fun tests s' at' _ known => ?_
  split
  · exact Holds.fail id
  · next first rest =>
    refine Holds.pure at' (at'.connectAll (known first (by simp)) fun e he => ?_).node
    exact known e (by simp [he])

theorem runAll_length (ds : List Deferred) (ctx : Context) (s : State) :
    Runs (runAll ctx ds) s (fun es _ => es.length = ds.length) fun _ _ => True := by
  induction ds generalizing s with
  | nil => exact Runs.pure rfl
  | cons d ds ih =>
    refine (Runs.anyhow (d.run ctx) s).bind fun node s₁ _ => ?_
    refine (ih s₁).bind fun nodes s₂ length => Runs.pure ?_
    rw [List.length_cons, length, List.length_cons]

theorem comparisons_holds {left : Expr} {ops : List Tree.ComparisonOperator}
    {rest : List (Expr × Pos)} (enough : L.Faultless → ops.length ≤ rest.length)
    (at_s : L.At n σ s) (knownLeft : L.Node σ s left) (known : ∀ p ∈ rest, L.Node σ s p.1) :
    L.Holds n .expr σ s (comparisons left ops rest) fun es s' =>
      ∀ e ∈ es, Condition L σ s' e := by
  induction ops generalizing left rest s with
  | nil =>
    unfold comparisons
    exact Holds.pure at_s (by simp)
  | cons op ops ih =>
    cases rest with
    -- an operator without its operand, which no faultless tree has
    | nil => exact Holds.abort (by simp) fun faultless => by simpa using enough faultless
    | cons second rest =>
      obtain ⟨right, pos⟩ := second
      have knownRight : L.Node σ s right := known (right, pos) (by simp)
      unfold comparisons
      split
      · exact Holds.failAt id
      have confirms : L.Holds n .expr σ s
          (located pos (check (confirmComparable left.type right.type)))
          fun _ _ => confirmComparable left.type right.type = .ok () :=
        Holds.located (Holds.check at_s (fun _ => confirmComparable_answers _ _) fun _ ok => ok)
      refine confirms.bind fun _ s₁ at₁ move comparable => ?_
      have enough' : L.Faultless → ops.length ≤ rest.length := fun faultless =>
        Nat.le_of_succ_le_succ (enough faultless)
      refine (ih enough' at₁ (move.node knownRight) fun p hp => move.node (known p (by simp [hp]))).bind
        fun es s₂ at₂ move' conditions => ?_
      refine Holds.pure at₂ ?_
      simp only [List.mem_cons, forall_eq_or_imp]
      refine ⟨⟨at₂.make ?_ (.comparison comparable), rfl⟩, conditions⟩
      simp only [List.mem_cons, List.not_mem_nil, or_false, forall_eq_or_imp, forall_eq]
      exact ⟨(move.trans move').node knownLeft, (move.trans move').node knownRight⟩

theorem compareNode_holds {left : Deferred} {ops : List Tree.ComparisonOperator}
    {comparators : List Deferred} (enough : L.Faultless → ops.length ≤ comparators.length)
    (evaluatesLeft : L.Evaluates n left) (evaluates : ∀ d ∈ comparators, L.Evaluates n d)
    (at_s : L.At n ctx.site s) :
    L.Holds n .expr ctx.site s (compareNode ctx left ops comparators)
      fun e s' => L.Node ctx.site s' e := by
  unfold compareNode
  refine (evaluatesLeft ctx s at_s).bind fun first s₁ at₁ _ knownFirst => ?_
  refine ((runAll_holds evaluates at₁).and (runAll_length comparators ctx s₁)).bind
    fun rest s₂ at₂ move ⟨known, length⟩ => ?_
  have paired : L.Faultless →
      ops.length ≤ (rest.zip (comparators.map (·.source.pos))).length := fun faultless => by
    have := enough faultless
    simp only [List.length_zip, List.length_map]
    omega
  refine (comparisons_holds paired at₂ (move.node knownFirst) fun p hp =>
    known p.1 (List.of_mem_zip hp).1).bind fun nodes s₃ at₃ _ conditions => ?_
  split
  · next e joined => exact Holds.pure at₃ (at₃.conjoin conditions joined).node
  · exact Holds.fail id

theorem unaryNode_holds {op : Tree.UnaryOperator} {operand : Deferred}
    (sound : L.Faultless → op.overflows operand.source.kind = false)
    (evaluates : L.Evaluates n operand) (at_s : L.At n ctx.site s) :
    L.Holds n .expr ctx.site s (unaryNode ctx op operand) fun e s' => L.Node ctx.site s' e := by
  unfold unaryNode
  split
  · split
    · next value same =>
      split
      · next least =>
        refine Holds.abort (by simp) fun faultless => ?_
        have kept := sound faultless
        rw [same] at kept
        simp [Tree.UnaryOperator.overflows, least] at kept
      · exact Holds.pure at_s (at_s.make (by simp) (.literal (.int _)))
    · exact Holds.pure at_s (at_s.make (by simp) (.literal (.float _)))
    · refine (evaluates ctx s at_s).bind fun value s' at' _ known => ?_
      split
      · next numeric => exact Holds.pure at' (at'.make (by simpa using known) (.negative numeric))
      · exact Holds.fail id
  · refine (evaluates ctx s at_s).bind fun value s' at' _ known => ?_
    split
    · exact Holds.pure at' known
    · exact Holds.fail id
  · refine (evaluates ctx s at_s).bind fun value s' at' _ known => ?_
    refine Holds.check_bind at' (fun _ => testable_answers value) fun test made => ?_
    have condition := at'.condition known made
    exact Holds.pure at' (at'.make (by simpa using condition.node) (.not condition.type))
  · exact Holds.fail id

/-! ## Subscripts -/

/-- The parts of an index keep the law. -/
def DeferredSlice.Evaluates (L : Law setting) (n : Nat) : DeferredSlice → Prop
  | .index value => L.Evaluates n value
  | .slice lower upper _ => (∀ d ∈ lower, L.Evaluates n d) ∧ ∀ d ∈ upper, L.Evaluates n d

theorem subscriptNode_holds (infer : Infer) {value : Deferred} {slice : DeferredSlice}
    (evaluates : L.Evaluates n value) (evaluatesSlice : DeferredSlice.Evaluates L n slice)
    (at_s : L.At n ctx.site s) :
    L.Holds n .expr ctx.site s (subscriptNode ⟨setting, infer⟩ ctx value slice)
      fun e s' => L.Node ctx.site s' e := by
  unfold subscriptNode
  refine (evaluates ctx s at_s).bind fun sequence s₁ at₁ _ known => ?_
  split
  · next index =>
    refine (evaluatesSlice ctx s₁ at₁).bind fun place s₂ at₂ move knownPlace => ?_
    refine Holds.get (Holds.walk_bind at₂ (·.classesEnd.indexTypeEnds ..) ?_)
    refine Holds.check_bind at₂ (fun _ => indexType_answers _ _ _ _) fun ty typed => ?_
    refine Holds.pure at₂ (at₂.make ?_ (.index typed))
    simp only [List.mem_cons, List.not_mem_nil, or_false, forall_eq_or_imp, forall_eq]
    exact ⟨move.node known, knownPlace⟩
  · next lower upper hasStep =>
    obtain ⟨evaluatesLower, evaluatesUpper⟩ := evaluatesSlice
    dsimp only
    split
    · exact Holds.fail id
    split
    · exact Holds.fail id
    next sliceable =>
    -- the three slices differ in their message and bounds only
    have slicing : ∀ message ∈ Expansion.slices, ∀ bounds : List Deferred,
        (∀ d ∈ bounds, L.Evaluates n d) →
        L.Holds n .expr ctx.site s₁ (runAll ctx bounds >>= fun args =>
          standardMethod setting.api ctx sequence.type.head message sequence args)
          fun e s' => L.Node ctx.site s' e := by
      intro message listed bounds evaluatesBounds
      refine (runAll_holds evaluatesBounds at₁).bind fun args s₂ at₂ move knownArgs => ?_
      exact standardMethod_holds (.builtin (Expansion.slice_mem sliceable listed)) rfl at₂
        (move.node known) knownArgs
    split
    · next lo hi =>
      exact slicing _ (by decide) [lo, hi] (by simp [evaluatesLower lo, evaluatesUpper hi])
    · next lo => exact slicing _ (by decide) [lo] (by simp [evaluatesLower lo])
    · next hi => exact slicing _ (by decide) [hi] (by simp [evaluatesUpper hi])
    · exact Holds.fail id

end Law

end TreeTyper.Translate
