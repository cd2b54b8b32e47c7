import TreeTyper.Proofs.Law.Container
import TreeTyper.Translate.Loop

/-!
# Heads of loops and comprehensions keep every law

The variables of a head are new names, so the scope that binds them hides nothing.
-/

namespace TreeTyper.Translate

open Typed

/-- The expressions that stand in the head of a loop. -/
def LoopHead.roots : LoopHead → List Expr
  | range start stop step _ => [start, stop, step]
  | iterate sequence _ => sequence.roots

namespace Law

variable {setting : Setting} {L : Law setting} {n : Nat} {s s' : State} {ctx : Context}

/-- The head of a loop that was put together. -/
structure Head (L : Law setting) (σ : Site) (s : State) (head : LoopHead) : Prop where
  nodes : ∀ e ∈ head.roots, L.Node σ s e
  taken : ∀ b ∈ head.binders, Taken (types head.roots) b.type

theorem Head.fine {σ : Site} {head : LoopHead} (known : Head L σ s head) :
    ∀ b ∈ head.binders, L.Fine b.type := by
  have fine : ∀ t ∈ types head.roots, L.Fine t := fine_types known.nodes
  intro b hb
  have taken := known.taken b hb
  generalize b.type = t at taken ⊢
  cases taken with
  | index => exact L.fine_int
  | element listed iterates => exact L.fine_element (fine _ listed) iterates
  | value listed => exact (L.fine_items (fine _ listed)).2

/-! ## Heads -/

theorem elementOf_holds {m : Mode} {σ : Site} {pos : Pos} {sequence : Expr} (at_s : L.At n σ s) :
    L.Holds n m σ s (elementOf pos sequence)
      fun elem s' => sequence.type.element? = some elem ∧ s' = s := by
  unfold elementOf
  split
  · next elem iterates => exact Holds.pure at_s ⟨iterates, rfl⟩
  · exact Holds.failAt id

theorem boundNodes_holds {bounds : List (Deferred × String)}
    (evaluates : ∀ d ∈ bounds, L.Evaluates n d.1) (at_s : L.At n ctx.site s) :
    L.Holds n .expr ctx.site s (boundNodes ctx bounds) fun es s' =>
      ∀ e ∈ es, L.Node ctx.site s' e := by
  induction bounds generalizing s with
  | nil => exact Holds.pure at_s (by simp)
  | cons bound rest ih =>
    obtain ⟨d, role⟩ := bound
    unfold boundNodes
    refine (evaluates (d, role) (by simp) ctx s at_s).bind fun node s₁ at₁ _ known => ?_
    split
    · refine (ih (fun d' hd' => evaluates d' (by simp [hd'])) at₁).bind
        fun es s₂ at₂ move knownRest => ?_
      refine Holds.pure at₂ ?_
      simp only [List.mem_cons, forall_eq_or_imp]
      exact ⟨move.node known, knownRest⟩
    · exact Holds.failAt id

theorem At.literal {σ : Site} (at_s : L.At n σ s) (value : Int64) : L.Node σ s (.int value) :=
  at_s.make (by simp) (.literal (.int value))

theorem rangeHead_holds {target : Tree.Expr} {args : List Deferred}
    (evaluates : ∀ d ∈ args, L.Evaluates n d) (at_s : L.At n ctx.site s) :
    L.Holds n .expr ctx.site s (rangeHead ctx target args) fun head s' =>
      Head L ctx.site s' head := by
  have head : ∀ {s' start stop step index}, L.Node ctx.site s' start → L.Node ctx.site s' stop →
      L.Node ctx.site s' step → Head L ctx.site s' (.range start stop step index) := by
    intro s' start stop step index knownStart knownStop knownStep
    constructor
    · simp only [LoopHead.roots, List.mem_cons, List.not_mem_nil, or_false, forall_eq_or_imp,
        forall_eq]
      exact ⟨knownStart, knownStop, knownStep⟩
    · simp only [LoopHead.binders, List.mem_cons, List.not_mem_nil, or_false, forall_eq]
      exact .index
  have evaluatesBounds : ∀ roles : List String, ∀ d ∈ args.zip roles,
      L.Evaluates n d.1 := fun roles d hd =>
    evaluates d.1 (List.of_mem_zip hd).1
  unfold rangeHead
  split
  · exact Holds.failAt id
  extract_lets roles
  split
  · exact Holds.fail id
  refine (boundNodes_holds (evaluatesBounds _) at_s).bind fun nodes s' at' _ known => ?_
  split
  · next stop => exact Holds.pure at' (head (at'.literal 0) (known stop (by simp)) (at'.literal 1))
  · next start stop =>
    exact Holds.pure at' (head (known start (by simp)) (known stop (by simp)) (at'.literal 1))
  · next start stop step =>
    exact Holds.pure at'
      (head (known start (by simp)) (known stop (by simp)) (known step (by simp)))
  · exact Holds.fail id

theorem itemsOf_head {σ : Site} {sequence : Expr} {names : String × String} {key value : Ty}
    (known : L.Node σ s sequence) (type : sequence.type = .dictionary key value) :
    Head L σ s (itemsOf sequence names key value) := by
  have listed : .dictionary key value ∈ types (itemsOf sequence names key value).roots := by
    simp [itemsOf, LoopHead.roots, Sequence.roots, types, type]
  constructor
  · simpa [itemsOf, LoopHead.roots, Sequence.roots] using known
  · simp only [itemsOf, LoopHead.binders, Iterators.binders, List.mem_cons, List.not_mem_nil,
      or_false, forall_eq_or_imp, forall_eq]
    exact ⟨.element listed rfl, .value listed⟩

theorem enumerateHead_holds {target : Tree.Expr} {args : List Deferred}
    (evaluates : ∀ d ∈ args, L.Evaluates n d) (at_s : L.At n ctx.site s) :
    L.Holds n .expr ctx.site s (enumerateHead ctx target args) fun head s' =>
      Head L ctx.site s' head := by
  unfold enumerateHead
  split
  · exact Holds.failAt id
  split
  · next names _ arg =>
    refine (evaluates arg (by simp) ctx s at_s).bind fun sequence s' at' _ known => ?_
    split
    · next key value type => exact Holds.pure at' (itemsOf_head known type)
    · refine (elementOf_holds at').bind ?_
      rintro elem s₂ at₂ _ ⟨iterates, rfl⟩
      refine Holds.pure at₂ ⟨?_, ?_⟩
      · simpa [LoopHead.roots, Sequence.roots] using known
      · simp only [LoopHead.binders, Iterators.binders, List.mem_cons, List.not_mem_nil, or_false,
          forall_eq_or_imp, forall_eq]
        exact ⟨.index, .element List.mem_cons_self iterates⟩
  · exact Holds.fail id

theorem zipNodes_holds {sequences : List (Deferred × String)}
    (evaluates : ∀ d ∈ sequences, L.Evaluates n d.1) (at_s : L.At n ctx.site s) :
    L.Holds n .expr ctx.site s (zipNodes ctx sequences) fun found s' =>
      ∀ p ∈ found, L.Node ctx.site s' p.1 ∧ p.1.type.element? = some p.2.type := by
  induction sequences generalizing s with
  | nil => exact Holds.pure at_s (by simp)
  | cons first rest ih =>
    obtain ⟨d, name⟩ := first
    unfold zipNodes
    refine (evaluates (d, name) (by simp) ctx s at_s).bind fun sequence s₁ at₁ _ known => ?_
    refine (elementOf_holds at₁).bind ?_
    rintro elem s₂ at₂ _ ⟨iterates, rfl⟩
    refine (ih (fun d' hd' => evaluates d' (by simp [hd'])) at₂).bind
      fun found s₃ at₃ move knownRest => ?_
    refine Holds.pure at₃ ?_
    simp only [List.mem_cons, forall_eq_or_imp]
    exact ⟨⟨move.node known, iterates⟩, knownRest⟩

theorem zipHead_holds {target : Tree.Expr} {args : List Deferred}
    (evaluates : ∀ d ∈ args, L.Evaluates n d) (at_s : L.At n ctx.site s) :
    L.Holds n .expr ctx.site s (zipHead ctx target args) fun head s' =>
      Head L ctx.site s' head := by
  unfold zipHead
  split
  · exact Holds.fail id
  split
  · exact Holds.failAt id
  next names _ =>
  have evaluatesZip : ∀ d ∈ args.zip names, L.Evaluates n d.1 := fun d hd =>
    evaluates d.1 (List.of_mem_zip hd).1
  refine (zipNodes_holds evaluatesZip at_s).bind fun found s' at' _ known => ?_
  refine Holds.pure at' ⟨?_, ?_⟩
  · simp only [LoopHead.roots, Sequence.roots, List.mem_map, forall_exists_index, and_imp,
      forall_apply_eq_imp_iff₂]
    exact fun p hp => (known p hp).1
  · simp only [LoopHead.binders, Iterators.binders, List.mem_map, forall_exists_index, and_imp,
      forall_apply_eq_imp_iff₂]
    exact fun p hp => .element (List.mem_map_of_mem (List.mem_map_of_mem hp)) (known p hp).2

theorem itemsHead_holds (infer : Infer) {target : Tree.Expr} {receiver : Deferred}
    (evaluates : L.Evaluates n receiver) (at_s : L.At n ctx.site s) :
    L.Holds n .expr ctx.site s (itemsHead ⟨setting, infer⟩ ctx target receiver) fun head s' =>
      Head L ctx.site s' head := by
  unfold itemsHead
  refine (evaluates ctx s at_s).bind fun sequence s' at' _ known => ?_
  split
  · next key value type =>
    split
    · exact Holds.pure at' (itemsOf_head known type)
    · exact Holds.failAt id
  · exact Holds.get (Holds.fail id)

theorem plainHead_holds {target : Tree.Expr} {iter : Deferred} (evaluates : L.Evaluates n iter)
    (at_s : L.At n ctx.site s) :
    L.Holds n .expr ctx.site s (plainHead ctx target iter) fun head s' =>
      Head L ctx.site s' head := by
  unfold plainHead
  split
  · exact Holds.failAt id
  · refine (evaluates ctx s at_s).bind fun sequence s₁ at₁ _ known => ?_
    refine (elementOf_holds at₁).bind ?_
    rintro elem s₂ at₂ _ ⟨iterates, rfl⟩
    refine Holds.pure at₂ ⟨?_, ?_⟩
    · simpa [LoopHead.roots, Sequence.roots] using known
    · simp only [LoopHead.binders, Iterators.binders, List.mem_cons, List.not_mem_nil, or_false,
        forall_eq]
      exact .element List.mem_cons_self iterates

/-- The parts of the expression a loop runs over keep the law. -/
def Iterated.Evaluates (L : Law setting) (n : Nat) : Iterated → Prop
  | .call _ args => ∀ d ∈ args, L.Evaluates n d
  | .items receiver => L.Evaluates n receiver
  | .other => True

theorem isBuiltinIterator_holds (id : String) (at_s : L.At n ctx.site s) :
    L.Holds n .expr ctx.site s (isBuiltinIterator ctx id) fun _ s' => s' = s := by
  unfold isBuiltinIterator
  split
  · exact Holds.pure at_s rfl
  · exact Holds.lookup_bind at_s (Holds.get (Holds.pure at_s rfl))

theorem uncheckedHead_holds (infer : Infer) {target : Tree.Expr} {iter : Deferred}
    {form : Iterated} (evaluates : L.Evaluates n iter)
    (evaluatesForm : Iterated.Evaluates L n form) (at_s : L.At n ctx.site s) :
    L.Holds n .expr ctx.site s (uncheckedHead ⟨setting, infer⟩ ctx target iter form)
      fun head s' => Head L ctx.site s' head := by
  unfold uncheckedHead
  split
  · next id args =>
    refine (isBuiltinIterator_holds id at_s).bind ?_
    rintro isBuiltin s' at' _ rfl
    split
    · split
      · exact rangeHead_holds evaluatesForm at'
      split
      · exact enumerateHead_holds evaluatesForm at'
      · exact zipHead_holds evaluatesForm at'
    · exact plainHead_holds evaluates at'
  · exact itemsHead_holds infer evaluatesForm at_s
  · exact plainHead_holds evaluates at_s

/-! ## Variables -/

theorem checkLoopVariable_holds (infer : Infer) {target : Tree.Expr} {name : String}
    (at_s : L.At n ctx.site s) :
    L.Holds n .expr ctx.site s (checkLoopVariable ⟨setting, infer⟩ ctx target name)
      fun _ s' => s' = s ∧ s.scopes.lookup ctx.scope name = none := by
  unfold checkLoopVariable
  split
  · exact Holds.failAt id
  refine Holds.lookup_bind at_s ?_
  split
  · exact Holds.localOwner_bind at_s (Holds.failAt id)
  · next free =>
    refine Holds.pure at_s ⟨rfl, ?_⟩
    rw [Bool.or_eq_true, not_or] at free
    simpa using free.2

theorem checkLoopVariables_holds (infer : Infer) {target : Tree.Expr} {bs : List Binder}
    (at_s : L.At n ctx.site s) :
    L.Holds n .expr ctx.site s (checkLoopVariables ⟨setting, infer⟩ ctx target bs)
      fun _ s' => s' = s ∧ ∀ b ∈ bs, s.scopes.lookup ctx.scope b.name = none := by
  induction bs with
  | nil => exact Holds.pure at_s ⟨rfl, by simp⟩
  | cons b bs ih =>
    unfold checkLoopVariables
    refine (checkLoopVariable_holds infer at_s).bind ?_
    rintro _ _ _ _ ⟨rfl, new⟩
    refine ih.imp ?_
    rintro _ _ _ _ ⟨same, newRest⟩
    refine ⟨same, ?_⟩
    simp only [List.mem_cons, forall_eq_or_imp]
    exact ⟨new, newRest⟩

theorem loopHead_holds (infer : Infer) {target : Tree.Expr} {iter : Deferred} {form : Iterated}
    (evaluates : L.Evaluates n iter) (evaluatesForm : Iterated.Evaluates L n form)
    (at_s : L.At n ctx.site s) :
    L.Holds n .expr ctx.site s (loopHead ⟨setting, infer⟩ ctx target iter form) fun head s' =>
      Head L ctx.site s' head ∧ ∀ b ∈ head.binders, s'.scopes.lookup ctx.scope b.name = none := by
  unfold loopHead
  refine (uncheckedHead_holds infer evaluates evaluatesForm at_s).bind fun head s₁ at₁ _ known => ?_
  refine (checkLoopVariables_holds infer at₁).bind ?_
  rintro _ s₂ at₂ _ ⟨rfl, new⟩
  exact Holds.pure at₂ ⟨known, new⟩

/-- The scope of a loop binds new names to types of nodes. -/
theorem Head.bindings_new {σ : Site} {head : LoopHead} (known : Head L σ s head)
    (new : ∀ b ∈ head.binders, s.scopes.lookup σ.scope b.name = none) :
    (∀ b ∈ bindings head.binders, s.scopes.lookup σ.scope b.1 = none) ∧
      ∀ b ∈ bindings head.binders, L.Fine b.2 := by
  constructor
  · intro b hb
    obtain ⟨binder, hbinder, rfl⟩ := List.mem_map.mp hb
    exact new binder hbinder
  · intro b hb
    obtain ⟨binder, hbinder, rfl⟩ := List.mem_map.mp hb
    exact known.fine binder hbinder

/-! ## Comprehensions -/

theorem testNode_holds {test : Option Deferred} (evaluates : ∀ d ∈ test, L.Evaluates n d)
    (at_s : L.At n ctx.site s) :
    L.Holds n .expr ctx.site s (testNode ctx test) fun found s' =>
      ∀ e ∈ found, Condition L ctx.site s' e := by
  unfold testNode
  split
  · exact Holds.pure at_s (by simp)
  · next d =>
    refine (evaluates d rfl ctx s at_s).bind fun node s' at' _ known => ?_
    refine Holds.check_bind at' (fun _ => testable_answers node) fun test made =>
      Holds.pure at' ?_
    simpa using at'.condition known made

/-- The parts of a clause keep the law. -/
structure DeferredClause.Evaluates (L : Law setting) (n : Nat) (c : DeferredClause) : Prop where
  iter : L.Evaluates n c.iter
  form : Iterated.Evaluates L n c.form
  ifs : ∀ d ∈ c.ifs, L.Evaluates n d

theorem listCompNode_holds (infer : Infer) {elt : Deferred} {clauses : List DeferredClause}
    (evaluates : L.Evaluates n elt)
    (evaluatesClauses : ∀ c ∈ clauses, DeferredClause.Evaluates L n c)
    (at_s : L.At n ctx.site s) :
    L.Holds n .expr ctx.site s (listCompNode ⟨setting, infer⟩ ctx elt clauses)
      fun e s' => L.Node ctx.site s' e := by
  unfold listCompNode
  split
  case h_2 => exact Holds.fail id
  next clause =>
  obtain ⟨evaluatesIter, evaluatesForm, evaluatesIfs⟩ := evaluatesClauses clause (by simp)
  split
  · exact Holds.failAt id
  unfold comprehension
  refine (loopHead_holds infer evaluatesIter evaluatesForm at_s).bind ?_
  rintro head s₁ at₁ _ ⟨known, new⟩
  split
  · exact Holds.failAt id
  next sequence iterators =>
  obtain ⟨names, fine⟩ := known.bindings_new new
  -- test and element are read under the loop variables, and kept when their scope is closed
  have inner : L.Holds n .expr ctx.site s₁
      (inScope ctx.scope (bindings iterators.binders) fun scope => do
        let test ← testNode (ctx.inScope scope) clause.ifs.head?
        let block ← elt.run (ctx.inScope scope)
        return (test, block))
      fun found s₂ =>
        (∀ e ∈ found.1, L.Kept ctx.site [] s₂ e ∧ e.type = .boolean) ∧
          L.Kept ctx.site [] s₂ found.2 ∧ L.Fine found.2.type ∧
          ∀ e ∈ found.1.toList ++ [found.2],
            L.Below ctx.site s₂ ((bindings iterators.binders).map (·.1)) e := by
    have within : ∀ at₂ : L.At n (ctx.site.inScope s₁.scopes.size)
        (s₁.opened ctx.scope (bindings iterators.binders)),
        L.Holds n .expr (ctx.site.inScope s₁.scopes.size)
          (s₁.opened ctx.scope (bindings iterators.binders))
          (do
            let test ← testNode (ctx.inScope s₁.scopes.size) clause.ifs.head?
            let block ← elt.run (ctx.inScope s₁.scopes.size)
            return (test, block))
          fun found s₂ =>
            (∀ e ∈ found.1, Condition L (ctx.site.inScope s₁.scopes.size) s₂ e) ∧
              L.Node (ctx.site.inScope s₁.scopes.size) s₂ found.2 := by
      intro at₂
      have evaluatesTest : ∀ d ∈ clause.ifs.head?, L.Evaluates n d := fun d hd =>
        evaluatesIfs d (List.mem_of_mem_head? hd)
      have at₂ : L.At n (ctx.inScope s₁.scopes.size).site
          (s₁.opened ctx.scope (bindings iterators.binders)) := at₂
      refine (testNode_holds evaluatesTest at₂).bind fun test s₃ at₃ _ conditions => ?_
      refine (evaluates (ctx.inScope s₁.scopes.size) s₃ at₃).bind fun block s₄ at₄ move node => ?_
      exact Holds.pure at₄ ⟨fun e he =>
        ⟨move.node (conditions e he).node, (conditions e he).type⟩, node⟩
    refine Holds.inScope at₁ (fun b hb => .inr (names b hb)) fine within
      fun found s₂ move result => ?_
    -- no loop variable was bound outside, so closing the scope hides nothing else
    have hidden : ∀ b ∈ bindings iterators.binders,
        b.1 ∈ [] ∨ s₁.scopes.lookup ctx.site.scope b.1 = none := fun b hb => .inr (names b hb)
    refine ⟨fun e he => ⟨?_, (result.1 e he).type⟩, ?_, L.fine_node result.2, ?_⟩
    · exact L.kept_closed at₁.here hidden move.rel (L.kept_node (result.1 e he).node)
    · exact L.kept_closed at₁.here hidden move.rel (L.kept_node result.2)
    · intro e he
      refine L.below_closed names move.rel ?_
      rcases List.mem_append.mp he with he | he
      · exact (result.1 e (Option.mem_toList.mp he)).node
      · exact List.mem_singleton.mp he ▸ result.2
  refine inner.bind ?_
  rintro ⟨test, block⟩ s₂ at₂ move ⟨conditions, keptBlock, fineBlock, below⟩
  have bound : (bindings iterators.binders).map (·.1) = iterators.binders.map (·.name) :=
    List.map_map
  rw [bound] at below
  have roots : ∀ e ∈ sequence.roots, L.Below ctx.site s₂ [] e := fun e he =>
    L.below_node (move.node (known.nodes e he))
  refine Holds.pure at₂ (L.make at₂.inv at₂.here ?_ ?_ (nomatch ·)
    (.iterate known.taken (fun e he => (conditions e he).2) roots below))
  -- the parts: of the sequence, then the test, then the element
  · intro p hp
    rcases List.mem_append.mp hp with hp | hp
    · rcases List.mem_append.mp hp with hp | hp
      · exact L.kept_node (move.node (known.nodes p hp))
      · exact (conditions p (Option.mem_toList.mp hp)).1
    · rw [List.mem_singleton.mp hp]
      exact keptBlock
  · intro p hp
    rcases List.mem_append.mp hp with hp | hp
    · rcases List.mem_append.mp hp with hp | hp
      · exact L.fine_node (known.nodes p hp)
      · rw [(conditions p (Option.mem_toList.mp hp)).2]
        exact L.fine_boolean
    · rw [List.mem_singleton.mp hp]
      exact fineBlock

end Law

end TreeTyper.Translate
