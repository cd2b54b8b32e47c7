import TreeTyper.Proofs.Law.Holds

/-!
# Calls keep every law

Standard calls retype their receiver; the other calls reach a definition through
the translator's `infer`, of which it is assumed that it keeps the law.
-/

namespace TreeTyper.Translate

open Typed

namespace Law

variable {setting : Setting} {L : Law setting} {n : Nat} {s : State} {ctx : Context}

/-! ## Standard calls -/

/-- How a refinement stops: the scope of the variable is closed, or the owner of the attribute is
looked for without end. -/
def RefinementStops (ctx : Context) (s : State) (stop : Stop) (s' : State) : Prop :=
  s' = s ∧ (stop = .fault (.deadScope ctx.scope) ∧ ¬s.scopes.isAlive ctx.scope ∨
    stop = .fault .endlessWalk ∧ ¬s.hierarchy.Complete)

theorem refineAttribute_runs (ctx : Context) (className name : String) (ty : Ty) (s : State) :
    Runs (refineAttribute className name ty) s
      (fun _ s' => s' = s.withAttribute className name ty) (RefinementStops ctx s) := by
  unfold refineAttribute
  refine Runs.get (Runs.walk_bind (fun _ => Runs.modify ?_) fun endless => ⟨rfl, .inr ⟨rfl, ?_⟩⟩)
  · unfold State.withAttribute
    rfl
  · exact fun complete => endless (complete.classesEnd.attributeEnds className name)

theorem refine_runs (ctx : Context) (node : Expr) (ty : Ty) (s : State) :
    Runs (refine ctx node ty) s
      (fun e s' => e = { node with type := ty } ∧ s' = s.refined ctx.site node ty)
      (RefinementStops ctx s) := by
  unfold refine State.refined
  cases node.kind with
  | localVar name =>
    have assigned : Runs (assign ctx.scope name ty) s
        (fun _ s' => s' = { s with scopes := s.scopes.assign ctx.scope name ty })
        (RefinementStops ctx s) :=
      Runs.assign (fun _ => rfl) fun dead => ⟨rfl, .inl ⟨rfl, dead⟩⟩
    exact assigned.bind fun _ s' same => Runs.pure ⟨rfl, same⟩
  | instanceVar name =>
    cases className : ctx.className? with
    | none =>
      have here : ctx.site.className? = none := className
      rw [here]
      exact Runs.pure ⟨rfl, rfl⟩
    | some className' =>
      have here : ctx.site.className? = some className' := className
      rw [here]
      exact (refineAttribute_runs ctx className' name ty s).bind fun _ s' same =>
        Runs.pure ⟨rfl, same⟩
  | attr object name =>
    exact (refineAttribute_runs ctx object.type.head name ty s).bind fun _ s' same =>
      Runs.pure ⟨rfl, same⟩
  | _ => exact Runs.pure ⟨rfl, rfl⟩

theorem sameShape_refined (s : State) (σ : Site) (node : Expr) (ty : Ty) :
    s.SameShape (s.refined σ node ty) := by
  have viaAttribute : ∀ className name, s.SameShape (s.withAttribute className name ty) := by
    intro className name
    unfold State.withAttribute
    split
    · exact ⟨.updateAttribute .., rfl⟩
    · exact .refl s
  unfold State.refined
  split
  · exact ⟨.refl _, rfl⟩
  · split
    · exact viaAttribute ..
    · exact .refl s
  · exact viaAttribute ..
  · exact .refl s

theorem refine_holds {node : Expr} {evidence : List Ty} {ty : Ty} (at_s : L.At n ctx.site s)
    (known : L.Node ctx.site s node) (fine : ∀ t ∈ evidence, L.Fine t)
    (refinement : Refinement s.hierarchy node.type evidence ty) :
    L.Holds n .expr ctx.site s (refine ctx node ty) fun e s' => L.Node ctx.site s' e := by
  obtain ⟨inv, rel, known'⟩ := L.retype at_s.inv at_s.here known fine refinement
  refine Runs.imp (refine_runs ctx node ty s) ?_ ?_
  · rintro e s' ⟨rfl, rfl⟩
    have move : L.Moves .expr ctx.site s (s.refined ctx.site node ty) :=
      ⟨rel, sameShape_refined s ctx.site node ty⟩
    exact ⟨at_s.move inv move, move, known'⟩
  · rintro stop s' ⟨rfl, ⟨rfl, dead⟩ | ⟨rfl, endless⟩⟩
    · exact at_s.dead (.inl rfl) dead
    · exact L.stop_endless at_s.inv endless

theorem receiverFor_node {owner : String} {receiver e : Expr} (at_s : L.At n ctx.site s)
    (known : L.Node ctx.site s receiver) (made : receiverFor owner receiver = .ok e) :
    L.Node ctx.site s e := by
  unfold receiverFor at made
  split at made
  · exact at_s.regexp known made
  · cases made
    exact known

theorem standardMethod_holds {owner message : String} {expansion : Expansion} {receiver : Expr}
    {args : List Expr} (reached : Reached setting.api s.hierarchy expansion)
    (target : expansion.method? = some (owner, message))
    (at_s : L.At n ctx.site s) (known : L.Node ctx.site s receiver)
    (knownArgs : ∀ e ∈ args, L.Node ctx.site s e) :
    L.Holds n .expr ctx.site s (standardMethod setting.api ctx owner message receiver args)
      fun e s' => L.Node ctx.site s' e := by
  unfold standardMethod
  refine Holds.check_bind at_s (fun _ => receiverFor_answers owner receiver) fun receiver made => ?_
  have known := receiverFor_node at_s known made
  split
  · exact Holds.fail id
  next ownerIs =>
  have signs : setting.api.Closed → (setting.api.signature? owner message).isSome := fun closed =>
    reached.signs closed owner message (Expansion.target?_of_method? target)
  refine Holds.check_bind at_s (fun closed => signatureOf_answers (signs closed))
    fun signature signed => ?_
  refine Holds.get (Holds.walk_bind at_s (·.classesEnd.matchSignatureEnds ..) ?_)
  refine Holds.check_bind at_s (fun _ => matchSignature_answers _ _ _ _ _) fun found matched => ?_
  -- the receiver before the call stays a premise: its type gives the bindings
  have finish : ∀ s' receiver', L.At n ctx.site s' → L.Moves .expr ctx.site s s' →
      L.Node ctx.site s' receiver' → L.Holds n .expr ctx.site s'
        (Pure.pure ⟨.standardMethodCall receiver' message args, found.ret⟩)
        fun e s'' => L.Node ctx.site s'' e := by
    intro s' receiver' at' move known'
    refine Holds.pure at' (at'.make ?_
      (.standardMethodCall (reached.sameShape move.shape.hierarchy) target
        (Decidable.not_not.mp ownerIs) signed matched))
    intro p hp
    rcases List.mem_cons.mp hp with rfl | hp
    · exact move.node known
    rcases List.mem_cons.mp hp with rfl | hp
    · exact known'
    · exact move.node (knownArgs p hp)
  cases refined : found.refined with
  | none => exact finish s receiver at_s (.refl s) known
  | some ty =>
    have retyped := refine_holds at_s known (fine_types knownArgs) (.matched matched refined)
    exact retyped.bind fun receiver' s' at' move known' => finish s' receiver' at' move known'

theorem standardCall_holds {space function name : String} {args : List Expr}
    (reached : Reached setting.api s.hierarchy (.call space function))
    (at_s : L.At n ctx.site s) (known : ∀ e ∈ args, L.Node ctx.site s e) :
    L.Holds n .expr ctx.site s (standardCall setting.api space function name args)
      fun e s' => L.Node ctx.site s' e := by
  unfold standardCall
  refine Holds.check_bind at_s
    (fun closed => signatureOf_answers (reached.signs closed space function rfl))
    fun signature signed => ?_
  refine Holds.get (Holds.walk_bind at_s (·.classesEnd.matchSignatureEnds ..) ?_)
  refine Holds.check_bind at_s (fun _ => matchSignature_answers _ _ _ _ _) fun found matched => ?_
  exact Holds.pure at_s (at_s.make known (.standardCall reached signed matched))

theorem expand_holds {expansion : Expansion} {name : String} {nodes : List Expr}
    (reached : Reached setting.api s.hierarchy expansion) (at_s : L.At n ctx.site s)
    (known : ∀ e ∈ nodes, L.Node ctx.site s e) :
    L.Holds n .expr ctx.site s (expand setting.api ctx expansion name nodes)
      fun e s' => L.Node ctx.site s' e := by
  unfold expand
  split
  · exact standardCall_holds reached at_s known
  · split
    · next receiver args =>
      exact standardMethod_holds reached rfl at_s (known receiver (by simp))
        fun e he => known e (by simp [he])
    · exact Holds.fail id
  · split
    · next arg receiver =>
      refine standardMethod_holds reached rfl at_s (known receiver (by simp)) fun e he => ?_
      rw [List.mem_singleton.mp he]
      exact known arg (by simp)
    · exact Holds.fail id
  · split
    · next receiver =>
      split
      · next sized => exact Holds.pure at_s (at_s.make known (.length sized))
      · exact Holds.fail id
    · exact Holds.fail id
  · split
    · next pattern =>
      exact Holds.check at_s (fun _ => toRegexp_answers pattern) fun e made =>
        at_s.regexp (known pattern (by simp)) made
    · exact Holds.fail id

/-! ## Names and values -/

theorem nameNode_holds (infer : Infer) (id : String) (at_s : L.At n ctx.site s) :
    L.Holds n .expr ctx.site s (nameNode ⟨setting, infer⟩ ctx id)
      fun e s' => L.Node ctx.site s' e := by
  unfold nameNode
  refine Holds.lookup_bind at_s ?_
  split
  · next ty bound =>
    split
    · next self => exact Holds.pure at_s (at_s.make (by simp) (.this self.2 (self.1 ▸ bound)))
    · next other => exact Holds.pure at_s (at_s.make (by simp) (.variable other bound))
  · next unbound =>
    refine Holds.get ?_
    split
    · next cell declared =>
      exact Holds.pure at_s (at_s.make (by simp) (.function (L.free_lookup unbound) declared))
    · split
      · next isType => exact Holds.pure at_s (at_s.make (by simp) (.typename isType))
      · split
        · exact Holds.fail fun asks => asks
        · exact Holds.fail fun asks => asks

theorem callValue_holds {args : List Deferred} (evaluates : ∀ d ∈ args, L.Evaluates n d)
    {callee : Expr} (at_s : L.At n ctx.site s)
    (known : L.Node ctx.site s callee) :
    L.Holds n .expr ctx.site s (callValue ctx callee args) fun e s' => L.Node ctx.site s' e := by
  unfold callValue
  split
  · next params ret type =>
    split
    · exact Holds.fail id
    next full =>
    have noHoles : callee.type.hasHoles = false := by
      rw [type, Ty.hasHoles, Ty.anyHoles_eq_any, Bool.or_comm]
      exact Bool.eq_false_iff.mpr full
    refine (runAll_holds evaluates at_s).bind fun nodes s₁ at₁ move knownArgs => ?_
    refine Holds.get (Holds.walk_bind at₁ (·.classesEnd.matchParamsEnds ..) ?_)
    refine Holds.check_bind at₁ (fun _ => matchParams_answers _ _ _ _) fun found matched => ?_
    refine Holds.pure at₁ (at₁.make ?_ (.valueCall type noHoles matched))
    intro p hp
    rcases List.mem_cons.mp hp with rfl | hp
    · exact move.node known
    · exact knownArgs p hp
  · exact Holds.fail id

/-! ## Definitions -/

variable {infer : Infer} {pos : Pos}

theorem methodOf_bind {α : Type} {m : Mode} {σ : Site} {className method : String}
    {f : DefKey × CellId → Run α} {after : α → State → Prop}
    (next : ∀ entry, s.hierarchy.method? className method = some entry →
      L.Holds n m σ s (f (.method entry.definedIn method, entry.cell)) after) :
    L.Holds n m σ s (methodOf ⟨setting, infer⟩ className method >>= f) after := by
  have read : Runs (methodOf ⟨setting, infer⟩ className method) s
      (fun found s' => s' = s ∧ ∃ entry, s.hierarchy.method? className method = some entry ∧
        found = (.method entry.definedIn method, entry.cell)) (L.Stopped s) := by
    unfold methodOf
    refine Runs.get ?_
    dsimp only
    split
    · next entry declared => exact Runs.pure ⟨rfl, entry, declared, rfl⟩
    · exact Runs.fail (L.stop_failure fun _ => id)
  refine Runs.bind read ?_
  rintro _ _ ⟨rfl, entry, declared, rfl⟩
  exact next entry declared

/-- The methods that need no evidence have the cells that their class knows. -/
theorem links_pureMethods {className : String} :
    ∀ d ∈ pureMethods s className, s.Links d.1 d.2 := by
  intro d hd
  obtain ⟨⟨name, entry⟩, listed, rfl⟩ := List.mem_map.mp hd
  exact ⟨className, (List.mem_filter.mp listed).1⟩

variable (infers : L.Infers n infer)

include infers

theorem inferUnresolved_holds (unresolved : List (DefKey × CellId))
    (links : ∀ d ∈ unresolved, s.Links d.1 d.2) (at_s : L.At n ctx.site s) :
    L.Holds n .expr ctx.site s (inferUnresolved ⟨setting, infer⟩ pos unresolved)
      fun _ _ => True := by
  induction unresolved generalizing s with
  | nil => exact Holds.pure at_s trivial
  | cons entry rest ih =>
    obtain ⟨key, cell⟩ := entry
    have first : s.Links key cell := links (key, cell) List.mem_cons_self
    have others : ∀ d ∈ rest, s.Links d.1 d.2 := fun d hd => links d (List.mem_cons_of_mem _ hd)
    unfold inferUnresolved
    refine Holds.get ?_
    split
    · exact (infers.holds at_s first (by simp)).bind fun _ _ at₁ move _ =>
        ih (fun d hd => move.links (others d hd)) at₁
    · exact ih others at_s

variable {args : List Deferred} (evaluates : ∀ d ∈ args, L.Evaluates n d)

include evaluates

theorem newInstance_holds {className : String} (isClass : s.hierarchy.isClass className)
    (at_s : L.At n ctx.site s) :
    L.Holds n .expr ctx.site s (newInstance ⟨setting, infer⟩ ctx pos className args)
      fun e s' => L.Node ctx.site s' e := by
  unfold newInstance
  refine (runAll_holds evaluates at_s).bind fun nodes s₁ at₁ move₁ known => ?_
  refine Holds.get ?_
  split
  · next entry declared =>
    refine (infers.holds at₁ (State.links_of_method? declared) (fine_types known)).bind
      fun ret s₂ at₂ move ⟨called, _⟩ => ?_
    refine Holds.get ((inferUnresolved_holds infers _ links_pureMethods at₂).bind
      fun _ s₃ at₃ move' _ => ?_)
    have declared' : s₃.hierarchy.method? className Hierarchy.constructorName = some entry := by
      rw [move'.shape.hierarchy.method?_eq, move.shape.hierarchy.method?_eq, declared]
    refine Holds.pure at₃ (at₃.make (move'.nodes (move.nodes known))
      (.newInstance declared' (L.called_rel called move'.rel move'.shape)))
  · next declared =>
    split
    · exact Holds.fail_bind id
    next noArguments =>
    obtain rfl : nodes = [] := by simpa using noArguments
    refine Holds.get ((inferUnresolved_holds infers _ links_pureMethods at₁).bind
      fun _ s₂ at₂ move _ => ?_)
    have declared' : s₂.hierarchy.method? className Hierarchy.constructorName = none := by
      rw [move.shape.hierarchy.method?_eq, declared]
    have isClass' : s₂.hierarchy.isClass className := by
      rw [move.shape.hierarchy.isClass_eq, move₁.shape.hierarchy.isClass_eq]
      exact isClass
    exact Holds.pure at₂ (at₂.make (by simp) (.plainInstance isClass' declared'))

/-! ## Called names and attributes -/

theorem callName_holds (id : String) (at_s : L.At n ctx.site s) :
    L.Holds n .expr ctx.site s (callName ⟨setting, infer⟩ ctx pos id args)
      fun e s' => L.Node ctx.site s' e := by
  unfold callName
  split
  · next entry found =>
    refine (runAll_holds evaluates at_s).bind fun nodes s₁ at₁ _ known => ?_
    exact Holds.check_bind at₁ (fun _ => select_answers _ _ _) fun expansion selected =>
      expand_holds (.function found (select?_of_select selected)) at₁ known
  refine Holds.lookup_bind at_s ?_
  split
  · refine (nameNode_holds infer id at_s).bind fun callee s₁ at₁ _ known => ?_
    exact callValue_holds evaluates at₁ known
  next unbound =>
  -- not bound, so the name is a function of the module, a class, or unknown
  have free : L.Free ctx.site s id := L.free_lookup (Option.not_isSome_iff_eq_none.mp unbound)
  refine Holds.get ?_
  split
  · next cell declared =>
    refine (runAll_holds evaluates at_s).bind fun nodes s₁ at₁ move known => ?_
    have links : s.Links (.function id) cell := declared
    refine (infers.holds at₁ (move.links links) (fine_types known)).bind
      fun ret s₂ at₂ move' ⟨called, latest⟩ => ?_
    -- neither the arguments nor the body that was inferred declare functions
    have declared' : s₂.definitions.function? id = some cell := by
      rw [move'.shape.function?_eq, move.shape.function?_eq, declared]
    refine Holds.get (Holds.pure at₂ (at₂.make (move'.nodes known) ?_))
    exact .functionCall (move'.free (move.free free)) declared' called latest
  split
  · next isClass => exact newInstance_holds infers evaluates isClass at_s
  split
  · exact Holds.fail fun asks => asks
  · split
    · exact Holds.fail fun asks => asks
    · exact Holds.fail fun asks => asks

omit infers in
theorem libraryCall_holds (space function : String) (at_s : L.At n ctx.site s) :
    L.Holds n .expr ctx.site s (libraryCall ⟨setting, infer⟩ ctx space function args)
      fun e s' => L.Node ctx.site s' e := by
  unfold libraryCall
  dsimp only
  split
  · exact Holds.fail id
  split
  · exact Holds.fail id
  next entry found =>
  have depends : L.Holds n .expr ctx.site s (useDependency space) fun _ _ => True := by
    have kept : ∀ dependencies, L.Inv n { s with dependencies } ∧
        L.Moves .expr ctx.site s { s with dependencies } := fun dependencies =>
      have depended := L.depend ctx.site dependencies at_s.inv
      ⟨depended.1, depended.2, ⟨.refl _, rfl⟩⟩
    unfold useDependency
    by_cases used : space ∈ s.dependencies
    · exact Holds.modify at_s (by rw [if_pos used]; exact at_s.inv)
        (by rw [if_pos used]; exact .refl s) trivial
    · exact Holds.modify at_s (by rw [if_neg used]; exact (kept _).1)
        (by rw [if_neg used]; exact (kept _).2) trivial
  refine depends.bind fun _ s₁ at₁ _ _ => ?_
  refine (runAll_holds evaluates at₁).bind fun nodes s₂ at₂ _ known => ?_
  exact Holds.check_bind at₂ (fun _ => select_answers _ _ _) fun expansion selected =>
    expand_holds (.function found (select?_of_select selected)) at₂ known

theorem thisMethodCall_holds {className : String} (message : String)
    (own : ctx.className? = some className) (at_s : L.At n ctx.site s) :
    L.Holds n .expr ctx.site s (thisMethodCall ⟨setting, infer⟩ ctx pos className message args)
      fun e s' => L.Node ctx.site s' e := by
  unfold thisMethodCall
  refine methodOf_bind fun entry declared => ?_
  refine (runAll_holds evaluates at_s).bind fun nodes s₁ at₁ move known => ?_
  refine (infers.holds at₁ (move.links (State.links_of_method? declared)) (fine_types known)).bind
    fun ret s₂ at₂ move' ⟨called, _⟩ => ?_
  have declared' : s₂.hierarchy.method? className message = some entry := by
    rw [move'.shape.hierarchy.method?_eq, move.shape.hierarchy.method?_eq, declared]
  exact Holds.pure at₂ (at₂.make (move'.nodes known) (.thisMethodCall own declared' called))

theorem methodCall_holds {receiver : Expr} (message : String) (at_s : L.At n ctx.site s)
    (knownReceiver : L.Node ctx.site s receiver) :
    L.Holds n .expr ctx.site s (methodCall ⟨setting, infer⟩ ctx pos receiver message args)
      fun e s' => L.Node ctx.site s' e := by
  have withReceiver : ∀ {s' : State} {nodes : List Expr}, L.Moves .expr ctx.site s s' →
      (∀ e ∈ nodes, L.Node ctx.site s' e) → ∀ e ∈ receiver :: nodes, L.Node ctx.site s' e := by
    intro s' nodes move known e he
    rcases List.mem_cons.mp he with rfl | he
    · exact move.node knownReceiver
    · exact known e he
  unfold methodCall
  refine Holds.get ?_
  dsimp only
  split
  · refine methodOf_bind fun entry declared => ?_
    refine (runAll_holds evaluates at_s).bind fun nodes s₁ at₁ move known => ?_
    refine (infers.holds at₁ (move.links (State.links_of_method? declared)) (fine_types known)).bind
      fun ret s₂ at₂ move' ⟨called, _⟩ => ?_
    have declared' : s₂.hierarchy.method? receiver.type.head message = some entry := by
      rw [move'.shape.hierarchy.method?_eq, move.shape.hierarchy.method?_eq, declared]
    exact Holds.pure at₂ (at₂.make (withReceiver (move.trans move') (move'.nodes known))
      (.methodCall declared' called))
  next noClass =>
  split
  · exact Holds.fail id
  · next entry found =>
    refine (runAll_holds evaluates at_s).bind fun nodes s₁ at₁ move known => ?_
    refine Holds.check_bind at₁ (fun _ => select_answers _ _ _) fun expansion selected => ?_
    have reached : Reached setting.api s.hierarchy expansion :=
      .method noClass found (select?_of_select selected)
    exact expand_holds (reached.sameShape move.shape.hierarchy) at₁ (withReceiver move known)

theorem callAttribute_holds {receiver : Deferred} (message : String)
    (evaluatesReceiver : L.Evaluates n receiver) (at_s : L.At n ctx.site s) :
    L.Holds n .expr ctx.site s (callAttribute ⟨setting, infer⟩ ctx pos receiver message args)
      fun e s' => L.Node ctx.site s' e := by
  have onValue : L.Holds n .expr ctx.site s
      (receiver.run ctx >>= fun node => methodCall ⟨setting, infer⟩ ctx pos node message args)
      fun e s' => L.Node ctx.site s' e :=
    (evaluatesReceiver ctx s at_s).bind fun node s₁ at₁ _ known =>
      methodCall_holds infers evaluates message at₁ known
  unfold callAttribute
  dsimp only
  split
  · exact onValue
  refine Holds.lookup_bind at_s ?_
  split
  · exact libraryCall_holds evaluates _ message at_s
  split
  · next className own =>
    split
    · exact thisMethodCall_holds infers evaluates message own at_s
    · exact onValue
  · exact onValue

/-- The parts of a callee keep the law. -/
def Callee.Evaluates (L : Law setting) (n : Nat) : Callee → Prop
  | .name _ => True
  | .attr receiver _ => L.Evaluates n receiver
  | .value callee => L.Evaluates n callee

theorem callNode_holds {callee : Callee} (keywords : List Tree.Keyword)
    (evaluatesCallee : Callee.Evaluates L n callee) (at_s : L.At n ctx.site s) :
    L.Holds n .expr ctx.site s (callNode ⟨setting, infer⟩ ctx pos callee args keywords)
      fun e s' => L.Node ctx.site s' e := by
  unfold callNode
  split
  · exact Holds.failAt id
  split
  · exact Holds.failAt id
  split
  · exact callName_holds infers evaluates _ at_s
  · exact callAttribute_holds infers evaluates _ evaluatesCallee at_s
  · exact (evaluatesCallee ctx s at_s).bind fun node s₁ at₁ _ known =>
      callValue_holds evaluates at₁ known

end Law

end TreeTyper.Translate
