import TreeTyper.Proofs.Watch

/-!
# Variables and attributes widen

From one state of a run on, a bound variable stays bound and its type only widens,
and so does an attribute.  A write may still be behind the state at hand: the type
of a receiver is read before the arguments of a call are translated, which may have
given the variable a type of its own.  So a step is not compared with the state
before it but with the state from which the run is watched: what a node was read
from was below it then, and what is written is above the node.

    growthLaw setting w …        in every state of a run, variables and attributes are above those
                                 of the state from which it is watched
-/

namespace TreeTyper.Translate

open Typed
open Scopes (moduleScope)

variable {w : Watch} {σ : Site} {s s' : State} {name : String} {ty : Ty}

/-! ## Tables -/

namespace Watch.Above

/-- A scope that was watched is still open. -/
theorem alive (above : w.Above s) {id : ScopeId} {old : Ty}
    (found : w.start.scopes.lookupLocal id name = some old) : id < s.scopes.size :=
  Nat.lt_of_lt_of_le (Scopes.lt_size_of_lookupLocal found) above.size

/-- Neither scopes nor attributes change, and no definition becomes unresolved. -/
theorem congr (above : w.Above s) (shape : s.SameShape s') (plain : s'.IsPlain)
    (scopes : s'.scopes = s.scopes) (hierarchy : s'.hierarchy = s.hierarchy)
    (unresolved : ∀ {key f}, s'.definitions.states.find? key = some (.unresolved f) →
      s.definitions.states.find? key = some (.unresolved f)) : w.Above s' where
  shape := above.shape.trans shape
  plain
  size := by
    rw [scopes]
    exact above.size
  bindings id name old found := by
    rw [scopes]
    exact above.bindings id name old found
  attributes watched c := by
    rw [hierarchy]
    exact above.attributes watched c
  keepsSelf watched key f found := above.keepsSelf watched key f (unresolved found)
  begun key name guarded f found := above.begun key name guarded f (unresolved found)

/-- A variable takes a type that is above what it was. -/
theorem bound (above : w.Above s) {id : ScopeId} (plainTy : ty.isPlain)
    (widens : ∀ old, w.start.scopes.lookupLocal id name = some old → old.Widens w.hierarchy ty) :
    w.Above (s.bound id name ty) := by
  refine { above with
    shape := above.shape.trans ⟨.refl _, rfl⟩
    plain := above.plain.bound id name plainTy
    size := ?_
    bindings := fun id' name' old found => ?_ }
  · exact (Scopes.size_define s.scopes id name ty).symm ▸ above.size
  · by_cases here : id' = id ∧ name' = name
    · obtain ⟨rfl, rfl⟩ := here
      exact ⟨ty, Scopes.lookupLocal_define_self (above.alive found) .., widens old found⟩
    · have same : (s.bound id name ty).scopes.lookupLocal id' name' =
          s.scopes.lookupLocal id' name' := by
        by_cases inside : id' = id
        · exact Scopes.lookupLocal_define_other (fun named => here ⟨inside, named⟩) ..
        · exact Scopes.lookupLocal_define_of_ne inside ..
      rw [same]
      exact above.bindings id' name' old found

theorem withHierarchy (above : w.Above s) {h : Hierarchy} (shape : s.hierarchy.SameShape h)
    (plain : (s.withHierarchy h).IsPlain)
    (attributes : w.attributes → w.start.AttributesWiden w.hierarchy (s.withHierarchy h)) :
    w.Above (s.withHierarchy h) :=
  { above with shape := above.shape.trans ⟨shape, rfl⟩, plain, attributes }

/-- An attribute takes a type that is above what it was. -/
theorem updateAttribute (above : w.Above s) (owner : String) (makePublic : Bool)
    (plainTy : ty.isPlain)
    (widens : w.attributes → ∀ old,
      (w.hierarchy.ownAttributes owner).find? (·.name == name) = some old →
      old.ty.Widens w.hierarchy ty) :
    w.Above (s.withHierarchy (s.hierarchy.updateAttribute owner name ty makePublic)) := by
  refine above.withHierarchy (.updateAttribute ..) (above.plain.updateAttribute _ _ _ plainTy)
    fun watched c => ?_
  have before := above.attributes watched c
  change AttributesWiden _ _ ((s.hierarchy.updateAttribute owner name ty makePublic).ownAttributes c)
  rw [Hierarchy.ownAttributes_updateAttribute]
  split
  · next same =>
    rw [same] at before ⊢
    exact before.updateIn (widens watched)
  · exact before

theorem registerAttribute (above : w.Above s) (className : String) (plainTy : ty.isPlain) :
    w.Above (s.withHierarchy (s.hierarchy.registerAttribute className ⟨name, ty, false⟩)) := by
  refine above.withHierarchy (.registerAttribute ..) (above.plain.registerAttribute _ _ _ plainTy)
    fun watched c => ?_
  obtain ⟨more, grown, -⟩ :=
    Hierarchy.ownAttributes_registerAttribute s.hierarchy className ⟨name, ty, false⟩ c
  change AttributesWiden _ _
    ((s.hierarchy.registerAttribute className ⟨name, ty, false⟩).ownAttributes c)
  rw [grown]
  exact (above.attributes watched c).append more

theorem opened (above : w.Above s) (parent : ScopeId) {bindings : List (String × Ty)}
    (plainBindings : ∀ b ∈ bindings, b.2.isPlain) : w.Above (s.opened parent bindings) :=
  { above with
    shape := above.shape.trans ⟨.refl _, rfl⟩
    plain := above.plain.opened parent plainBindings
    size := Nat.le_succ_of_le above.size
    bindings := fun id name old found => by
      have differs : id ≠ s.scopes.size := Nat.ne_of_lt (above.alive found)
      obtain ⟨new, known, widens⟩ := above.bindings id name old found
      exact ⟨new, (Scopes.lookupLocal_child_of_ne differs ..).trans known, widens⟩ }

theorem closed (above : w.Above s) {mark : Nat} (watched : w.start.scopes.size ≤ mark)
    (le : mark ≤ s.scopes.size) : w.Above (s.closed mark) :=
  { above with
    shape := above.shape.trans ⟨.refl _, rfl⟩
    plain := above.plain.closed mark
    size := watched.trans_eq (Scopes.size_discard le).symm
    bindings := fun id name old found => by
      have below := Nat.lt_of_lt_of_le (Scopes.lt_size_of_lookupLocal found) watched
      obtain ⟨new, known, widens⟩ := above.bindings id name old found
      exact ⟨new, (Scopes.lookupLocal_discard le below name).trans known, widens⟩ }

/-- What an attribute was is below what it is. -/
theorem attributeBelow (above : w.Above s) (watched : w.attributes) {c owner : String} {a : Attribute}
    (found : s.hierarchy.attribute? c name = some (owner, a)) : w.AttributeBelow s c name a.ty := by
  refine ⟨owner, a, found, fun old known => ?_⟩
  obtain ⟨new, known', widens⟩ := (above.attributes watched owner).find? known
  rw [(Hierarchy.attribute?_eq_some_iff.mp found).2] at known'
  cases known'
  exact widens.type

end Watch.Above

/-! ## Nodes -/

/-- Where a node that reads a variable or an attribute has its type from. -/
theorem Makes.read {api : ApiTables} {free : String → Prop}
    {below : List String → Expr → Prop} {called : DefKey → CellId → List Ty → Ty → Prop}
    {parts : List Expr} {e : Expr}
    (made : Makes api σ s free below called parts e) :
    match e.kind with
    | .this => s.scopes.lookup σ.scope "self" = some e.type
    | .localVar name =>
      ¬(name = "self" ∧ σ.className?.isSome) ∧ s.scopes.lookup σ.scope name = some e.type ∨
        free name ∧ ∃ params ret, e.type = .function params ret
    | .instanceVar name => ∃ object ∈ parts, object.kind = .this ∧
        ∃ owner a, s.hierarchy.attribute? object.type.head name = some (owner, a) ∧ e.type = a.ty
    | .attr object name =>
        ∃ owner a, s.hierarchy.attribute? object.type.head name = some (owner, a) ∧ e.type = a.ty
    | _ => True := by
  cases made with
  | literal isLiteral => cases isLiteral <;> trivial
  | this _ found => exact found
  | «variable» notSelf found => exact .inl ⟨notSelf, found⟩
  | function unbound _ => exact .inr ⟨unbound, _, _, rfl⟩
  | instanceVar isThis found => exact ⟨_, List.mem_cons_self, isThis, _, _, found, rfl⟩
  | attr found => exact ⟨_, _, found, rfl⟩
  -- operators, tests and patterns make a node of a kind that reads no name, or give a part back
  | binary made =>
    obtain ⟨result, -, ⟨-, rfl⟩ | ⟨_, _, _, -, -, rfl⟩⟩ := binary_cases made
    · trivial
    · trivial
  | test made differs =>
    rcases testable_cases made with rfl | ⟨-, rfl⟩ | ⟨-, rfl⟩ | rfl
    · exact absurd rfl differs
    · trivial
    · trivial
    · trivial
  | regexp made differs =>
    rcases toRegexp_cases made with rfl | ⟨value, rfl⟩ | rfl
    · exact absurd rfl differs
    · trivial
    · trivial
  | _ => trivial

variable {api : ApiTables} {called : DefKey → CellId → List Ty → Ty → Prop} {parts : List Expr}
  {below : List String → Expr → Prop} {e : Expr} {evidence : List Ty}

namespace Watch

theorem AttributeBelow.mono {c : String} {m : Mode} (below : w.AttributeBelow s c name ty)
    (touches : w.Touches m σ s s') : w.AttributeBelow s' c name ty := by
  obtain ⟨owner, a, found, below⟩ := below
  obtain ⟨a', found'⟩ := touches.owners found
  exact ⟨owner, a', found', below⟩

section Made

variable (above : w.Above s) (kept : ∀ p ∈ parts, w.Keeps σ [] s p)
  (made : Makes api σ s (fun id => s.scopes.lookup σ.scope id = none) below called parts e)

include above kept made

theorem Keeps.of_made (stands : w.Stands σ s) : w.Keeps σ [] s e where
  this watched isThis c isMethod := by
    have read := made.read
    rw [isThis] at read
    have found := (stands.self watched c isMethod).2
    change (s.scopes.resolve σ.scope "self").map (·.2) = some e.type at read
    rw [found] at read
    exact (Option.some.inj read).symm
  owned := stands.owned
  guarded key name named guarded seen ty bound x known isVar := by
    rcases made.mem_nodes known with rfl | auxiliary | ⟨p, hp, inside⟩
    · have read := made.read
      rw [isVar] at read
      rcases read with ⟨notSelf, read⟩ | ⟨unbound, -⟩
      · refine ⟨notSelf, fun old found => ?_⟩
        change (s.scopes.resolve σ.scope name).map (·.2) = some x.type at read
        rw [bound] at read
        obtain ⟨new, known', widens⟩ := above.bindings _ _ _ found
        rw [(Scopes.lookupLocal_of_resolve bound).1] at known'
        cases known'
        exact Option.some.inj read ▸ widens
      · rw [Scopes.lookup_eq_none_iff.mp unbound] at bound
        cases bound
    · rw [Expr.IsAuxiliary, isVar] at auxiliary
      rw [Scopes.lookup_eq_none_iff.mp auxiliary] at bound
      cases bound
    · exact (kept p hp).guarded key name named guarded seen ty bound x inside isVar

theorem Reads.of_made (plain : e.type.isPlain) : w.Reads σ s e where
  plain
  localVar name isVar := by
    have read := made.read
    rw [isVar] at read
    rcases read with ⟨notSelf, read⟩ | isFunction
    · obtain ⟨⟨owner, ty⟩, found, same⟩ := Option.map_eq_some_iff.mp read
      refine .inr ⟨owner, ty, found, notSelf, fun old known => ?_⟩
      obtain ⟨new, known', widens⟩ := above.bindings _ _ _ known
      rw [(Scopes.lookupLocal_of_resolve found).1] at known'
      cases known'
      exact same ▸ widens
    · exact .inl isFunction
  instanceVar watched name c isVar isMethod := by
    have read := made.read
    rw [isVar] at read
    obtain ⟨object, part, isThis, owner, a, found, same⟩ := read
    have type := (kept object part).this watched isThis c isMethod
    rw [type] at found
    exact same ▸ above.attributeBelow watched found
  attr watched object name isAttr := by
    have read := made.read
    rw [isAttr] at read
    obtain ⟨owner, a, found, same⟩ := read
    exact same ▸ above.attributeBelow watched found

end Made

/-- An expression leaves what was read where it is. -/
theorem Reads.mono (reads : w.Reads σ s e) (touches : w.Touches .expr σ s s') : w.Reads σ s' e where
  plain := reads.plain
  localVar name isVar := by
    rcases reads.localVar name isVar with ⟨unbound, type⟩ | ⟨owner, ty, found, rest⟩
    · exact .inl ⟨touches.unbound unbound, type⟩
    · obtain ⟨ty', found'⟩ := touches.resolves (fun h => nomatch h) found
      exact .inr ⟨owner, ty', found', rest⟩
  instanceVar watched name c isVar isMethod :=
    (reads.instanceVar watched name c isVar isMethod).mono touches
  attr watched object name isAttr := (reads.attr watched object name isAttr).mono touches

/-- A run at the site leaves owners where they are. -/
theorem Keeps.mono {m : Mode} {hidden : List String} (keeps : w.Keeps σ hidden s e)
    (touches : w.Touches m σ s s') : w.Keeps σ hidden s' e where
  this := keeps.this
  owned key name named guarded := touches.owned (keeps.owned key name named guarded)
  guarded key name named guarded seen ty found := by
    obtain ⟨same, bound⟩ := keeps.owned key name named guarded
    have owner := touches.owner_eq (fun _ => same ▸ bound) σ.scope
    rw [found] at owner
    obtain ⟨ty', found'⟩ := Scopes.resolve_of_owner owner.symm
    exact keeps.guarded key name named guarded seen ty' found'

/-- A variable that a scope does not hide is seen through it. -/
theorem Keeps.closed {m : Mode} {bindings : List (String × Ty)} {caught hidden : List String}
    (stands : w.Stands σ s)
    (fresh : ∀ b ∈ bindings, b.1 ∈ caught ∨ s.scopes.lookup σ.scope b.1 = none)
    (touches : w.Touches m (σ.inScope s.scopes.size) (s.opened σ.scope bindings) s')
    (keeps : w.Keeps (σ.inScope s.scopes.size) hidden s' e) :
    w.Keeps σ (hidden ++ caught) (s'.closed s.scopes.size) e where
  this := keeps.this
  owned key name named guarded := touches.inner.owned (stands.owned key name named guarded)
  guarded key name named guarded seen ty found := by
    obtain ⟨notHidden, notCaught⟩ := not_or.mp (List.mem_append.not.mp seen)
    obtain ⟨same, bound⟩ := stands.owned key name named guarded
    -- the owner was the body before the scope opened, and so in it
    have owner := touches.inner.owner_eq (fun _ => same ▸ bound) σ.scope
    rw [found] at owner
    obtain ⟨ty', outside⟩ := Scopes.resolve_of_owner owner.symm
    have others : ∀ b ∈ bindings, b.1 ≠ name := by
      intro b listed isName
      rcases fresh b listed with isCaught | unbound
      · exact notCaught (isName ▸ isCaught)
      · rw [isName] at unbound
        rw [Scopes.lookup_eq_none_iff.mp unbound] at outside
        cases outside
    have inside := stands.through outside others
    have differs : σ.body ≠ s.scopes.size := Nat.ne_of_lt stands.body
    have boundInside := (congrArg Option.isSome (Scopes.lookupLocal_child_of_ne differs σ.scope
      bindings name)).trans (same ▸ bound)
    obtain ⟨ty'', found'⟩ := touches.resolves (fun _ => boundInside) inside
    exact keeps.guarded key name named guarded notHidden ty'' found'

/-- A target has nothing below it but its object. -/
theorem Keeps.target {object : Expr} (keeps : w.Keeps σ [] s object) (name : String) (ty : Ty) :
    w.Keeps σ [] s ⟨.attr object name, ty⟩ where
  this _ isThis := nomatch isThis
  owned := keeps.owned
  guarded key name' named guarded seen ty' found x known isVar := by
    rw [Expr.nodes_eq] at known
    rcases List.mem_cons.mp known with rfl | inside
    · cases isVar
    · obtain ⟨c, below, inside⟩ := List.mem_flatMap.mp inside
      rw [List.mem_singleton.mp below] at inside
      exact keeps.guarded key name' named guarded seen ty' found x inside isVar

/-! ## Refinements -/

section Refines

variable (apart : w.hierarchy.NumbersApart) (shape : w.start.SameShape s)
  (plainEvidence : ∀ t ∈ evidence, t.isPlain) (refines : Refinement s.hierarchy e.type evidence ty)

include apart shape plainEvidence refines

/-- A refined type is above what the type was above. -/
theorem Reads.widen (reads : w.Reads σ s e) : ∀ old : Ty, old.Widens w.hierarchy e.type →
    old.Widens w.hierarchy ty := by
  intro old below
  exact below.trans apart (shape.hierarchy.widens_iff.mp (refines.widens reads.plain plainEvidence))

/-- What was read takes the refined type. -/
theorem Reads.refined (reads : w.Reads σ s e) (plainTy : ty.isPlain) : w.Reads σ s ⟨e.kind, ty⟩ := by
  have widen := reads.widen apart shape plainEvidence refines
  refine ⟨plainTy, fun name isVar => ?_, fun watched name c isVar isMethod => ?_,
    fun watched object name isAttr => ?_⟩
  · rcases reads.localVar name isVar with ⟨-, params, ret, type⟩ | ⟨owner, ty', found, notSelf, below⟩
    · exact absurd type (refines.not_function params ret)
    · exact .inr ⟨owner, ty', found, notSelf, fun old known => widen old (below old known)⟩
  · obtain ⟨owner, a, found, below⟩ := reads.instanceVar watched name c isVar isMethod
    exact ⟨owner, a, found, fun old known => widen _ (below old known)⟩
  · obtain ⟨owner, a, found, below⟩ := reads.attr watched object name isAttr
    exact ⟨owner, a, found, fun old known => widen _ (below old known)⟩

theorem Keeps.refined (reads : w.Reads σ s e) (keeps : w.Keeps σ [] s e) :
    w.Keeps σ [] s ⟨e.kind, ty⟩ where
  this watched isThis c isMethod :=
    absurd (keeps.this watched isThis c isMethod) (refines.not_atom c)
  owned := keeps.owned
  guarded key name named guarded seen ty' bound x known isVar := by
    have before := keeps.guarded key name named guarded seen ty' bound
    rw [Expr.nodes_eq] at known
    rcases List.mem_cons.mp known with rfl | inside
    · have widen := reads.widen apart shape plainEvidence refines
      obtain ⟨notSelf, below⟩ := before e (Expr.mem_nodes_self e) isVar
      exact ⟨notSelf, fun old found => widen old (below old found)⟩
    · exact before x (by rw [Expr.nodes_eq]; exact List.mem_cons_of_mem _ inside) isVar

/-- The refined type reaches the variable or the attribute that was read. -/
theorem refined (above : w.Above s) (stands : w.Stands σ s) (reads : w.Reads σ s e)
    (plainTy : ty.isPlain) :
    w.Above (s.refined σ e ty) ∧ w.Touches .expr σ s (s.refined σ e ty) := by
  have widen := reads.widen apart shape plainEvidence refines
  -- a refined type goes to the attribute that was read, whether through `self` or an object
  have viaAttribute : ∀ c name, (w.attributes → w.AttributeBelow s c name e.type) →
      w.Above (s.withAttribute c name ty) ∧ w.Touches .expr σ s (s.withAttribute c name ty) := by
    intro c name isBelow
    unfold State.withAttribute
    split
    · next owner a found =>
      refine ⟨above.updateAttribute owner false plainTy fun watched old known => ?_,
        .withHierarchy fun found => Hierarchy.owner_update found owner name ty false⟩
      obtain ⟨owner', a', found', below⟩ := isBelow watched
      rw [found] at found'
      cases found'
      exact widen _ (below old known)
    · exact ⟨above, .refl s⟩
  unfold State.refined
  split
  · next name isVar =>
    rcases reads.localVar name isVar with ⟨-, params, ret, type⟩ | ⟨owner, ty', found, notSelf, below⟩
    -- a free name is that of a function, whose type is never refined
    · exact absurd type (refines.not_function params ret)
    · have assigned : { s with scopes := s.scopes.assign σ.scope name ty } = s.bound owner name ty := by
        rw [Scopes.assign, found]
        rfl
      rw [assigned]
      refine ⟨above.bound plainTy fun old known => widen old (below old known),
        .define ?_ (stands.owner_cases found) fun _ isMethod _ isSelf => notSelf ⟨isSelf, isMethod⟩⟩
      rw [(Scopes.lookupLocal_of_resolve found).1]
      rfl
  · next name isVar =>
    split
    · next c isMethod =>
      exact viaAttribute c name fun watched => reads.instanceVar watched name c isVar isMethod
    · exact ⟨above, .refl s⟩
  · next object name isAttr =>
    exact viaAttribute _ name fun watched => reads.attr watched object name isAttr
  · exact ⟨above, .refl s⟩

end Refines

/-! ## Bodies -/

section Bodies

variable {key : DefKey} {cell : CellId} {args params : List Ty} {definition : Tree.FunctionDef}
  {definitions : Definitions}

theorem Above.entered (above : w.Above s) (plainArgs : ∀ t ∈ args, t.isPlain)
    (beginning : Beginning s key cell args definition definitions params) :
    w.Above (s.entered key cell definition definitions params) := by
  have plainParams := above.plain.matched plainArgs beginning.matched
  have shape : s.SameShape (s.begun key cell definitions params) :=
    ⟨.refl _, Law.sameShape_begin beginning.begins⟩
  obtain ⟨-, begun⟩ := Definitions.begin?_cases beginning.begins
  have begins : w.Above (s.begun key cell definitions params) :=
    above.congr shape ((above.plain.withParams cell plainParams).congr rfl rfl rfl) rfl rfl
      fun {key' f} found => by
        change definitions.states.find? key' = some (.unresolved f) at found
        rw [begun, Table.find?_insert] at found
        split at found
        · cases found
        · exact found
  exact begins.opened _ (isPlain_bodyBindings key _ plainParams)

/-- The scope of a body lies right inside the module scope. -/
theorem Stands.entered (above : w.Above s) (positive : 0 < w.start.scopes.size)
    (beginning : Beginning s key cell args definition definitions params) :
    w.Stands (.ofBody s.scopes.size key cell) (s.entered key cell definition definitions params) where
  scope := Nat.lt_succ_self _
  body := Nat.lt_succ_self _
  chain _ := ⟨Scopes.parent?_child_self .., .body⟩
  self _ c isMethod := by
    refine ⟨Nat.ne_of_gt (Nat.lt_of_lt_of_le positive above.size), ?_⟩
    have bound := find?_bodyBindings_self (c := c) isMethod (parameterNames key definition) params
    have found := (Scopes.lookupLocal_child_self s.scopes moduleScope _ "self").trans bound
    exact Scopes.resolve_of_lookupLocal found
  owned key' name named guarded := by
    cases named
    exact absurd (Definitions.begin?_cases beginning.begins).1 (above.begun key name guarded _)

/-- What the body of a definition binds is allowed. -/
theorem Above.allows (above : w.Above s)
    (beginning : Beginning s key cell args definition definitions params) :
    ∀ name ∈ Tree.blockNames definition.body, w.Allows (some key) name := fun name listed watched =>
  above.keepsSelf watched key definition (Definitions.begin?_cases beginning.begins).1 name listed

theorem Above.finished (above : w.Above s) (names : List String) (block : List Stmt) :
    w.Above (s.finished key cell names block) :=
  above.congr ⟨.refl _, rfl⟩ (above.plain.finished key cell names block) rfl rfl
    fun {key' f} found => by
      change (s.definitions.finish key _).states.find? key' = some (.unresolved f) at found
      rw [Definitions.finish, Table.find?_insert] at found
      split at found
      · cases found
      · exact found

/-- A whole body leaves the scopes outside of it alone, but for the module scope. -/
theorem Touches.left (above : w.Above s) (positive : 0 < w.start.scopes.size)
    (touches : w.Touches .stmt (.ofBody s.scopes.size key cell)
      (s.entered key cell definition definitions params) s') (m : Mode) :
    w.Touches m σ s (s'.closed s.scopes.size) := by
  have notModule : s.scopes.size ≠ moduleScope :=
    Nat.ne_of_gt (Nat.lt_of_lt_of_le positive above.size)
  exact touches.closed rfl rfl (fun id below _ _ => Nat.ne_of_lt below) (fun id below _ => below)
    fun _ _ notModule below => touches.below σ.body notModule below "self"

end Bodies

end Watch

/-! ## The law -/

/-- In every state of a run that is watched, variables and attributes are above what they were. -/
def growthLaw (setting : Setting) (w : Watch) (plain : setting.api.IsPlain)
    (apart : w.hierarchy.NumbersApart) (positive : 0 < w.start.scopes.size) : Law setting where
  Inv _ := w.Above
  Here := w.Stands
  Rel := w.Touches
  Call s s' := ∀ m σ, w.Touches m σ s s'
  Free σ s id := s.scopes.lookup σ.scope id = none
  Called _ _ _ _ ret := ret.isPlain
  Node σ s e := w.Reads σ s e ∧ w.Keeps σ [] s e
  Kept := w.Keeps
  Fine t := t.isPlain
  Binds := w.Allows
  rel_refl _ _ := .refl
  rel_trans := .trans
  rel_stmt rel := rel.stmt
  rel_call call := call _ _
  here_rel here rel _ := here.move rel
  node_rel node rel _ := ⟨node.1.mono rel, node.2.mono rel⟩
  kept_rel kept rel _ := kept.mono rel
  free_rel unbound rel := rel.unbound unbound
  kept_node node := node.2
  fine_node node := node.1.plain
  kept_closed stands fresh rel kept := kept.closed stands fresh rel
  kept_target {_ _ _ name ty} kept _ := kept.target name ty
  fine_int := rfl
  fine_boolean := rfl
  fine_exception _ _ := rfl
  fine_element fine iterates := Ty.isPlain_element fine iterates
  fine_items fine := Bool.and_eq_true_iff.mp fine
  make above stands kept fine _ made :=
    ⟨.of_made above kept made (made.isPlain plain above.plain id fine),
      .of_made above kept made stands⟩
  depend _ dependencies above :=
    ⟨above.congr ⟨.refl _, rfl⟩ (above.plain.congr rfl rfl rfl) rfl rfl id, .congr rfl rfl⟩
  retype above stands node fine refines := by
    have plainTy := isPlain_refinement node.1.plain fine refines
    obtain ⟨above', touches⟩ := Watch.refined apart above.shape fine refines above stands node.1 plainTy
    exact ⟨above', touches, (node.1.refined apart above.shape fine refines plainTy).mono touches,
      (node.2.refined apart above.shape fine refines node.1).mono touches⟩
  openScope above stands names fine := ⟨above.opened _ fine, stands.opened names⟩
  closeScope above _ above' rel _ := by
    refine ⟨above'.closed above.size ?_, rel.inner⟩
    rw [rel.size]
    exact Nat.le_succ _
  declare above stands allows _ fine free := by
    have unbound := stands.free free
    refine ⟨above.bound fine fun old found => ?_, .declare ?_⟩
    · obtain ⟨new, known, -⟩ := above.bindings _ _ _ found
      rw [unbound] at known
      cases known
    · exact fun watched isMethod => allows watched (by rwa [Site.bind_className?])
  join above stands allows _ fine owned joined := by
    obtain ⟨known, inside⟩ := stands.localOwner owned
    obtain ⟨current, known⟩ := Option.isSome_iff_exists.mp known
    rw [known] at joined
    have plainCurrent := above.plain.lookupLocal known
    refine ⟨above.bound (isPlain_unify plainCurrent fine joined) fun old found => ?_,
      .define (by rw [known]; rfl) inside fun watched isMethod _ => ?_⟩
    · obtain ⟨new, known', widens⟩ := above.bindings _ _ _ found
      rw [known] at known'
      cases known'
      exact widens.trans apart
        (above.shape.hierarchy.widens_iff.mp (widens_unify plainCurrent fine joined).1)
    · exact allows watched (by rwa [Site.bind_className?])
  joinAttribute {_ s _ name owner entry _ _} _ makePublic above fine known joined := by
    have plainEntry := above.plain.attribute known
    have plainFound := isPlain_unify plainEntry fine joined
    refine ⟨above.updateAttribute owner makePublic plainFound fun watched old found => ?_,
      .withHierarchy fun found => Hierarchy.owner_update found .., plainFound⟩
    obtain ⟨owner', a, known', below⟩ := above.attributeBelow watched known
    rw [known] at known'
    cases known'
    exact (below old found).trans apart
      (above.shape.hierarchy.widens_iff.mp (widens_unify plainEntry fine joined).1)
  register _ above fine missing :=
    ⟨above.registerAttribute _ fine, .withHierarchy fun found =>
      Hierarchy.owner_register missing found⟩
  merge above _ _ _ _ node merges := by
    have plainRet := isPlain_mergeReturn (above.plain.params_ret _).2 node.1.plain merges
    exact ⟨above.congr ⟨.refl _, rfl⟩ (above.plain.withReturn _ plainRet) rfl rfl id,
      .congr rfl rfl, trivial⟩
  answer {_ s _ cell _ _ _} above _ fine matched _ _ := by
    have plainParams := above.plain.matched fine matched
    exact ⟨above.congr ⟨.refl _, rfl⟩ ((above.plain.withParams _ plainParams).congr rfl rfl rfl)
      rfl rfl id, fun _ _ => .congr rfl rfl, (above.plain.params_ret cell).2⟩
  enter above _ fine beginning :=
    ⟨above.entered fine beginning, .entered above positive beginning⟩
  enter_binds above beginning := above.allows beginning
  leave {_ s key cell _ definition _ _ s' block} above _ _ _ _ inside _ rel _ _ := by
    have le : s.scopes.size ≤ s'.scopes.size := by
      rw [rel.size]
      exact Nat.le_succ _
    have ended : w.Above ((s'.closed s.scopes.size).finished key cell
        (parameterNames key definition) block) :=
      (inside.closed above.size le).finished _ _
    refine ⟨ended.congr ⟨.refl _, rfl⟩ (ended.plain.congr rfl rfl rfl) rfl rfl id,
      fun m σ => (rel.left above positive m).trans (.congr rfl rfl),
      isPlain_returnAfter key (inside.plain.params_ret cell).2⟩

end TreeTyper.Translate
