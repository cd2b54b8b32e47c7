import TreeTyper.Proofs.Attributes
import TreeTyper.Proofs.Chains
import TreeTyper.Proofs.Signatures

/-!
# Watching a run

A run is watched from one of its states on: its variables and attributes are to
stay above what they were then.  What a step changes besides types, and where a
body stands in the scopes, does not depend on what the variables were.

    w.Touches m σ s s'       what a run at a site changes besides types
    w.Stands σ s             where the body of a site stands in the scopes
-/

namespace TreeTyper.Translate

open Typed
open Scopes (moduleScope)

theorem Site.bind_className? (σ : Site) : σ.key?.bind (·.className?) = σ.className? := by
  obtain ⟨scope, body, definition⟩ := σ
  cases definition <;> rfl

/-- In the body of a method the name of its own instance is bound to that. -/
theorem find?_bodyBindings_self {key : DefKey} {c : String} (isMethod : key.className? = some c)
    (names : List String) (params : List Ty) :
    (Table.ofList (bodyBindings key names params)).find? "self" = some (.atom c) := by
  rw [bodyBindings, isMethod]
  exact Scopes.find?_ofList_concat ..

/-! ## What is watched -/

/-- Bound variables stay bound, and their types widen. -/
def State.VariablesWiden (h : Hierarchy) (s s' : State) : Prop :=
  ∀ id name old, s.scopes.lookupLocal id name = some old →
    ∃ new, s'.scopes.lookupLocal id name = some new ∧ old.Widens h new

/-- The attributes of every class widen. -/
def State.AttributesWiden (h : Hierarchy) (s s' : State) : Prop :=
  ∀ c, TreeTyper.AttributesWiden h (s.hierarchy.ownAttributes c) (s'.hierarchy.ownAttributes c)

/-- The state from which a run is watched.  Variables are watched in any case, attributes if
`attributes` holds, which takes methods that never bind the name of their own instance.  In one body,
also what is read from some variables is watched. -/
structure Watch where
  start : State
  attributes : Prop
  /-- The scope of the body. -/
  frame : ScopeId
  /-- The variables of that scope, with the definition whose body it is. -/
  guarded : DefKey → String → Prop

/-- The name is not that of the own instance of a method. -/
def KeepsSelf (key? : Option DefKey) (name : String) : Prop :=
  (key?.bind (·.className?)).isSome → name ≠ "self"

/-- No method that is still to be translated binds the name of its own instance. -/
def State.KeepsSelf (s : State) : Prop :=
  ∀ key f, s.definitions.states.find? key = some (.unresolved f) →
    ∀ name ∈ Tree.blockNames f.body, Translate.KeepsSelf (some key) name

namespace Watch

variable (w : Watch)

abbrev hierarchy : Hierarchy := w.start.hierarchy

/-- The names that a body may bind. -/
def Allows (key? : Option DefKey) (name : String) : Prop := w.attributes → KeepsSelf key? name

/-- The attribute that a class sees had a type below `ty` when the watch began. -/
def AttributeBelow (s : State) (c name : String) (ty : Ty) : Prop :=
  ∃ owner a, s.hierarchy.attribute? c name = some (owner, a) ∧
    ∀ old, (w.hierarchy.ownAttributes owner).find? (·.name == name) = some old →
      old.ty.Widens w.hierarchy ty

/-- What a node was read from was below its type when the watch began. -/
structure Reads (σ : Site) (s : State) (e : Expr) : Prop where
  plain : e.type.isPlain
  localVar : ∀ name, e.kind = .localVar name →
    (s.scopes.lookup σ.scope name = none ∧ ∃ params ret, e.type = .function params ret) ∨
    ∃ owner ty, s.scopes.resolve σ.scope name = some (owner, ty) ∧
      ¬(name = "self" ∧ σ.className?.isSome) ∧
      ∀ old, w.start.scopes.lookupLocal owner name = some old → old.Widens w.hierarchy e.type
  instanceVar : w.attributes → ∀ name c, e.kind = .instanceVar name → σ.className? = some c →
    w.AttributeBelow s c name e.type
  attr : w.attributes → ∀ object name, e.kind = .attr object name →
    w.AttributeBelow s object.type.head name e.type

/-- A read of a guarded variable is no read of the own instance, and above what the variable was. -/
def ReadAbove (σ : Site) (name : String) (x : Expr) : Prop :=
  ¬(name = "self" ∧ σ.className?.isSome) ∧
    ∀ old, w.start.scopes.lookupLocal w.frame name = some old → old.Widens w.hierarchy x.type

/-- A guarded variable belongs to the scope of the body. -/
def Owned (σ : Site) (s : State) (name : String) : Prop :=
  σ.body = w.frame ∧ (s.scopes.lookupLocal w.frame name).isSome

/-- The own instance of a method has its class, and what is read from guarded variables that are
not hidden is above what they were. -/
structure Keeps (σ : Site) (hidden : List String) (s : State) (e : Expr) : Prop where
  this : w.attributes → e.kind = .this → ∀ c, σ.className? = some c → e.type = .atom c
  owned : ∀ key name, σ.key? = some key → w.guarded key name → w.Owned σ s name
  guarded : ∀ key name, σ.key? = some key → w.guarded key name → name ∉ hidden →
    ∀ ty, s.scopes.resolve σ.scope name = some (w.frame, ty) →
    ∀ x ∈ e.nodes, x.kind = .localVar name → w.ReadAbove σ name x

/-- Where a body stands in the scopes. -/
structure Stands (σ : Site) (s : State) : Prop where
  scope : σ.scope < s.scopes.size
  body : σ.body < s.scopes.size
  chain : σ.body ≠ moduleScope →
    s.scopes.parent? σ.body = some moduleScope ∧ s.scopes.Within σ.body σ.scope
  self : w.attributes → ∀ c, σ.className? = some c →
    σ.body ≠ moduleScope ∧ s.scopes.resolve σ.scope "self" = some (σ.body, .atom c)
  owned : ∀ key name, σ.key? = some key → w.guarded key name → w.Owned σ s name

/-- The tables are above those from which the run is watched. -/
structure Above (s : State) : Prop where
  shape : w.start.SameShape s
  plain : s.IsPlain
  size : w.start.scopes.size ≤ s.scopes.size
  bindings : w.start.VariablesWiden w.hierarchy s
  attributes : w.attributes → w.start.AttributesWiden w.hierarchy s
  keepsSelf : w.attributes → s.KeepsSelf
  begun : ∀ key name, w.guarded key name → ∀ f,
    s.definitions.states.find? key ≠ some (.unresolved f)

/-- What a run at a site changes besides types: it binds names in the scope of its body only, and
leaves the other bodies and its own instance alone. -/
structure Touches (m : Mode) (σ : Site) (s s' : State) : Prop where
  size : s'.scopes.size = s.scopes.size
  parents : ∀ id, s'.scopes.parent? id = s.scopes.parent? id
  bound : ∀ id name, (s.scopes.lookupLocal id name).isSome →
    (s'.scopes.lookupLocal id name).isSome
  names : ∀ id, (m = .stmt → id ≠ σ.body) → ∀ name, (s'.scopes.lookupLocal id name).isSome →
    (s.scopes.lookupLocal id name).isSome
  below : ∀ id, id ≠ moduleScope → id < σ.body → ∀ name,
    s'.scopes.lookupLocal id name = s.scopes.lookupLocal id name
  self : w.attributes → σ.className?.isSome → σ.body ≠ moduleScope →
    s'.scopes.lookupLocal σ.body "self" = s.scopes.lookupLocal σ.body "self"
  owners : ∀ {c name owner a}, s.hierarchy.attribute? c name = some (owner, a) →
    ∃ a', s'.hierarchy.attribute? c name = some (owner, a')

end Watch

variable {w : Watch} {m : Mode} {σ : Site} {s s' s'' : State} {id : ScopeId} {name : String}
  {ty : Ty}

/-! ## Touching -/

namespace Watch.Touches

theorem refl (s : State) : w.Touches m σ s s :=
  ⟨rfl, fun _ => rfl, fun _ _ h => h, fun _ _ _ h => h, fun _ _ _ _ => rfl, fun _ _ _ => rfl,
    fun found => ⟨_, found⟩⟩

theorem trans (a : w.Touches m σ s s') (b : w.Touches m σ s' s'') : w.Touches m σ s s'' where
  size := b.size.trans a.size
  parents id := (b.parents id).trans (a.parents id)
  bound id name h := b.bound id name (a.bound id name h)
  names id outside name h := a.names id outside name (b.names id outside name h)
  below id notModule below name := (b.below id notModule below name).trans
    (a.below id notModule below name)
  self watched isMethod notModule := (b.self watched isMethod notModule).trans
    (a.self watched isMethod notModule)
  owners found := (a.owners found).elim fun _ found => b.owners found

theorem stmt (touches : w.Touches .expr σ s s') : w.Touches .stmt σ s s' :=
  { touches with names := fun id _ name h => touches.names id (fun h => nomatch h) name h }

/-- Neither scopes nor attributes change. -/
theorem congr (scopes : s'.scopes = s.scopes) (hierarchy : s'.hierarchy = s.hierarchy) :
    w.Touches m σ s s' := by
  refine ⟨?_, ?_, ?_, ?_, ?_, ?_, ?_⟩
  all_goals first | rw [scopes] | rw [hierarchy]
  · exact fun _ => rfl
  · exact fun _ _ h => h
  · exact fun _ _ _ h => h
  · exact fun _ _ _ _ => rfl
  · exact fun _ _ _ => rfl
  · exact fun found => ⟨_, found⟩

/-- The owner of a name stays, in a statement if the name is no new one of the body. -/
theorem owner_eq (touches : w.Touches m σ s s')
    (known : m = .stmt → (s.scopes.lookupLocal σ.body name).isSome) (id : ScopeId) :
    (s'.scopes.resolve id name).map (·.1) = (s.scopes.resolve id name).map (·.1) := by
  refine Scopes.owner_congr touches.parents (fun id => ?_) id
  refine Bool.eq_iff_iff.mpr ⟨fun h => ?_, touches.bound id name⟩
  by_cases inBody : m = .stmt ∧ id = σ.body
  · rw [inBody.2]
    exact known inBody.1
  · exact touches.names id (fun isStmt same => inBody ⟨isStmt, same⟩) name h

theorem resolves (touches : w.Touches m σ s s')
    (known : m = .stmt → (s.scopes.lookupLocal σ.body name).isSome) {id owner : ScopeId}
    (found : s.scopes.resolve id name = some (owner, ty)) :
    ∃ ty', s'.scopes.resolve id name = some (owner, ty') := by
  refine Scopes.resolve_of_owner ?_
  rw [touches.owner_eq known, found]
  rfl

theorem unbound (touches : w.Touches .expr σ s s') {id : ScopeId}
    (unbound : s.scopes.lookup id name = none) : s'.scopes.lookup id name = none := by
  have same : (s'.scopes.resolve id name).map (·.1) = (s.scopes.resolve id name).map (·.1) :=
    touches.owner_eq (fun h => nomatch h) id
  rw [Scopes.lookup_eq_none_iff] at *
  rw [unbound] at same
  exact Option.map_eq_none_iff.mp same

/-- A bound name takes a new type. -/
theorem define (bound : (s.scopes.lookupLocal id name).isSome)
    (inside : id = moduleScope ∨ σ.body ≤ id)
    (notSelf : w.attributes → σ.className?.isSome → id = σ.body → name ≠ "self") :
    w.Touches m σ s (s.bound id name ty) where
  size := Scopes.size_define ..
  parents id' := Scopes.parent?_define ..
  bound id' name' known := by
    by_cases here : id' = id
    · subst here
      exact (Scopes.isSome_lookupLocal_define ty bound name').trans known
    · exact (congrArg Option.isSome (Scopes.lookupLocal_define_of_ne here ..)).trans known
  names id' _ name' known := by
    by_cases here : id' = id
    · subst here
      exact (Scopes.isSome_lookupLocal_define ty bound name').symm.trans known
    · exact (congrArg Option.isSome (Scopes.lookupLocal_define_of_ne here ..)).symm.trans known
  below id' notModule below name' := by
    refine Scopes.lookupLocal_define_of_ne (fun here => ?_) ..
    rcases inside with isModule | inside
    · exact notModule (here.trans isModule)
    · exact absurd (here ▸ below) (Nat.not_lt_of_le inside)
  self watched isMethod _ := by
    by_cases here : σ.body = id
    · exact Scopes.lookupLocal_define_other (Ne.symm (notSelf watched isMethod here.symm)) ..
    · exact Scopes.lookupLocal_define_of_ne here ..
  owners found := ⟨_, found⟩

/-- A body binds a new name. -/
theorem declare (notSelf : w.attributes → σ.className?.isSome → name ≠ "self") :
    w.Touches .stmt σ s (s.bound σ.body name ty) where
  size := Scopes.size_define ..
  parents id' := Scopes.parent?_define ..
  bound id' name' known := by
    by_cases here : id' = σ.body ∧ name' = name
    · obtain ⟨rfl, rfl⟩ := here
      obtain ⟨old, found⟩ := Option.isSome_iff_exists.mp known
      exact Option.isSome_iff_exists.mpr
        ⟨ty, Scopes.lookupLocal_define_self (Scopes.lt_size_of_lookupLocal found) ..⟩
    · have same : (s.bound σ.body name ty).scopes.lookupLocal id' name' =
          s.scopes.lookupLocal id' name' := by
        by_cases inBody : id' = σ.body
        · exact Scopes.lookupLocal_define_other (fun named => here ⟨inBody, named⟩) ..
        · exact Scopes.lookupLocal_define_of_ne inBody ..
      rwa [same]
  names id' outside name' known := by
    have same := Scopes.lookupLocal_define_of_ne (outside rfl) s.scopes name name' ty
    exact (congrArg Option.isSome same).symm.trans known
  below id' _ below name' := Scopes.lookupLocal_define_of_ne (Nat.ne_of_lt below) ..
  self watched isMethod _ :=
    Scopes.lookupLocal_define_other (Ne.symm (notSelf watched isMethod)) ..
  owners found := ⟨_, found⟩

theorem withHierarchy {h : Hierarchy}
    (owners : ∀ {c name owner a}, s.hierarchy.attribute? c name = some (owner, a) →
      ∃ a', h.attribute? c name = some (owner, a')) :
    w.Touches m σ s (s.withHierarchy h) :=
  { refl s with owners }

/-- Owners stay in a statement too. -/
theorem owned (touches : w.Touches m σ s s') (owned : w.Owned σ s name) : w.Owned σ s' name :=
  ⟨owned.1, touches.bound _ name owned.2⟩

/-- What an inner scope did is seen outside of it. -/
theorem closed {m' : Mode} {σ' : Site} {opened : State} {parent : ScopeId}
    {bindings : List (String × Ty)} (touches : w.Touches m' σ' opened s')
    (scopes : opened.scopes = (s.scopes.child parent bindings).1)
    (hierarchy : opened.hierarchy = s.hierarchy)
    (outside : ∀ id < s.scopes.size, (m = .stmt → id ≠ σ.body) → m' = .stmt → id ≠ σ'.body)
    (below : ∀ id < s.scopes.size, id < σ.body → id < σ'.body)
    (self : w.attributes → σ.className?.isSome → σ.body ≠ moduleScope → σ.body < s.scopes.size →
      s'.scopes.lookupLocal σ.body "self" = opened.scopes.lookupLocal σ.body "self") :
    w.Touches m σ s (s'.closed s.scopes.size) := by
  have size : s'.scopes.size = s.scopes.size + 1 := by
    rw [touches.size, scopes]
    rfl
  have le : s.scopes.size ≤ s'.scopes.size := size ▸ Nat.le_succ _
  -- below its index the new scope changes nothing, and from there on nothing is left
  have before : ∀ id < s.scopes.size, ∀ name,
      opened.scopes.lookupLocal id name = s.scopes.lookupLocal id name := by
    intro id lt name
    rw [scopes]
    exact Scopes.lookupLocal_child_of_ne (Nat.ne_of_lt lt) ..
  have after : ∀ id < s.scopes.size, ∀ name,
      (s'.closed s.scopes.size).scopes.lookupLocal id name = s'.scopes.lookupLocal id name :=
    fun id lt name => Scopes.lookupLocal_discard le lt name
  have gone : ∀ id, ¬id < s.scopes.size → ∀ name,
      (s'.closed s.scopes.size).scopes.lookupLocal id name = none ∧
        s.scopes.lookupLocal id name = none := by
    intro id above name
    have above := Nat.le_of_not_lt above
    refine ⟨?_, ?_⟩
    · change ((s'.scopes.discard s.scopes.size).scope? id).bind _ = none
      rw [Scopes.scope?_discard_above le above]
      rfl
    · rw [Scopes.lookupLocal, Scopes.scope?_eq_none above]
      rfl
  -- so each part is that of `touches` below the index, and trivial from there on
  refine ⟨Scopes.size_discard le, fun id => ?_, fun id name known => ?_,
    fun id notBody name known => ?_, fun id notModule lt name => ?_,
    fun watched isMethod notModule => ?_, fun found => touches.owners (hierarchy ▸ found)⟩
  · by_cases lt : id < s.scopes.size
    · refine (Scopes.parent?_discard le lt).trans ((touches.parents id).trans ?_)
      rw [scopes]
      exact Scopes.parent?_child_of_ne (Nat.ne_of_lt lt) ..
    · have above := Nat.le_of_not_lt lt
      rw [Scopes.parent?, Scopes.parent?, Scopes.scope?_eq_none above]
      change ((s'.scopes.discard s.scopes.size).scope? id).bind _ = none
      rw [Scopes.scope?_discard_above le above]
      rfl
  · by_cases lt : id < s.scopes.size
    · rw [after id lt]
      exact touches.bound id name (by rwa [before id lt])
    · rw [(gone id lt name).2] at known
      cases known
  · by_cases lt : id < s.scopes.size
    · rw [← before id lt]
      exact touches.names id (outside id lt notBody) name (by rwa [← after id lt])
    · rw [(gone id lt name).1] at known
      cases known
  · by_cases lt' : id < s.scopes.size
    · rw [after id lt', ← before id lt']
      exact touches.below id notModule (below id lt' lt) name
    · rw [(gone id lt' name).1, (gone id lt' name).2]
  · by_cases lt : σ.body < s.scopes.size
    · rw [after _ lt, self watched isMethod notModule lt, before _ lt]
    · rw [(gone _ lt _).1, (gone _ lt _).2]

/-- A scope that was opened inside a body and is closed again. -/
theorem inner {parent : ScopeId} {bindings : List (String × Ty)}
    (touches : w.Touches m (σ.inScope s.scopes.size) (s.opened parent bindings) s') :
    w.Touches m σ s (s'.closed s.scopes.size) :=
  touches.closed rfl rfl (fun _ _ outside => outside) (fun _ _ below => below)
    fun watched isMethod notModule _ => touches.self watched isMethod notModule

end Watch.Touches

/-! ## Standing -/

namespace Watch.Stands

theorem move (stands : w.Stands σ s) (touches : w.Touches m σ s s') : w.Stands σ s' where
  scope := touches.size ▸ stands.scope
  body := touches.size ▸ stands.body
  chain notModule := by
    obtain ⟨outside, within⟩ := stands.chain notModule
    exact ⟨(touches.parents _).trans outside,
      within.mono fun id up parent => (touches.parents id).trans parent⟩
  self watched c isMethod := by
    obtain ⟨notModule, found⟩ := stands.self watched c isMethod
    have bound := (Scopes.lookupLocal_of_resolve found).1
    obtain ⟨ty, found'⟩ := touches.resolves (fun _ => by rw [bound]; rfl) found
    have bound' := (Scopes.lookupLocal_of_resolve found').1
    rw [touches.self watched (by rw [isMethod]; rfl) notModule, bound] at bound'
    cases bound'
    exact ⟨notModule, found'⟩
  owned key name named guarded := touches.owned (stands.owned key name named guarded)

/-- The chain of a site leads from its body to the module scope. -/
theorem owner_cases (stands : w.Stands σ s) {owner : ScopeId}
    (found : s.scopes.resolve σ.scope name = some (owner, ty)) :
    owner = moduleScope ∨ σ.body ≤ owner := by
  by_cases isModule : σ.body = moduleScope
  · exact .inr (isModule ▸ Nat.zero_le owner)
  · obtain ⟨outside, within⟩ := stands.chain isModule
    exact within.owner_cases outside found

/-- A name that is no local of the body is not bound in the scope of the body. -/
theorem free (stands : w.Stands σ s) (free : s.localOwner? σ name = none) :
    s.scopes.lookupLocal σ.body name = none := by
  unfold State.localOwner? at free
  dsimp only at free
  split at free
  · next notModule =>
    by_contra known
    obtain ⟨owner, ty, found, inside⟩ :=
      (stands.chain notModule).2.owner (Option.isSome_iff_ne_none.mpr known)
    have notOwner : ¬(owner = moduleScope ∧ σ.scope ≠ moduleScope) := by
      rintro ⟨isModule, -⟩
      rw [isModule] at inside
      exact notModule (Nat.le_zero.mp inside)
    rw [Scopes.resolveLocal, found] at free
    simp only [if_neg notOwner] at free
    cases free
  · next isModule =>
    rw [not_not.mp isModule]
    exact Option.map_eq_none_iff.mp (Option.or_eq_none_iff.mp free).2

/-- The owner of a local binds it. -/
theorem localOwner (stands : w.Stands σ s) {owner : ScopeId}
    (owned : s.localOwner? σ name = some owner) :
    (s.scopes.lookupLocal owner name).isSome ∧ (owner = moduleScope ∨ σ.body ≤ owner) := by
  have through : s.scopes.resolveLocal σ.scope name = some owner →
      (s.scopes.lookupLocal owner name).isSome ∧ (owner = moduleScope ∨ σ.body ≤ owner) := by
    intro resolved
    unfold Scopes.resolveLocal at resolved
    split at resolved
    · next owner' ty found =>
      split at resolved
      · cases resolved
      · cases resolved
        refine ⟨?_, stands.owner_cases found⟩
        rw [(Scopes.lookupLocal_of_resolve found).1]
        rfl
    · cases resolved
  unfold State.localOwner? at owned
  dsimp only at owned
  split at owned
  · exact through owned
  · rcases Option.or_eq_some_iff.mp owned with resolved | ⟨-, global⟩
    · exact through resolved
    · obtain ⟨ty, found, rfl⟩ := Option.map_eq_some_iff.mp global
      exact ⟨by rw [found]; rfl, .inl rfl⟩

/-- A name that is bound outside of a scope and not by it is seen through it. -/
theorem through (stands : w.Stands σ s) {bindings : List (String × Ty)} {owner : ScopeId}
    (found : s.scopes.resolve σ.scope name = some (owner, ty))
    (other : ∀ b ∈ bindings, b.1 ≠ name) :
    (s.opened σ.scope bindings).scopes.resolve s.scopes.size name = some (owner, ty) :=
  (Scopes.resolve_child stands.scope (Scopes.find?_ofList_eq_none other)).trans found

/-- The scope of a loop or of a handler. -/
theorem opened (stands : w.Stands σ s) {bindings : List (String × Ty)}
    (names : ∀ b ∈ bindings, w.Allows σ.key? b.1 ∨ s.scopes.lookup σ.scope b.1 = none) :
    w.Stands (σ.inScope s.scopes.size) (s.opened σ.scope bindings) := by
  have parents : ∀ id up, s.scopes.parent? id = some up →
      (s.scopes.child σ.scope bindings).1.parent? id = some up :=
    fun _ _ parent => Scopes.parent?_child_of_some parent ..
  refine ⟨Nat.lt_succ_self _, Nat.lt_succ_of_lt stands.body, fun notModule => ?_,
    fun watched c isMethod => ?_, fun key name named guarded => ?_⟩
  · obtain ⟨outside, within⟩ := stands.chain notModule
    exact ⟨parents _ _ outside,
      .up (Scopes.parent?_child_self ..) stands.scope (within.mono parents)⟩
  · have isMethod : σ.className? = some c := isMethod
    obtain ⟨notModule, found⟩ := stands.self watched c isMethod
    refine ⟨notModule, stands.through found fun b listed isSelf => ?_⟩
    rcases names b listed with allowed | unbound
    · exact allowed watched (by rw [σ.bind_className?, isMethod]; rfl) isSelf
    · rw [isSelf] at unbound
      rw [Scopes.lookup_eq_none_iff.mp unbound] at found
      cases found
  · obtain ⟨same, bound⟩ := stands.owned key name named guarded
    refine ⟨same, ?_⟩
    have differs : w.frame ≠ s.scopes.size := same ▸ Nat.ne_of_lt stands.body
    exact (congrArg Option.isSome (Scopes.lookupLocal_child_of_ne differs ..)).trans bound

end Watch.Stands

end TreeTyper.Translate
