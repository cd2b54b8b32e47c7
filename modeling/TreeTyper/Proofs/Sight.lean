import TreeTyper.Proofs.Law.Frame

/-!
# What is in sight

A node may refer to the names in scope where it stands: below the variables of a
comprehension, also to these; after a statement, also to what the statement assigns.
In the body of a method there is an instance, and nowhere else.  What is in sight at
a site of the translator is what its scopes bind, and the functions.

    Covers v σ s → Grows σ.body names s s' → Covers (v.extend names) σ s'        (Covers.grow)
-/

namespace TreeTyper

namespace Typed

/-! ## Expressions -/

/-- What an expression can refer to where it stands. -/
structure Sight where
  /-- The names in scope. -/
  sees : String → Prop
  /-- Whether there is an instance. -/
  inMethod : Prop

/-- With some more names. -/
def Sight.extend (v : Sight) (names : List String) : Sight :=
  { v with sees := fun x => v.sees x ∨ x ∈ names }

@[simp] theorem Sight.extend_nil (v : Sight) : v.extend [] = v := by
  obtain ⟨sees, inMethod⟩ := v
  simp [extend]

theorem Sight.extend_append (v : Sight) (names names' : List String) :
    v.extend (names ++ names') = (v.extend names).extend names' := by
  simp [extend, or_assoc]

def Iterators.names (i : Iterators) : List String := i.binders.map (·.name)

/-- The parts of an expression, each with the variables that are bound around it. -/
def Expr.parts (e : Expr) : List (List String × Expr) :=
  match e.kind with
  | .iterate sequence iterators test block =>
    sequence.roots.map ([], ·) ++ (test.toList ++ [block]).map (iterators.names, ·)
  | kind => kind.children.map ([], ·)

/-- A node itself refers to nothing out of sight. -/
def Expr.Refers (v : Sight) (e : Expr) : Prop :=
  match e.kind with
  | .localVar name => v.sees name
  | .this | .instanceVar _ | .thisMethodCall .. => v.inMethod
  | _ => True

/-- No node of an expression refers to anything out of sight. -/
inductive Expr.Within : Sight → Expr → Prop
  | node {v e} : e.Refers v → (∀ part ∈ e.parts, Within (v.extend part.1) part.2) → Within v e

variable {v : Sight} {e : Expr}

theorem Expr.Within.refers (within : e.Within v) : e.Refers v := by
  cases within with
  | node refers _ => exact refers

/-- An expression that is no comprehension sees what its parts see. -/
theorem Expr.Within.of_children (plain : e.isIterate = false) (refers : e.Refers v)
    (children : ∀ c ∈ e.children, c.Within v) : e.Within v := by
  refine .node refers fun part hpart => ?_
  have parts : e.parts = e.children.map ([], ·) := by
    unfold parts
    split
    · next same => simp [isIterate, same] at plain
    · rfl
  rw [parts] at hpart
  obtain ⟨c, hc, rfl⟩ := List.mem_map.mp hpart
  rw [Sight.extend_nil]
  exact children c hc

/-- The type of a node does not matter. -/
theorem Expr.Within.retype (within : e.Within v) (type : Ty) : Within v { e with type } := by
  cases within with
  | node refers parts => exact .node refers parts

/-! ## Statements -/

mutual

/-- The names that a statement assigns as variables, in their order. -/
def Stmt.assigned : Stmt → List String
  | .localAssignment name _ => [name]
  | .ifElse _ block otherwise => blockAssigned block ++ otherwise.assigned
  | .whileLoop _ block => blockAssigned block
  | .forEach _ _ block => blockAssigned block
  | .forRange _ _ _ _ block => blockAssigned block
  | .tryExcept block handlers => blockAssigned block ++ handlersAssigned handlers
  | _ => []

def Otherwise.assigned : Otherwise → List String
  | .nothing => []
  | .elseIf _ block otherwise => blockAssigned block ++ otherwise.assigned
  | .block block => blockAssigned block

def blockAssigned : List Stmt → List String
  | [] => []
  | s :: rest => s.assigned ++ blockAssigned rest

def handlersAssigned : List Handler → List String
  | [] => []
  | ⟨_, _, block⟩ :: rest => blockAssigned block ++ handlersAssigned rest

end

mutual

/-- A statement refers to nothing out of sight.  What it assigns is in sight after it, also where
it stands in a branch; the variables of a loop and the name of a handler are so in its block
alone. -/
def Stmt.Within (v : Sight) : Stmt → Prop
  | .expr e => e.Within v
  | .localAssignment _ value => value.Within v
  | .instanceAssignment _ value => v.inMethod ∧ value.Within v
  | .attrAssignment target value => target.Within v ∧ value.Within v
  | .indexAssignment sequence index value =>
    sequence.Within v ∧ index.Within v ∧ value.Within v
  | .ret _ value => value.Within v
  | .ifElse test block otherwise =>
    test.Within v ∧ blockWithin v block ∧ otherwise.Within (v.extend (blockAssigned block))
  | .whileLoop test block => test.Within v ∧ blockWithin v block
  | .forEach sequence iterators block =>
    (∀ e ∈ sequence.roots, e.Within v) ∧ blockWithin (v.extend iterators.names) block
  | .forRange start stop step index block =>
    (start.Within v ∧ stop.Within v ∧ step.Within v) ∧ blockWithin (v.extend [index]) block
  | .tryExcept block handlers =>
    blockWithin v block ∧ handlersWithin (v.extend (blockAssigned block)) handlers
  | .throw _ value => value.Within v
  | .breakLoop => True
  | .continueLoop => True

def Otherwise.Within (v : Sight) : Otherwise → Prop
  | .nothing => True
  | .elseIf test block otherwise =>
    test.Within v ∧ blockWithin v block ∧ otherwise.Within (v.extend (blockAssigned block))
  | .block block => blockWithin v block

def blockWithin (v : Sight) : List Stmt → Prop
  | [] => True
  | s :: rest => s.Within v ∧ blockWithin (v.extend s.assigned) rest

def handlersWithin (v : Sight) : List Handler → Prop
  | [] => True
  | ⟨_, instanceName, block⟩ :: rest =>
    blockWithin (v.extend instanceName.toList) block ∧
      handlersWithin (v.extend (blockAssigned block)) rest

end

theorem blockAssigned_append (as bs : List Stmt) :
    blockAssigned (as ++ bs) = blockAssigned as ++ blockAssigned bs := by
  induction as with
  | nil => rfl
  | cons s as ih => simp only [List.cons_append, blockAssigned, ih, List.append_assoc]

theorem blockWithin_append {as bs : List Stmt} : blockWithin v (as ++ bs) ↔
    blockWithin v as ∧ blockWithin (v.extend (blockAssigned as)) bs := by
  induction as generalizing v with
  | nil => simp [blockWithin, blockAssigned]
  | cons s as ih =>
    simp only [List.cons_append, blockWithin, blockAssigned, ih, Sight.extend_append, and_assoc]

end Typed

namespace Translate

open Typed

/-! ## Sites -/

def State.IsFunction (s : State) (name : String) : Prop :=
  (s.definitions.function? name).isSome

/-- Everything that a site sees is in a sight. -/
structure Covers (v : Sight) (σ : Site) (s : State) : Prop where
  names : ∀ x, (s.scopes.lookup σ.scope x).isSome → ¬(x = "self" ∧ σ.className?.isSome) → v.sees x
  functions : ∀ x, s.IsFunction x → v.sees x
  method : σ.className?.isSome → v.inMethod

/-- A run leaves the scopes open and keeps what they bind; in the scope of the body it may bind
some names, anywhere else only functions. -/
structure Grows (body : ScopeId) (names : List String) (s s' : State) : Prop where
  links : s'.scopes.links = s.scopes.links
  kept : ∀ {id x}, s.Binds id x → s'.Binds id x
  new : ∀ {id x}, s'.Binds id x → s.Binds id x ∨ id = body ∧ x ∈ names ∨ s.IsFunction x
  functions : s'.definitions.functions = s.definitions.functions

variable {body : ScopeId} {names names' : List String} {s s' s'' : State} {σ : Site} {v : Sight}

theorem State.isFunction_congr (same : s'.definitions.functions = s.definitions.functions)
    {x : String} : s'.IsFunction x ↔ s.IsFunction x := by
  rw [IsFunction, IsFunction, Definitions.function?, Definitions.function?, same]

namespace Grows

/-- Where scopes and functions stay, nothing is bound. -/
theorem same (body : ScopeId) (names : List String) (scopes : s'.scopes = s.scopes)
    (functions : s'.definitions.functions = s.definitions.functions) : Grows body names s s' where
  links := by rw [scopes]
  kept binds := by rwa [State.Binds, scopes]
  new binds := .inl (by rwa [State.Binds, scopes] at binds)
  functions

theorem refl (body : ScopeId) (s : State) : Grows body [] s s := same body [] rfl rfl

theorem trans (a : Grows body names s s') (b : Grows body names' s' s'') :
    Grows body (names ++ names') s s'' where
  links := b.links.trans a.links
  kept binds := b.kept (a.kept binds)
  new binds := by
    rcases b.new binds with binds | ⟨here, known⟩ | isFunction
    · rcases a.new binds with binds | ⟨here, known⟩ | isFunction
      · exact .inl binds
      · exact .inr (.inl ⟨here, List.mem_append_left _ known⟩)
      · exact .inr (.inr isFunction)
    · exact .inr (.inl ⟨here, List.mem_append_right _ known⟩)
    · exact .inr (.inr ((State.isFunction_congr a.functions).mp isFunction))
  functions := b.functions.trans a.functions

theorem mono (grows : Grows body names s s') (sub : names ⊆ names') : Grows body names' s s' :=
  { grows with
    new := fun binds => (grows.new binds).imp_right (.imp_left fun ⟨here, known⟩ => ⟨here, sub known⟩) }

theorem isSome_lookup (grows : Grows body names s s') {id : ScopeId} {x : String}
    (found : (s'.scopes.lookup id x).isSome) :
    (s.scopes.lookup id x).isSome ∨ x ∈ names ∨ s.IsFunction x := by
  refine Scopes.isSome_lookup_of (fun i _ => Scopes.parent?_congr grows.links i) (fun i _ binds => ?_)
    found
  exact (grows.new binds).imp_right (.imp_left And.right)

theorem isSome_lookup_mono (grows : Grows body names s s') {id : ScopeId} {x : String}
    (found : (s.scopes.lookup id x).isSome) : (s'.scopes.lookup id x).isSome := by
  have known : (s'.scopes.lookup id x).isSome ∨ False :=
    Scopes.isSome_lookup_of (fun i _ => (Scopes.parent?_congr grows.links i).symm)
      (fun i _ binds => .inl (grows.kept binds)) found
  exact known.resolve_right False.elim

end Grows

/-- A sight after a run has the names that the run has bound. -/
theorem Covers.grow (covers : Covers v σ s) (grows : Grows body names s s') :
    Covers (v.extend names) σ s' where
  names x found notSelf := by
    rcases grows.isSome_lookup found with found | known | isFunction
    · exact .inl (covers.names x found notSelf)
    · exact .inr known
    · exact .inl (covers.functions x isFunction)
  functions x isFunction :=
    .inl (covers.functions x ((State.isFunction_congr grows.functions).mp isFunction))
  method := covers.method

/-- A sight before a run is no wider than after it. -/
theorem Covers.shrink (covers : Covers v σ s') (grows : Grows body names s s') : Covers v σ s where
  names x found notSelf := covers.names x (grows.isSome_lookup_mono found) notSelf
  functions x isFunction :=
    covers.functions x ((State.isFunction_congr grows.functions).mpr isFunction)
  method := covers.method

/-! ## Scopes -/

/-- A name is bound where it is bound already. -/
theorem Grows.rebind {id : ScopeId} {x : String} (binds : s.Binds id x) (body : ScopeId) (ty : Ty) :
    Grows body [] s (s.bound id x ty) where
  links := Scopes.links_define ..
  kept known := known.bound id x ty
  new known := by
    rcases State.binds_bound known with known | ⟨rfl, rfl⟩
    · exact .inl known
    · exact .inl binds
  functions := rfl

/-- A name is bound in the scope of the body. -/
theorem Grows.declare (body : ScopeId) (x : String) (ty : Ty) :
    Grows body [x] s (s.bound body x ty) where
  links := Scopes.links_define ..
  kept binds := binds.bound body x ty
  new binds := (State.binds_bound binds).imp_right fun ⟨here, same⟩ =>
    .inl ⟨here, List.mem_singleton.mpr same⟩
  functions := rfl

/-- What a run in a new scope binds in the scopes around it stays after the scope is closed. -/
theorem Grows.closed {parent : ScopeId} {bindings : List (String × Ty)}
    (inside : Grows body names (s.opened parent bindings) s') :
    Grows body names s (s'.closed s.scopes.size) := by
  have size : s'.scopes.size = s.scopes.size + 1 := Scopes.size_eq_of_links inside.links
  have le : s.scopes.size ≤ s'.scopes.size := size ▸ Nat.le_succ _
  refine ⟨Scopes.links_discard_child inside.links, fun {id x} binds => ?_, fun {id x} binds => ?_,
    inside.functions⟩
  · have below := binds.lt_size
    exact (State.binds_closed le).mpr ⟨below, inside.kept ((State.binds_opened below).mpr binds)⟩
  · obtain ⟨below, binds⟩ := (State.binds_closed le).mp binds
    exact (inside.new binds).imp_left (State.binds_opened below).mp

/-- A new scope that is closed again has bound nothing outside. -/
theorem Grows.outside (grows : Grows s.scopes.size names s s') (body : ScopeId) :
    Grows body [] s s' where
  links := grows.links
  kept := grows.kept
  new binds := by
    have below := binds.lt_size
    rw [Scopes.size_eq_of_links grows.links] at below
    rcases grows.new binds with known | ⟨newest, -⟩ | isFunction
    · exact .inl known
    · exact absurd newest (Nat.ne_of_lt below)
    · exact .inr (.inr isFunction)
  functions := grows.functions

/-- Inside a new scope its variables are in sight, and what is in sight outside. -/
theorem Covers.inside {bindings : List (String × Ty)} (covers : Covers v σ s)
    (names : List String) (bound : ∀ b ∈ bindings, b.1 ∈ names) :
    Covers (v.extend names) (σ.inScope s.scopes.size) (s.opened σ.scope bindings) where
  names x found notSelf := by
    rcases Scopes.isSome_lookup_iff.mp found with here | ⟨up, parent, below, found⟩
    · change ((s.scopes.child σ.scope bindings).1.lookupLocal s.scopes.size x).isSome at here
      rw [Scopes.lookupLocal_child_self] at here
      obtain ⟨ty, known⟩ := Option.isSome_iff_exists.mp here
      exact .inr (bound _ (mem_of_find?_ofList known))
    · have same : some σ.scope = some up := (Scopes.parent?_child_self ..).symm.trans parent
      cases same
      have outside : (s.scopes.lookup σ.scope x).isSome ∨ False := by
        refine Scopes.isSome_lookup_of (fun i le => ?_) (fun i le binds => .inl ?_) found
        · exact Scopes.parent?_child_of_ne (Nat.ne_of_lt (Nat.lt_of_le_of_lt le below)) ..
        · exact (State.binds_opened (Nat.lt_of_le_of_lt le below)).mp binds
      exact .inl (covers.names x (outside.resolve_right False.elim) notSelf)
  functions x isFunction := .inl (covers.functions x isFunction)
  method := covers.method

/-- What is exactly in sight at a site. -/
def Site.sight (σ : Site) (s : State) : Sight where
  sees x := (s.scopes.lookup σ.scope x).isSome ∨ s.IsFunction x
  inMethod := σ.className?.isSome

theorem Site.covers_sight (σ : Site) (s : State) : Covers (σ.sight s) σ s :=
  ⟨fun _ found _ => .inl found, fun _ => .inr, id⟩

/-- A variable that takes a new type is bound already, or is a function. -/
theorem Grows.refined {node : Expr} (known : ∀ v, Covers v σ s → node.Within v) (ty : Ty) :
    Grows σ.body [] s (s.refined σ node ty) := by
  have viaAttribute : ∀ className name, Grows σ.body [] s (s.withAttribute className name ty) := by
    intro className name
    unfold State.withAttribute
    split
    · exact .same _ _ rfl rfl
    · exact .refl _ _
  unfold State.refined
  split
  · next name isVar =>
    unfold Scopes.assign
    split
    · next owner old resolved =>
      have binds : s.Binds owner name := by
        rw [State.Binds, (Scopes.lookupLocal_of_resolve resolved).1]
        rfl
      exact .rebind binds σ.body ty
    · next unresolved =>
      -- a name that is seen but not bound is that of a function
      have seen : (σ.sight s).sees name := by
        have refers := (known _ (σ.covers_sight s)).refers
        rw [Expr.Refers, isVar] at refers
        exact refers
      have isFunction : s.IsFunction name := by
        refine seen.resolve_left fun found => ?_
        rw [Scopes.lookup_eq_none_iff.mpr unresolved] at found
        cases found
      refine ⟨Scopes.links_define .., fun binds => binds.bound σ.scope name ty, fun binds => ?_, rfl⟩
      refine (State.binds_bound binds).imp_right ?_
      rintro ⟨-, rfl⟩
      exact .inr isFunction
  · split
    · exact viaAttribute ..
    · exact .refl _ _
  · exact viaAttribute ..
  · exact .refl _ _

end Translate

end TreeTyper
