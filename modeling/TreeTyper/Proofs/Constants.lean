import TreeTyper.Api.Standard
import TreeTyper.Proofs.Growth
import TreeTyper.Proofs.InScope
import TreeTyper.Proofs.Rebinding
import TreeTyper.Tree.Build

/-!
# Constants do not change

A constant is bound in the module scope before anything else is translated.  Later
nothing is bound under its name but by a parameter or a handler, which hide it, so a
node that reads it has the type that is listed for it.  Only a type with holes can
still be refined where the constant is used, and that does not reach the list.  A
method fills the holes; a store at an index joins a slot that has holes with what is
stored, which may turn an integer beside the hole into a float as well.

    translate api m = .ok typed → typed.ConstantsKept                       (constants_kept)

    XS = []
    XS.append(1)      lists `XS` as a list of anything, and reads a list of integers
                                                                            (constant_refined)
-/

namespace TreeTyper

namespace Typed

/-- A node of a block that reads the variable of a name: it is in no handler that catches under that
name. -/
def ReadsIn (block : List Stmt) (name : String) (x : Expr) : Prop :=
  x.kind = .localVar name ∧ ∃ placed ∈ blockPlaced block, name ∉ placed.1 ∧ x ∈ placed.2.nodes

/-- No assignment, loop or comprehension of a block binds a name. -/
structure LeavesAlone (name : String) (block : List Stmt) : Prop where
  assigned : name ∉ blockAssigned block
  loops : ∀ b ∈ blockBinders block, b.name ≠ name
  comprehensions : ∀ e ∈ blockRoots block, ∀ x ∈ e.nodes, ∀ b ∈ x.binders, b.name ≠ name

/-- What the uses of a constant make of the type that is listed for it: a method fills holes, and a
store at an index gives each slot what is stored in it. -/
inductive Refined (listed : Ty) : Ty → Prop
  | listed : Refined listed listed
  | filled {t t' : Ty} : Refined listed t → t.FillsTo t' → Refined listed t'
  | stored {h : Hierarchy} {t t' index value : Ty} : Refined listed t →
      Translate.storeAt h t index value = .ok t' → Refined listed t'

/-- A type of a constant: the listed one, or a refined one if that has holes. -/
structure Constant.Has (c : Constant) (t : Ty) : Prop where
  refined : Refined c.init.type t
  full : c.init.type.hasHoles = false → t = c.init.type

/-- A block does not bind a constant, and what it reads of it has its type if nothing `hides` it. -/
structure Constant.KeptBy (c : Constant) (hides : Prop) (block : List Stmt) : Prop where
  alone : LeavesAlone c.name block
  read : ¬hides → ∀ x, ReadsIn block c.name x → c.Has x.type

/-- The constants of a module have different names and keep their types. -/
structure Module.ConstantsKept (m : Module) : Prop where
  distinct : (m.constants.map (·.name)).Nodup
  main : ∀ c ∈ m.constants, c.KeptBy False m.main
  routines : ∀ c ∈ m.constants, ∀ r ∈ m.routines, c.KeptBy (c.name ∈ r.params) r.block

end Typed

namespace Translate

open Typed
open Scopes (moduleScope)

/-- A type without holes is not refined. -/
theorem Refinement.eq_of_not_hasHoles {h : Hierarchy} {old t : Ty} {evidence : List Ty}
    (full : old.hasHoles = false) (refines : Refinement h old evidence t) : t = old := by
  cases refines with
  | matched found refined =>
    obtain ⟨-, b, -, -, filled⟩ := matchSignature_cases found
    obtain ⟨old, same, holes, -⟩ := (filled _).mp refined
    cases same
    rw [full] at holes
    cases holes
  | stored kept =>
    cases storeAt_eq_ok_iff.mp kept with
    | @list elem elem' _ found =>
      have full : elem.hasHoles = false := full
      rw [eq_of_store full found]
    | @array elem elem' n _ found =>
      have full : elem.hasHoles = false := full
      rw [eq_of_store full found]
    | dictionary foundKey found =>
      obtain ⟨fullKey, fullSlot⟩ := Bool.or_eq_false_iff.mp full
      rw [eq_of_store fullKey foundKey, eq_of_store fullSlot found]

theorem has_refined {c : Constant} {h : Hierarchy} {old t : Ty} {evidence : List Ty}
    (has : c.Has old) (refines : Refinement h old evidence t) : c.Has t where
  refined := by
    cases refines with
    | matched found refined =>
      obtain ⟨-, b, -, -, filled⟩ := matchSignature_cases found
      obtain ⟨_, same, -, rfl, -⟩ := (filled _).mp refined
      cases same
      exact has.refined.filled (Ty.fillsTo_fill ..)
    | stored kept => exact has.refined.stored kept
  full full := by
    have same := has.full full
    exact (refines.eq_of_not_hasHoles (same ▸ full)).trans same

/-! ## One constant -/

section Constant

variable (c : Constant)

/-- Scopes that are bound under the name of a constant stay so, and no others are. -/
structure Steady (s s' : State) : Prop where
  links : s'.scopes.links = s.scopes.links
  bound : ∀ id, (s'.scopes.lookupLocal id c.name).isSome = (s.scopes.lookupLocal id c.name).isSome

/-- A site sees the module scope, through the scopes around it. -/
structure InModule (σ : Site) (s : State) : Prop where
  alive : σ.scope < s.scopes.size
  within : s.scopes.Within moduleScope σ.scope

/-- In the module scope a constant has its type, and the finished routines keep it. -/
structure Held (s : State) : Prop where
  bound : ∃ t, s.scopes.lookupLocal moduleScope c.name = some t ∧ c.Has t
  finished : ∀ {key r}, s.definitions.Finished key r → c.KeptBy (c.name ∈ r.params) r.block

/-- What is read of a constant at a site has its type, and no comprehension has a variable of that
name. -/
structure Honours (σ : Site) (hidden : List String) (s : State) (e : Expr) : Prop where
  read : c.name ∉ hidden → ∀ t, s.scopes.resolve σ.scope c.name = some (moduleScope, t) →
    ∀ x ∈ e.nodes, x.kind = .localVar c.name → c.Has x.type
  binders : ∀ x ∈ e.nodes, ∀ b ∈ x.binders, b.name ≠ c.name

end Constant

variable {c : Constant} {σ : Site} {s s' s'' : State} {scope : ScopeId} {name : String} {ty : Ty}
  {e : Expr} {bindings : List (String × Ty)}

namespace Steady

theorem refl (s : State) : Steady c s s := ⟨rfl, fun _ => rfl⟩

theorem trans (first : Steady c s s') (rest : Steady c s' s'') : Steady c s s'' :=
  ⟨rest.links.trans first.links, fun id => (rest.bound id).trans (first.bound id)⟩

theorem of_scopes (same : s'.scopes = s.scopes) : Steady c s s' :=
  ⟨congrArg Scopes.links same, fun _ => by rw [same]⟩

theorem size (steady : Steady c s s') : s'.scopes.size = s.scopes.size :=
  Scopes.size_eq_of_links steady.links

theorem owner_eq (steady : Steady c s s') (id : ScopeId) :
    (s'.scopes.resolve id c.name).map (·.1) = (s.scopes.resolve id c.name).map (·.1) :=
  Scopes.owner_congr (Scopes.parent?_congr steady.links) steady.bound id

theorem symm (steady : Steady c s s') : Steady c s' s :=
  ⟨steady.links.symm, fun id => (steady.bound id).symm⟩

theorem resolves (steady : Steady c s s') {owner : ScopeId}
    (found : s.scopes.resolve scope c.name = some (owner, ty)) :
    ∃ ty', s'.scopes.resolve scope c.name = some (owner, ty') := by
  refine Scopes.resolve_of_owner ?_
  rw [steady.owner_eq, found]
  rfl

theorem lookup_eq_none (steady : Steady c s s')
    (unbound : s.scopes.lookup scope c.name = none) : s'.scopes.lookup scope c.name = none := by
  rw [Scopes.lookup_eq_none_iff] at *
  cases found : s'.scopes.resolve scope c.name with
  | none => rfl
  | some binding =>
    obtain ⟨_, found'⟩ := steady.symm.resolves found
    rw [unbound] at found'
    cases found'

/-- Another name is bound, or a scope that is bound under the name of the constant again. -/
theorem define (kept : name = c.name → (s.scopes.lookupLocal scope c.name).isSome) (ty : Ty) :
    Steady c s (s.bound scope name ty) where
  links := Scopes.links_define ..
  bound id := by
    by_cases here : id = scope
    · subst here
      by_cases named : name = c.name
      · subst named
        exact Scopes.isSome_lookupLocal_define ty (kept rfl) c.name
      · exact congrArg Option.isSome (Scopes.lookupLocal_define_other (Ne.symm named) ..)
    · exact congrArg Option.isSome (Scopes.lookupLocal_define_of_ne here ..)

/-- What a scope did that is closed again. -/
theorem closed {opened : State} {parent : ScopeId} (steady : Steady c opened s')
    (scopes : opened.scopes = (s.scopes.child parent bindings).1) :
    Steady c s (s'.closed s.scopes.size) where
  links := Scopes.links_discard_child (steady.links.trans (congrArg Scopes.links scopes))
  bound id := by
    have size : s'.scopes.size = s.scopes.size + 1 := by
      rw [steady.size, scopes]
      exact Scopes.size_child ..
    have le : s.scopes.size ≤ s'.scopes.size := size ▸ Nat.le_succ _
    by_cases below : id < s.scopes.size
    · have after : (s'.closed s.scopes.size).scopes.lookupLocal id c.name =
          s'.scopes.lookupLocal id c.name := Scopes.lookupLocal_discard le below c.name
      rw [after, steady.bound, scopes, Scopes.lookupLocal_child_of_ne (Nat.ne_of_lt below)]
    · have above := Nat.le_of_not_lt below
      rw [Scopes.lookupLocal, Scopes.lookupLocal, Scopes.scope?_eq_none above]
      change (((s'.scopes.discard s.scopes.size).scope? id).bind _).isSome = _
      rw [Scopes.scope?_discard_above le above]

end Steady

/-! ## Sites -/

namespace InModule

theorem move (inModule : InModule σ s) (steady : Steady c s s') : InModule σ s' where
  alive := steady.size ▸ inModule.alive
  within := inModule.within.mono fun _ _ parent => (Scopes.parent?_congr steady.links _).trans parent

/-- A constant is seen at every site. -/
theorem sees (inModule : InModule σ s) (held : Held c s) :
    (s.scopes.lookup σ.scope c.name).isSome := by
  obtain ⟨t, found, -⟩ := held.bound
  obtain ⟨owner, ty, resolved, -⟩ := inModule.within.owner (by rw [found]; rfl)
  rw [Scopes.lookup, resolved]
  rfl

theorem opened (inModule : InModule σ s) (bindings : List (String × Ty)) :
    InModule (σ.inScope s.scopes.size) (s.opened σ.scope bindings) where
  alive := Nat.lt_succ_self _
  within := by
    refine .up (Scopes.parent?_child_self ..) inModule.alive (inModule.within.mono ?_)
    exact fun _ _ parent => Scopes.parent?_child_of_some parent ..

end InModule

/-! ## Tables -/

namespace Held

theorem positive (held : Held c s) : 0 < s.scopes.size := by
  obtain ⟨t, found, -⟩ := held.bound
  exact Scopes.lt_size_of_lookupLocal found

theorem congr (held : Held c s)
    (bound : s'.scopes.lookupLocal moduleScope c.name = s.scopes.lookupLocal moduleScope c.name)
    (finished : ∀ {key r}, s'.definitions.Finished key r → s.definitions.Finished key r) :
    Held c s' where
  bound := by
    rw [bound]
    exact held.bound
  finished found := held.finished (finished found)

/-- A name is bound again; if it is that of the constant, then to its type or in another scope. -/
theorem define (held : Held c s) (kept : name = c.name → scope = moduleScope → c.Has ty) :
    Held c (s.bound scope name ty) := by
  by_cases here : name = c.name ∧ scope = moduleScope
  · obtain ⟨rfl, rfl⟩ := here
    have has := kept rfl rfl
    exact ⟨⟨ty, Scopes.lookupLocal_define_self held.positive .., has⟩, held.finished⟩
  · refine held.congr ?_ id
    by_cases inside : moduleScope = scope
    · subst inside
      exact Scopes.lookupLocal_define_other (fun named => here ⟨named.symm, rfl⟩) ..
    · exact Scopes.lookupLocal_define_of_ne inside ..

/-- Another name is bound. -/
theorem declare (held : Held c s) (other : name ≠ c.name) (scope : ScopeId) (ty : Ty) :
    Held c (s.bound scope name ty) ∧ Steady c s (s.bound scope name ty) :=
  ⟨held.define fun named => absurd named other, .define (fun named => absurd named other) ty⟩

theorem opened (held : Held c s) (parent : ScopeId) (bindings : List (String × Ty)) :
    Held c (s.opened parent bindings) :=
  held.congr (Scopes.lookupLocal_child_of_ne (Nat.ne_of_lt held.positive) ..) id

theorem closed {mark : Nat} (held : Held c s) (positive : 0 < mark) (le : mark ≤ s.scopes.size) :
    Held c (s.closed mark) :=
  held.congr (Scopes.lookupLocal_discard le positive c.name) id

end Held

/-! ## Nodes -/

/-- The variables of a comprehension stand around what is below them. -/
theorem Makes.below_binders {api : ApiTables} {free : String → Prop}
    {below : List String → Expr → Prop} {called : DefKey → CellId → List Ty → Ty → Prop}
    {parts : List Expr} (made : Makes api σ s free below called parts e) :
    e.binders = [] ∨ ∃ block, below (e.binders.map (·.name)) block := by
  cases made with
  | literal isLiteral => cases isLiteral <;> exact .inl rfl
  | binary made =>
    obtain ⟨result, -, ⟨-, rfl⟩ | ⟨_, _, _, -, -, rfl⟩⟩ := binary_cases made
    · exact .inl rfl
    · exact .inl rfl
  | test made differs =>
    rcases testable_cases made with rfl | ⟨-, rfl⟩ | ⟨-, rfl⟩ | rfl
    · exact absurd rfl differs
    · exact .inl rfl
    · exact .inl rfl
    · exact .inl rfl
  | regexp made differs =>
    rcases toRegexp_cases made with rfl | ⟨value, rfl⟩ | rfl
    · exact absurd rfl differs
    · exact .inl rfl
    · exact .inl rfl
  | @iterate _ _ _ block _ _ _ inner =>
    exact .inr ⟨block, inner block (List.mem_append_right _ (List.mem_singleton_self block))⟩
  | _ => exact .inl rfl

theorem binders_of_isAuxiliary {free : String → Prop} (auxiliary : e.IsAuxiliary free) :
    e.binders = [] := by
  obtain ⟨kind, type⟩ := e
  cases kind with
  | iterate => cases auxiliary
  | _ => rfl

namespace Honours

variable {hidden : List String}

theorem mono (honours : Honours c σ hidden s e) (steady : Steady c s s') :
    Honours c σ hidden s' e where
  read seen t found := by
    obtain ⟨t', found'⟩ := steady.symm.resolves found
    exact honours.read seen t' found'
  binders := honours.binders

/-- A new node reads a constant where it stands. -/
theorem of_made {api : ApiTables} {called : DefKey → CellId → List Ty → Ty → Prop}
    {parts : List Expr} (held : Held c s) (inModule : InModule σ s)
    (known : ∀ p ∈ parts, Honours c σ [] s p)
    (made : Makes api σ s (fun id => id = c.name → s.scopes.lookup σ.scope id = none)
      (fun names _ => (s.scopes.lookup σ.scope c.name).isSome → c.name ∉ names) called parts e) :
    Honours c σ [] s e where
  read seen t found x hx isVar := by
    have bound : s.scopes.lookup σ.scope c.name = some t := by
      rw [Scopes.lookup, found]
      rfl
    -- the node made here, a node made on the way to it, or a node of a part
    rcases made.mem_nodes hx with rfl | auxiliary | ⟨p, hp, hx⟩
    · have read := made.read
      rw [isVar] at read
      rcases read with ⟨-, read⟩ | ⟨unbound, -⟩
      · obtain ⟨t', known', has⟩ := held.bound
        rw [(Scopes.lookupLocal_of_resolve found).1] at known'
        cases known'
        rw [bound] at read
        exact Option.some.inj read ▸ has
      · rw [unbound rfl] at bound
        cases bound
    · rw [Expr.IsAuxiliary, isVar] at auxiliary
      rw [auxiliary rfl] at bound
      cases bound
    · exact (known p hp).read seen t found x hx isVar
  binders x hx := by
    rcases made.mem_nodes hx with rfl | auxiliary | ⟨p, hp, hx⟩
    · rcases made.below_binders with none | ⟨_, below⟩
      · rw [none]
        exact List.forall_mem_nil _
      · intro b listed named
        exact below (inModule.sees held) (named ▸ List.mem_map_of_mem listed)
    · rw [binders_of_isAuxiliary auxiliary]
      exact List.forall_mem_nil _
    · exact (known p hp).binders x hx

/-- A constant that a scope does not hide is seen through it. -/
theorem closed {caught : List String} (inModule : InModule σ s)
    (fresh : ∀ b ∈ bindings, b.1 ∈ caught ∨ s.scopes.lookup σ.scope b.1 = none)
    (steady : Steady c (s.opened σ.scope bindings) s')
    (honours : Honours c (σ.inScope s.scopes.size) hidden s' e) :
    Honours c σ (hidden ++ caught) (s'.closed s.scopes.size) e where
  read seen t found := by
    obtain ⟨notHidden, notCaught⟩ := not_or.mp (List.mem_append.not.mp seen)
    obtain ⟨t₀, outside⟩ := (steady.closed rfl).symm.resolves found
    have others : ∀ b ∈ bindings, b.1 ≠ c.name := by
      intro b listed named
      rcases fresh b listed with isCaught | unbound
      · exact notCaught (named ▸ isCaught)
      · rw [named, Scopes.lookup_eq_none_iff, outside] at unbound
        cases unbound
    have inside : (s.opened σ.scope bindings).scopes.resolve s.scopes.size c.name =
        some (moduleScope, t₀) :=
      (Scopes.resolve_child inModule.alive (Scopes.find?_ofList_eq_none others)).trans outside
    obtain ⟨t', found'⟩ := steady.resolves inside
    exact honours.read notHidden t' found'
  binders := honours.binders

/-- A target has nothing below it but its object. -/
theorem target (honours : Honours c σ [] s e) (name : String) (ty : Ty) :
    Honours c σ [] s ⟨.attr e name, ty⟩ where
  read seen t found := by
    refine Expr.forall_nodes.mpr ⟨(fun isVar => nomatch isVar), fun object listed => ?_⟩
    rw [List.mem_singleton.mp listed]
    exact honours.read seen t found
  binders := by
    refine Expr.forall_nodes.mpr ⟨List.forall_mem_nil _, fun object listed => ?_⟩
    rw [List.mem_singleton.mp listed]
    exact honours.binders

/-- A node takes a refined type. -/
theorem retype {h : Hierarchy} {evidence : List Ty} (honours : Honours c σ hidden s e)
    (refines : Refinement h e.type evidence ty) : Honours c σ hidden s { e with type := ty } where
  read seen t found := by
    obtain ⟨root, below⟩ := Expr.forall_nodes.mp (honours.read seen t found)
    exact Expr.forall_nodes.mpr ⟨fun isVar => has_refined (root isVar) refines, below⟩
  binders := by
    obtain ⟨root, below⟩ := Expr.forall_nodes.mp honours.binders
    exact Expr.forall_nodes.mpr ⟨root, below⟩

end Honours

/-- A refined type reaches the module scope only as that of the constant. -/
theorem Held.refined {evidence : List Ty} (held : Held c s) (inModule : InModule σ s)
    (honours : Honours c σ [] s e) (refines : Refinement s.hierarchy e.type evidence ty) :
    Held c (s.refined σ e ty) ∧ Steady c s (s.refined σ e ty) := by
  have viaAttribute : ∀ className name, Held c (s.withAttribute className name ty) ∧
      Steady c s (s.withAttribute className name ty) := by
    intro className name
    unfold State.withAttribute
    split
    · exact ⟨held.congr rfl id, .of_scopes rfl⟩
    · exact ⟨held, .refl s⟩
  unfold State.refined
  split
  · next name isVar =>
    cases found : s.scopes.resolve σ.scope name with
    | none =>
      -- the constant is seen from here, so a name that is found nowhere is another one
      have other : name ≠ c.name := by
        rintro rfl
        have seen := inModule.sees held
        rw [Scopes.lookup_eq_none_iff.mpr found] at seen
        cases seen
      have assigned : { s with scopes := s.scopes.assign σ.scope name ty } =
          s.bound σ.scope name ty := by
        rw [Scopes.assign, found]
        rfl
      rw [assigned]
      exact held.declare other σ.scope ty
    | some binding =>
      obtain ⟨owner, old⟩ := binding
      have assigned : { s with scopes := s.scopes.assign σ.scope name ty } = s.bound owner name ty := by
        rw [Scopes.assign, found]
        rfl
      rw [assigned]
      -- the constant itself may be what is refined: a type without holes is its only refinement
      refine ⟨held.define ?_, .define ?_ ty⟩
      · rintro rfl rfl
        have has := honours.read List.not_mem_nil old found e (Expr.mem_nodes_self e) isVar
        exact has_refined has refines
      · rintro rfl
        rw [(Scopes.lookupLocal_of_resolve found).1]
        rfl
  · split
    · exact viaAttribute _ _
    · exact ⟨held, .refl s⟩
  · exact viaAttribute _ _
  · exact ⟨held, .refl s⟩

/-! ## Bodies -/

/-- In a new body a constant is hidden by a parameter alone. -/
theorem resolve_entered {key : DefKey} {cell : CellId} {definition : Tree.FunctionDef}
    {definitions : Definitions} {params : List Ty} (held : Held c s) (notSelf : c.name ≠ "self")
    (notParam : c.name ∉ parameterNames key definition) :
    ∃ t, (s.entered key cell definition definitions params).scopes.resolve s.scopes.size c.name =
      some (moduleScope, t) := by
  obtain ⟨t, bound, -⟩ := held.bound
  have others : ∀ b ∈ bodyBindings key (parameterNames key definition) params, b.1 ≠ c.name := by
    intro b listed named
    rcases List.mem_append.mp listed with isParam | isSelf
    · exact notParam (named ▸ (List.of_mem_zip isParam).1)
    · split at isSelf
      · rw [List.mem_singleton.mp isSelf] at named
        exact notSelf named.symm
      · cases isSelf
  refine ⟨t, ?_⟩
  exact (Scopes.resolve_child held.positive (Scopes.find?_ofList_eq_none others)).trans
    (Scopes.resolve_of_lookupLocal bound)

/-- A block at a site that sees a constant keeps it. -/
theorem keptBy_of_keeps {constants : List String} {block : List Stmt} {hides : Prop}
    {returned : Expr → Prop} (known : c.name ∈ constants)
    (spares : Spares constants (blockAssigned block) (blockBinders block))
    (keeps : BlockKeeps (fun names => Honours c σ names s) returned block)
    (sees : ¬hides → ∃ ty, s.scopes.resolve σ.scope c.name = some (moduleScope, ty)) :
    c.KeptBy hides block where
  alone := by
    refine ⟨fun assigned => spares.assigned _ assigned known, fun b listed named => ?_, fun e he => ?_⟩
    · exact spares.binders b listed (named ▸ known)
    · obtain ⟨names, stands⟩ := keeps.roots e he
      exact stands.binders
  read seen x := by
    rintro ⟨isVar, placed, listed, notHidden, inside⟩
    obtain ⟨t, found⟩ := sees seen
    exact (keeps.placed placed listed).read notHidden t found x inside isVar

/-! ## The law -/

/-- Nothing that is translated changes a constant. -/
def constantLaw (setting : Setting) (c : Constant) (known : c.name ∈ setting.constants)
    (notSelf : c.name ≠ "self") : Law setting where
  Inv _ := Held c
  Here := InModule
  Rel _ _ := Steady c
  Call := Steady c
  Free σ s id := id = c.name → s.scopes.lookup σ.scope id = none
  Node σ s := Honours c σ [] s
  Kept := Honours c
  Below σ s names _ := (s.scopes.lookup σ.scope c.name).isSome → c.name ∉ names
  rel_refl _ _ := .refl
  rel_trans := .trans
  here_rel here rel _ := here.move rel
  node_rel node rel _ := node.mono rel
  kept_rel kept rel _ := kept.mono rel
  free_rel free rel named := by
    subst named
    exact rel.lookup_eq_none (free rfl)
  below_node _ _ := List.not_mem_nil
  below_closed {σ e s s' bindings} fresh rel _ seen listed := by
    obtain ⟨b, inside, named⟩ := List.mem_map.mp listed
    have unbound := fresh b inside
    rw [named] at unbound
    rw [(Steady.closed rel rfl).lookup_eq_none unbound] at seen
    cases seen
  kept_closed inModule fresh rel kept := kept.closed inModule fresh rel
  kept_target {_ _ _ name ty} kept _ := kept.target name ty
  make held inModule kept _ _ made := .of_made held inModule kept made
  depend _ _ held := ⟨held.congr rfl id, .of_scopes rfl⟩
  retype held inModule node _ refines := by
    obtain ⟨held', steady⟩ := held.refined inModule node refines
    exact ⟨held', steady, (node.retype refines).mono steady⟩
  openScope held inModule _ _ := ⟨held.opened _ _, inModule.opened _⟩
  closeScope held _ held' rel _ := by
    refine ⟨held'.closed held.positive ?_, rel.closed rfl⟩
    rw [rel.size]
    exact Nat.le_succ _
  declare held _ _ changes _ _ := held.declare (ne_of_mem_of_not_mem known changes).symm _ _
  join held _ _ changes _ _ _ := held.declare (ne_of_mem_of_not_mem known changes).symm _ _
  joinAttribute _ _ held _ _ _ := ⟨held.congr rfl id, .of_scopes rfl, trivial⟩
  register _ held _ _ := ⟨held.congr rfl id, .of_scopes rfl⟩
  merge held _ _ _ _ _ _ := ⟨held.congr rfl id, .of_scopes rfl, trivial⟩
  answer held _ _ _ _ _ := ⟨held.congr rfl id, .of_scopes rfl, trivial⟩
  enter {_ s key cell args definition definitions params} held _ _ beginning := by
    have begun : Held c (s.begun key cell definitions params) :=
      held.congr rfl fun finished => Definitions.finished_of_begin beginning.begins finished
    refine ⟨begun.opened _ _, ⟨Nat.lt_succ_self _, ?_⟩⟩
    exact .up (Scopes.parent?_child_self ..) held.positive .body
  leave {n s key cell args definition definitions params s' block} held _ _ beginning run held' _
      rel _ keeps := by
    have le : s.scopes.size ≤ s'.scopes.size := by
      rw [rel.size]
      exact Nat.le_succ _
    have closed := held'.closed held.positive le
    have steady : Steady c (s.begun key cell definitions params) (s'.closed s.scopes.size) :=
      Steady.closed rel rfl
    have kept : c.KeptBy (c.name ∈ parameterNames key definition) block :=
      keptBy_of_keeps known ((block_spares _ definition.body _).of_ok run) keeps fun notParam => by
        obtain ⟨t, found⟩ := resolve_entered held notSelf notParam
        exact rel.resolves found
    refine ⟨⟨closed.bound, fun {key' r} finished => ?_⟩, ⟨steady.links, steady.bound⟩, trivial⟩
    rcases Definitions.finished_of_finish finished with ⟨rfl, rfl⟩ | before
    · exact kept
    · exact closed.finished before

/-! ## Modules -/

/-- After the outline every constant is bound in the module scope, each under a name of its own in
capitals. -/
structure BindsConstants (o : Outline) (s : State) : Prop where
  positive : 0 < s.scopes.size
  distinct : (o.constants.map (·.name)).Nodup
  bound : ∀ c ∈ o.constants, s.scopes.lookupLocal moduleScope c.name = some c.init.type
  spelled : ∀ c ∈ o.constants, nameCase c.name = .screaming

theorem screaming_of_constantName? {stmt : Tree.Stmt} (isConstant : constantName? stmt = some name) :
    nameCase name = .screaming := by
  unfold constantName? at isConstant
  split at isConstant
  · obtain ⟨⟨id, _⟩, -, spelled⟩ := Option.bind_eq_some_iff.mp isConstant
    obtain ⟨isScreaming, same⟩ := Option.ite_none_right_eq_some.mp spelled
    cases same
    exact isScreaming
  · cases isConstant

namespace BindsConstants

variable {o o' : Outline}

theorem empty : BindsConstants .empty .empty :=
  ⟨Nat.one_pos, .nil, List.forall_mem_nil _, List.forall_mem_nil _⟩

theorem congr (binds : BindsConstants o s) (constants : o'.constants = o.constants)
    (scopes : s'.scopes = s.scopes) : BindsConstants o' s' := by
  obtain ⟨positive, distinct, bound, spelled⟩ := binds
  rw [← constants] at distinct bound spelled
  rw [← scopes] at positive bound
  exact ⟨positive, distinct, bound, spelled⟩

theorem outlines {stmt : Tree.Stmt} (binds : BindsConstants o s) (run : Outlines o s stmt o' s') :
    BindsConstants o' s' := by
  cases run with
  | @constant _ _ _ name init _ isConstant isNew =>
    have isScreaming : nameCase name = .screaming := screaming_of_constantName? isConstant
    refine ⟨(Scopes.size_define ..).symm ▸ binds.positive, ?_, ?_, ?_⟩
    · rw [List.map_append]
      refine List.nodup_append.mpr ⟨binds.distinct, List.pairwise_singleton .., ?_⟩
      rintro other known _ listed rfl
      cases List.mem_singleton.mp listed
      exact isNew known
    · refine List.forall_mem_append.mpr ⟨fun c listed => ?_, List.forall_mem_singleton.mpr ?_⟩
      · have other : c.name ≠ name := fun named => isNew (named ▸ List.mem_map_of_mem listed)
        exact (Scopes.lookupLocal_define_other other ..).trans (binds.bound c listed)
      · exact Scopes.lookupLocal_define_self binds.positive ..
    · exact List.forall_mem_append.mpr ⟨binds.spelled, List.forall_mem_singleton.mpr isScreaming⟩
  | classDef _ _ _ _ members => exact binds.congr rfl members.scopes_eq
  | imports | function | exception | main => exact binds.congr rfl rfl

theorem outlinesAll {stmts : List Tree.Stmt} (binds : BindsConstants o s)
    (run : OutlinesAll o s stmts o' s') : BindsConstants o' s' := by
  induction run with
  | nil => exact binds
  | cons first _ ih => exact ih (binds.outlines first)

end BindsConstants

/-- One constant is kept by the main block and by every routine that is finished with it. -/
theorem mainBlock_constant (api : ApiTables) (m : Tree.Module) (c : Constant) :
    Runs (mainBlock api m) .empty
      (fun found s => c ∈ found.1.constants → Held c s ∧
        (Spares (found.1.constants.map (·.name)) (blockAssigned found.2) (blockBinders found.2) →
          c.KeptBy False found.2))
      fun _ _ => True := by
  refine mainBlock_runs (fun _ _ _ => trivial) fun o start _ run => ?_
  have binds := BindsConstants.empty.outlinesAll run
  have untouched := run.untouched .empty
  by_cases listed : c ∈ o.constants
  · have known : c.name ∈ (o.setting api).constants := List.mem_map_of_mem listed
    have notSelf : c.name ≠ "self" := by
      intro named
      have spelled := binds.spelled c listed
      rw [named] at spelled
      revert spelled
      decide
    have held : Held c start :=
      ⟨⟨c.init.type, binds.bound c listed, .listed, fun _ => rfl⟩, fun {_ _} finished =>
        (untouched.not_finished finished).elim⟩
    refine ⟨constantLaw (o.setting api) c known notSelf, ⟨held, binds.positive, .body⟩, {},
      fun main s' at' _ keeps _ => ⟨at'.inv, fun spares => ?_⟩, fun _ _ _ => trivial⟩
    obtain ⟨t, bound, -⟩ := at'.inv.bound
    exact keptBy_of_keeps known spares keeps fun _ => ⟨t, Scopes.resolve_of_lookupLocal bound⟩
  · exact ⟨sightLaw (o.setting api), ⟨trivial, trivial⟩, {},
      fun _ _ _ _ _ isListed => absurd isListed listed, fun _ _ _ => trivial⟩

theorem mainBlock_spares (api : ApiTables) (m : Tree.Module) :
    Runs (mainBlock api m) .empty
      (fun found _ => (found.1.constants.map (·.name)).Nodup ∧
        Spares (found.1.constants.map (·.name)) (blockAssigned found.2) (blockBinders found.2))
      fun _ _ => True := by
  unfold mainBlock
  refine (Runs.imp (outline_runs m) (fun _ _ h => h) fun _ _ _ => trivial).bind fun o s run => ?_
  refine Runs.get ((Runs.anyhow _ s).bind fun _ s' _ => ?_)
  refine (block_spares _ o.main Context.ofModule s').bind fun main s'' spares => Runs.pure ⟨?_, spares⟩
  exact (BindsConstants.empty.outlinesAll run).distinct

end Translate

open Translate in
/-- Constants do not change: in a module that is translated their names differ, nothing is bound
under one of them but by a parameter or a handler, and what reads a constant that neither hides has
its type, or a refinement of that if it has holes. -/
theorem constants_kept (api : ApiTables) (m : Tree.Module) (typed : Typed.Module)
    (translated : translate api m = .ok typed) : typed.ConstantsKept := by
  obtain ⟨s', run⟩ := run_of_translate translated
  have every : Runs (mainBlock api m) .empty
      (fun found s => ∀ c ∈ found.1.constants, Held c s ∧
        (Spares (found.1.constants.map (·.name)) (Typed.blockAssigned found.2)
          (Typed.blockBinders found.2) → c.KeptBy False found.2))
      fun _ _ => True :=
    Runs.of_forall (fun found s run c listed => (mainBlock_constant api m c).of_ok run listed)
      fun _ _ _ => trivial
  obtain ⟨o, s, ⟨⟨distinct, spares⟩, kept⟩, constants, taken⟩ :=
    (typedModule_runs ((mainBlock_spares api m).and every)
      fun _ _ _ _ _ _ => ⟨trivial, trivial⟩).of_ok run
  rw [← constants] at distinct kept spares
  refine ⟨distinct, fun c listed => (kept c listed).2 spares, fun c listed r hr => ?_⟩
  obtain ⟨key, finished⟩ := taken.held r hr
  exact (kept c listed).1.finished finished

open Tree.Build in
/-- Constants that are read in the main block, in bodies, in a loop, in a comprehension and below a
handler; a parameter and a handler hide them. -/
def scaling : Tree.Module :=
  ⟨[assign (name "LIMIT") (int 3),
    assign (name "STEPS") (list [int 1, int 2]),
    define "scaled" ["n"] [ret (some (binOp (name "n") .mult (name "LIMIT")))],
    define "first" ["STEPS"] [ret (some (name "STEPS"))],
    assign (name "total") (call (name "first") [string "s"]),
    forLoop (name "step") (name "STEPS")
      [tryExcept [exprStmt (call (name "scaled") [name "step"])]
        [handler (some "Exception") (some "LIMIT")
          [assign (name "seen") (listComp (name "i") (name "i") (name "STEPS") [])]]],
    exprStmt (binOp (name "LIMIT") .add (index (name "STEPS") (int 0)))]⟩

theorem constants_kept_scaling : ∃ typed, translate ApiTables.standard scaling = .ok typed ∧
    typed.constants.map (·.name) = ["LIMIT", "STEPS"] ∧ typed.ConstantsKept := by
  have checked : (translate ApiTables.standard scaling).toOption.any
      (fun typed => decide (typed.constants.map (·.name) = ["LIMIT", "STEPS"])) = true := by
    decide +kernel
  obtain ⟨typed, translated, listed⟩ := exists_of_any checked
  exact ⟨typed, translated, of_decide_eq_true listed, constants_kept _ scaling typed translated⟩

open Tree.Build in
/-- A constant that is a list of nothing known until something is added. -/
def growing : Tree.Module :=
  ⟨[assign (name "XS") (list []), exprStmt (method (name "XS") "append" [int 1])]⟩

/-- Whether the main block reads the one constant with a type that is not listed for it. -/
def readsOtherwise : Typed.Module → Bool
  | ⟨_, [c], _, [.expr ⟨.standardMethodCall ⟨.localVar name, read⟩ _ _, _⟩]⟩ =>
    decide (c.name = name ∧ read ≠ c.init.type)
  | _ => false

/-- The type of a constant that has holes is refined where the constant is used: what reads it is a
list of integers, and it is listed as one of nothing known. -/
theorem constant_refined : ∃ typed, translate ApiTables.standard growing = .ok typed ∧
    ∃ c ∈ typed.constants, ∃ x, Typed.ReadsIn typed.main c.name x ∧ x.type ≠ c.init.type := by
  have checked : (translate ApiTables.standard growing).toOption.any readsOtherwise = true := by
    decide +kernel
  obtain ⟨typed, translated, reads⟩ := exists_of_any checked
  unfold readsOtherwise at reads
  split at reads
  · next c _ name read _ _ _ =>
    obtain ⟨rfl, differs⟩ := of_decide_eq_true reads
    refine ⟨_, translated, c, List.mem_singleton_self c, ⟨.localVar c.name, read⟩, ⟨rfl, ?_⟩, differs⟩
    refine ⟨_, List.mem_cons_self, List.not_mem_nil, ?_⟩
    rw [Typed.Expr.nodes_eq]
    refine List.mem_cons_of_mem _ (List.mem_flatMap.mpr ⟨_, List.mem_cons_self, ?_⟩)
    exact Typed.Expr.mem_nodes_self _
  · cases reads

end TreeTyper
