import TreeTyper.Proofs.Law.Module
import TreeTyper.Proofs.Parts

/-!
# Laws about nodes

Many a law speaks of the nodes alone, of each by itself.  It owes only what a new
node needs, that later calls and types of variables do not disturb it, and that the
node which a use refines keeps it; the rest is the same for all of them.

    nodeLaw setting P        the nodes at hand and those of the finished routines obey `P`
-/

namespace TreeTyper.Translate

open Typed

/-- A call was answered: it is in the log. -/
def State.Answered (s : State) (key : DefKey) (cell : CellId) (args : List Ty) (ret : Ty) : Prop :=
  ∃ type phase, ⟨key, cell, args, ret, type, phase⟩ ∈ s.calls

/-- What can be said of a node in the body of a method of some class, or in code of no class. -/
structure NodeProperty (api : ApiTables) where
  Of : State → Option String → Expr → Prop
  mono : ∀ {s s' className? e}, Of s className? e → s.SameShape s' → s.calls ⊆ s'.calls →
    Of s' className? e
  make : ∀ {σ s free below parts e}, Makes api σ s free below s.Answered parts e →
    Of s σ.className? e
  auxiliary : ∀ {s className? free e}, e.IsAuxiliary free → Of s className? e
  target : ∀ {s className? object name ty}, Of s className? ⟨.attr object name, ty⟩
  retype : ∀ {s className? h e evidence ty}, Of s className? e → Refinement h e.type evidence ty →
    Of s className? { e with type := ty }

namespace NodeProperty

variable {api : ApiTables} (P : NodeProperty api)

/-- The property holds of all nodes of an expression. -/
def Below (s : State) (className? : Option String) (e : Expr) : Prop :=
  ∀ x ∈ e.nodes, P.Of s className? x

/-- The property holds in every finished routine, which is that of its key. -/
def Finished (s : State) : Prop :=
  ∀ key r, s.definitions.Finished key r →
    r.key = key ∧ ∀ e ∈ blockRoots r.block, P.Below s key.className? e

variable {P} {s s' : State} {σ : Site} {className? : Option String} {e : Expr}

theorem Below.mono (below : P.Below s className? e) (shape : s.SameShape s')
    (calls : s.calls ⊆ s'.calls) : P.Below s' className? e :=
  fun x known => P.mono (below x known) shape calls

theorem Below.of_made {free : String → Prop} {below : List String → Expr → Prop}
    {parts : List Expr} (made : Makes api σ s free below s.Answered parts e)
    (known : ∀ p ∈ parts, P.Below s σ.className? p) : P.Below s σ.className? e := by
  intro x hx
  rcases made.mem_nodes hx with rfl | auxiliary | ⟨p, hp, hx⟩
  · exact P.make made
  · exact P.auxiliary auxiliary
  · exact known p hp x hx

theorem Below.retype {h : Hierarchy} {evidence : List Ty} {ty : Ty} (below : P.Below s className? e)
    (refines : Refinement h e.type evidence ty) : P.Below s className? { e with type := ty } := by
  obtain ⟨root, inside⟩ := Expr.forall_nodes.mp below
  exact Expr.forall_nodes.mpr ⟨P.retype root refines, inside⟩

theorem Below.target {object : Expr} (below : P.Below s className? object) (name : String) (ty : Ty) :
    P.Below s className? ⟨.attr object name, ty⟩ := by
  refine Expr.forall_nodes.mpr ⟨P.target, fun c hc => ?_⟩
  rw [List.mem_singleton.mp hc]
  exact below

theorem Finished.mono (finished : P.Finished s) (shape : s.SameShape s')
    (calls : s.calls ⊆ s'.calls)
    (routines : ∀ key r, s'.definitions.Finished key r → s.definitions.Finished key r) :
    P.Finished s' := fun key r held =>
  (finished key r (routines key r held)).imp id fun below e he => (below e he).mono shape calls

theorem Finished.congr (finished : P.Finished s) (shape : s.SameShape s')
    (calls : s'.calls = s.calls) (definitions : s'.definitions = s.definitions) : P.Finished s' :=
  finished.mono shape (by rw [calls]; exact List.Subset.refl _) fun _ _ held => definitions ▸ held

end NodeProperty

/-- The nodes at hand and those of the finished routines have a property. -/
def nodeLaw (setting : Setting) (P : NodeProperty setting.api) : Law setting where
  Inv _ := P.Finished
  Rel _ _ s s' := s.calls ⊆ s'.calls
  Call s s' := s.calls ⊆ s'.calls
  Called := State.Answered
  Node σ s := P.Below s σ.className?
  Kept σ _ s := P.Below s σ.className?
  rel_refl _ _ _ := List.Subset.refl _
  rel_trans := List.Subset.trans
  node_rel node rel shape := node.mono shape rel
  kept_rel kept rel shape := kept.mono shape rel
  called_rel called rel _ := called.imp fun _ found => found.imp fun _ known => rel known
  kept_closed _ _ _ kept := kept.mono ⟨.refl _, rfl⟩ (List.Subset.refl _)
  kept_target {_ _ _ name ty} kept _ := kept.target name ty
  make _ _ known _ _ made := .of_made made known
  depend _ _ inv := ⟨inv.congr ⟨.refl _, rfl⟩ rfl rfl, List.Subset.refl _⟩
  retype {_ σ s e _ ty} inv _ node _ refines := by
    have shape := Law.sameShape_refined s σ e ty
    have same := s.calls_refined σ e ty
    have calls : s.calls ⊆ (s.refined σ e ty).calls := by
      rw [same]
      exact List.Subset.refl _
    exact ⟨inv.congr shape same (s.definitions_refined ..), calls,
      (node.retype refines).mono shape calls⟩
  openScope inv _ _ _ := ⟨inv.congr ⟨.refl _, rfl⟩ rfl rfl, trivial⟩
  closeScope _ _ inv rel _ := ⟨inv.congr ⟨.refl _, rfl⟩ rfl rfl, rel⟩
  declare inv _ _ _ _ _ := ⟨inv.congr ⟨.refl _, rfl⟩ rfl rfl, List.Subset.refl _⟩
  join inv _ _ _ _ _ _ := ⟨inv.congr ⟨.refl _, rfl⟩ rfl rfl, List.Subset.refl _⟩
  joinAttribute _ _ inv _ _ _ :=
    ⟨inv.congr ⟨.updateAttribute .., rfl⟩ rfl rfl, List.Subset.refl _, trivial⟩
  register _ inv _ _ := ⟨inv.congr ⟨.registerAttribute .., rfl⟩ rfl rfl, List.Subset.refl _⟩
  merge inv _ _ _ _ _ _ := ⟨inv.congr ⟨.refl _, rfl⟩ rfl rfl, List.Subset.refl _, trivial⟩
  answer inv _ _ _ _ _ :=
    ⟨inv.mono ⟨.refl _, rfl⟩ (List.subset_cons_self ..) fun _ _ held => held,
      List.subset_cons_self .., _, _, List.mem_cons_self⟩
  enter inv _ _ beginning :=
    ⟨inv.mono ⟨.refl _, Law.sameShape_begin beginning.begins⟩ (List.Subset.refl _)
        fun _ _ held => Definitions.finished_of_begin beginning.begins held,
      trivial⟩
  leave _ _ _ _ _ inv _ rel _ keeps := by
    refine ⟨fun key r held => ?_, List.subset_cons_of_subset _ rel, _, _, List.mem_cons_self⟩
    rcases Definitions.finished_of_finish held with ⟨rfl, rfl⟩ | before
    · refine ⟨key_of_form rfl rfl, fun e he => ?_⟩
      obtain ⟨_, kept⟩ := keeps.roots e he
      exact kept.mono ⟨.refl _, rfl⟩ (List.subset_cons_self ..)
    · exact (inv key r before).imp id fun below e he =>
        (below e he).mono ⟨.refl _, rfl⟩ (List.subset_cons_self ..)

/-- The nodes of the main block and of the finished routines have every property of nodes. -/
theorem mainBlock_nodes {api : ApiTables} (P : NodeProperty api) (m : Tree.Module) :
    Runs (mainBlock api m) .empty
      (fun found s => (∀ c ∈ found.1.constants, ∀ x ∈ c.init.nodes, x.IsData) ∧
        (∀ e ∈ blockRoots found.2, P.Below s none e) ∧ P.Finished s)
      fun _ _ => True := by
  refine mainBlock_runs (fun _ _ _ => trivial) fun o s _ run => ?_
  have untouched := run.untouched .empty
  refine ⟨nodeLaw (o.setting api) P, ⟨fun key r held => ?_, trivial⟩, {}, ?_, fun _ _ _ => trivial⟩
  · exact (untouched.not_finished held).elim
  · intro main s' at' _ keeps
    exact ⟨fun c hc => (run.constants (by simp [Outline.empty]) c hc).data,
      fun e he => (keeps.roots e he).elim fun _ kept => kept, at'.inv⟩

/-- The nodes of a module that was put out have every property of nodes, apart from those of the
constants, which are data. -/
theorem typedModule_nodes {api : ApiTables} (P : NodeProperty api) (m : Tree.Module) :
    Runs (typedModule api m) .empty
      (fun typed s => (∀ c ∈ typed.constants, ∀ x ∈ c.init.nodes, x.IsData) ∧
        (∀ e ∈ blockRoots typed.main, P.Below s none e) ∧
        ∀ r ∈ typed.routines, ∀ e ∈ blockRoots r.block, P.Below s r.key.className? e)
      fun _ _ => True := by
  refine Runs.imp (typedModule_runs (mainBlock_nodes P m) fun _ _ _ _ _ _ => trivial) ?_
    fun _ _ h => h
  rintro typed s' ⟨o, s, ⟨values, main, finished⟩, constants, taken⟩
  obtain ⟨definitions, functions, rfl⟩ := taken.rest
  have shape : s.SameShape (s.withDefinitions definitions) := ⟨.refl _, functions⟩
  refine ⟨constants ▸ values, fun e he => (main e he).mono shape (List.Subset.refl _),
    fun r hr e he => ?_⟩
  obtain ⟨key, held⟩ := taken.held r hr
  obtain ⟨same, below⟩ := finished key r held
  rw [same]
  exact (below e he).mono shape (List.Subset.refl _)

end TreeTyper.Translate
