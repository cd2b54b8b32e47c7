import TreeTyper.Proofs.HereditaryNodes
import TreeTyper.Proofs.Law.Module
import TreeTyper.Proofs.Links

/-!
# Hereditary properties of all that is put out

If the names of a module have a hereditary property as types, and the standard tables
answer with such types, then every type that the module is put out with has it: the
types of its nodes, of its variables and attributes, and its signatures.

    Yields V api s.hierarchy after the outline of m →
      translate api m = .ok typed → ∀ t ∈ typed.types, V t                (typedModule_types)
-/

namespace TreeTyper.Translate

open Typed
open Ty (Hereditary)

variable {V : Ty → Prop} {start s s' : State}

/-! ## States -/

/-- All types in the tables and in the finished routines have a property. -/
structure TypesHave (V : Ty → Prop) (start s : State) : Prop where
  shape : start.SameShape s
  tables : s.AllTypes V
  routines : ∀ key r, s.definitions.Finished key r → ∀ t ∈ r.types, V t

namespace TypesHave

theorem of_untouched (untouched : s.Untouched) (H : Hereditary V)
    (classes : s.hierarchy.ClassesHave V) : TypesHave V s s where
  shape := .refl s
  tables := untouched.allTypes H classes
  routines _ _ finished := (untouched.not_finished finished).elim

/-- The tables change, and no routine is finished. -/
theorem move (types : TypesHave V start s) (shape : s.SameShape s') (tables : s'.AllTypes V)
    (routines : ∀ key r, s'.definitions.Finished key r → s.definitions.Finished key r) :
    TypesHave V start s' :=
  ⟨types.shape.trans shape, tables, fun key r held => types.routines key r (routines key r held)⟩

end TypesHave

/-- The class of a method has the property if the classes that write methods have it. -/
theorem self_of_links {key : DefKey} {cell : CellId}
    (owners : ∀ {c f cell}, start.Links (.method c f) cell → V (.atom c))
    (shape : start.SameShape s) (links : s.Links key cell) :
    ∀ className ∈ key.className?, V (.atom className) := by
  intro className owner
  cases key with
  | function _ => cases owner
  | method c f =>
    cases owner
    exact owners (shape.links_iff.mp links)

/-! ## Bodies -/

section Bodies

variable {key : DefKey} {cell : CellId} {block : List Stmt}
  (self : ∀ className ∈ key.className?, V (.atom className))

include self

theorem hereditary_routine (H : Hereditary V) (tables : s.AllTypes V) (names : List String)
    (hBlock : ∀ t ∈ blockTypes block, V t) : ∀ t ∈ (s.routine key cell names block).types, V t := by
  obtain ⟨hParams, hRet⟩ := tables.params_ret H cell
  have returns := hereditary_returnAfter self H hRet
  rw [Routine.types, List.forall_mem_cons, List.forall_mem_cons]
  exact ⟨H.function.mpr ⟨hParams, returns⟩, returns, hBlock⟩

/-- The body of a definition ends. -/
theorem TypesHave.finished (H : Hereditary V) (types : TypesHave V start s) (names : List String)
    (hBlock : ∀ t ∈ blockTypes block, V t) :
    TypesHave V start (s.finished key cell names block) where
  shape := types.shape.trans ⟨.refl _, rfl⟩
  tables := types.tables.finished self H cell names block
  routines key' r held := by
    rcases Definitions.finished_of_finish held with ⟨rfl, rfl⟩ | before
    · exact hereditary_routine self H types.tables names hBlock
    · exact types.routines key' r before

end Bodies

theorem BlockKeeps.types {kept : List String → Expr → Prop} {returned : Expr → Prop}
    {block : List Stmt} (keeps : BlockKeeps kept returned block V)
    (each : ∀ names e, kept names e → ∀ t ∈ e.nodeTypes, V t) : ∀ t ∈ blockTypes block, V t := by
  rw [blockTypes, List.forall_mem_append, List.forall_mem_flatMap, List.forall_mem_map]
  refine ⟨fun e he => ?_, keeps.binders⟩
  obtain ⟨names, kept⟩ := keeps.roots e he
  exact each names e kept

/-! ## The law -/

section Law

variable (setting : Setting) (H : Hereditary V) (yields : Yields V setting.api start.hierarchy)
  (owners : ∀ {c f cell}, start.Links (.method c f) cell → V (.atom c))

/-- All types at hand have a hereditary property that the names of the module have. -/
def typesLaw : Law setting where
  Inv _ := TypesHave V start
  Knows := State.Links
  Called _ _ _ _ := V
  Node _ _ e := ∀ t ∈ e.nodeTypes, V t
  Kept _ _ _ e := ∀ t ∈ e.nodeTypes, V t
  Fine := V
  node_rel node _ _ := node
  kept_rel kept _ _ := kept
  kept_node node := node
  fine_node {_ _ e} node := (Expr.forall_nodeTypes.mp node e e.mem_nodes_self).1
  kept_closed _ _ _ kept := kept
  kept_target kept fine := Expr.forall_nodeTypes.mpr <| Expr.forall_nodes.mpr
    ⟨⟨fine, nofun⟩, fun c hc => by
      rw [List.mem_singleton.mp hc]
      exact Expr.forall_nodeTypes.mp kept⟩
  fine_int := H.int
  fine_boolean := H.boolean
  fine_exception types isException :=
    (yields.sameShape types.shape.hierarchy).exceptions _ isException
  fine_element := H.element
  fine_items := H.dictionary.mp
  make types _ kept _ _ made :=
    made.hereditary_nodeTypes H types.tables (yields.sameShape types.shape.hierarchy) id kept
  depend _ _ types :=
    ⟨types.move ⟨.refl _, rfl⟩ (types.tables.congr rfl rfl rfl) fun _ _ held => held, trivial⟩
  retype {_ σ s e _ ty} types _ node fine refines := by
    have root := Expr.forall_nodeTypes.mp node
    have classes := (yields.sameShape types.shape.hierarchy).classes
    have hTy := hereditary_refinement H classes (root e e.mem_nodes_self).1 fine refines
    refine ⟨types.move (Law.sameShape_refined s σ e ty) (types.tables.refined σ e hTy) ?_, trivial,
      Expr.forall_nodeTypes.mpr ?_⟩
    · exact fun _ _ held => s.definitions_refined σ e ty ▸ held
    · obtain ⟨own, inside⟩ := Expr.forall_nodes.mp root
      exact Expr.forall_nodes.mpr ⟨⟨hTy, own.2⟩, inside⟩
  openScope {_ σ _ _} types _ _ fine :=
    ⟨types.move ⟨.refl _, rfl⟩ (types.tables.opened σ.scope fine) fun _ _ held => held, trivial⟩
  closeScope {_ _ _ s _ _} _ _ types _ _ :=
    ⟨types.move ⟨.refl _, rfl⟩ (types.tables.closed s.scopes.size) fun _ _ held => held, trivial⟩
  declare {_ σ _ id _} types _ _ _ fine _ :=
    ⟨types.move ⟨.refl _, rfl⟩ (types.tables.bound σ.body id fine) fun _ _ held => held, trivial⟩
  join {_ _ _ id owner _ _} types _ _ _ fine _ joined := by
    have classes := (yields.sameShape types.shape.hierarchy).classes
    have hFound := H.unify classes (types.tables.slot H owner id) fine joined
    exact ⟨types.move ⟨.refl _, rfl⟩ (types.tables.bound owner id hFound) fun _ _ held => held,
      trivial⟩
  joinAttribute {_ _ _ name owner _ _ _} _ makePublic types fine known joined := by
    have classes := (yields.sameShape types.shape.hierarchy).classes
    have hFound := H.unify classes (types.tables.attribute known) fine joined
    exact ⟨types.move ⟨.updateAttribute .., rfl⟩
      (types.tables.updateAttribute owner name makePublic hFound) fun _ _ held => held, trivial, hFound⟩
  register {_ _ className name _} _ types fine _ :=
    ⟨types.move ⟨.registerAttribute .., rfl⟩
      (types.tables.registerAttribute className name false fine) fun _ _ held => held, trivial⟩
  merge {_ _ _ _ cell _ e _} types _ _ _ _ node merges := by
    have hRet := hereditary_mergeReturn H (types.tables.params_ret H cell).2
      (Expr.forall_nodeTypes.mp node e e.mem_nodes_self).1 merges
    exact ⟨types.move ⟨.refl _, rfl⟩ (types.tables.withReturn H cell hRet) fun _ _ held => held,
      trivial, trivial⟩
  answer {_ _ _ cell _ _ _} types _ fine matched _ _ := by
    obtain ⟨hParams, hRet⟩ := types.tables.params_ret H cell
    have written := types.tables.withParams H cell (H.matchParams hParams fine matched)
    exact ⟨types.move ⟨.refl _, rfl⟩ (written.congr rfl rfl rfl) fun _ _ held => held, trivial, hRet⟩
  enter {_ s key cell _ _ definitions _} types links fine beginning := by
    have self : ∀ className ∈ key.className?, V (.atom className) :=
      self_of_links owners types.shape links
    have hParams := H.matchParams (types.tables.params_ret H cell).1 fine beginning.matched
    refine ⟨types.move ⟨.refl _, Law.sameShape_begin beginning.begins⟩
      (types.tables.entered self H definitions hParams) ?_, trivial⟩
    exact fun _ _ held => Definitions.finished_of_begin beginning.begins held
  leave {_ s key cell _ definition _ _ s' block} types links _ _ _ inside _ _ _ keeps := by
    have self : ∀ className ∈ key.className?, V (.atom className) :=
      self_of_links owners types.shape links
    have closed : TypesHave V start (s'.closed s.scopes.size) :=
      inside.move ⟨.refl _, rfl⟩ (inside.tables.closed s.scopes.size) fun _ _ held => held
    have finished : TypesHave V start ((s'.closed s.scopes.size).finished key cell
        (parameterNames key definition) block) :=
      closed.finished self H _ (keeps.types fun _ _ kept => kept)
    exact ⟨finished.move ⟨.refl _, rfl⟩ (finished.tables.congr rfl rfl rfl) fun _ _ held => held,
      trivial, hereditary_returnAfter self H (inside.tables.params_ret H cell).2⟩

end Law

/-! ## Modules -/

theorem putOut_of_mem {tops : List TopDefinition} {found : List Definition} {d : Definition}
    (putOut : List.Forall₂ (PutOut s) tops found) (known : d ∈ found) : ∃ top, PutOut s top d := by
  induction putOut with
  | nil => cases known
  | cons first _ ih =>
    rcases List.mem_cons.mp known with rfl | known
    · exact ⟨_, first⟩
    · exact ih known

section Modules

variable {api : ApiTables} {m : Tree.Module} (H : Hereditary V)
  (yields : ∀ o s, OutlinesAll .empty .empty m.body o s → Yields V api s.hierarchy)

include H yields

theorem mainBlock_types :
    Runs (mainBlock api m) .empty
      (fun found s => (∀ c ∈ found.1.constants, ∀ t ∈ c.init.nodeTypes, V t) ∧
        (∀ t ∈ blockTypes found.2, V t) ∧ ∃ start, TypesHave V start s)
      fun _ _ => True := by
  refine mainBlock_runs (fun _ _ _ => trivial) fun o s _ run => ?_
  have classes := (yields o s run).classes
  have values := run.constants (by simp [Outline.empty])
  have types := TypesHave.of_untouched (run.untouched .empty) H classes
  refine ⟨typesLaw (o.setting api) H (yields o s run)
      fun links => classes _ (run.isClass_of_links links),
    ⟨types, trivial⟩, {}, ?_, fun _ _ _ => trivial⟩
  intro main s' at' _ keeps
  refine ⟨fun c hc => Expr.forall_nodeTypes.mpr fun x hx => ?_, keeps.types fun _ _ kept => kept, s,
    at'.inv⟩
  have value := values c hc
  refine ⟨value.built x hx V H classes, ?_⟩
  rw [(value.data x hx).binders_eq]
  exact fun _ binder => absurd binder List.not_mem_nil

/-- All types that a module is put out with have a hereditary property that its names have. -/
theorem typedModule_types :
    Runs (typedModule api m) .empty (fun typed _ => ∀ t ∈ typed.types, V t) fun _ _ => True := by
  refine Runs.imp (typedModule_puts_out (mainBlock_types H yields) fun _ _ _ _ _ _ => trivial) ?_
    fun _ _ h => h
  rintro typed s' ⟨o, s, ⟨values, main, start, types⟩, constants, taken, isPutOut⟩
  have routines : ∀ r ∈ typed.routines, ∀ t ∈ r.types, V t := by
    intro r hr
    obtain ⟨key, finished⟩ := taken.held r hr
    exact types.routines key r finished
  have attributes : ∀ d ∈ typed.definitions, ∀ a ∈ d.attributes, V a.ty := by
    intro d hd a ha
    obtain ⟨top, found⟩ := putOut_of_mem isPutOut hd
    cases found with
    | classDef _ => exact types.tables.attributes _ a ha
    | _ => cases ha
  rw [Module.types, constants]
  simp only [List.forall_mem_append, List.forall_mem_flatMap, List.forall_mem_map]
  exact ⟨⟨⟨values, main⟩, routines⟩, attributes⟩

end Modules

end TreeTyper.Translate
