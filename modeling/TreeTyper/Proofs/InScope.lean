import TreeTyper.Api.Standard
import TreeTyper.Proofs.Looking
import TreeTyper.Proofs.Origin
import TreeTyper.Tree.Build

/-!
# Names in scope

A body sees its parameters, the constants, the functions and what the main block
has assigned by the time at which the body is translated; the main block assigns
more later, and nothing that it has assigned goes out of scope again.  So all names
of the typed tree are in scope where they stand.

    translate api m = .ok typed → typed.NamesInScope        (names_in_scope)
-/

namespace TreeTyper

namespace Typed

/-- The constants and the functions of a module, which are in scope everywhere. -/
def Module.globals (m : Module) : List String :=
  m.constants.map (·.name) ++ (m.routines.filter (·.form = .function)).map (·.name)

/-- Nothing in a module refers to a name out of scope.  A definition sees also what the main block
assigns; only in methods and constructors is there an instance. -/
structure Module.NamesInScope (m : Module) : Prop where
  main : blockWithin ⟨(· ∈ m.globals), False⟩ m.main
  routines : ∀ r ∈ m.routines, blockWithin
    ⟨(· ∈ r.params ++ (m.globals ++ blockAssigned m.main)), r.form ≠ .function⟩ r.block

end Typed

namespace Translate

open Typed

variable {s s' : State} {key : DefKey} {v : Sight}

/-! ## Bodies -/

/-- A sight takes in the parameters of a body and what is in scope everywhere. -/
structure TakesIn (v : Sight) (s : State) (key : DefKey) (params : List String) : Prop where
  params : ∀ x ∈ params, v.sees x
  globals : ∀ x, s.Binds Scopes.moduleScope x → v.sees x
  functions : ∀ x, s.IsFunction x → v.sees x
  method : key.className?.isSome → v.inMethod

/-- The module scope keeps what it binds, as do the functions, and no scope stays open. -/
structure KeepsGlobals (s s' : State) : Prop where
  links : s'.scopes.links = s.scopes.links
  kept : ∀ {x}, s.Binds Scopes.moduleScope x → s'.Binds Scopes.moduleScope x
  functions : s'.definitions.functions = s.definitions.functions

namespace KeepsGlobals

theorem refl (s : State) : KeepsGlobals s s := ⟨rfl, id, rfl⟩

theorem trans {s'' : State} (a : KeepsGlobals s s') (b : KeepsGlobals s' s'') : KeepsGlobals s s'' :=
  ⟨b.links.trans a.links, fun binds => b.kept (a.kept binds), b.functions.trans a.functions⟩

theorem of_frame (frame : s.SameFrame s') : KeepsGlobals s s' :=
  ⟨frame.links, frame.kept, by rw [frame.definitions]⟩

section

variable {parent : ScopeId} {bindings : List (String × Ty)}

theorem le_size (inside : KeepsGlobals (s.opened parent bindings) s') :
    s.scopes.size ≤ s'.scopes.size := by
  have size : s'.scopes.size = s.scopes.size + 1 := Scopes.size_eq_of_links inside.links
  omega

theorem closed (positive : 0 < s.scopes.size)
    (inside : KeepsGlobals (s.opened parent bindings) s') :
    KeepsGlobals s (s'.closed s.scopes.size) where
  links := Scopes.links_discard_child inside.links
  kept binds := (State.binds_closed inside.le_size).mpr
    ⟨positive, inside.kept ((State.binds_opened positive).mpr binds)⟩
  functions := inside.functions

end

end KeepsGlobals

/-- A sight that takes in what is in scope later takes in what is in scope now. -/
theorem TakesIn.before {params : List String} (takesIn : TakesIn v s' key params)
    (kept : ∀ x, s.Binds Scopes.moduleScope x → s'.Binds Scopes.moduleScope x)
    (functions : s'.definitions.functions = s.definitions.functions) : TakesIn v s key params where
  params := takesIn.params
  globals x binds := takesIn.globals x (kept x binds)
  functions x isFunction := takesIn.functions x ((State.isFunction_congr functions).mpr isFunction)
  method := takesIn.method

/-- The blocks of finished routines refer to nothing but what a body can see. -/
structure InSight (s : State) : Prop where
  positive : 0 < s.scopes.size
  finished : ∀ {key r}, s.definitions.Finished key r → ∀ v, TakesIn v s key r.params →
    blockWithin v r.block

theorem InSight.congr (inSight : InSight s) (positive : 0 < s'.scopes.size)
    (kept : ∀ x, s.Binds Scopes.moduleScope x → s'.Binds Scopes.moduleScope x)
    (same : s'.definitions = s.definitions) : InSight s' where
  positive
  finished finished v takesIn := by
    rw [same] at finished
    exact inSight.finished finished v (takesIn.before kept (by rw [same]))

theorem InSight.opened (inSight : InSight s) (parent : ScopeId) (bindings : List (String × Ty)) :
    InSight (s.opened parent bindings) := by
  refine inSight.congr ?_ (fun x => (State.binds_opened inSight.positive).mpr) rfl
  rw [State.opened, Scopes.size_child]
  exact Nat.succ_pos _

theorem InSight.closed {mark : Nat} (inSight : InSight s) (positive : 0 < mark)
    (le : mark ≤ s.scopes.size) : InSight (s.closed mark) := by
  refine inSight.congr ?_ (fun x binds => (State.binds_closed le).mpr ⟨positive, binds⟩) rfl
  rwa [State.closed, Scopes.size_discard le]

/-- The first scope has nothing around it. -/
theorem binds_of_lookup_module {x : String}
    (found : (s.scopes.lookup Scopes.moduleScope x).isSome) : s.Binds Scopes.moduleScope x := by
  rcases Scopes.isSome_lookup_iff.mp found with here | ⟨up, -, below, -⟩
  · exact here
  · exact absurd below (Nat.not_lt_zero up)

section Body

variable {cell : CellId} {args params : List Ty} {definition : Tree.FunctionDef}
  {definitions : Definitions}

theorem InSight.entered (inSight : InSight s)
    (beginning : Beginning s key cell args definition definitions params) :
    InSight (s.entered key cell definition definitions params) := by
  have begun : InSight (s.begun key cell definitions params) := by
    refine ⟨inSight.positive, fun finished v takesIn => ?_⟩
    have functions := Law.sameShape_begin beginning.begins
    exact inSight.finished (Definitions.finished_of_begin beginning.begins finished) v
      (takesIn.before (fun _ => id) functions)
  exact begun.opened ..

/-- After a body all is in scope that was in scope before it. -/
theorem KeepsGlobals.left (positive : 0 < s.scopes.size)
    (beginning : Beginning s key cell args definition definitions params)
    (inside : KeepsGlobals (s.entered key cell definition definitions params) s') :
    KeepsGlobals s (s'.closed s.scopes.size) := by
  have begun : KeepsGlobals s (s.begun key cell definitions params) :=
    ⟨rfl, id, Law.sameShape_begin beginning.begins⟩
  have closed : KeepsGlobals (s.begun key cell definitions params) (s'.closed s.scopes.size) :=
    KeepsGlobals.closed positive inside
  exact begun.trans closed

/-- In a new body the parameters and the module scope are in sight. -/
theorem TakesIn.entered (takesIn : TakesIn v s key (parameterNames key definition))
    (positive : 0 < s.scopes.size)
    (beginning : Beginning s key cell args definition definitions params) :
    Covers v (.ofBody s.scopes.size key cell) (s.entered key cell definition definitions params) where
  names x found notSelf := by
    rcases Scopes.isSome_lookup_iff.mp found with here | ⟨up, parent, below, found⟩
    · change ((s.scopes.child Scopes.moduleScope
        (bodyBindings key (parameterNames key definition) params)).1.lookupLocal
          s.scopes.size x).isSome at here
      rw [Scopes.lookupLocal_child_self] at here
      obtain ⟨ty, known⟩ := Option.isSome_iff_exists.mp here
      rcases List.mem_append.mp (mem_of_find?_ofList known) with isParam | isSelf
      · exact takesIn.params x (List.of_mem_zip isParam).1
      · have isMethod : x = "self" ∧ key.className?.isSome := by
          cases inClass : key.className? with
          | none => simp [inClass] at isSelf
          | some className => simp_all
        exact absurd isMethod notSelf
    · have isModule : some Scopes.moduleScope = some up :=
        (Scopes.parent?_child_self ..).symm.trans parent
      cases isModule
      exact takesIn.globals x ((State.binds_opened positive).mp (binds_of_lookup_module found))
  functions x isFunction :=
    takesIn.functions x
      ((State.isFunction_congr (Law.sameShape_begin beginning.begins)).mp isFunction)
  method := takesIn.method

end Body

/-- The names of finished routines are in scope. -/
def scopeFrame (setting : Setting) : FrameLaw setting where
  Inv _ := InSight
  Rel := KeepsGlobals
  rel_refl := .refl
  rel_trans := .trans
  same inSight frame :=
    ⟨inSight.congr (Scopes.size_eq_of_links frame.links ▸ inSight.positive)
      (fun _ => frame.kept) frame.definitions, .of_frame frame⟩
  openScope bindings inSight _ := ⟨inSight.opened _ bindings, trivial⟩
  closeScope outside inside keeps :=
    ⟨inside.closed outside.positive keeps.le_size, keeps.closed outside.positive⟩
  enter inSight beginning := ⟨inSight.entered beginning, trivial⟩
  leave {n s key cell args definition definitions params s' block} inSight beginning run inside
      keeps := by
    have closed := inside.closed inSight.positive keeps.le_size
    have whole := keeps.left inSight.positive beginning
    intro s''
    refine ⟨⟨closed.positive, fun {other r} finished v takesIn => ?_⟩, whole.trans ⟨rfl, id, rfl⟩⟩
    rcases Definitions.finished_of_finish finished with ⟨rfl, rfl⟩ | held
    · have begins := TakesIn.entered (takesIn.before (fun _ => whole.kept) whole.functions)
        inSight.positive beginning
      obtain ⟨names, -, fits⟩ := (block_sees (Law.inferAt_infers n) definition.body
        ((Context.ofBody s.scopes.size _ cell).last true) v _ begins).of_ok run
      exact fits.within
    · exact closed.finished held v (takesIn.before (fun _ => id) rfl)

/-! ## Modules -/

/-- After the outline the module scope binds the constants, and the functions are definitions. -/
structure Globals (o : Outline) (s : State) : Prop where
  constants : ∀ x, s.Binds Scopes.moduleScope x → x ∈ o.constants.map (·.name)
  functions : ∀ x, s.IsFunction x → ∃ pos, .function x pos ∈ o.definitions

theorem Members.scopes_eq {className : String} {body : List Tree.Stmt}
    (run : Members className s body s') : s'.scopes = s.scopes := by
  induction run with
  | nil => rfl
  | pass _ ih => exact ih
  | method _ _ _ _ ih => exact ih

theorem Members.functions_eq {className : String} {body : List Tree.Stmt}
    (run : Members className s body s') : s'.definitions.functions = s.definitions.functions := by
  induction run with
  | nil => rfl
  | pass _ ih => exact ih
  | method _ _ _ _ ih => exact ih

variable {o o' : Outline}

theorem Globals.congr (globals : Globals o s) (scopes : s'.scopes = s.scopes)
    (functions : s'.definitions.functions = s.definitions.functions)
    (constants : o'.constants = o.constants) (definitions : o.definitions ⊆ o'.definitions) :
    Globals o' s' where
  constants x binds := by
    rw [State.Binds, scopes] at binds
    rw [constants]
    exact globals.constants x binds
  functions x isFunction := by
    obtain ⟨pos, known⟩ := globals.functions x ((State.isFunction_congr functions).mp isFunction)
    exact ⟨pos, definitions known⟩

theorem Globals.outlines {stmt : Tree.Stmt} (globals : Globals o s)
    (run : Outlines o s stmt o' s') : Globals o' s' := by
  cases run with
  | imports => exact globals.congr rfl rfl rfl (List.Subset.refl _)
  | @constant _ _ _ name init _ _ =>
    refine ⟨fun x binds => ?_, globals.functions⟩
    rw [List.map_append]
    rcases State.binds_bound binds with known | ⟨-, rfl⟩
    · exact List.mem_append_left _ (globals.constants x known)
    · exact List.mem_append_right _ List.mem_cons_self
  | @function d pos _ =>
    refine ⟨globals.constants, fun x isFunction => ?_⟩
    change ((s.definitions.functions.insert d.name _).find? x).isSome at isFunction
    rw [Table.find?_insert] at isFunction
    split at isFunction
    · next same => exact ⟨pos, List.mem_append_right _ (by simp [same])⟩
    · obtain ⟨pos', known⟩ := globals.functions x isFunction
      exact ⟨pos', List.mem_append_left _ known⟩
  | classDef _ _ _ _ members =>
    exact globals.congr members.scopes_eq members.functions_eq rfl (List.subset_append_left ..)
  | exception => exact globals.congr rfl rfl rfl (List.subset_append_left ..)
  | main => exact globals.congr rfl rfl rfl (List.Subset.refl _)

theorem OutlinesAll.globals {stmts : List Tree.Stmt} (run : OutlinesAll o s stmts o' s')
    (globals : Globals o s) : Globals o' s' := by
  induction run with
  | nil => exact globals
  | cons first _ ih => exact ih (globals.outlines first)

theorem globals_empty : Globals .empty .empty := by
  refine ⟨fun x binds => ?_, fun x isFunction => ?_⟩
  · cases binds
  · cases isFunction

theorem main_sees (api : ApiTables) (o : Outline) (s : State) :
    Runs (do
        inferPure (translatorOf api o s.definitions.size) (pureFunctions s o.definitions)
        block (translatorOf api o s.definitions.size) o.main Context.ofModule) s
      (fun main s' => ∀ v, Covers v .ofModule s →
        Grows Scopes.moduleScope (blockAssigned main) s s' ∧ blockWithin v main)
      fun _ _ => True := by
  have infers : (sightLaw (o.setting api)).Infers (s.definitions.size + 1) _ :=
    Law.inferAt_infers (s.definitions.size + 1)
  refine Runs.of_forall (fun main s' run v covers => ?_) fun _ _ _ => trivial
  have sees : Sees v .ofModule s (do
      inferPure (translatorOf api o s.definitions.size) (pureFunctions s o.definitions)
      block (translatorOf api o s.definitions.size) o.main Context.ofModule) (Fits v) :=
    Sees.expr_bind (Law.inferPure_holds infers _ Law.links_pureFunctions (at_sight _ _ s))
      fun _ s' _ _ _ => block_sees infers o.main Context.ofModule v s'
  obtain ⟨names, grows, fits⟩ := (sees covers).of_ok run
  exact ⟨fits.assigned ▸ grows, fits.within⟩

/-- After the outline the main block binds the names that it assigns, and refers to what is in
sight. -/
theorem mainBlock_sees (api : ApiTables) (m : Tree.Module) :
    Runs (mainBlock api m) .empty
      (fun found s => ∃ start, Globals found.1 start ∧ ∀ v, Covers v .ofModule start →
        Grows Scopes.moduleScope (blockAssigned found.2) start s ∧ blockWithin v found.2)
      fun _ _ => True := by
  unfold mainBlock
  refine (Runs.imp (outline_runs m) (fun _ _ h => h) fun _ _ _ => trivial).bind fun o s run => ?_
  refine Runs.get ?_
  rw [← bind_assoc]
  exact (main_sees api o s).bind fun main s' seen => Runs.pure ⟨s, run.globals globals_empty, seen⟩

theorem mainBlock_inSight (api : ApiTables) (m : Tree.Module) :
    Runs (mainBlock api m) .empty (fun _ s => InSight s) fun _ _ => True := by
  refine mainBlock_runs (fun _ _ _ => trivial) fun o start _ run => ?_
  have untouched := run.untouched .empty
  have inSight : InSight start :=
    ⟨untouched.positive, fun finished => (untouched.not_finished finished).elim⟩
  refine ⟨(scopeFrame (o.setting api)).law, ⟨inSight, trivial⟩, {},
    fun main s' at' _ _ => at'.inv, fun _ _ _ => trivial⟩

theorem routineForm_ne_function {key : DefKey} (inClass : key.className?.isSome) :
    routineForm key ≠ .function := by
  cases key with
  | function name => cases inClass
  | method className name =>
    unfold routineForm
    dsimp only
    split
    · exact RoutineForm.noConfusion
    · exact RoutineForm.noConfusion

end Translate

open Translate in
/-- Names are in scope: in a module that is translated, nothing refers to a name that is not bound
around it or before it. -/
theorem names_in_scope (api : ApiTables) (m : Tree.Module) (typed : Typed.Module)
    (translated : translate api m = .ok typed) : typed.NamesInScope := by
  obtain ⟨s', run⟩ := run_of_translate translated
  have main := (mainBlock_stems api m).and ((mainBlock_inSight api m).and (mainBlock_sees api m))
  obtain ⟨o, s, ⟨⟨start, -, stems, -⟩, inSight, begun, globals, sees⟩, constants, taken, putOut⟩ :=
    (typedModule_puts_out main fun _ _ _ _ _ _ => ⟨trivial, trivial, trivial⟩).of_ok run
  -- what the module binds is a constant, what is known as a function is put out as one
  have isGlobal : ∀ x, begun.Binds Scopes.moduleScope x ∨ begun.IsFunction x →
      x ∈ typed.globals := by
    rintro x (binds | isFunction)
    · refine List.mem_append_left _ ?_
      rw [constants]
      exact globals.constants x binds
    · obtain ⟨pos, known⟩ := globals.functions x isFunction
      obtain ⟨d, emitted, isPutOut⟩ := mem_putOut putOut known
      cases isPutOut with
      | @function _ _ r finished =>
        obtain ⟨_, -, renders⟩ := stems.finished finished
        have listed : r ∈ typed.routines :=
          List.mem_flatMap.mpr ⟨_, emitted, List.mem_singleton_self r⟩
        have isFunction : r ∈ typed.routines.filter (·.form = .function) :=
          List.mem_filter.mpr ⟨listed, decide_eq_true renders.form⟩
        exact List.mem_append_right _ (List.mem_map.mpr ⟨r, isFunction, renders.name⟩)
  have covers : Covers ⟨(· ∈ typed.globals), False⟩ .ofModule begun :=
    ⟨fun x found _ => isGlobal x (.inl (binds_of_lookup_module found)),
      fun x isFunction => isGlobal x (.inr isFunction), nofun⟩
  obtain ⟨grows, within⟩ := sees _ covers
  refine ⟨within, fun r hr => ?_⟩
  obtain ⟨key, finished⟩ := taken.held r hr
  obtain ⟨_, -, renders⟩ := stems.finished finished
  refine inSight.finished finished _ ⟨fun x isParam => ?_, fun x binds => ?_, fun x isFunction => ?_,
    fun inClass => ?_⟩
  · exact List.mem_append_left _ isParam
  · refine List.mem_append_right _ ?_
    -- bound by the module before its main block, assigned in it, or a function
    rcases grows.new binds with binds | ⟨-, assigned⟩ | isFunction
    · exact List.mem_append_left _ (isGlobal x (.inl binds))
    · exact List.mem_append_right _ assigned
    · exact List.mem_append_left _ (isGlobal x (.inr isFunction))
  · have known := (State.isFunction_congr grows.functions).mp isFunction
    exact List.mem_append_right _ (List.mem_append_left _ (isGlobal x (.inr known)))
  · rw [renders.form]
    exact routineForm_ne_function inClass

open Tree.Build in
/-- Bodies that read a constant, a parameter, their own instance and a variable of the main block;
a comprehension, a loop and a handler bind variables. -/
def tallying : Tree.Module :=
  ⟨[assign (name "LIMIT") (int 3),
    classDef "Tally" none
      [define "__init__" ["self", "start"] [assign (attr (name "self") "count") (name "start")],
        define "next" ["self"] [ret (some (binOp (attr (name "self") "count") .add (name "LIMIT")))],
        define "twice" ["self"] [ret (some (method (name "self") "next" []))]],
    define "scaled" ["n"] [ret (some (binOp (name "n") .mult (name "factor")))],
    assign (name "factor") (int 2),
    assign (name "tally") (call (name "Tally") [call (name "scaled") [name "factor"]]),
    forLoop (name "x") (listComp (call (name "scaled") [name "i"]) (name "i") (list [int 1]) [])
      [tryExcept [exprStmt (method (name "tally") "next" []), assign (name "last") (name "x")]
        [handler (some "Exception") (some "e") [assign (name "again") (name "last")]]],
    exprStmt (binOp (name "last") .add (method (name "tally") "twice" []))]⟩

theorem names_in_scope_tallying : ∃ typed, translate ApiTables.standard tallying = .ok typed ∧
    typed.NamesInScope := by
  have isOk : (translate ApiTables.standard tallying).isOk = true := by
    decide +kernel
  obtain ⟨typed, translated⟩ := exists_of_isOk isOk
  exact ⟨typed, translated, names_in_scope _ tallying typed translated⟩

end TreeTyper
