import TreeTyper.Api.Standard
import TreeTyper.Proofs.Links
import TreeTyper.Proofs.Logged
import TreeTyper.Proofs.Signatures
import TreeTyper.Tree.Build

/-!
# Making an instance infers what needs no evidence

The methods without parameters are listed once, after the constructor, and then
inferred one by one; each of them may make instances itself, also of the same class,
and infer methods that come later on the list.  Whatever runs, phases only move
forward and signatures keep their numbers of parameters: what has begun on the way
has begun in the end, and the list is still the right one.

    s.Onward s' → s.definitions.Begun key → s'.definitions.Begun key        (Onward.begun)

So afterwards no method without parameters that the class sees, and no constructor,
is unresolved.
-/

namespace TreeTyper

/-- The body of a definition is being translated, or has been. -/
def Definitions.Begun (d : Definitions) (key : DefKey) : Prop :=
  d.phase? key = some .inProgress ∨ d.phase? key = some .resolved

theorem Definitions.begun_of_declared {d : Definitions} {key : DefKey}
    (declared : (d.phase? key).isSome) (other : d.phase? key ≠ some .unresolved) : d.Begun key := by
  obtain ⟨phase, found⟩ := Option.isSome_iff_exists.mp declared
  cases phase with
  | unresolved => exact absurd found other
  | inProgress => exact .inl found
  | resolved => exact .inr found

namespace Translate

open Typed

/-! ## Phases move forward -/

/-- No definition falls back or is forgotten, and no signature gets another number of parameters. -/
structure State.Onward (s s' : State) : Prop where
  phases : ∀ {key p}, s.definitions.phase? key = some p →
    ∃ p', s'.definitions.phase? key = some p' ∧ p.rank ≤ p'.rank
  params : ∀ cell, (s'.cells.get cell).params.length = (s.cells.get cell).params.length

namespace State.Onward

variable {s s' s'' : State} {key : DefKey} {cell : CellId}

/-- Neither definitions nor signatures have changed. -/
theorem of_eq (definitions : s'.definitions = s.definitions) (cells : s'.cells = s.cells) :
    s.Onward s' where
  phases {key p} known := ⟨p, by rw [definitions, known], Nat.le_refl _⟩
  params _ := by rw [cells]

theorem refl (s : State) : s.Onward s := of_eq rfl rfl

theorem trans (a : s.Onward s') (b : s'.Onward s'') : s.Onward s'' where
  phases known := by
    obtain ⟨p', known', le⟩ := a.phases known
    obtain ⟨p'', known'', le'⟩ := b.phases known'
    exact ⟨p'', known'', Nat.le_trans le le'⟩
  params cell := (b.params cell).trans (a.params cell)

theorem declared (onward : s.Onward s') (declared : (s.definitions.phase? key).isSome) :
    (s'.definitions.phase? key).isSome := by
  obtain ⟨p, known⟩ := Option.isSome_iff_exists.mp declared
  obtain ⟨p', known', -⟩ := onward.phases known
  exact Option.isSome_iff_exists.mpr ⟨p', known'⟩

theorem begun (onward : s.Onward s') (begun : s.definitions.Begun key) :
    s'.definitions.Begun key := by
  have ahead : ∃ p, s.definitions.phase? key = some p ∧ 1 ≤ p.rank := by
    rcases begun with known | known
    · exact ⟨_, known, Nat.le_refl _⟩
    · exact ⟨_, known, by decide⟩
  obtain ⟨p, known, le⟩ := ahead
  obtain ⟨p', known', le'⟩ := onward.phases known
  cases p' with
  | unresolved => exact absurd (Nat.le_trans le le') (by decide)
  | inProgress => exact .inl known'
  | resolved => exact .inr known'

theorem length_params_set {cells : Cells} {signature : Signature}
    (same : signature.params.length = (cells.get cell).params.length) (cell' : CellId) :
    ((cells.set cell signature).get cell').params.length = (cells.get cell').params.length := by
  rcases get_set_cases cells cell cell' signature with ⟨written, rfl⟩ | kept
  · rw [written, same]
  · rw [kept]

/-- A signature is written that has as many parameters as before. -/
theorem withSignature {signature : Signature}
    (same : signature.params.length = (s.cells.get cell).params.length) :
    s.Onward (s.withSignature cell signature) where
  phases {_ p} known := ⟨p, known, Nat.le_refl _⟩
  params := length_params_set same

theorem refined (s : State) (σ : Site) (node : Expr) (ty : Ty) :
    s.Onward (s.refined σ node ty) := by
  obtain ⟨scopes, hierarchy, same⟩ := s.refined_eq σ node ty
  rw [same]
  exact of_eq rfl rfl

theorem entered {args params : List Ty} {definition : Tree.FunctionDef} {definitions : Definitions}
    (beginning : Beginning s key cell args definition definitions params) :
    s.Onward (s.entered key cell definition definitions params) where
  phases {key' p} known := by
    change ∃ p', definitions.phase? key' = some p' ∧ p.rank ≤ p'.rank
    rw [Definitions.phase?_of_begin beginning.begins]
    split
    · next same =>
      rw [same, Definitions.unresolved_of_begin beginning.begins] at known
      cases known
      exact ⟨_, rfl, by decide⟩
    · exact ⟨p, known, Nat.le_refl _⟩
  params := length_params_set (length_matchParams beginning.matched)

theorem finished (s : State) (key : DefKey) (cell : CellId) (names : List String)
    (block : List Stmt) : s.Onward (s.finished key cell names block) where
  phases {key' p} known := by
    change ∃ p', (s.definitions.finish key _).phase? key' = some p' ∧ p.rank ≤ p'.rank
    rw [Definitions.phase?_finish]
    split
    · exact ⟨_, rfl, by cases p <;> decide⟩
    · exact ⟨p, known, Nat.le_refl _⟩
  params := length_params_set rfl

end State.Onward

theorem begun_finished (s : State) (key : DefKey) (cell : CellId) (names : List String)
    (block : List Stmt) : (s.finished key cell names block).definitions.Begun key := by
  refine .inr ?_
  change (s.definitions.finish key _).phase? key = some .resolved
  rw [Definitions.phase?_finish, if_pos rfl]

/-- Whatever runs, phases move forward, and what was called has begun. -/
def onwardLaw (setting : Setting) : Law setting where
  Rel _ _ s s' := s.Onward s'
  Call s s' := s.Onward s'
  Called s key _ _ _ := s.definitions.Begun key
  rel_refl _ _ := .refl
  rel_trans := .trans
  called_rel called rel _ := rel.begun called
  depend _ _ _ := ⟨trivial, .of_eq rfl rfl⟩
  retype _ _ _ _ _ := ⟨trivial, .refined .., trivial⟩
  closeScope _ _ _ rel _ := ⟨trivial, ⟨rel.phases, rel.params⟩⟩
  declare _ _ _ _ _ _ := ⟨trivial, .of_eq rfl rfl⟩
  join _ _ _ _ _ _ _ := ⟨trivial, .of_eq rfl rfl⟩
  joinAttribute _ _ _ _ _ _ := ⟨trivial, .of_eq rfl rfl, trivial⟩
  register _ _ _ _ := ⟨trivial, .of_eq rfl rfl⟩
  merge _ _ _ _ _ _ _ := ⟨trivial, .withSignature rfl, trivial⟩
  answer {_ s _ cell _ params _} _ _ _ matched found phase := by
    have written : s.Onward (s.withSignature cell { s.cells.get cell with params }) :=
      .withSignature (length_matchParams matched)
    refine ⟨trivial, written.trans (.of_eq rfl rfl), ?_⟩
    rcases phase with rfl | ⟨rfl, -⟩
    · exact .inr found
    · exact .inl found
  leave {_ s _ _ _ _ _ _ s' _} _ _ _ beginning _ _ _ rel _ _ := by
    have inside : s.Onward s' := (State.Onward.entered beginning).trans rel
    have closed : s.Onward (s'.closed s.scopes.size) := inside.trans (.of_eq rfl rfl)
    exact ⟨trivial, (closed.trans (.finished ..)).trans (.of_eq rfl rfl), begun_finished ..⟩

/-! ## Definitions with a cell are declared -/

/-- Every definition that can be called is declared. -/
def State.AllDeclared (s : State) : Prop :=
  ∀ key cell, s.Links key cell → (s.definitions.phase? key).isSome

namespace State.AllDeclared

variable {s s' : State} {o o' : Outline}

theorem onward (all : s.AllDeclared) (shape : s.SameShape s') (onward : s.Onward s') :
    s'.AllDeclared :=
  fun key cell links => onward.declared (all key cell (shape.links_iff.mp links))

theorem empty : State.empty.AllDeclared := by
  intro key cell links
  cases key with
  | function _ => cases links
  | method _ _ =>
    obtain ⟨seenBy, seen⟩ := links
    cases seen

/-- A definition that is declared anew, and those that were before. -/
theorem insert {definition : Tree.FunctionDef} {new : DefKey}
    (known : ∀ {key cell}, s'.Links key cell → key = new ∨ s.Links key cell) (all : s.AllDeclared)
    (states : s'.definitions.states = s.definitions.states.insert new (.unresolved definition)) :
    s'.AllDeclared := by
  intro key cell links
  have phase : s'.definitions.phase? key =
      if key = new then some .unresolved else s.definitions.phase? key := by
    rw [Definitions.phase?, states]
    exact phase?_insert s.definitions new key definition
  rw [phase]
  split
  · rfl
  · next other => exact all key cell ((known links).resolve_left other)

theorem members (all : s.AllDeclared) {className : String} {body : List Tree.Stmt}
    (run : Members className s body s') : s'.AllDeclared := by
  induction run with
  | nil => exact all
  | pass _ ih => exact ih all
  | method _ _ declared _ ih =>
    exact ih (all.insert (fun links => (links_declareMethod declared links).imp_left (·.1)) rfl)

theorem outlines (all : s.AllDeclared) {stmt : Tree.Stmt} (run : Outlines o s stmt o' s') :
    s'.AllDeclared := by
  cases run with
  | imports => exact all
  | constant _ => exact all
  | function => exact all.insert (fun links => (links_declareFunction links).imp_left (·.1)) rfl
  | @classDef _ _ _ hierarchy _ _ _ declared run =>
    have first : State.AllDeclared { s with hierarchy } := fun key cell links =>
      all key cell (links_declareClass declared links)
    exact first.members run
  | exception => exact all
  | main => exact all

end State.AllDeclared

theorem OutlinesAll.allDeclared {s s' : State} {o o' : Outline} {stmts : List Tree.Stmt}
    (run : OutlinesAll o s stmts o' s') (all : s.AllDeclared) : s'.AllDeclared := by
  induction run with
  | nil => exact all
  | cons first _ ih => exact ih (all.outlines first)

/-! ## Making an instance -/

/-- The methods of a class that need no evidence have begun, and so has its constructor. -/
def State.Inferred (s : State) (className : String) : Prop :=
  ∀ name entry, s.hierarchy.method? className name = some entry →
    name = Hierarchy.constructorName ∨ (s.cells.get entry.cell).params = [] →
    s.definitions.Begun (.method entry.definedIn name)

/-- What making an instance of a class from so many arguments gives. -/
structure Instantiated (s' : State) (className : String) (count : Nat) (node : Expr) : Prop where
  node : ∃ nodes, nodes.length = count ∧ node = ⟨.newInstance className nodes, .atom className⟩
  inferred : s'.Inferred className
  /-- Arguments are accepted by a constructor only. -/
  accepted : 0 < count → (s'.hierarchy.method? className Hierarchy.constructorName).isSome

section Runs

variable {setting : Setting} {n : Nat} {infer : Infer} {ctx : Context} {s : State} {pos : Pos}
  {className : String} {args : List Deferred} (infers : (onwardLaw setting).Infers n infer)

theorem onward_at (σ : Site) (s : State) : (onwardLaw setting).At n σ s := ⟨trivial, trivial⟩

theorem mem_pureMethods {name : String} {entry : MethodEntry}
    (seen : s.hierarchy.method? className name = some entry)
    (other : name ≠ Hierarchy.constructorName) (pure : (s.cells.get entry.cell).params = []) :
    (.method entry.definedIn name, entry.cell) ∈ pureMethods s className := by
  obtain ⟨info, found, listed⟩ := Option.bind_eq_some_iff.mp seen
  have known : (name, entry) ∈ s.hierarchy.methods className := by
    rw [Hierarchy.methods, found]
    exact Table.mem_of_findIn listed
  refine List.mem_map.mpr ⟨(name, entry), List.mem_filter.mpr ⟨known, ?_⟩, rfl⟩
  simp [other, pure]

include infers

/-- A method of the list is unresolved and inferred, or it has begun; and what has begun before the
rest of the list is inferred has begun after it. -/
theorem inferUnresolved_begun {unresolved : List (DefKey × CellId)}
    (links : ∀ d ∈ unresolved, s.Links d.1 d.2) (all : s.AllDeclared) :
    (onwardLaw setting).Holds n .expr ctx.site s
      (inferUnresolved ⟨setting, infer⟩ pos unresolved)
      fun _ s' => ∀ d ∈ unresolved, s'.definitions.Begun d.1 := by
  induction unresolved generalizing s with
  | nil => exact Law.Holds.pure (onward_at ..) (by simp)
  | cons entry rest ih =>
    obtain ⟨key, cell⟩ := entry
    have first : s.Links key cell := links (key, cell) List.mem_cons_self
    have others : ∀ d ∈ rest, s.Links d.1 d.2 := fun d hd => links d (List.mem_cons_of_mem _ hd)
    -- the rest of the list runs in a later state, where the first one has begun
    have later : ∀ s₁, s.SameShape s₁ → s.Onward s₁ → s₁.definitions.Begun key →
        (onwardLaw setting).Holds n .expr ctx.site s₁
          (inferUnresolved ⟨setting, infer⟩ pos rest)
          fun _ s' => ∀ d ∈ (key, cell) :: rest, s'.definitions.Begun d.1 := by
      intro s₁ shape onward begun
      refine (ih (fun d hd => shape.links_iff.mpr (others d hd)) (all.onward shape onward)).imp ?_
      intro _ s' _ move begunRest
      exact List.forall_mem_cons.mpr ⟨move.rel.begun begun, begunRest⟩
    unfold inferUnresolved
    refine Law.Holds.get ?_
    split
    · refine (infers.holds (onward_at ..) first (by simp)).bind fun _ s₁ _ move answered => ?_
      exact later s₁ move.shape move.rel answered.1
    · next other =>
      exact later s (.refl s) (.refl s) (Definitions.begun_of_declared (all key cell first) other)

theorem newInstance_infers (evaluates : ∀ d ∈ args, (onwardLaw setting).Evaluates n d)
    (all : s.AllDeclared) :
    (onwardLaw setting).Holds n .expr ctx.site s
      (newInstance ⟨setting, infer⟩ ctx pos className args)
      fun e s' => Instantiated s' className args.length e := by
  -- what the list of methods gives, once the constructor has begun
  have listed : ∀ s₁, s₁.AllDeclared →
      (∀ entry, s₁.hierarchy.method? className Hierarchy.constructorName = some entry →
        s₁.definitions.Begun (.method entry.definedIn Hierarchy.constructorName)) →
      (onwardLaw setting).Holds n .expr ctx.site s₁
        (inferUnresolved ⟨setting, infer⟩ pos (pureMethods s₁ className))
        fun _ s' => s'.Inferred className := by
    intro s₁ all₁ constructor
    refine (inferUnresolved_begun infers Law.links_pureMethods all₁).imp ?_
    intro _ s' _ move begun name entry seen needsNothing
    rw [move.shape.hierarchy.method?_eq] at seen
    by_cases isConstructor : name = Hierarchy.constructorName
    · subst isConstructor
      exact move.rel.begun (constructor entry seen)
    · have pure : (s₁.cells.get entry.cell).params = [] := by
        have none := needsNothing.resolve_left isConstructor
        have same := move.rel.params entry.cell
        rw [none] at same
        exact List.eq_nil_of_length_eq_zero same.symm
      exact begun _ (mem_pureMethods seen isConstructor pure)
  unfold newInstance
  have translated := (Law.runAll_holds evaluates (onward_at ctx.site s)).and
    (Law.runAll_length args ctx s)
  refine translated.bind fun nodes s₁ at₁ move₁ ⟨_, length⟩ => ?_
  have all₁ := all.onward move₁.shape move₁.rel
  refine Law.Holds.get ?_
  split
  · next entry seen =>
    refine (infers.holds at₁ (State.links_of_method? seen) (fun _ _ => trivial)).bind
      fun _ s₂ at₂ move₂ ⟨begun, _⟩ => ?_
    have seen₂ : s₂.hierarchy.method? className Hierarchy.constructorName = some entry := by
      rw [move₂.shape.hierarchy.method?_eq, seen]
    refine Law.Holds.get ((listed s₂ (all₁.onward move₂.shape move₂.rel) ?_).bind
      fun _ s₃ at₃ move₃ inferred => Law.Holds.pure at₃ ⟨⟨nodes, length, rfl⟩, inferred, ?_⟩)
    · intro entry' seen'
      rw [seen₂] at seen'
      cases seen'
      exact begun
    · intro _
      rw [move₃.shape.hierarchy.method?_eq, seen₂]
      rfl
  · next missing =>
    split
    · exact Law.Holds.fail_bind id
    next noArguments =>
    obtain rfl : nodes = [] := by simpa using noArguments
    refine Law.Holds.get ((listed s₁ all₁ ?_).bind
      fun _ s₃ at₃ _ inferred => Law.Holds.pure at₃ ⟨⟨[], length, rfl⟩, inferred, ?_⟩)
    · intro entry seen
      rw [missing] at seen
      cases seen
    · intro some
      rw [← length] at some
      exact absurd some (Nat.lt_irrefl 0)

end Runs

/-! ## Calls of classes -/

/-- A called name means a class: no function of the global namespace, no variable that is visible
and no function of the module has the name. -/
structure CallsClass (api : ApiTables) (ctx : Context) (s : State) (id : String) : Prop where
  notGlobal : api.function? ApiTables.globalSpace id = none
  unbound : s.scopes.lookup ctx.scope id = none
  noFunction : s.definitions.function? id = none
  isClass : s.hierarchy.isClass id

theorem run_newInstance_of_call {t : Translator} {ctx : Context} {s s' : State} {id : String}
    (calls : CallsClass t.setting.api ctx s id) {namePos pos : Pos} {args : List Tree.Expr}
    {keywords : List Tree.Keyword} {node : Expr}
    (run : (expr t ⟨.call ⟨.name id, namePos⟩ args keywords, pos⟩ ctx).run s = (.ok node, s')) :
    (newInstance t ctx pos id (exprs t args)).run s = (.ok node, s') := by
  have called := run_callName run
  unfold callName at called
  rw [calls.notGlobal] at called
  obtain ⟨s₁, _, got, rest⟩ := Runs.of_bind_ok (run_lookup_bind calls.unbound called)
  cases got
  rw [calls.noFunction] at rest
  dsimp only at rest
  rwa [if_pos calls.isClass] at rest

/-- The tables at a later moment of a run than the outline. -/
structure State.Underway (start s : State) : Prop where
  shape : start.SameShape s
  onward : start.Onward s

theorem Reachable.underway {api : ApiTables} {o : Outline} {start s : State} {n : Nat} {σ : Site}
    (reachable : Reachable api o start (fun _ _ => True) (fun _ => True) n σ s) :
    start.Underway s := by
  have isOpen : (onwardLaw (o.setting api)).Open (fun _ _ => True) fun _ => True :=
    ⟨fun _ _ => trivial, fun _ _ _ => trivial, fun _ _ _ => trivial, fun _ => trivial, id⟩
  refine ⟨Law.sameShape_of_reachable isOpen (onward_at ..) reachable, ?_⟩
  induction reachable with
  | start => exact .refl start
  | advance _ advances ih => exact ih.trans ((onward_at ..).advance isOpen advances).2.rel
  | scope _ _ _ ih => exact ih.trans (.of_eq rfl rfl)
  | enter _ _ beginning ih => exact ih.trans (.entered beginning)

end Translate

/-! ## Top theorem -/

open Translate in
/-- A class of which an instance was made sees no constructor and no method without parameters that
is unresolved, whatever was inferred on the way; this holds at every moment of a run. -/
theorem instantiation_infers {api : ApiTables} {m : Tree.Module} {o : Outline} {start : State}
    (outlined : (outline api m).run .empty = (.ok o, start)) :
    (∀ n σ s, Reachable api o start (fun _ _ => True) (fun _ => True) n σ s → start.Underway s) ∧
    ∀ n ctx s id namePos pos args keywords node s', start.Underway s → CallsClass api ctx s id →
      (expr (o.translator api n) ⟨.call ⟨.name id, namePos⟩ args keywords, pos⟩ ctx).run s =
        (.ok node, s') →
      start.Underway s' ∧ Instantiated s' id args.length node := by
  refine ⟨fun _ _ _ => Reachable.underway, ?_⟩
  intro n ctx s id namePos pos args keywords node s' underway calls run
  have all : s.AllDeclared :=
    (((outlineFrom_runs m.body).of_ok outlined).allDeclared .empty).onward underway.shape
      underway.onward
  have infers : (onwardLaw (o.setting api)).Infers n (inferAt (o.setting api) n) :=
    Law.inferAt_infers n
  have evaluates := Law.exprs_evaluates infers args (fun impossible => impossible.elim)
  obtain ⟨-, move, made⟩ := (newInstance_infers infers evaluates all).of_ok
    (run_newInstance_of_call (t := o.translator api n) calls run)
  rw [Law.exprs_length] at made
  exact ⟨⟨underway.shape.trans move.shape, underway.onward.trans move.rel⟩, made⟩

open Tree.Build in
/-- `Square` sees the constructor and `area` of `Shape`; its method `again` makes an instance too,
and so infers `area` before its turn comes. -/
def remaking : Tree.Module :=
  ⟨[classDef "Shape" none
      [define "__init__" ["self", "n"] [assign (attr (name "self") "n") (name "n")],
        define "area" ["self"] [ret (some (attr (name "self") "n"))],
        define "scale" ["self", "k"] [ret (some (name "k"))]],
    classDef "Square" (some "Shape")
      [define "again" ["self"] [ret (some (call (name "Square") [int 1]))]]]⟩

open Translate Tree.Build in
/-- The phases after the call of `Square` with an argument. -/
def remakingChecked : Bool :=
  passes (outline ApiTables.standard remaking) .empty fun o start =>
    passes (Translate.expr (o.translator ApiTables.standard (start.definitions.size + 1))
      (call (name "Square") [int 2]) .ofModule) start fun _ s => decide <|
        ((start.definitions.function? "Square" = Option.none ∧
          start.scopes.lookup Scopes.moduleScope "Square" = Option.none ∧
          start.hierarchy.isClass "Square") ∧
        (start.hierarchy.method? "Square" "area").map (·.definedIn) = some "Shape") ∧
        s.definitions.phase? (.method "Shape" "area") = some .resolved ∧
        s.definitions.phase? (.method "Shape" "scale") = some .unresolved

open Translate Tree.Build in
set_option maxRecDepth 100000 in
theorem instantiation_infers_square : ∃ o start s' node,
    (outline ApiTables.standard remaking).run .empty = (.ok o, start) ∧
    start.Underway start ∧ CallsClass ApiTables.standard .ofModule start "Square" ∧
    (Translate.expr (o.translator ApiTables.standard (start.definitions.size + 1))
      (call (name "Square") [int 2]) .ofModule).run start = (.ok node, s') ∧
    start.Underway s' ∧ Instantiated s' "Square" 1 node ∧
    (start.hierarchy.method? "Square" "area").map (·.definedIn) = some "Shape" ∧
    s'.definitions.phase? (.method "Shape" "area") = some .resolved ∧
    s'.definitions.phase? (.method "Shape" "scale") = some .unresolved := by
  have checked : remakingChecked = true := by
    decide +kernel
  obtain ⟨o, start, outlined, checked⟩ := exists_of_passes checked
  obtain ⟨node, s', run, checked⟩ := exists_of_passes checked
  obtain ⟨⟨⟨noFunction, unbound, isClass⟩, inherited⟩, phases⟩ := of_decide_eq_true checked
  obtain ⟨reached, infers⟩ := instantiation_infers outlined
  have underway : start.Underway start := reached _ _ _ .start
  have calls : CallsClass ApiTables.standard .ofModule start "Square" :=
    ⟨by decide +kernel, unbound, noFunction, isClass⟩
  obtain ⟨later, made⟩ := infers _ _ _ _ _ _ _ _ _ _ underway calls run
  exact ⟨o, start, s', node, outlined, underway, calls, run, later, made, inherited, phases⟩

end TreeTyper
