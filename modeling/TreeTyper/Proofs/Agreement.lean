import Mathlib.Data.List.Count
import Mathlib.Data.List.Nodup
import TreeTyper.Api.Standard
import TreeTyper.Proofs.Logged
import TreeTyper.Proofs.Signatures
import TreeTyper.Tree.Build

/-!
# Definitions agree with their signatures

At the end of a run each definition that is put out has one cell, which justifies
all calls that were answered.  The routine is what the cell held when its body
ended; later calls can only fill holes of it.

    (typedModule api m).run .empty = (.ok typed, s) → Settled api s typed        (typedModule_settled)
-/

namespace TreeTyper

open Ty (FillsTo)

namespace Translate

open Typed

variable {api : ApiTables} {start s s' : State} {o : Outline} {m : Tree.Module} {key : DefKey}
  {cell : CellId} {r : Routine}

theorem Agrees.key_eq (agrees : Agrees api s key cell r) : r.key = key :=
  key_of_form agrees.form agrees.name

theorem routineForm_ne_constructor (other : key.isConstructor = false) (className : String) :
    routineForm key ≠ .constructor className := by
  cases key with
  | function name => exact RoutineForm.noConfusion
  | method c name =>
    rw [routineForm, if_neg (by simp [other])]
    exact RoutineForm.noConfusion

/-! ## Classes of emitted methods -/

/-- A class puts its methods out as often as it is declared. -/
theorem count_keys (h : Hierarchy) (definitions : List TopDefinition) (c f : String) :
    ((definitions.flatMap (·.keys h)).map (·.1)).count (.method c f) =
      (definitions.filterMap (·.className?)).count c * (h.ownMethods c).count f := by
  induction definitions with
  | nil => simp
  | cons d rest ih =>
    rw [List.flatMap_cons, List.map_append, List.count_append, ih]
    cases d with
    | function name pos => simp [TopDefinition.keys, TopDefinition.className?]
    | exception name base => simp [TopDefinition.keys, TopDefinition.className?]
    | classDef name base pos =>
      have keys : (TopDefinition.keys h (.classDef name base pos)).map (·.1) =
          (h.ownMethods name).map (DefKey.method name) := by
        rw [TopDefinition.keys, List.map_map]
        rfl
      have injective : Function.Injective (DefKey.method name) := fun _ _ same =>
        (DefKey.method.inj same).2
      have classes : ((TopDefinition.classDef name base pos) :: rest).filterMap (·.className?) =
          name :: rest.filterMap (·.className?) := rfl
      rw [keys, classes, List.count_cons]
      by_cases same : name = c
      · subst same
        rw [List.count_map_of_injective _ _ injective]
        simp [Nat.add_mul, Nat.add_comm]
      · have absent : DefKey.method c f ∉ (h.ownMethods name).map (DefKey.method name) := by
          intro known
          obtain ⟨_, -, eq⟩ := List.mem_map.mp known
          exact same (DefKey.method.inj eq).1
        simp [List.count_eq_zero_of_not_mem absent, same]

/-- A class of which a method is put out once was declared once. -/
theorem count_className_le {h : Hierarchy} {c f : String}
    (distinct : ((o.keys h).map (·.1)).Nodup) (known : .method c f ∈ (o.keys h).map (·.1)) :
    o.classNames.count c ≤ 1 := by
  have once := List.nodup_iff_count_le_one.mp distinct (.method c f)
  have some := List.count_pos_iff.mpr known
  rw [Outline.keys, count_keys] at once some
  have own : 0 < (h.ownMethods c).count f := Nat.pos_of_mul_pos_left some
  exact Nat.le_trans (Nat.le_mul_of_pos_right _ own) once

/-! ## The end of a run -/

/-- Before the first call all signatures are open. -/
theorem State.Untouched.signed (untouched : s.Untouched) (linked : s.Linked) : Signed api s s where
  shape := .refl s
  made := rfl
  grows cell := by
    by_cases made : cell < s.cells.contents.length
    · obtain ⟨arity, same⟩ := untouched.written_cells made
      rw [same]
      exact List.pairwise_singleton ..
    · rw [Cells.written, List.getD_eq_getElem?_getD, List.getElem?_eq_none (Nat.le_of_not_lt made)]
      exact .nil
  constructors {_ cell} _ := by
    obtain ⟨arity, same⟩ := untouched.get_cells cell
    rw [same]
    exact .inl rfl
  calls call known := by
    rw [untouched.calls] at known
    cases known
  outside call known := by
    rw [untouched.calls] at known
    cases known
  ordered := linked.ordered
  routines found := (untouched.not_finished (Table.mem_of_findIn found)).elim
  plain _ := untouched.isPlain

theorem Justified.settle {call : Call} (justified : Justified api start s call)
    (shape : start.SameShape s) : Justified api s s call :=
  { justified with args := fun h => (justified.args h).sameShape shape.hierarchy }

/-- What the end of a run leaves: calls that are justified, and routines each of which agrees with
the one cell of its definition. -/
structure Settled (api : ApiTables) (s : State) (typed : Module) : Prop where
  grows : s.cells.Grows api.IsPlain
  calls : ∀ call ∈ s.calls, Justified api s s call
  routines : ∀ r ∈ typed.routines, ∃ cell, Agrees api s r.key cell r ∧
    ∀ cell', s.Links r.key cell' → cell' = cell

theorem mainBlock_signed (api : ApiTables) (m : Tree.Module) :
    Runs (mainBlock api m) .empty
      (fun found s => ∃ start : State, Signed api start s ∧ start.KnowsMethods found.1.classNames)
      fun _ _ => True := by
  refine mainBlock_runs (fun _ _ _ => trivial) fun o start _ run => ?_
  have linked := run.linked .empty
  have signed : Signed api start start := (run.untouched .empty).signed linked
  refine ⟨signatureLaw (o.setting api) linked, ⟨signed, fun _ _ definition => nomatch definition⟩,
    {}, fun main s at' _ _ => ?_, fun _ _ _ => trivial⟩
  exact ⟨start, at'.inv, run.knowsMethods .empty⟩

/-- A definition that is put out has one cell. -/
theorem unique_cell (shape : start.SameShape s)
    (knows : start.KnowsMethods o.classNames) (distinct : ((o.keys s.hierarchy).map (·.1)).Nodup)
    (known : key ∈ (o.keys s.hierarchy).map (·.1)) {cell' : CellId} (links : s.Links key cell)
    (links' : s.Links key cell') : cell' = cell := by
  cases key with
  | function name => exact Option.some.inj (links'.symm.trans links)
  | method c f =>
    have once := count_className_le distinct known
    exact knows.unique once (shape.links_iff.mp links') (shape.links_iff.mp links)

theorem typedModule_settled (api : ApiTables) (m : Tree.Module) :
    Runs (typedModule api m) .empty (fun typed s => Settled api s typed) fun _ _ => True := by
  refine Runs.imp (typedModule_runs (mainBlock_signed api m) fun _ _ _ _ _ _ => trivial) ?_
    fun _ _ h => h
  rintro typed s' ⟨o, s, ⟨start, signed, knows⟩, -, taken⟩
  obtain ⟨-, distinct, -⟩ := taken.once signed.ordered
  obtain ⟨definitions, functions, rfl⟩ := taken.rest
  have shape : s.SameShape (s.withDefinitions definitions) := ⟨.refl _, functions⟩
  have plain : api.IsPlain → (s.withDefinitions definitions).IsPlain := fun h =>
    (signed.plain h).congr rfl rfl rfl
  refine ⟨signed.grows, fun call known => ?_, fun r hr => ?_⟩
  · exact ((signed.calls call known).mono shape (.refl s) plain).settle (signed.shape.trans shape)
  · obtain ⟨key, known, finished⟩ := taken.listed r hr
    obtain ⟨cell, agrees⟩ := signed.routines ((Definitions.finished_iff signed.ordered).mp finished)
    have settled : Agrees api (s.withDefinitions definitions) key cell r :=
      agrees.mono shape (.refl s) fun call known => .inl known
    rw [agrees.key_eq]
    refine ⟨cell, settled, fun cell' links => ?_⟩
    exact unique_cell signed.shape knows distinct known agrees.links (shape.links_iff.mp links)

end Translate

/-! ## Calls -/

open Translate in
/-- In a module that was translated, every call that was answered is accepted by what its cell holds
in the end, and on the way holes of the cells were filled and nothing else.  A call that succeeds
is logged at once, and no later step takes it out of the log. -/
theorem calls_justified (m : Tree.Module) (typed : Typed.Module) (s : State)
    (run : (typedModule ApiTables.standard m).run .empty = (.ok typed, s)) :
    (∀ call ∈ s.calls, s.Links call.key call.cell ∧
      Accepts s.hierarchy call.args (s.cells.get call.cell).params) ∧
    (∀ cell, (s.cells.written cell).Pairwise fun new old =>
      new.params.length = old.params.length ∧
        List.Forall₂ FillsTo old.params new.params ∧ old.ret.FillsTo new.ret) ∧
    (∀ setting n key cell args pos before ret after,
      (inferAt setting n key cell args pos).run before = (.ok ret, after) →
        ∃ call, after.calls.head? = some call ∧ call.key = key ∧ call.cell = cell ∧
          call.args = args ∧ call.ret = ret) ∧
    (∀ setting n key cell args pos before result after,
      (inferAt setting n key cell args pos).run before = (result, after) →
        before.calls <:+ after.calls) ∧
    ∀ (o : Outline) n allowed types ctx before after,
      Advances (o.translator ApiTables.standard n) allowed types ctx before after →
        before.calls <:+ after.calls := by
  have plain := ApiTables.isPlain_standard
  have settled := (typedModule_settled ApiTables.standard m).of_ok run
  refine ⟨fun call known => ?_, fun cell => ?_, ?_, ?_, fun _ _ _ _ _ _ _ => Advances.calls_suffix⟩
  · have justified := settled.calls call known
    exact ⟨justified.links, justified.args plain⟩
  · exact (settled.grows cell).imp fun grows => ⟨grows.arity, grows.params plain, grows.ret⟩
  · intro setting n key cell args pos before ret after inferred
    obtain ⟨-, phase, latest⟩ := (inferAt_logged ..).of_ok inferred
    exact ⟨_, latest, rfl, rfl, rfl, rfl⟩
  · intro setting n key cell args pos before result after inferred
    cases result with
    | ok ret => exact ((inferAt_logged ..).of_ok inferred).1
    | error stop => exact (inferAt_logged ..).of_error inferred

open Tree.Build in
/-- Calls that tell more and more of one parameter, and a call of the function inside its own body. -/
def appending : Tree.Module :=
  ⟨[define "countdown" ["n", "seen"]
      [ifElse (compare (name "n") [(.eq, int 0)]) [ret (some (list []))] [],
        assign (name "rest") (call (name "countdown") [binOp (name "n") .sub (int 1), list []]),
        ret (some (list [string "s"]))],
    classDef "Base" none [define "first" ["self", "xs"] [ret (some (name "xs"))]],
    classDef "Derived" (some "Base") [define "first" ["self", "xs"] [ret (some (list []))]],
    exprStmt (call (name "countdown") [int 3, list []]),
    exprStmt (call (name "countdown") [int 3, list [float 0x3ff0000000000000]]),
    exprStmt (method (call (name "Base") []) "first" [list []]),
    exprStmt (method (call (name "Derived") []) "first" [list [int 1]]),
    exprStmt (method (call (name "Base") []) "first" [list []])]⟩

set_option maxRecDepth 100000 in
theorem translates_appending :
    ((Translate.typedModule ApiTables.standard appending).run .empty).1.isOk = true := by
  decide +kernel

theorem calls_justified_appending : ∃ typed s,
    (Translate.typedModule ApiTables.standard appending).run .empty = (.ok typed, s) ∧
    (∀ call ∈ s.calls, s.Links call.key call.cell ∧
      Accepts s.hierarchy call.args (s.cells.get call.cell).params) ∧
    ∀ cell, (s.cells.written cell).Pairwise fun new old =>
      new.params.length = old.params.length ∧
        List.Forall₂ FillsTo old.params new.params ∧ old.ret.FillsTo new.ret := by
  obtain ⟨typed, s, run⟩ := Translate.exists_of_run_isOk translates_appending
  obtain ⟨calls, grows, -⟩ := calls_justified appending typed s run
  exact ⟨typed, s, run, calls, grows⟩

/-! ## Returns -/

/-- Every return fits the return type, and so does the answer to every recursive call, which is
never open; a constructor returns nothing, and its call gives an instance of the class. -/
def Typed.Routine.ReturnsAgree (r : Typed.Routine) (calls : List Call) : Prop :=
  match r.form with
  | .constructor className =>
    r.returns = .atom className ∧ ∀ e ∈ Typed.blockReturned r.block, e.type = .void
  | _ =>
    (∀ e ∈ Typed.blockReturned r.block, e.type.FillsTo r.returns) ∧
      ∀ call ∈ calls, call.key = r.key → call.phase = .inProgress →
        call.ret ≠ .hole ∧ call.ret.FillsTo r.returns

open Translate in
/-- In a module that was translated, the returns of every definition agree with its return type. -/
theorem returns_agree (api : ApiTables) (m : Tree.Module) (typed : Typed.Module) (s : State)
    (run : (typedModule api m).run .empty = (.ok typed, s)) :
    ∀ r ∈ typed.routines, r.ReturnsAgree s.calls := by
  have settled := (typedModule_settled api m).of_ok run
  intro r hr
  obtain ⟨cell, agrees, unique⟩ := settled.routines r hr
  by_cases isConstructor : r.key.isConstructor
  · obtain ⟨className, same⟩ := eq_of_isConstructor isConstructor
    have form : r.form = .constructor className := by
      rw [agrees.form, same]
      rfl
    rw [Typed.Routine.ReturnsAgree, form]
    exact agrees.constructor className same
  · have other : r.key.isConstructor = false := by simpa using isConstructor
    have recursive : ∀ call ∈ s.calls, call.key = r.key → call.phase = .inProgress →
        call.ret ≠ .hole ∧ call.ret.FillsTo r.returns := by
      intro call known same inProgress
      have justified := settled.calls call known
      have cell_eq := unique call.cell (same ▸ justified.links)
      exact ⟨(justified.ret inProgress).1, agrees.recursive other call known same cell_eq inProgress⟩
    have form := agrees.form
    unfold Typed.Routine.ReturnsAgree
    split
    · next className constructor =>
      rw [form] at constructor
      exact absurd constructor (routineForm_ne_constructor other className)
    · exact ⟨agrees.returned other, recursive⟩

theorem returns_agree_appending : ∃ typed s,
    (Translate.typedModule ApiTables.standard appending).run .empty = (.ok typed, s) ∧
    ∀ r ∈ typed.routines, r.ReturnsAgree s.calls := by
  obtain ⟨typed, s, run⟩ := Translate.exists_of_run_isOk translates_appending
  exact ⟨typed, s, run, returns_agree _ appending typed s run⟩

/-! ## Signatures -/

/-- A call from outside the body carries the type of the definition, if that has no holes. -/
theorem Call.Beside.eq {call : Call} {type : Ty} (beside : call.Beside type)
    (full : type.hasHoles = false) (outside : call.phase ≠ .inProgress) : call.type = type := by
  unfold Call.Beside at beside
  split at beside
  · next inside => exact absurd inside outside
  · exact beside
  · exact beside.eq full

/-- A definition of a module has one cell.  Its own type is what the cell holds in the end before some
holes were filled, so definitions that share a cell differ only in holes.  A call carries what the
cell held when it was answered: beside the type of the definition one from inside the body can have
more holes, and a later one fewer. -/
structure Typed.Routine.KeepsCell (r : Typed.Routine) (m : Typed.Module) (s : Translate.State)
    (cell : CellId) : Prop where
  only : ∀ cell', s.Links r.key cell' ↔ cell' = cell
  type : r.type.FillsTo (s.cells.get cell).toTy
  returns : r.returns.FillsTo (s.cells.get cell).ret
  full : r.type.hasHoles = false →
    r.type = (s.cells.get cell).toTy ∧ r.returns = (s.cells.get cell).ret
  shared : ∀ r' ∈ m.routines, s.Links r'.key cell → r.type.hasHoles = false →
    r'.type.hasHoles = false → r'.type = r.type
  calls : ∀ call ∈ s.calls, call.key = r.key →
    call.type.FillsTo (s.cells.get cell).toTy ∧ call.Beside r.type
  carried : ∀ call ∈ s.calls, call.key = r.key → r.type.hasHoles = false →
    call.type.FillsTo r.type ∧ (call.phase ≠ .inProgress → call.type = r.type)

open Translate in
/-- In a module that was translated, the definitions and the logged calls agree with the cells, and
every call of the output carries the type of a logged call, if it is not the call of a value.  The
call of a function by its name, which no variable hides, carries what it left in the cell. -/
theorem signatures_agree (api : ApiTables) (plain : api.IsPlain) (m : Tree.Module)
    (typed : Typed.Module) (s : State)
    (run : (typedModule api m).run .empty = (.ok typed, s)) :
    (∀ r ∈ typed.routines, ∃ cell, r.KeepsCell typed s cell) ∧
    (∀ e ∈ typed.nodes, ∀ callee args, e.kind = .call callee args →
      (∃ id, callee.kind = .localVar id ∧ LogsTyped s.calls (.function id) args callee.type) ∨
        callee.Callable s.hierarchy args) ∧
    ∀ setting n ctx before id cell namePos pos args keywords node after,
      CallsFunction setting.api ctx before id cell →
      (expr ⟨setting, inferAt setting n⟩ ⟨.call ⟨.name id, namePos⟩ args keywords, pos⟩ ctx).run
        before = (.ok node, after) → after.JustCalled id cell node := by
  have settled := (typedModule_settled api m).of_ok run
  -- what the cell of a definition holds in the end, as a filling of the type of the definition
  have filled : ∀ r ∈ typed.routines, ∀ cell, s.Links r.key cell →
      r.type.FillsTo (s.cells.get cell).toTy ∧ r.returns.FillsTo (s.cells.get cell).ret := by
    intro r hr cell links
    obtain ⟨own, agrees, unique⟩ := settled.routines r hr
    obtain rfl := unique cell links
    obtain ⟨params, type, grows⟩ := agrees.signature
    rw [type]
    exact ⟨grows.toTy plain, grows.ret⟩
  obtain ⟨values, main, routines⟩ := (typedModule_nodes (loggedNodes api) m).of_ok run
  refine ⟨fun r hr => ?_, fun e known callee args kind => ?_, ?_⟩
  · obtain ⟨cell, agrees, unique⟩ := settled.routines r hr
    obtain ⟨fills, fillsRet⟩ := filled r hr cell agrees.links
    have calls : ∀ call ∈ s.calls, call.key = r.key →
        call.type.FillsTo (s.cells.get cell).toTy ∧ call.Beside r.type := by
      intro call known reaches
      have justified := settled.calls call known
      have sameCell : call.cell = cell := unique call.cell (reaches ▸ justified.links)
      exact ⟨sameCell ▸ justified.type plain, agrees.carried plain call known reaches sameCell⟩
    refine ⟨cell, fun cell' => ⟨unique cell', fun same => same ▸ agrees.links⟩, fills, fillsRet,
      fun full => ?_, fun r' hr' links full full' => ?_, calls, fun call known reaches full => ?_⟩
    · have same := (fills.eq full).symm
      obtain ⟨params, type, -⟩ := agrees.signature
      rw [type] at same
      exact ⟨type.trans same, (Ty.function.inj same).2⟩
    · exact ((filled r' hr' cell links).1.eq full').symm.trans (fills.eq full)
    · obtain ⟨carried, beside⟩ := calls call known reaches
      exact ⟨fills.eq full ▸ carried, beside.eq full⟩
  · have logged : ∃ className?, e.Logged s.calls s.hierarchy className? := by
      obtain ⟨root, placed, below⟩ := List.mem_flatMap.mp known
      rcases List.mem_append.mp placed with placed | placed
      · rcases List.mem_append.mp placed with placed | placed
        · obtain ⟨c, hc, rfl⟩ := List.mem_map.mp placed
          have data := values c hc e below
          rw [Typed.Expr.IsData, kind] at data
          exact data.elim
        · exact ⟨none, main root placed e below⟩
      · obtain ⟨r, hr, placed⟩ := List.mem_flatMap.mp placed
        exact ⟨_, routines r hr root placed e below⟩
    obtain ⟨className?, logged⟩ := logged
    unfold Typed.Expr.Logged at logged
    rwa [kind] at logged
  · intro setting n ctx before id cell namePos pos args keywords node after called run
    exact justCalled_of_run called run

open Tree.Build in
/-- A method and its override, called one after the other. -/
def overriding (first second : Tree.Expr) : Tree.Module :=
  ⟨[classDef "Base" none [define "m" ["self", "xs"] [ret (some (int 1))]],
    classDef "Derived" (some "Base") [define "m" ["self", "xs"] [ret (some (int 2))]],
    exprStmt (method (call (name "Base") []) "m" [first]),
    exprStmt (method (call (name "Derived") []) "m" [second])]⟩

open Tree.Build in
theorem signatures_agree_overriding : ∃ typed s,
    (Translate.typedModule ApiTables.standard (overriding (list [string "a"]) (list []))).run .empty =
      (.ok typed, s) ∧
    ∀ r ∈ typed.routines, ∃ cell, r.KeepsCell typed s cell := by
  have isOk : ((Translate.typedModule ApiTables.standard
      (overriding (list [string "a"]) (list []))).run .empty).1.isOk = true := by
    decide +kernel
  obtain ⟨typed, s, run⟩ := Translate.exists_of_run_isOk isOk
  exact ⟨typed, s, run, (signatures_agree _ ApiTables.isPlain_standard _ typed s run).1⟩

/-- Whether two methods of one cell are put out with different parameters. -/
def methodsDiffer : Typed.Module → Translate.State → Bool
  | ⟨_, _, [.classDef ⟨_, _, _, [base], _⟩, .classDef ⟨_, _, _, [derived], _⟩], _⟩, s =>
    decide (base.key = .method "Base" "m" ∧ derived.key = .method "Derived" "m" ∧
      ("m", ⟨0, "Base"⟩) ∈ s.hierarchy.methods "Base" ∧
      ("m", ⟨0, "Derived"⟩) ∈ s.hierarchy.methods "Derived" ∧
      base.type ≠ (s.cells.get 0).toTy ∧ base.type ≠ derived.type)
  | _, _ => false

open Tree.Build in
/-- A call that fills a hole of a shared cell does not reach the definition that was finished
before. -/
theorem overriding_differs : ∃ typed s,
    (Translate.typedModule ApiTables.standard (overriding (list []) (list [string "s"]))).run .empty =
      (.ok typed, s) ∧
    ∃ base ∈ typed.routines, ∃ derived ∈ typed.routines, ∃ cell,
      s.Links base.key cell ∧ s.Links derived.key cell ∧
      base.type ≠ (s.cells.get cell).toTy ∧ base.type ≠ derived.type := by
  have checked : Translate.passes (Translate.typedModule ApiTables.standard
      (overriding (list []) (list [string "s"]))) .empty methodsDiffer = true := by
    decide +kernel
  obtain ⟨typed, s, run, differ⟩ := Translate.exists_of_passes checked
  unfold methodsDiffer at differ
  split at differ
  · next base _ _ _ _ derived _ _ =>
    obtain ⟨baseKey, derivedKey, seen, seen', open_, differ⟩ := of_decide_eq_true differ
    refine ⟨_, s, run, base, by simp [Typed.Module.routines, Typed.Definition.routines], derived,
      by simp [Typed.Module.routines, Typed.Definition.routines], 0, ?_, ?_, open_, differ⟩
    · rw [baseKey]
      exact ⟨"Base", seen⟩
    · rw [derivedKey]
      exact ⟨"Derived", seen'⟩
  · cases differ

open Tree.Build in
/-- A function that calls itself between two returns. -/
def returningTwice : Tree.Module :=
  ⟨[define "f" []
      [ifElse (compare (int 1) [(.lt, int 2)]) [ret (some (list []))] [],
        assign (name "x") (call (name "f") []),
        ret (some (list [int 1]))]]⟩

/-- Whether the only call of a function carries another type than the definition. -/
def callDiffers : Typed.Module → Bool
  | ⟨_, [], [.routine ⟨.function, "f", [],
      [_, .localAssignment "x" ⟨.call ⟨.localVar "f", carried⟩ [], _⟩, _], type, _⟩], []⟩ =>
    decide (type.hasHoles = false ∧ carried ≠ type)
  | _ => false

/-- A call from inside the body carries what was known by then, also when the definition is put out
without holes and no other call of it is. -/
theorem call_differs : ∃ typed s,
    (Translate.typedModule ApiTables.standard returningTwice).run .empty = (.ok typed, s) ∧
    ∃ r ∈ typed.routines, r.type.hasHoles = false ∧ ∃ e ∈ typed.nodes, ∃ callee,
      e.kind = .call callee [] ∧ callee.kind = .localVar r.name ∧ callee.type ≠ r.type := by
  have checked : Translate.passes (Translate.typedModule ApiTables.standard returningTwice) .empty
      (fun typed _ => callDiffers typed) = true := by
    decide +kernel
  obtain ⟨typed, s, run, differs⟩ := Translate.exists_of_passes checked
  unfold callDiffers at differs
  split at differs
  · next _ _ carried ret _ type _ =>
    obtain ⟨full, differs⟩ := of_decide_eq_true differs
    refine ⟨_, s, run, _, List.mem_singleton_self _, full, ⟨.call ⟨.localVar "f", carried⟩ [], ret⟩,
      List.mem_flatMap.mpr ⟨_, ?_, Typed.Expr.mem_nodes_self _⟩, _, rfl, rfl, differs⟩
    exact List.mem_append_right _ (List.mem_flatMap.mpr
      ⟨_, List.mem_singleton_self _, List.mem_append_right _ List.mem_cons_self⟩)
  · cases differs

end TreeTyper
