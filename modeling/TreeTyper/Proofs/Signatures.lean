import TreeTyper.Proofs.Filling
import TreeTyper.Proofs.Law.Module
import TreeTyper.Proofs.Links
import TreeTyper.Proofs.PlainNodes

/-!
# Signatures only grow

A signature is written by calls, by returns and at the end of a body, also by
bodies inside each other and through classes that share its cell.  Every write
fills what was written before, so a call that was answered stays justified and a
routine that was finished agrees with its cell up to holes that were filled later.

    Signed api start s        what holds of signatures, calls and routines in every state of a run
-/

namespace TreeTyper

open Ty (FillsTo)

/-! ## Growth -/

/-- What a call carries, beside the type of the definition that it reached: from inside the body no
more than was fixed in the end, the first call the same, and a later one what it filled. -/
def Call.Beside (call : Call) (type : Ty) : Prop :=
  match call.phase with
  | .inProgress => call.type.FillsTo type
  | .unresolved => call.type = type
  | .resolved => type.FillsTo call.type

/-- The later signature is the earlier one with some holes filled.  For the parameters this takes
tables in which all types are `plain`. -/
structure Signature.Grows (plain : Prop) (old new : Signature) : Prop where
  arity : new.params.length = old.params.length
  params : plain → List.Forall₂ FillsTo old.params new.params
  ret : old.ret.FillsTo new.ret

namespace Signature.Grows

variable {plain : Prop} {a b c : Signature}

theorem refl (a : Signature) : Grows plain a a :=
  ⟨rfl, fun _ => Ty.forall₂_fillsTo_refl a.params, .refl a.ret⟩

theorem trans (ab : Grows plain a b) (bc : Grows plain b c) : Grows plain a c :=
  ⟨bc.arity.trans ab.arity, fun h => Ty.forall₂_fillsTo_trans (ab.params h) (bc.params h),
    ab.ret.trans bc.ret⟩

theorem toTy (grows : Grows plain a b) (h : plain) : a.toTy.FillsTo b.toTy :=
  Ty.function_fillsTo_iff.mpr ⟨b.params, b.ret, rfl, grows.params h, grows.ret⟩

end Signature.Grows

/-- Everything that was written to a cell fills what was written before. -/
def Cells.Grows (plain : Prop) (cells : Cells) : Prop :=
  ∀ id, (cells.written id).Pairwise fun new old => old.Grows plain new

theorem Cells.Grows.set {plain : Prop} {cells : Cells} (grows : cells.Grows plain) {id : CellId}
    {signature : Signature} (later : (cells.get id).Grows plain signature) :
    (cells.set id signature).Grows plain := by
  intro id'
  rw [Cells.written_set]
  split
  · refine List.pairwise_cons.mpr ⟨fun old hold => ?_, grows id⟩
    have before := grows id
    rw [Cells.get] at later
    cases written : cells.written id with
    | nil =>
      rw [written] at hold
      cases hold
    | cons latest earlier =>
      rw [written] at before later hold
      rcases List.mem_cons.mp hold with rfl | hold
      · exact later
      · exact ((List.pairwise_cons.mp before).1 old hold).trans later
  · exact grows id'

theorem Accepts.sameShape {h h' : Hierarchy} {args params : List Ty} (same : h.SameShape h')
    (accepts : Accepts h args params) : Accepts h' args params :=
  accepts.imp fun _ _ accepted => (same.compatible_eq ..).trans accepted

theorem length_matchParams {h : Hierarchy} {params args found : List Ty} {name : String}
    (matched : matchParams h params args name = .ok found) : found.length = params.length := by
  have places : ∀ (params args found : List Ty) (i : Nat), params.length = args.length →
      matchParamsFrom h name i params args = .ok found → found.length = params.length := by
    intro params
    induction params with
    | nil =>
      intro args found i _ matched
      cases matched
      rfl
    | cons param params ih =>
      intro args found i lengths matched
      cases args with
      | nil => cases lengths
      | cons arg args =>
        obtain ⟨t, ts, rfl, -, rest⟩ := matchParamsFrom_cons matched
        rw [List.length_cons, ih args ts (i + 1) (Nat.succ.inj lengths) rest, List.length_cons]
  unfold matchParams at matched
  split at matched
  · cases matched
  · next lengths => exact places params args found 0 (not_not.mp lengths) matched

namespace Translate

open Typed

theorem returnAfter_constructor (className : String) (found : Signature) :
    returnAfter (.method className Hierarchy.constructorName) found = .atom className := rfl

/-- The end of a body fixes a return type that no return has fixed. -/
theorem returnAfter_of_not_constructor {key : DefKey} (other : key.isConstructor = false)
    (found : Signature) : returnAfter key found = if found.ret = .hole then .void else found.ret := by
  have slot : (if found.hasReturn then found.ret else .void) =
      if found.ret = .hole then .void else found.ret := by
    unfold Signature.hasReturn
    by_cases unknown : found.ret = .hole
    · simp [unknown]
    · simp [unknown]
  cases key with
  | function name => exact slot
  | method className name =>
    rw [returnAfter, other]
    exact slot

theorem isPlain_mergeReturn {name : String} {current found merged : Ty}
    (plainCurrent : current.isPlain) (plainFound : found.isPlain)
    (merges : mergeReturn name current found = .ok merged) : merged.isPlain :=
  hereditary_mergeReturn Ty.hereditary_isPlain plainCurrent plainFound merges

theorem eq_of_isConstructor {key : DefKey} (isConstructor : key.isConstructor) :
    ∃ className, key = .method className Hierarchy.constructorName := by
  cases key with
  | function name => cases isConstructor
  | method className name => exact ⟨className, congrArg _ (eq_of_beq isConstructor)⟩

theorem isPlain_returnAfter (key : DefKey) {found : Signature} (plain : found.ret.isPlain) :
    (returnAfter key found).isPlain :=
  hereditary_returnAfter (fun _ _ => rfl) Ty.hereditary_isPlain plain

/-! ## Plain tables -/

theorem isPlain_bodyBindings (key : DefKey) (names : List String) {params : List Ty}
    (plain : Ty.allPlain params) : ∀ b ∈ bodyBindings key names params, b.2.isPlain :=
  hereditary_bodyBindings (fun _ _ => rfl) names (Ty.allPlain_iff.mp plain)

theorem State.Untouched.isPlain {s : State} (untouched : s.Untouched) : s.IsPlain :=
  untouched.allTypes Ty.hereditary_isPlain (classesHave_isPlain _)

namespace State.IsPlain

variable {s : State} {key : DefKey} {cell : CellId} {args params : List Ty}

theorem params_ret (plain : s.IsPlain) (cell : CellId) :
    Ty.allPlain (s.cells.get cell).params ∧ (s.cells.get cell).ret.isPlain :=
  Bool.and_eq_true_iff.mp (plain.cells cell)

/-- A call leaves plain parameters. -/
theorem matched (plain : s.IsPlain) (plainArgs : ∀ t ∈ args, t.isPlain)
    (matched : matchParams s.hierarchy (s.cells.get cell).params args key.render = .ok params) :
    Ty.allPlain params :=
  (matchParams_ok (plain.params_ret cell).1 matched).2.2 (Ty.allPlain_iff.mpr plainArgs)

theorem withParams (plain : s.IsPlain) (cell : CellId) (plainParams : Ty.allPlain params) :
    (s.withSignature cell { s.cells.get cell with params }).IsPlain :=
  plain.withSignature cell (Bool.and_eq_true_iff.mpr ⟨plainParams, (plain.params_ret cell).2⟩)

theorem withReturn (plain : s.IsPlain) (cell : CellId) {ret : Ty} (plainRet : ret.isPlain) :
    (s.withSignature cell { s.cells.get cell with ret }).IsPlain :=
  AllTypes.withReturn plain Ty.hereditary_isPlain cell plainRet

theorem entered (plain : s.IsPlain) {definition : Tree.FunctionDef} (definitions : Definitions)
    (plainParams : Ty.allPlain params) :
    (s.entered key cell definition definitions params).IsPlain :=
  AllTypes.entered plain (fun _ _ => rfl) Ty.hereditary_isPlain definitions
    (Ty.allPlain_iff.mp plainParams)

theorem finished (plain : s.IsPlain) (key : DefKey) (cell : CellId) (names : List String)
    (block : List Stmt) : (s.finished key cell names block).IsPlain :=
  AllTypes.finished plain (fun _ _ => rfl) Ty.hereditary_isPlain cell names block

end State.IsPlain

/-! ## States -/

/-- A run has only filled the signatures. -/
def GrowsTo (plain : Prop) (s s' : State) : Prop :=
  ∀ cell, (s.cells.get cell).Grows plain (s'.cells.get cell)

/-- The body of a definition is being translated. -/
def State.Running (s : State) (key : DefKey) : Prop :=
  s.definitions.phase? key = some .inProgress

/-- A run has only filled the signatures, and the bodies that were in progress still are. -/
structure Proceeds (plain : Prop) (s s' : State) : Prop where
  grows : GrowsTo plain s s'
  running : ∀ {key}, s.Running key → s'.Running key

/-- A call that was answered is justified by the cell of its definition. -/
structure Justified (api : ApiTables) (start s : State) (call : Call) : Prop where
  links : s.Links call.key call.cell
  args : api.IsPlain → Accepts start.hierarchy call.args (s.cells.get call.cell).params
  type : api.IsPlain → call.type.FillsTo (s.cells.get call.cell).toTy
  /-- A recursive call was answered from what a return had fixed. -/
  ret : call.phase = .inProgress →
    call.ret ≠ .hole ∧ call.ret.FillsTo (s.cells.get call.cell).ret

/-- A finished routine agrees with its cell, its returns and the recursive calls of its body agree
with its return type, and all its calls with its type. -/
structure Agrees (api : ApiTables) (s : State) (key : DefKey) (cell : CellId) (r : Routine) :
    Prop where
  links : s.Links key cell
  form : r.form = routineForm key
  name : r.name = key.name
  signature : ∃ params, r.type = .function params r.returns ∧
    Signature.Grows api.IsPlain ⟨params, r.returns⟩ (s.cells.get cell)
  constructor : ∀ className, key = .method className Hierarchy.constructorName →
    r.returns = .atom className ∧ ∀ e ∈ blockReturned r.block, e.type = .void
  returned : key.isConstructor = false → ∀ e ∈ blockReturned r.block, e.type.FillsTo r.returns
  recursive : key.isConstructor = false → ∀ call ∈ s.calls, call.key = key → call.cell = cell →
    call.phase = .inProgress → call.ret.FillsTo r.returns
  carried : api.IsPlain → ∀ call ∈ s.calls, call.key = key → call.cell = cell → call.Beside r.type

/-- What holds of signatures, calls and routines in every state of a run. -/
structure Signed (api : ApiTables) (start s : State) : Prop where
  shape : start.SameShape s
  made : s.cells.contents.length = start.cells.contents.length
  grows : s.cells.Grows api.IsPlain
  constructors : ∀ {className cell}, s.Links (.method className Hierarchy.constructorName) cell →
    (s.cells.get cell).ret = .hole ∨ (s.cells.get cell).ret = .atom className
  calls : ∀ call ∈ s.calls, Justified api start s call
  /-- A call from outside the body leaves the definition finished. -/
  outside : ∀ call ∈ s.calls, call.phase ≠ .inProgress →
    s.definitions.phase? call.key = some .resolved
  ordered : s.definitions.states.Ordered
  routines : ∀ {key r}, s.definitions.states.find? key = some (.resolved r) →
    ∃ cell, Agrees api s key cell r
  plain : api.IsPlain → s.IsPlain

variable {api : ApiTables} {start s s' s'' : State}

namespace GrowsTo

variable {plain : Prop}

theorem refl (s : State) : GrowsTo plain s s := fun _ => .refl _

theorem trans (a : GrowsTo plain s s') (b : GrowsTo plain s' s'') : GrowsTo plain s s'' :=
  fun cell => (a cell).trans (b cell)

theorem of_cells (same : s'.cells = s.cells) : GrowsTo plain s s' := fun cell => by
  rw [same]
  exact .refl _

theorem withSignature {cell : CellId} {signature : Signature}
    (later : (s.cells.get cell).Grows plain signature) :
    GrowsTo plain s (s.withSignature cell signature) := by
  intro cell'
  change (s.cells.get cell').Grows plain ((s.cells.set cell signature).get cell')
  rcases get_set_cases s.cells cell cell' signature with ⟨same, rfl⟩ | same
  · rw [same]
    exact later
  · rw [same]
    exact .refl _

end GrowsTo

namespace Proceeds

variable {plain : Prop}

theorem of_cells (cells : s'.cells = s.cells)
    (definitions : s'.definitions = s.definitions) : Proceeds plain s s' :=
  ⟨.of_cells cells, fun running => by rwa [State.Running, definitions]⟩

theorem refl (s : State) : Proceeds plain s s := .of_cells rfl rfl

theorem trans (a : Proceeds plain s s') (b : Proceeds plain s' s'') : Proceeds plain s s'' :=
  ⟨a.grows.trans b.grows, fun running => b.running (a.running running)⟩

end Proceeds

theorem State.Running.ne_resolved {key : DefKey} (running : s.Running key) :
    s.definitions.phase? key ≠ some .resolved := by
  rw [running]
  nofun

theorem phase?_of_resolved {key : DefKey} {r : Routine}
    (found : s.definitions.states.find? key = some (.resolved r)) :
    s.definitions.phase? key = some .resolved := by
  rw [Definitions.phase?, found]
  rfl

theorem Justified.mono {call : Call} (justified : Justified api start s call)
    (shape : s.SameShape s') (grows : GrowsTo api.IsPlain s s') (plain : api.IsPlain → s'.IsPlain) :
    Justified api start s' call where
  links := shape.links_iff.mpr justified.links
  args h := by
    have plainParams := (Bool.and_eq_true_iff.mp ((plain h).cells call.cell)).1
    exact (justified.args h).fillsTo ((grows call.cell).params h) plainParams
  type h := (justified.type h).trans ((grows call.cell).toTy h)
  ret recursive := (justified.ret recursive).imp id fun fills => fills.trans (grows call.cell).ret

theorem Agrees.mono {key : DefKey} {cell : CellId} {r : Routine} (agrees : Agrees api s key cell r)
    (shape : s.SameShape s') (grows : GrowsTo api.IsPlain s s')
    (calls : ∀ call ∈ s'.calls, call ∈ s.calls ∨ call.key ≠ key ∨
      call.phase ≠ .inProgress ∧ (call.cell = cell → api.IsPlain → call.Beside r.type)) :
    Agrees api s' key cell r where
  links := shape.links_iff.mpr agrees.links
  form := agrees.form
  name := agrees.name
  signature := by
    obtain ⟨params, type, before⟩ := agrees.signature
    exact ⟨params, type, before.trans (grows cell)⟩
  constructor := agrees.constructor
  returned := agrees.returned
  recursive other call known sameKey sameCell phase := by
    rcases calls call known with known | differs | ⟨differs, -⟩
    · exact agrees.recursive other call known sameKey sameCell phase
    · exact absurd sameKey differs
    · exact absurd phase differs
  carried h call known sameKey sameCell := by
    rcases calls call known with known | differs | ⟨-, beside⟩
    · exact agrees.carried h call known sameKey sameCell
    · exact absurd sameKey differs
    · exact beside sameCell h

namespace Signed

/-- Signatures, calls and routines stay as they are. -/
theorem congr (signed : Signed api start s) (shape : s.SameShape s') (cells : s'.cells = s.cells)
    (calls : s'.calls = s.calls) (states : s'.definitions.states = s.definitions.states)
    (plain : api.IsPlain → s'.IsPlain) : Signed api start s' where
  shape := signed.shape.trans shape
  made := by rw [cells, signed.made]
  grows := by
    rw [cells]
    exact signed.grows
  constructors links := by
    rw [cells]
    exact signed.constructors (shape.links_iff.mp links)
  calls call known :=
    (signed.calls call (calls ▸ known)).mono shape (.of_cells cells) plain
  outside call known other := by
    rw [Definitions.phase?, states]
    exact signed.outside call (calls ▸ known) other
  ordered := by
    rw [states]
    exact signed.ordered
  routines found := by
    obtain ⟨cell, agrees⟩ := signed.routines (states ▸ found)
    exact ⟨cell, agrees.mono shape (.of_cells cells) fun call known => .inl (calls ▸ known)⟩
  plain := plain

/-- A cell is written. -/
theorem withSignature (signed : Signed api start s) {cell : CellId} {signature : Signature}
    (later : (s.cells.get cell).Grows api.IsPlain signature)
    (constructors : ∀ {className}, s.Links (.method className Hierarchy.constructorName) cell →
      signature.ret = .hole ∨ signature.ret = .atom className)
    (plain : api.IsPlain → signature.toTy.isPlain) :
    Signed api start (s.withSignature cell signature) := by
  have shape : s.SameShape (s.withSignature cell signature) := ⟨.refl _, rfl⟩
  have plainAfter : api.IsPlain → (s.withSignature cell signature).IsPlain := fun h =>
    (signed.plain h).withSignature cell (plain h)
  have grows : GrowsTo api.IsPlain s (s.withSignature cell signature) := .withSignature later
  refine ⟨signed.shape.trans shape, ?_, signed.grows.set later, fun {className cell'} links => ?_,
    fun call known => (signed.calls call known).mono shape grows plainAfter, signed.outside,
    signed.ordered, fun found => ?_, plainAfter⟩
  · exact (List.length_modify ..).trans signed.made
  · change ((s.cells.set cell signature).get cell').ret = .hole ∨
      ((s.cells.set cell signature).get cell').ret = .atom className
    rcases get_set_cases s.cells cell cell' signature with ⟨same, rfl⟩ | same
    · rw [same]
      exact constructors links
    · rw [same]
      exact signed.constructors links
  · obtain ⟨cell', agrees⟩ := signed.routines found
    exact ⟨cell', agrees.mono shape grows fun call known => .inl known⟩

/-- A call is answered: from inside the body, or when the definition is finished, and then at first
with the type that the end of the body left. -/
theorem answered (signed : Signed api start s) {key : DefKey} {cell : CellId} {args : List Ty}
    {ret : Ty} {phase : Phase} (links : s.Links key cell)
    (accepts : api.IsPlain → Accepts start.hierarchy args (s.cells.get cell).params)
    (fixed : phase = .inProgress → ret ≠ .hole ∧ ret.FillsTo (s.cells.get cell).ret)
    (met : phase = .inProgress ∧ s.Running key ∨
      phase ≠ .inProgress ∧ s.definitions.phase? key = some .resolved ∧
        (phase = .unresolved → ∀ r, s.definitions.states.find? key = some (.resolved r) →
          (s.cells.get cell).toTy = r.type)) :
    Signed api start (s.answered key cell args ret phase) := by
  have shape : s.SameShape (s.answered key cell args ret phase) := ⟨.refl _, rfl⟩
  have plain : api.IsPlain → (s.answered key cell args ret phase).IsPlain := fun h =>
    (signed.plain h).congr rfl rfl rfl
  refine ⟨signed.shape.trans shape, signed.made, signed.grows, fun links => signed.constructors links,
    fun call known => ?_, fun call known other => ?_, signed.ordered, fun {key' r} found => ?_, plain⟩
  · rcases List.mem_cons.mp known with rfl | known
    · exact ⟨links, accepts, fun _ => .refl _, fixed⟩
    · exact (signed.calls call known).mono shape (.refl s) plain
  · rcases List.mem_cons.mp known with rfl | known
    · rcases met with ⟨inside, -⟩ | ⟨-, finished, -⟩
      · exact absurd inside other
      · exact finished
    · exact signed.outside call known other
  · obtain ⟨cell', agrees⟩ := signed.routines found
    refine ⟨cell', agrees.mono shape (.refl s) fun call known => ?_⟩
    rcases List.mem_cons.mp known with rfl | known
    · refine .inr (or_iff_not_imp_left.mpr fun same => ?_)
      obtain rfl : key = key' := not_not.mp same
      rcases met with ⟨-, running⟩ | ⟨other, -, first⟩
      · exact absurd (phase?_of_resolved found) running.ne_resolved
      · refine ⟨other, fun sameCell h => ?_⟩
        obtain rfl : cell = cell' := sameCell
        cases phase with
        | unresolved => exact first rfl r found
        | inProgress => exact absurd rfl other
        | resolved =>
          obtain ⟨params, type, before⟩ := agrees.signature
          change r.type.FillsTo (s.cells.get cell).toTy
          rw [type]
          exact before.toTy h
    · exact .inl known

/-- Definitions begin or end; a new routine agrees with its cell. -/
theorem withPhases (signed : Signed api start s) {definitions : Definitions}
    {progress : List Progress} (functions : definitions.functions = s.definitions.functions)
    (ordered : definitions.states.Ordered)
    (resolved : ∀ {key}, s.definitions.phase? key = some .resolved →
      definitions.phase? key = some .resolved)
    (routines : ∀ {key r}, definitions.states.find? key = some (.resolved r) →
      s.definitions.states.find? key = some (.resolved r) ∨ ∃ cell, Agrees api s key cell r) :
    Signed api start { s with definitions, progress } := by
  have shape : s.SameShape { s with definitions, progress } := ⟨.refl _, functions⟩
  have plain : api.IsPlain → State.IsPlain { s with definitions, progress } := fun h =>
    (signed.plain h).congr rfl rfl rfl
  refine ⟨signed.shape.trans shape, signed.made, signed.grows,
    fun links => signed.constructors (shape.links_iff.mp links),
    fun call known => (signed.calls call known).mono shape (.refl s) plain,
    fun call known other => resolved (signed.outside call known other), ordered,
    fun {key r} found => ?_, plain⟩
  have known : ∃ cell, Agrees api s key cell r := (routines found).elim signed.routines id
  obtain ⟨cell, agrees⟩ := known
  exact ⟨cell, agrees.mono shape (.refl s) fun call known => .inl known⟩

/-- The parameters that a call leaves in the cell. -/
theorem withParams (signed : Signed api start s) {key : DefKey} {cell : CellId}
    {args params : List Ty} (plainArgs : api.IsPlain → ∀ t ∈ args, t.isPlain)
    (matched : matchParams s.hierarchy (s.cells.get cell).params args key.render = .ok params) :
    Signed api start (s.withSignature cell { s.cells.get cell with params }) ∧
      GrowsTo api.IsPlain s (s.withSignature cell { s.cells.get cell with params }) ∧
      (api.IsPlain → Accepts start.hierarchy args params) := by
  have accepted : api.IsPlain → List.Forall₂ FillsTo (s.cells.get cell).params params ∧
      Accepts start.hierarchy args params ∧
      (Signature.mk params (s.cells.get cell).ret).toTy.isPlain := by
    intro h
    obtain ⟨plainParams, plainRet⟩ := Bool.and_eq_true_iff.mp ((signed.plain h).cells cell)
    obtain ⟨fills, accepts, plain⟩ := matchParams_ok plainParams matched
    exact ⟨fills, accepts.sameShape signed.shape.hierarchy.symm,
      Bool.and_eq_true_iff.mpr ⟨plain (Ty.allPlain_iff.mpr (plainArgs h)), plainRet⟩⟩
  have later : (s.cells.get cell).Grows api.IsPlain { s.cells.get cell with params } :=
    ⟨length_matchParams matched, fun h => (accepted h).1, .refl _⟩
  exact ⟨signed.withSignature later (fun links => signed.constructors links)
    fun h => (accepted h).2.2, .withSignature later, fun h => (accepted h).2.1⟩

/-! ## Cells of definitions -/

section Linked

variable (signed : Signed api start s) (linked : start.Linked) {key : DefKey} {cell : CellId}
  (links : s.Links key cell)

include signed linked links

theorem get_withSignature (signature : Signature) :
    (s.withSignature cell signature).cells.get cell = signature :=
  Cells.get_set_self (by rw [signed.made]; exact linked.made (signed.shape.links_iff.mp links)) _

/-- The cell of another definition is not that of a constructor. -/
theorem not_constructor (other : key.isConstructor = false) {className : String} :
    ¬s.Links (.method className Hierarchy.constructorName) cell := by
  intro constructor
  have same := linked.alone (signed.shape.links_iff.mp constructor) (signed.shape.links_iff.mp links)
  rw [same] at other
  cases other

/-- A return fills the cell. -/
theorem merged {name : String} {ty merged : Ty} (other : key.isConstructor = false)
    (plainTy : api.IsPlain → ty.isPlain)
    (merges : mergeReturn name (s.cells.get cell).ret ty = .ok merged) :
    Signed api start (s.withSignature cell { s.cells.get cell with ret := merged }) ∧
      GrowsTo api.IsPlain s (s.withSignature cell { s.cells.get cell with ret := merged }) := by
  obtain ⟨fills, -⟩ := fillsTo_mergeReturn merges
  have later : (s.cells.get cell).Grows api.IsPlain { s.cells.get cell with ret := merged } :=
    ⟨rfl, fun _ => Ty.forall₂_fillsTo_refl _, fills⟩
  refine ⟨signed.withSignature later
    (fun constructor => (signed.not_constructor linked links other constructor).elim) fun h => ?_,
    .withSignature later⟩
  obtain ⟨plainParams, plainRet⟩ := Bool.and_eq_true_iff.mp ((signed.plain h).cells cell)
  exact Bool.and_eq_true_iff.mpr ⟨plainParams, isPlain_mergeReturn plainRet (plainTy h) merges⟩

end Linked

end Signed

/-- What a return in the body of a definition gives. -/
def ReturnFits (s : State) (key : DefKey) (cell : CellId) (e : Expr) : Prop :=
  if key.isConstructor then e.type = .void else e.type.FillsTo (s.cells.get cell).ret

theorem ReturnFits.mono {key : DefKey} {cell : CellId} {e : Expr} {plain : Prop}
    (fits : ReturnFits s key cell e) (grows : GrowsTo plain s s') : ReturnFits s' key cell e := by
  unfold ReturnFits at fits ⊢
  split
  · next isConstructor => rwa [if_pos isConstructor] at fits
  · next other =>
    rw [if_neg other] at fits
    exact fits.trans (grows cell).ret

/-- What a return gives also fits the type that the end of the body fixes. -/
theorem ReturnFits.returnAfter {key : DefKey} {cell : CellId} {e : Expr}
    (fits : ReturnFits s key cell e) (other : key.isConstructor = false) :
    e.type.FillsTo (returnAfter key (s.cells.get cell)) := by
  have fills : e.type.FillsTo (s.cells.get cell).ret := by
    rwa [ReturnFits, if_neg (by simp [other])] at fits
  rw [returnAfter_of_not_constructor other]
  split
  · next unknown =>
    have known : e.type = .hole := by
      by_contra known
      exact fills.ne_hole known unknown
    rw [known]
    exact Ty.hole_fillsTo _
  · exact fills

/-! ## Bodies -/

section Bodies

theorem sameShape_entered {key : DefKey} {cell : CellId} {args params : List Ty}
    {definition : Tree.FunctionDef} {definitions : Definitions}
    (beginning : Beginning s key cell args definition definitions params) :
    s.SameShape (s.entered key cell definition definitions params) :=
  ⟨.refl _, Law.sameShape_begin beginning.begins⟩

variable {key : DefKey} {cell : CellId} {args params : List Ty} {definition : Tree.FunctionDef}
  {definitions : Definitions} {block : List Stmt}

/-- The body of a definition begins. -/
theorem Signed.entered (signed : Signed api start s)
    (plainArgs : api.IsPlain → ∀ t ∈ args, t.isPlain)
    (beginning : Beginning s key cell args definition definitions params) :
    Signed api start (s.entered key cell definition definitions params) := by
  obtain ⟨written, -, -⟩ := signed.withParams plainArgs beginning.matched
  obtain ⟨-, begun⟩ := Definitions.begin?_cases beginning.begins
  have begins : Signed api start (s.begun key cell definitions params) :=
    written.withPhases (by rw [begun]; rfl)
      (Definitions.ordered_of_begin signed.ordered beginning.begins)
      (fun {key'} resolved => by
        rw [Definitions.phase?_of_begin beginning.begins, if_neg]
        · exact resolved
        · rintro rfl
          cases resolved.symm.trans (Definitions.unresolved_of_begin beginning.begins))
      fun {key' r} found => by
        rw [begun, Table.find?_insert] at found
        split at found
        · cases found
        · exact .inl found
  refine begins.congr ⟨.refl _, rfl⟩ rfl rfl rfl fun h => (begins.plain h).opened _ ?_
  obtain ⟨plainParams, -⟩ := Bool.and_eq_true_iff.mp ((signed.plain h).cells cell)
  exact isPlain_bodyBindings key _ ((matchParams_ok plainParams beginning.matched).2.2
    (Ty.allPlain_iff.mpr (plainArgs h)))

theorem growsTo_entered (signed : Signed api start s)
    (plainArgs : api.IsPlain → ∀ t ∈ args, t.isPlain)
    (beginning : Beginning s key cell args definition definitions params) :
    GrowsTo api.IsPlain s (s.entered key cell definition definitions params) :=
  (signed.withParams plainArgs beginning.matched).2.1

/-- The body that begins is in progress, as are those around it. -/
theorem running_entered (beginning : Beginning s key cell args definition definitions params)
    {key' : DefKey} : (s.entered key cell definition definitions params).Running key' ↔
      key' = key ∨ s.Running key' := by
  change definitions.phase? key' = some .inProgress ↔ _
  rw [Definitions.phase?_of_begin beginning.begins]
  split
  · next same => exact iff_of_true rfl (.inl same)
  · next other => exact (or_iff_right other).symm

/-- The end of a body fills the return type. -/
theorem Signed.fillsTo_returnAfter (signed : Signed api start s) (links : s.Links key cell) :
    (s.cells.get cell).ret.FillsTo (returnAfter key (s.cells.get cell)) := by
  by_cases isConstructor : key.isConstructor
  · obtain ⟨className, rfl⟩ := eq_of_isConstructor isConstructor
    rw [returnAfter_constructor]
    rcases signed.constructors links with unknown | known
    · rw [unknown]
      exact Ty.hole_fillsTo _
    · rw [known]
      exact .refl _
  · rw [returnAfter_of_not_constructor (by simpa using isConstructor)]
    split
    · next unknown =>
      rw [unknown]
      exact Ty.hole_fillsTo _
    · exact .refl _

theorem Signed.grows_returnAfter (signed : Signed api start s) (links : s.Links key cell) :
    (s.cells.get cell).Grows api.IsPlain
      { s.cells.get cell with ret := returnAfter key (s.cells.get cell) } :=
  ⟨rfl, fun _ => Ty.forall₂_fillsTo_refl _, signed.fillsTo_returnAfter links⟩

variable (signed : Signed api start s) (linked : start.Linked) (links : s.Links key cell)

include signed linked links

/-- The cell after the end of the body. -/
theorem Signed.returned :
    Signed api start (s.withSignature cell
      { s.cells.get cell with ret := returnAfter key (s.cells.get cell) }) ∧
    GrowsTo api.IsPlain s (s.withSignature cell
      { s.cells.get cell with ret := returnAfter key (s.cells.get cell) }) := by
  have later := signed.grows_returnAfter links
  refine ⟨signed.withSignature later (fun {className} constructor => ?_) fun h => ?_,
    .withSignature later⟩
  · have same := linked.alone (signed.shape.links_iff.mp constructor)
      (signed.shape.links_iff.mp links)
    rw [same]
    exact .inr (returnAfter_constructor _ (s.cells.get cell))
  · obtain ⟨plainParams, plainRet⟩ := Bool.and_eq_true_iff.mp ((signed.plain h).cells cell)
    exact Bool.and_eq_true_iff.mpr ⟨plainParams, isPlain_returnAfter key plainRet⟩

/-- The routine of a body agrees with the cell that the end of the body leaves. -/
theorem Signed.agrees (running : s.Running key)
    (returns : ∀ e ∈ blockReturned block, ReturnFits s key cell e)
    (names : List String) :
    Agrees api (s.withSignature cell
      { s.cells.get cell with ret := returnAfter key (s.cells.get cell) }) key cell
      (s.routine key cell names block) where
  links := links
  form := rfl
  name := rfl
  signature := by
    refine ⟨(s.cells.get cell).params, rfl, ?_⟩
    rw [signed.get_withSignature linked links]
    exact .refl _
  constructor className same := by
    subst same
    have isConstructor : (DefKey.method className Hierarchy.constructorName).isConstructor :=
      beq_self_eq_true _
    refine ⟨returnAfter_constructor _ (s.cells.get cell), fun e he => ?_⟩
    have fits := returns e he
    rwa [ReturnFits, if_pos isConstructor] at fits
  returned other e he := (returns e he).returnAfter other
  recursive other call known sameKey sameCell recursive := by
    obtain ⟨notHole, fills⟩ := (signed.calls call known).ret recursive
    have fixed := fills.ne_hole notHole
    change call.ret.FillsTo (returnAfter key (s.cells.get cell))
    rw [sameCell] at fills fixed
    rw [returnAfter_of_not_constructor other, if_neg fixed]
    exact fills
  carried h call known sameKey sameCell := by
    -- while the body is in progress it is called only from inside
    have inside : call.phase = .inProgress := by
      by_contra other
      exact running.ne_resolved (sameKey ▸ signed.outside call known other)
    have before := (signed.calls call known).type h
    rw [sameCell] at before
    rw [Call.Beside, inside]
    exact before.trans ((signed.grows_returnAfter links).toTy h)

/-- The body of a definition ends. -/
theorem Signed.finished (running : s.Running key)
    (returns : ∀ e ∈ blockReturned block, ReturnFits s key cell e)
    (names : List String) :
    Signed api start (s.finished key cell names block) ∧
      GrowsTo api.IsPlain s (s.finished key cell names block) := by
  obtain ⟨written, grows⟩ := signed.returned linked links
  refine ⟨written.withPhases rfl (Definitions.ordered_finish signed.ordered key _)
    (fun {key'} resolved => ?_) fun {key' r} found => ?_, grows⟩
  · rw [Definitions.phase?_finish]
    split
    · rfl
    · exact resolved
  rw [Definitions.finish, Table.find?_insert] at found
  split at found
  · next same =>
    cases found
    rw [same]
    exact .inr ⟨cell, signed.agrees linked links running returns names⟩
  · exact .inl found

end Bodies

/-! ## The law -/

/-- Signatures grow, and justify the calls, the returns and the routines. -/
def signatureLaw (setting : Setting) {start : State} (linked : start.Linked) : Law setting where
  Inv _ := Signed setting.api start
  Here σ s := ∀ key cell, σ.definition = some (key, cell) → s.Links key cell
  Rel _ _ := Proceeds setting.api.IsPlain
  Call := Proceeds setting.api.IsPlain
  Knows := State.Links
  Called _ _ _ _ ret := setting.api.IsPlain → ret.isPlain
  Node _ _ e := setting.api.IsPlain → e.type.isPlain
  Returned d s e := ∀ key cell, d = some (key, cell) → ReturnFits s key cell e
  Fine t := setting.api.IsPlain → t.isPlain
  rel_refl _ _ := .refl
  rel_trans := .trans
  here_rel here _ shape key cell definition := shape.links_iff.mpr (here key cell definition)
  node_rel node _ _ := node
  returned_rel fits rel _ key cell definition := (fits key cell definition).mono rel.grows
  called_rel plain _ _ := plain
  fine_node node := node
  returned_scopes fits _ := fits
  fine_int _ := rfl
  fine_boolean _ := rfl
  fine_exception _ _ _ := rfl
  fine_element fine iterates h := Ty.isPlain_element (fine h) iterates
  fine_items fine := ⟨fun h => (Bool.and_eq_true_iff.mp (fine h)).1,
    fun h => (Bool.and_eq_true_iff.mp (fine h)).2⟩
  make signed _ _ fine _ made h := made.isPlain h (signed.plain h) (fun called => called h)
    fun p hp => fine p hp h
  depend _ dependencies signed :=
    ⟨signed.congr ⟨.refl _, rfl⟩ rfl rfl rfl fun h => (signed.plain h).congr rfl rfl rfl,
      .of_cells rfl rfl⟩
  retype {_ σ s e _ ty} signed _ node fine refines := by
    have plainTy : setting.api.IsPlain → ty.isPlain := fun h =>
      isPlain_refinement (node h) (fun t ht => fine t ht h) refines
    have plain := fun h => (signed.plain h).refined σ e (plainTy h)
    have shape := Law.sameShape_refined s σ e ty
    obtain ⟨scopes, hierarchy, same⟩ := s.refined_eq σ e ty
    rw [same] at plain shape ⊢
    exact ⟨signed.congr shape rfl rfl rfl plain, .of_cells rfl rfl, plainTy⟩
  openScope {_ σ s _} signed here _ fine :=
    ⟨signed.congr ⟨.refl _, rfl⟩ rfl rfl rfl fun h =>
      (signed.plain h).opened σ.scope fun b hb => fine b hb h, here⟩
  closeScope {_ _ _ s _ s'} _ _ signed rel _ :=
    ⟨signed.congr ⟨.refl _, rfl⟩ rfl rfl rfl fun h => (signed.plain h).closed s.scopes.size,
      rel.grows, rel.running⟩
  declare {_ σ _ id _} signed _ _ _ fine _ :=
    ⟨signed.congr ⟨.refl _, rfl⟩ rfl rfl rfl fun h => (signed.plain h).bound σ.body id (fine h),
      .of_cells rfl rfl⟩
  join {_ _ _ id owner _ _} signed _ _ _ fine _ joined :=
    ⟨signed.congr ⟨.refl _, rfl⟩ rfl rfl rfl fun h => (signed.plain h).bound owner id
      (isPlain_unify ((signed.plain h).slot Ty.hereditary_isPlain owner id) (fine h) joined),
      .of_cells rfl rfl⟩
  joinAttribute {_ s className name owner entry ty found} _ makePublic signed fine known joined := by
    have plainFound : setting.api.IsPlain → found.isPlain := fun h =>
      isPlain_unify ((signed.plain h).attribute known) (fine h) joined
    exact ⟨signed.congr ⟨.updateAttribute .., rfl⟩ rfl rfl rfl fun h =>
      (signed.plain h).updateAttribute owner name makePublic (plainFound h), .of_cells rfl rfl,
      plainFound⟩
  register {_ s className name _} _ signed fine _ :=
    ⟨signed.congr ⟨.registerAttribute .., rfl⟩ rfl rfl rfl fun h =>
      (signed.plain h).registerAttribute className name false (fine h), .of_cells rfl rfl⟩
  leaves _ _ _ isConstructor key cell same := by
    cases same
    rw [ReturnFits, if_pos isConstructor]
    rfl
  merge {_ _ s key cell name e merged} signed here definition _ other node merges := by
    have links := here key cell definition
    obtain ⟨written, grows⟩ := signed.merged linked links other node merges
    refine ⟨written, ⟨grows, id⟩, fun key' cell' same => ?_⟩
    cases same
    rw [ReturnFits, if_neg (by simp [other]), signed.get_withSignature linked links]
    exact (fillsTo_mergeReturn merges).2
  answer {_ s key cell args params phase} signed links fine matched known phases := by
    have plainArgs : setting.api.IsPlain → ∀ t ∈ args, t.isPlain := fun h t ht => fine t ht h
    obtain ⟨written, grows, accepts⟩ := signed.withParams plainArgs matched
    have content := signed.get_withSignature linked links { s.cells.get cell with params }
    refine ⟨written.answered links (fun h => ?_) (fun recursive => ?_) ?_, ⟨grows, id⟩, fun h => ?_⟩
    · rw [content]
      exact accepts h
    · rw [content]
      rcases phases with resolved | ⟨-, fixed⟩
      · rw [resolved] at recursive
        cases recursive
      · exact ⟨by simpa [Signature.hasReturn] using fixed, .refl _⟩
    · rcases phases with rfl | ⟨rfl, -⟩
      · exact .inr ⟨nofun, known, nofun⟩
      · exact .inl ⟨rfl, known⟩
    · exact (Bool.and_eq_true_iff.mp ((signed.plain h).cells cell)).2
  enter signed links fine beginning :=
    ⟨signed.entered (fun h t ht => fine t ht h) beginning, fun key cell same => by
      cases same
      exact (sameShape_entered beginning).links_iff.mpr links⟩
  leave {_ s key cell args definition definitions params s' block} signed links fine beginning _
      inside _ rel shape keeps := by
    have plainArgs : setting.api.IsPlain → ∀ t ∈ args, t.isPlain := fun h t ht => fine t ht h
    have ended : Signed setting.api start (s'.closed s.scopes.size) :=
      inside.congr ⟨.refl _, rfl⟩ rfl rfl rfl fun h => (inside.plain h).closed s.scopes.size
    have linksEnded : (s'.closed s.scopes.size).Links key cell := shape.links_iff.mpr links
    have returns : ∀ e ∈ blockReturned block, ReturnFits (s'.closed s.scopes.size) key cell e :=
      fun e he => keeps.returns e he key cell rfl
    have running : (s'.closed s.scopes.size).Running key :=
      rel.running ((running_entered beginning).mpr (.inl rfl))
    have finish := ended.finished linked linksEnded running returns
    obtain ⟨finished, grows⟩ := finish (parameterNames key definition)
    have inner : GrowsTo setting.api.IsPlain (s.entered key cell definition definitions params)
        ((s'.closed s.scopes.size).finished key cell (parameterNames key definition) block) :=
      rel.grows.trans grows
    refine ⟨finished.answered linksEnded (fun h => ?_) nofun (.inr ⟨nofun, ?_, fun _ r found => ?_⟩),
      ⟨?_, fun {other} outer => ?_⟩, fun h => ?_⟩
    · have content := signed.get_withSignature linked links { s.cells.get cell with params }
      have fills := (inner cell).params h
      change List.Forall₂ FillsTo ((s.withSignature cell _).cells.get cell).params _ at fills
      rw [content] at fills
      exact ((signed.withParams plainArgs beginning.matched).2.2 h).fillsTo fills
        (Bool.and_eq_true_iff.mp ((finished.plain h).cells cell)).1
    · exact (Definitions.phase?_finish ..).trans (if_pos rfl)
    · change (Definitions.finish _ key _).states.find? key = some (.resolved r) at found
      rw [Definitions.finish, Table.find?_insert, if_pos rfl] at found
      cases found
      exact congrArg Signature.toTy (ended.get_withSignature linked linksEnded _)
    · exact (growsTo_entered signed plainArgs beginning).trans inner
    · have ne : other ≠ key := by
        rintro rfl
        cases outer.symm.trans (Definitions.unresolved_of_begin beginning.begins)
      refine (Definitions.phase?_finish ..).trans ((if_neg ne).trans ?_)
      exact rel.running ((running_entered beginning).mpr (.inr outer))
    · exact isPlain_returnAfter key (Bool.and_eq_true_iff.mp ((inside.plain h).cells cell)).2

end Translate

end TreeTyper
