import TreeTyper.Api.Overrides
import TreeTyper.Api.Standard
import TreeTyper.Proofs.Law.Module
import TreeTyper.Tree.Build

/-!
# The tables stay closed

An override is accepted only if what it makes of a call has a signature, in the tables
or in the override, and no signature is ever taken out of the tables.  So overrides
keep closed tables closed and change nothing that they do not name, and no module
fails for want of a signature.

    o.applyTo api = .ok api' → api.Closed → api'.Closed               (Overrides.applyTo_closed)
    api.Closed → translate api m ≠ .error (.failure (.missingSignature owner name) location)
                                                                      (translate_answers)
-/

namespace TreeTyper

/-! ## Entries -/

theorem ApiEntry.mem_expansions {entry : ApiEntry} {arity : Nat} {expansion : Expansion}
    (selected : entry.select? arity = some expansion) : expansion ∈ entry.expansions := by
  cases entry with
  | fixed e =>
    cases selected
    exact List.mem_cons_self
  | byArity table => exact List.mem_map.mpr ⟨_, Table.mem_of_findIn selected, rfl⟩

namespace ApiTables

open Overrides (cells)

theorem mem_cells_of_lookup {α : Type} {t : Table String (Table String α)} {owner name : String}
    {a : α} (found : lookup t owner name = some a) : (owner, name, a) ∈ cells t := by
  obtain ⟨inner, outer, found⟩ := Option.bind_eq_some_iff.mp found
  refine List.mem_flatMap.mpr ⟨(owner, inner), Table.mem_of_findIn outer, ?_⟩
  exact List.mem_map.mpr ⟨(name, a), Table.mem_of_findIn found, rfl⟩

instance (api : ApiTables) (expansion : Expansion) : Decidable (api.Signs expansion) :=
  match target : expansion.target? with
  | none => isTrue fun owner name found => by
    rw [target] at found
    cases found
  | some (owner, name) =>
    decidable_of_iff ((api.signature? owner name).isSome = true)
      ⟨fun signed owner' name' found => by
        rw [target] at found
        cases found
        exact signed, fun signs => signs owner name target⟩

/-- Tables are closed if what is listed in them has signatures. -/
theorem closed_of_cells {api : ApiTables}
    (functions : ∀ cell ∈ cells api.functions, ∀ e ∈ cell.2.2.expansions, api.Signs e)
    (methods : ∀ cell ∈ cells api.methods, ∀ e ∈ cell.2.2.expansions, api.Signs e)
    (operators : ∀ cell ∈ cells api.operators, (api.signature? cell.1 cell.2.2).isSome)
    (builtin : ∀ e ∈ Expansion.builtin, api.Signs e) : api.Closed where
  functions _ _ _ _ _ found selected :=
    functions _ (mem_cells_of_lookup found) _ (ApiEntry.mem_expansions selected)
  methods _ _ _ _ _ found selected :=
    methods _ (mem_cells_of_lookup found) _ (ApiEntry.mem_expansions selected)
  operators _ _ _ found := operators _ (mem_cells_of_lookup found)
  builtin := builtin

set_option maxRecDepth 100000 in
theorem standard_closed : standard.Closed :=
  closed_of_cells (by decide +kernel) (by decide +kernel) (by decide +kernel) (by decide +kernel)

theorem lookup_put {α : Type} (t : Table String (Table String α)) (o n o' n' : String) (value : α) :
    lookup (put t o n value) o' n' = if o' = o ∧ n' = n then some value else lookup t o' n' := by
  split
  · next same => rw [same.1, same.2, lookup_put_self]
  · next other => exact lookup_put_of_ne t other value

/-! ## Changes of closed tables -/

variable {api api' : ApiTables} {owner name : String}

/-- More signatures do no harm. -/
theorem Closed.addSignature (closed : api.Closed) (owner name : String) (signature : ApiSignature) :
    (api.addSignature owner name signature).Closed := by
  have kept : ∀ o n, (api.signature? o n).isSome →
      ((api.addSignature owner name signature).signature? o n).isSome := by
    intro o n signed
    unfold signature? ApiTables.addSignature
    rw [lookup_put]
    split
    · rfl
    · exact signed
  have signs : ∀ e, api.Signs e → (api.addSignature owner name signature).Signs e :=
    fun e signs o n target => kept o n (signs o n target)
  exact ⟨fun _ _ _ _ _ found selected => signs _ (closed.functions _ _ _ _ _ found selected),
    fun _ _ _ _ _ found selected => signs _ (closed.methods _ _ _ _ _ found selected),
    fun _ _ _ found => kept _ _ (closed.operators _ _ _ found),
    fun e known => signs e (closed.builtin e known)⟩

theorem Closed.addFunction (closed : api.Closed) {entry : ApiEntry}
    (signs : ∀ arity e, entry.select? arity = some e → api.Signs e) (space name : String) :
    (api.addFunction space name entry).Closed := by
  refine ⟨fun space' name' found arity e known selected => ?_, closed.methods, closed.operators,
    closed.builtin⟩
  unfold function? ApiTables.addFunction at known
  rw [lookup_put] at known
  split at known
  · cases known
    exact signs arity e selected
  · exact closed.functions _ _ _ _ _ known selected

theorem Closed.addMethod (closed : api.Closed) {entry : ApiEntry}
    (signs : ∀ arity e, entry.select? arity = some e → api.Signs e) (head name : String) :
    (api.addMethod head name entry).Closed := by
  refine ⟨closed.functions, fun head' name' found arity e known selected => ?_, closed.operators,
    closed.builtin⟩
  unfold method? ApiTables.addMethod at known
  rw [lookup_put] at known
  split at known
  · cases known
    exact signs arity e selected
  · exact closed.methods _ _ _ _ _ known selected

theorem Closed.addOperator (closed : api.Closed) {message : String}
    (signed : (api.signature? owner message).isSome) (symbol : String) :
    (api.addOperator owner symbol message).Closed := by
  refine ⟨closed.functions, closed.methods, fun head symbol' found known => ?_, closed.builtin⟩
  unfold operator? ApiTables.addOperator at known
  rw [lookup_put] at known
  split at known
  · next same =>
    cases known
    rw [same.1]
    exact signed
  · exact closed.operators _ _ _ known

end ApiTables

/-! ## Overrides -/

namespace Overrides

open ApiTables (lookup lookup_put)

/-- What some overrides name: functions, methods and operators by owner and name, and signatures by
their target. -/
structure Named where
  function : String → String → Prop
  method : String → String → Prop
  operator : String → String → Prop
  signature : String → String → Prop

/-- The owner and the name of a cell. -/
def nameOf {α : Type} (cell : String × String × α) : String × String := (cell.1, cell.2.1)

/-- The target of a cell of functions, if it has a signature. -/
def FunctionOverride.signed? (cell : String × String × FunctionOverride) :
    Option (String × String) :=
  cell.2.2.signature.map fun _ => (cell.2.2.space.getD cell.1, cell.2.2.function)

/-- The target of a cell of methods, if it has a signature. -/
def MethodOverride.signed? (cell : String × String × MethodOverride) : Option (String × String) :=
  cell.2.2.signature.map fun _ => (cell.2.2.owner.getD cell.1, cell.2.2.message)

/-- What the documents of a sequence name. -/
def named (os : List Overrides) : Named where
  function space name := ∃ o ∈ os, (space, name) ∈ (cells o.functions).map nameOf
  method head name := ∃ o ∈ os, (head, name) ∈ (cells o.methods).map nameOf
  operator owner symbol := ∃ o ∈ os, (owner, symbol) ∈ (cells o.operators).map nameOf
  signature owner name := ∃ o ∈ os,
    (owner, name) ∈ (cells o.functions).filterMap FunctionOverride.signed? ++
      (cells o.methods).filterMap MethodOverride.signed?

/-- Tables that change where something is named only, and stay closed. -/
structure Extends (named : Named) (api api' : ApiTables) : Prop where
  closed : api.Closed → api'.Closed
  functions : ∀ space name, ¬named.function space name →
    api'.function? space name = api.function? space name
  methods : ∀ head name, ¬named.method head name → api'.method? head name = api.method? head name
  operators : ∀ owner symbol, ¬named.operator owner symbol →
    api'.operator? owner symbol = api.operator? owner symbol
  signatures : ∀ owner name, ¬named.signature owner name →
    api'.signature? owner name = api.signature? owner name

variable {names : Named} {api api' api'' : ApiTables} {owner name target : String}

namespace Extends

theorem refl (api : ApiTables) : Extends names api api :=
  ⟨id, fun _ _ _ => rfl, fun _ _ _ => rfl, fun _ _ _ => rfl, fun _ _ _ => rfl⟩

theorem trans (first : Extends names api api') (rest : Extends names api' api'') :
    Extends names api api'' where
  closed h := rest.closed (first.closed h)
  functions o n h := (rest.functions o n h).trans (first.functions o n h)
  methods o n h := (rest.methods o n h).trans (first.methods o n h)
  operators o n h := (rest.operators o n h).trans (first.operators o n h)
  signatures o n h := (rest.signatures o n h).trans (first.signatures o n h)

/-- A pass extends the tables if each of its steps does. -/
theorem foldlM {α : Type} {step : ApiTables → α → Except OverrideError ApiTables} {xs : List α}
    (each : ∀ x ∈ xs, ∀ api api', step api x = .ok api' → Extends names api api')
    (run : xs.foldlM step api = .ok api') : Extends names api api' := by
  induction xs generalizing api with
  | nil =>
    cases run
    exact refl _
  | cons x xs ih =>
    rw [List.foldlM_cons] at run
    cases first : step api x with
    | error e =>
      rw [first] at run
      cases run
    | ok api₁ =>
      rw [first] at run
      have later := ih (fun y hy => each y (List.mem_cons_of_mem _ hy)) run
      exact (each x List.mem_cons_self api api₁ first).trans later

/-- A value under a name that is named. -/
theorem lookup_put_of_not {α : Type} {t : Table String (Table String α)} {P : String → String → Prop}
    {o n o' n' : String} {value : α} (isNamed : P o n) (other : ¬P o' n') :
    lookup (ApiTables.put t o n value) o' n' = lookup t o' n' := by
  rw [lookup_put, if_neg]
  rintro ⟨rfl, rfl⟩
  exact other isNamed

end Extends

/-! ### One override -/

theorem of_bind_ok {α β : Type} {first : Except OverrideError α}
    {next : α → Except OverrideError β} {b : β} (run : first >>= next = .ok b) :
    ∃ a, first = .ok a ∧ next a = .ok b := by
  cases first with
  | error e => cases run
  | ok a => exact ⟨a, rfl, run⟩

/-- The target of an override has a signature afterwards. -/
theorem giveSignature_cases {signature : Option (List String)}
    (given : giveSignature api owner name target signature = .ok api') :
    (api'.signature? owner name).isSome ∧
      (api' = api ∨ signature.isSome ∧ ∃ s, api' = api.addSignature owner name s) := by
  unfold giveSignature at given
  cases signature with
  | none =>
    dsimp only [bind, Except.bind, pure, Except.pure] at given
    split at given
    · next signed =>
      cases given
      exact ⟨signed, .inl rfl⟩
    · cases given
  | some texts =>
    dsimp only at given
    cases parsed : ApiSignature.parse texts with
    | error e =>
      rw [parsed] at given
      cases given
    | ok s =>
      rw [parsed] at given
      dsimp only [bind, Except.bind, pure, Except.pure] at given
      split at given
      · next signed =>
        cases given
        exact ⟨signed, .inr ⟨rfl, s, rfl⟩⟩
      · cases given

theorem extends_giveSignature {signature : Option (List String)}
    (given : giveSignature api owner name target signature = .ok api')
    (isNamed : signature.isSome → names.signature owner name) : Extends names api api' := by
  rcases (giveSignature_cases given).2 with rfl | ⟨isSome, s, rfl⟩
  · exact .refl _
  · refine ⟨fun closed => closed.addSignature owner name s, fun _ _ _ => rfl, fun _ _ _ => rfl,
      fun _ _ _ => rfl, fun o n other => ?_⟩
    exact Extends.lookup_put_of_not (isNamed isSome) other

theorem extends_applyFunction {space : String} {f : FunctionOverride}
    (applied : applyFunction api space name f = .ok api') (isNamed : names.function space name)
    (signature : f.signature.isSome → names.signature (f.space.getD space) f.function) :
    Extends names api api' := by
  unfold applyFunction at applied
  obtain ⟨api₁, given, applied⟩ := of_bind_ok applied
  cases applied
  refine (extends_giveSignature given signature).trans ⟨fun closed => ?_, fun o n other => ?_,
    fun _ _ _ => rfl, fun _ _ _ => rfl, fun _ _ _ => rfl⟩
  · refine closed.addFunction (fun arity e selected => ?_) space name
    cases selected
    rintro o n same
    cases same
    exact (giveSignature_cases given).1
  · exact Extends.lookup_put_of_not isNamed other

theorem extends_applyMethod {head : String} {m : MethodOverride}
    (applied : applyMethod api head name m = .ok api') (isNamed : names.method head name)
    (signature : m.signature.isSome → names.signature (m.owner.getD head) m.message) :
    Extends names api api' := by
  unfold applyMethod at applied
  obtain ⟨api₁, given, applied⟩ := of_bind_ok applied
  cases applied
  refine (extends_giveSignature given signature).trans ⟨fun closed => ?_, fun _ _ _ => rfl,
    fun o n other => ?_, fun _ _ _ => rfl, fun _ _ _ => rfl⟩
  · refine closed.addMethod (fun arity e selected => ?_) head name
    have signed := (giveSignature_cases given).1
    cases selected
    intro o n same
    split at same
    · cases same
      exact signed
    · cases same
      exact signed
  · exact Extends.lookup_put_of_not isNamed other

theorem extends_applyOperator {symbol message : String}
    (applied : applyOperator api owner symbol message = .ok api')
    (isNamed : names.operator owner symbol) : Extends names api api' := by
  unfold applyOperator at applied
  obtain ⟨api₁, given, applied⟩ := of_bind_ok applied
  cases applied
  refine (extends_giveSignature given nofun).trans ⟨fun closed => ?_, fun _ _ _ => rfl,
    fun _ _ _ => rfl, fun o n other => ?_, fun _ _ _ => rfl⟩
  · exact closed.addOperator (giveSignature_cases given).1 symbol
  · exact Extends.lookup_put_of_not isNamed other

/-! ### Documents -/

theorem extends_applyTo {os : List Overrides} {o : Overrides} (known : o ∈ os)
    (applied : o.applyTo api = .ok api') : Extends (named os) api api' := by
  unfold applyTo at applied
  obtain ⟨api₁, functions, applied⟩ := of_bind_ok applied
  obtain ⟨api₂, methods, operators⟩ := of_bind_ok applied
  have first : Extends (named os) api api₁ := by
    refine .foldlM ?_ functions
    rintro ⟨space, name, f⟩ hf before after step
    refine extends_applyFunction step ⟨o, known, List.mem_map.mpr ⟨_, hf, rfl⟩⟩ fun isSome => ?_
    obtain ⟨texts, given⟩ := Option.isSome_iff_exists.mp isSome
    refine ⟨o, known, List.mem_append_left _ (List.mem_filterMap.mpr ⟨_, hf, ?_⟩)⟩
    rw [FunctionOverride.signed?, given]
    rfl
  have second : Extends (named os) api₁ api₂ := by
    refine .foldlM ?_ methods
    rintro ⟨head, name, m⟩ hm before after step
    refine extends_applyMethod step ⟨o, known, List.mem_map.mpr ⟨_, hm, rfl⟩⟩ fun isSome => ?_
    obtain ⟨texts, given⟩ := Option.isSome_iff_exists.mp isSome
    refine ⟨o, known, List.mem_append_right _ (List.mem_filterMap.mpr ⟨_, hm, ?_⟩)⟩
    rw [MethodOverride.signed?, given]
    rfl
  have third : Extends (named os) api₂ api' := by
    refine .foldlM ?_ operators
    rintro ⟨owner, symbol, message⟩ hm before after step
    exact extends_applyOperator step ⟨o, known, List.mem_map.mpr ⟨_, hm, rfl⟩⟩
  exact (first.trans second).trans third

end Overrides

/-! ## Runs -/

namespace Translate

variable {α β : Type} {setting : Setting} {api : ApiTables} {m : Tree.Module} {o : Outline}

/-- In closed tables no run stops for want of a signature. -/
def signedFrame (setting : Setting) (closed : setting.api.Closed) : FrameLaw setting where
  Stopped _ stop _ := ¬stop.AsksSignature
  stop_here _ _ other := other closed
  stop_depth _ := id
  stop_locate _ other := Stop.asksSignature_locate.not.mpr other
  stop_rel _ other := other
  stop_entered _ _ other := other

/-- A run that does not stop for want of a signature, wherever it begins. -/
def Run.Answers (act : Run α) : Prop :=
  ∀ s, Runs act s (fun _ _ => True) fun stop _ => ¬stop.AsksSignature

namespace Run.Answers

theorem pure {a : α} : Answers (Pure.pure a : Run α) := fun _ => Runs.pure trivial

theorem bind {act : Run α} {f : α → Run β} (first : Answers act) (next : ∀ a, Answers (f a)) :
    Answers (act >>= f) :=
  fun s => (first s).bind fun a s' _ => next a s'

theorem map {act : Run α} {f : α → β} (first : Answers act) : Answers (f <$> act) :=
  fun s => Runs.map (Runs.imp (first s) (fun _ _ _ => trivial) fun _ _ other => other)

theorem failAt {pos : Pos} {cause : Cause} (other : ¬cause.AsksSignature) :
    Answers (failAt pos cause : Run α) :=
  fun _ => Runs.failAt other

theorem fail {cause : Cause} (other : ¬cause.AsksSignature) : Answers (fail cause : Run α) :=
  fun _ => Runs.fail other

theorem abort {fault : Fault} : Answers (abort fault : Run α) := fun _ => Runs.abort id

theorem check {result : Except Cause α} (answers : Translate.Answers result) :
    Answers (check result) :=
  fun _ => Runs.check (fun _ _ => trivial) answers

theorem located {act : Run α} (pos : Pos) (answers : Answers act) : Answers (located pos act) :=
  fun s => Runs.located (Runs.imp (answers s) (fun _ _ h => h) fun _ _ other =>
    Stop.asksSignature_locate.not.mpr other)

theorem get {f : State → Run α} (answers : ∀ s, Answers (f s)) :
    Answers (MonadState.get >>= f) :=
  fun s => Runs.get (answers s s)

theorem modify {g : State → State} : Answers (modify g) := fun _ => Runs.modify trivial

end Run.Answers

/-! ### The outline -/

theorem importedNames_answers (names : List Tree.Alias) : Answers (importedNames api names) := by
  induction names with
  | nil => exact .ok
  | cons imported rest ih =>
    obtain ⟨name, asname⟩ := imported
    cases asname with
    | some _ => exact .error id
    | none =>
      unfold importedNames
      split
      · exact ih.map
      · exact .error id

theorem declareImport_answers (o : Outline) (names : List Tree.Alias) :
    (declareImport api o names).Answers := by
  unfold declareImport
  split
  · exact .fail id
  · exact (Run.Answers.check (importedNames_answers names)).bind fun _ => .pure

theorem declareConstant_answers (closed : api.Closed) (o : Outline) (name : String)
    (value : Tree.Expr) : (declareConstant api o name value).Answers := by
  have infers : (signedFrame (o.setting api) closed).law.Infers 0 (inferAt (o.setting api) 0) :=
    Law.inferAt_infers 0
  have init : (expr ⟨o.setting api, inferAt (o.setting api) 0⟩ value Context.ofModule).Answers :=
    fun s => Runs.imp (Law.expr_evaluates infers value False.elim Context.ofModule s
      ⟨trivial, trivial⟩) (fun _ _ _ => trivial) fun _ _ other => other
  unfold declareConstant
  split
  · exact .fail id
  split
  · exact .fail id
  split
  · exact .failAt id
  · refine init.bind fun _ => .bind (fun s => ?_) fun _ => .pure
    exact Runs.define (fun _ => trivial) fun _ => id

theorem checkDefinition_answers (pos : Pos) (d : Tree.FunctionDef) :
    (checkDefinition pos d).Answers := by
  unfold checkDefinition
  split
  · exact .failAt id
  · exact .pure

theorem declareMethod_answers (pos : Pos) (className : String) (d : Tree.FunctionDef) :
    (declareMethod pos className d).Answers := by
  unfold declareMethod
  split
  · exact .failAt id
  refine (checkDefinition_answers pos d).bind fun _ => .get fun s => ?_
  split
  · exact .failAt id
  split
  · exact .abort
  · exact fun _ => trivial

theorem declareMembers_answers (className : String) (body : List Tree.Stmt) :
    (declareMembers className body).Answers := by
  induction body with
  | nil => exact .pure
  | cons member rest ih =>
    obtain ⟨kind, pos⟩ := member
    unfold declareMembers
    cases kind with
    | functionDef d => exact (declareMethod_answers pos className d).bind fun _ => ih
    | pass => exact ih
    | _ => exact fun _ => Runs.failAt_bind id

theorem ancestry_answers (h : Hierarchy) (bases : List Tree.Expr) : (ancestry h bases).Answers := by
  unfold ancestry
  split
  · exact .pure
  · split
    · split
      · exact .pure
      split
      · exact .pure
      · exact .failAt id
    · exact .failAt id
  · exact .failAt id

theorem declareClass_answers (pos : Pos) (d : Tree.ClassDef) : (declareClass pos d).Answers := by
  unfold declareClass
  split
  · exact .failAt id
  refine .get fun s => (ancestry_answers s.hierarchy d.bases).bind fun found => ?_
  cases found with
  | exception base => exact Run.Answers.modify.bind fun _ => .pure
  | base base =>
    dsimp only
    split
    · exact .abort
    · refine Run.Answers.modify.bind fun _ => ?_
      exact (declareMembers_answers d.name d.body).bind fun _ => .pure

theorem outlineStmt_answers (closed : api.Closed) (o : Outline) (stmt : Tree.Stmt) :
    (outlineStmt api o stmt).Answers := by
  obtain ⟨kind, pos⟩ := stmt
  unfold outlineStmt
  cases kind with
  | importNames names => exact .located pos (declareImport_answers o names)
  | importFrom module names => exact .failAt id
  | functionDef d =>
    have declared : (declareFunction pos d).Answers :=
      (checkDefinition_answers pos d).bind fun _ => .modify
    exact declared.bind fun _ => .pure
  | classDef d => exact (declareClass_answers pos d).map
  | assign targets value =>
    dsimp only
    split
    · exact .pure
    split
    · exact .pure
    · exact .failAt id
    · exact .located _ (declareConstant_answers closed o _ value)
  | _ => exact .pure

theorem outline_answers (closed : api.Closed) (m : Tree.Module) : (outline api m).Answers := by
  have all : ∀ (stmts : List Tree.Stmt) (o : Outline), (outlineFrom api o stmts).Answers := by
    intro stmts
    induction stmts with
    | nil => exact fun _ => .pure
    | cons stmt rest ih => exact fun o => (outlineStmt_answers closed o stmt).bind ih
  exact all m.body .empty

/-! ### Modules -/

theorem typedModule_answers (closed : api.Closed) (m : Tree.Module) :
    (typedModule api m).Answers := by
  have main : (mainBlock api m).Answers := by
    unfold mainBlock
    refine (outline_answers closed m).bind fun o s => Runs.get ?_
    have admits : (signedFrame (o.setting api) closed).law.AdmitsBlock none o.main :=
      ⟨fun _ _ => trivial, fun _ => trivial, False.elim⟩
    have translated := Law.main_holds (s := s) ⟨trivial, trivial⟩ admits
    rw [← bind_assoc]
    exact Runs.bind (Runs.imp translated (fun _ _ _ => trivial) fun _ _ other => other)
      fun _ _ _ => Runs.pure trivial
  have collected : ∀ definitions, (collectDefinitions definitions).Answers := by
    intro definitions s
    refine Runs.imp (collectDefinitions_runs definitions) (fun _ _ _ => trivial) ?_
    rintro _ _ ⟨key, pos, rfl⟩
    exact id
  unfold typedModule
  exact main.bind fun found => (collected found.1.definitions).bind fun _ => .get fun _ => .pure

theorem translate_answers (closed : api.Closed) (m : Tree.Module) (owner name : String)
    (location : Option Pos) :
    translate api m ≠ .error (.failure (.missingSignature owner name) location) := by
  intro failed
  obtain ⟨s, run⟩ := run_of_translate failed
  exact (typedModule_answers closed m .empty).of_error run trivial

end Translate

/-! ## Top theorem -/

open Overrides (named) in
/-- The standard tables under any sequence of documents that are accepted: everything that an entry
becomes has a signature, what no document names is as it was, and no module fails for want of a
signature. -/
theorem overrides_keep_tables_closed {os : List Overrides} {api : ApiTables}
    (accepted : os.foldlM (fun api o => o.applyTo api) ApiTables.standard = .ok api) :
    api.Closed ∧
    (∀ space name, ¬(named os).function space name →
      api.function? space name = ApiTables.standard.function? space name) ∧
    (∀ head name, ¬(named os).method head name →
      api.method? head name = ApiTables.standard.method? head name) ∧
    (∀ owner symbol, ¬(named os).operator owner symbol →
      api.operator? owner symbol = ApiTables.standard.operator? owner symbol) ∧
    (∀ owner name, ¬(named os).signature owner name →
      api.signature? owner name = ApiTables.standard.signature? owner name) ∧
    ∀ m owner name location,
      translate api m ≠ .error (.failure (.missingSignature owner name) location) := by
  have extended : Overrides.Extends (named os) ApiTables.standard api :=
    .foldlM (fun o known _ _ applied => Overrides.extends_applyTo known applied) accepted
  have closed := extended.closed ApiTables.standard_closed
  exact ⟨closed, extended.functions, extended.methods, extended.operators, extended.signatures,
    fun m => Translate.translate_answers closed m⟩

open ApiTables (grouped) in
/-- A document that adds a function with its signature, a method whose receiver is the second
argument and an operator, and one that puts another method in the place of `append`. -/
def vectorOverrides : List Overrides :=
  [⟨grouped [("math", [("hypot", ⟨none, "hypotenuse", some ["Number", "Number", "Float"]⟩)])],
    grouped [("String", [("within", ⟨none, "contains", true, some ["String", "Boolean"]⟩)])],
    grouped [("Array", [("+", "count")])]⟩,
    ⟨Table.empty, grouped [("List", [("append", ⟨none, "remove", false, none⟩)])], Table.empty⟩]

open Tree.Build in
/-- A module that uses what the documents name, and a slice. -/
def vectorUser : Tree.Module :=
  ⟨[importModule "math", assign (name "xs") (list [int 1, int 2]),
    assign (name "h") (method (name "math") "hypot" [int 3, float 0]),
    exprStmt (method (name "xs") "append" [int 1]),
    assign (name "b") (method (string "a") "within" [string "abc"]),
    assign (name "ys") (slice (name "xs") (some (int 0)) (some (int 1)))]⟩

/-- Whether the documents are accepted, name what they seem to, and the module is translated. -/
def vectorsAccepted : Bool :=
  (vectorOverrides.foldlM (fun api (o : Overrides) => o.applyTo api) ApiTables.standard).toOption.any
    fun api => decide <|
      api.function? "math" "hypot" = some (.fixed (.call "math" "hypotenuse")) ∧
      api.method? "List" "append" = some (.fixed (.method "List" "remove")) ∧
      (translate api vectorUser).isOk

set_option maxRecDepth 100000 in
theorem overrides_keep_tables_closed_vectors : ∃ api,
    vectorOverrides.foldlM (fun api o => o.applyTo api) ApiTables.standard = .ok api ∧
    api.Closed ∧ api.method? "List" "append" = some (.fixed (.method "List" "remove")) ∧
    api.signature? "List" "remove" = ApiTables.standard.signature? "List" "remove" ∧
    (translate api vectorUser).isOk ∧ ∀ owner name location,
      translate api vectorUser ≠ .error (.failure (.missingSignature owner name) location) := by
  have checked : vectorsAccepted = true := by
    decide +kernel
  obtain ⟨api, accepted, names⟩ := exists_of_any checked
  obtain ⟨-, replaced, translated⟩ := of_decide_eq_true names
  obtain ⟨closed, -, -, -, signatures, answers⟩ := overrides_keep_tables_closed accepted
  have unnamed : ¬∃ o ∈ vectorOverrides, ("List", "remove") ∈
      (Overrides.cells o.functions).filterMap Overrides.FunctionOverride.signed? ++
        (Overrides.cells o.methods).filterMap Overrides.MethodOverride.signed? := by
    decide +kernel
  exact ⟨api, accepted, closed, replaced, signatures "List" "remove" unnamed, translated,
    answers vectorUser⟩

end TreeTyper
