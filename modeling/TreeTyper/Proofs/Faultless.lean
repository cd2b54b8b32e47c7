import TreeTyper.Api.Standard
import TreeTyper.Proofs.Chains
import TreeTyper.Proofs.Emitted
import TreeTyper.Proofs.Phases
import TreeTyper.Tree.Build

/-!
# No operation outside its domain

A run leaves the scopes open that were open when it began, each inside the same
parent, whether it succeeds or stops.  So the scopes of a site stay open while
something is translated there; the scope of a body that begins is new, and those it
is inside of are older.  If the code of a module can be computed at all, its
translation ends with a typed module or with a failure of the module, never with a
fault.

    ((expr t e ctx).run s).2.scopes.links = s.scopes.links        (Balanced.expr)
    m.faultless → translate api m ≠ .error (.fault f)             (never_faults)
-/

namespace TreeTyper

namespace Tree

/-- The functions and methods that a statement of the top level defines. -/
def Stmt.functionDefs (s : Stmt) : List FunctionDef :=
  match s.kind with
  | .functionDef d => [d]
  | .classDef d => d.methods
  | _ => []

/-- The functions and methods that a statement of the top level defines, under their keys. -/
def Stmt.keyedDefs (s : Stmt) : List (DefKey × FunctionDef) :=
  match s.kind with
  | .functionDef d => [(.function d.name, d)]
  | .classDef d => d.methods.map fun f => (.method d.name f.name, f)
  | _ => []

theorem Stmt.map_keyedDefs (s : Stmt) : s.keyedDefs.map (·.2) = s.functionDefs := by
  obtain ⟨kind, pos⟩ := s
  cases kind with
  | classDef d => exact (List.map_map ..).trans (List.map_id _)
  | _ => rfl

/-- The functions and methods that are written in a module, under their keys. -/
def Module.keyedDefs (m : Module) : List (DefKey × FunctionDef) := m.body.flatMap Stmt.keyedDefs

/-- Whether all expressions of a module are faultless, in its definitions and outside. -/
def Module.faultless (m : Module) : Bool :=
  blockFaultless m.body && (m.body.flatMap Stmt.functionDefs).all (blockFaultless ·.body)

end Tree

namespace Translate

open Typed

/-! ## Balance -/

/-- The same scopes are open, inside the same parents. -/
def State.SameLinks (s s' : State) : Prop := s'.scopes.links = s.scopes.links

theorem State.SameLinks.refl (s : State) : s.SameLinks s := rfl

theorem State.SameLinks.trans {s s' s'' : State} (first : s.SameLinks s') (rest : s'.SameLinks s'') :
    s.SameLinks s'' :=
  Eq.trans rest first

/-- A run leaves the scopes open that were open when it began. -/
def linksFrame (setting : Setting) : FrameLaw setting where
  Rel := State.SameLinks
  Stopped s _ s' := s.SameLinks s'
  rel_refl := .refl
  rel_trans := .trans
  stop_here _ _ _ := .refl _
  stop_depth _ := .refl _
  stop_locate _ same := same
  stop_rel := .trans
  stop_closed same := Scopes.links_discard_child same
  stop_entered _ _ same := Scopes.links_discard_child same
  same _ frame := ⟨trivial, frame.links⟩
  closeScope _ _ rel := ⟨trivial, Scopes.links_discard_child rel⟩
  leave _ _ _ _ rel := ⟨trivial, Scopes.links_discard_child rel⟩

/-- As many scopes are open after a run as before, inside the same parents, however it ends. -/
def KeepsScopes {α : Type} (act : Run α) (s : State) : Prop :=
  (act.run s).2.scopes.links = s.scopes.links

/-- No construct opens a scope for good or closes one that it did not open. -/
structure Balanced (t : Translator) : Prop where
  expr : ∀ e ctx s, KeepsScopes (Translate.expr t e ctx) s
  stmt : ∀ st ctx s, KeepsScopes (Translate.stmt t st ctx) s
  block : ∀ body ctx s, KeepsScopes (Translate.block t body ctx) s
  infer : ∀ key cell args pos s, KeepsScopes (t.infer key cell args pos) s

theorem KeepsScopes.of_runs {α : Type} {act : Run α} {s : State}
    (runs : Runs act s (fun _ s' => s'.scopes.links = s.scopes.links)
      fun _ s' => s'.scopes.links = s.scopes.links) : KeepsScopes act s := by
  unfold KeepsScopes
  rcases run : act.run s with ⟨result, s'⟩
  cases result with
  | ok a => exact runs.of_ok run
  | error stop => exact runs.of_error run

theorem balanced (setting : Setting) (n : Nat) : Balanced ⟨setting, inferAt setting n⟩ := by
  have isOpen : (linksFrame setting).law.Open (fun _ _ => True) fun _ => True := FrameLaw.law_open id
  have infers : (linksFrame setting).law.Infers n (inferAt setting n) := Law.inferAt_infers n
  have everywhere : ∀ σ s, (linksFrame setting).law.At n σ s := fun _ _ => ⟨trivial, trivial⟩
  have admits : ∀ {key? names returns faultless},
      (linksFrame setting).law.Admits key? names returns faultless :=
    isOpen.admits fun _ _ => trivial
  have keeps : ∀ {α m σ s} {act : Run α} {post : α → State → Prop},
      (linksFrame setting).law.Holds n m σ s act post → KeepsScopes act s := fun holds =>
    .of_runs (Runs.imp holds (fun _ _ ended => ended.2.1.rel) fun _ _ same => same)
  refine ⟨fun e ctx s => ?_, fun st ctx s => ?_, fun body ctx s => ?_,
    fun key cell args pos s => .of_runs ?_⟩
  · exact keeps (Law.expr_evaluates infers e False.elim ctx s (everywhere _ _))
  · exact keeps (Law.stmt_holds infers st ctx s admits (everywhere _ _))
  · exact keeps (Law.block_holds infers body ctx s admits (everywhere _ _))
  · exact Runs.imp (infers s key cell args pos trivial trivial fun _ _ => trivial)
      (fun _ _ ended => ended.2.1) fun _ _ same => same

/-! ## Sites -/

/-- The tables of a run that can go on. -/
structure Sound (start : State) (sound : Prop) (n : Nat) (s : State) : Prop where
  remaining : Remaining start n s
  positive : 0 < s.scopes.size
  grounded : s.scopes.Grounded
  complete : sound → s.hierarchy.Complete
  bodies : sound → ∀ {key d}, s.definitions.Unresolved key d → Tree.blockFaultless d.body

theorem Sound.congr {start s s' : State} {sound : Prop} {n n' : Nat} (known : Sound start sound n s)
    (remaining : Remaining start n' s') (links : s'.scopes.links = s.scopes.links)
    (shape : s.hierarchy.SameShape s'.hierarchy)
    (unresolved : ∀ {key d}, s'.definitions.Unresolved key d → s.definitions.Unresolved key d) :
    Sound start sound n' s' where
  remaining := remaining
  positive := Scopes.size_eq_of_links links ▸ known.positive
  grounded := known.grounded.congr links
  complete h := (known.complete h).sameShape shape
  bodies h _ _ found := known.bodies h (unresolved found)

/-- The scopes of a site are open. -/
structure IsOpen (σ : Site) (s : State) : Prop where
  scope : s.scopes.isAlive σ.scope
  body : s.scopes.isAlive σ.body

theorem IsOpen.inScope {σ : Site} {s : State} (isOpen : IsOpen σ s) (bindings : List (String × Ty)) :
    IsOpen (σ.inScope s.scopes.size) (s.opened σ.scope bindings) where
  scope := decide_eq_true (Nat.lt_succ_self _)
  body := decide_eq_true (Nat.lt_succ_of_lt (of_decide_eq_true isOpen.body))

/-- The scopes of a site stay open, bodies begin only while definitions are left, and a fault is
ruled out where the code is `sound`. -/
def soundFrame (setting : Setting) (start : State) (sound : Prop) : FrameLaw setting where
  Inv := Sound start sound
  Here := IsOpen
  Rel s s' := Extends start s s' ∧ s'.scopes.links = s.scopes.links
  Faultless := sound
  Stopped _ stop _ := sound → stop.IsFailure
  rel_refl s := ⟨.same rfl rfl, rfl⟩
  rel_trans a b := ⟨a.1.trans b.1, b.2.trans a.2⟩
  here_rel here rel := by
    have size := Scopes.size_eq_of_links rel.2
    constructor
    · rw [Scopes.isAlive, size]
      exact here.scope
    · rw [Scopes.isAlive, size]
      exact here.body
  stop_here _ isFailure _ := isFailure
  stop_depth known := known.remaining.ne_zero.elim
  stop_locate pos isFailure h := (isFailure h).locate pos
  stop_rel _ isFailure := isFailure
  stop_closed isFailure := isFailure
  stop_entered _ _ isFailure := isFailure
  alive _ _ here := ⟨here.scope, here.body⟩
  complete h known := known.complete h
  same known frame := by
    obtain ⟨remaining, grown⟩ := (phaseFrame setting start).same known.remaining frame
    exact ⟨known.congr remaining frame.links frame.hierarchy fun h => frame.definitions ▸ h, grown,
      frame.links⟩
  openScope bindings known here := by
    obtain ⟨remaining, -⟩ := (phaseFrame setting start).openScope bindings known.remaining trivial
    exact ⟨⟨remaining, Nat.succ_pos _, known.grounded.child here.scope bindings, known.complete,
      known.bodies⟩, here.inScope bindings⟩
  closeScope known inside rel := by
    obtain ⟨remaining, grown⟩ :=
      (phaseFrame setting start).closeScope known.remaining inside.remaining rel.1
    have links := Scopes.links_discard_child rel.2
    have module : 0 < _ := Nat.lt_of_lt_of_eq known.positive (Scopes.size_eq_of_links links).symm
    exact ⟨⟨remaining, module, known.grounded.congr links, inside.complete, inside.bodies⟩, grown,
      links⟩
  enter {_ s key cell _ definition definitions params} known beginning := by
    have bodies : sound → ∀ {key d}, definitions.Unresolved key d → Tree.blockFaultless d.body :=
      fun h _ _ found =>
        known.bodies h ((Definitions.unresolved_iff_of_begin beginning.begins).mp found).2
    have module : s.scopes.isAlive Scopes.moduleScope := decide_eq_true known.positive
    have newest : (s.entered key cell definition definitions params).scopes.isAlive s.scopes.size :=
      decide_eq_true (Nat.lt_succ_self _)
    exact ⟨⟨known.remaining.entered beginning, Nat.succ_pos _, known.grounded.child module _,
      known.complete, bodies⟩, ⟨newest, newest⟩⟩
  enter_faultless known beginning h := known.bodies h (Definitions.begin?_cases beginning.begins).1
  leave known beginning run inside rel := by
    obtain ⟨remaining, grown⟩ :=
      (phaseFrame setting start).leave known.remaining beginning run inside.remaining rel.1
    have links := Scopes.links_discard_child rel.2
    have module : 0 < _ := Nat.lt_of_lt_of_eq known.positive (Scopes.size_eq_of_links links).symm
    refine ⟨⟨remaining, module, known.grounded.congr links, inside.complete, fun h _ _ found => ?_⟩,
      grown, links⟩
    exact inside.bodies h (Definitions.unresolved_iff_of_finish.mp found).2

/-! ## The outline -/

variable {api : ApiTables} {o o' : Outline} {s s' : State} {stmt : Tree.Stmt}
  {stmts : List Tree.Stmt}

/-- A run that may stop, but not at a fault. -/
def NoFault {α : Type} (act : Run α) (s : State) : Prop :=
  Runs act s (fun _ _ => True) fun stop _ => stop.IsFailure

theorem NoFault.bind {α β : Type} {act : Run α} {f : α → Run β} {post : α → State → Prop}
    {stopped : Stop → State → Prop} (first : NoFault act s) (runs : Runs act s post stopped)
    (next : ∀ a s', post a s' → NoFault (f a) s') : NoFault (act >>= f) s :=
  Runs.bind ((Runs.and runs first).imp (fun _ _ h => h.1) fun _ _ h => h.2) next

theorem NoFault.failAt {α : Type} {pos : Pos} {cause : Cause} :
    NoFault (failAt pos cause : Run α) s :=
  Runs.failAt fun _ => Stop.noConfusion

theorem NoFault.located {α : Type} {act : Run α} (pos : Pos) (first : NoFault act s) :
    NoFault (located pos act) s :=
  Runs.located (Runs.imp first (fun _ _ h => h) fun _ _ isFailure => isFailure.locate pos)

theorem declareConstant_noFault (positive : 0 < s.scopes.size) (complete : s.hierarchy.Complete)
    (name : String) {value : Tree.Expr} (faultless : value.faultless) :
    NoFault (declareConstant api o name value) s := by
  unfold declareConstant
  split
  · exact Runs.fail fun _ => Stop.noConfusion
  split
  · exact Runs.fail fun _ => Stop.noConfusion
  split
  · exact NoFault.failAt
  next isLiteral =>
  have isLiteral : value.isLiteral := by simpa using isLiteral
  have quiet := literal_isQuiet ⟨o.setting api, inferAt (o.setting api) 0⟩ value isLiteral
    (fun _ : True => faultless) Context.ofModule s fun _ => complete
  have first : NoFault (expr ⟨o.setting api, inferAt (o.setting api) 0⟩ value Context.ofModule) s :=
    Runs.imp quiet (fun _ _ _ => trivial) fun _ _ refuses => refuses.2.2 trivial
  refine first.bind quiet fun init s' ⟨same, _⟩ => ?_
  rw [same]
  refine Runs.define_bind (Runs.pure trivial) fun dead => absurd ?_ dead
  exact decide_eq_true positive

theorem checkDefinition_noFault (pos : Pos) (d : Tree.FunctionDef) :
    NoFault (checkDefinition pos d) s := by
  unfold checkDefinition
  split
  · exact NoFault.failAt
  · exact Runs.pure trivial

theorem declareMethod_noFault (pos : Pos) {className : String} (d : Tree.FunctionDef)
    (declared : s.hierarchy.isClass className) : NoFault (declareMethod pos className d) s := by
  unfold declareMethod
  split
  · exact NoFault.failAt
  refine (checkDefinition_noFault pos d).bind (checkDefinition_runs pos d) ?_
  rintro _ s' ⟨rfl, -⟩
  refine Runs.get ?_
  split
  · exact NoFault.failAt
  split
  · next none =>
    obtain ⟨info, found⟩ := Option.isSome_iff_exists.mp declared
    rw [Hierarchy.declareMethod, found] at none
    cases none
  · exact trivial

theorem declareMembers_noFault {className : String} (body : List Tree.Stmt)
    (declared : s.hierarchy.isClass className) : NoFault (declareMembers className body) s := by
  induction body generalizing s with
  | nil => exact Runs.pure trivial
  | cons member rest ih =>
    obtain ⟨kind, pos⟩ := member
    unfold declareMembers
    cases kind with
    | functionDef d =>
      refine (declareMethod_noFault pos d declared).bind (declareMethod_runs pos className d) ?_
      rintro _ s' ⟨isMethod, fresh, hierarchy, cells, cell, entered, rfl⟩
      have step : Members className s [⟨.functionDef d, pos⟩] _ :=
        .method isMethod fresh entered .nil
      exact ih (step.sameBases.isClass ▸ declared)
    | pass => exact ih declared
    | _ => exact Runs.failAt_bind fun _ => Stop.noConfusion

theorem ancestry_noFault (bases : List Tree.Expr) :
    Runs (ancestry s.hierarchy bases) s
      (fun found s' => s' = s ∧ ∀ base, found = .base (some base) → s.hierarchy.isClass base)
      fun stop _ => stop.IsFailure := by
  unfold ancestry
  split
  · exact Runs.pure ⟨rfl, nofun⟩
  · split
    · split
      · exact Runs.pure ⟨rfl, nofun⟩
      split
      · next isClass =>
        refine Runs.pure ⟨rfl, fun base same => ?_⟩
        cases same
        exact isClass
      · exact Runs.failAt fun _ => Stop.noConfusion
    · exact Runs.failAt fun _ => Stop.noConfusion
  · exact Runs.failAt fun _ => Stop.noConfusion

/-- The base of a class is declared when the class is. -/
theorem declareClass_noFault (pos : Pos) (d : Tree.ClassDef) : NoFault (declareClass pos d) s := by
  unfold declareClass
  split
  · exact NoFault.failAt
  refine Runs.get ((ancestry_noFault d.bases).bind ?_)
  rintro found s' ⟨same, isBase⟩
  rw [same]
  cases found with
  | exception base => exact Runs.modify_bind (Runs.pure trivial)
  | base base =>
    dsimp only
    split
    · next none =>
      cases base with
      | none => cases none
      | some b =>
        obtain ⟨info, found⟩ := Option.isSome_iff_exists.mp (isBase b rfl)
        rw [Hierarchy.declareClass, found] at none
        cases none
    · next hierarchy declared =>
      have isClass : hierarchy.isClass d.name := by
        obtain ⟨h₁, methods, rfl, -⟩ := Hierarchy.declareClass_cases declared
        rw [Hierarchy.isClass_withClass]
        simp
      refine Runs.modify_bind ?_
      exact Runs.bind (declareMembers_noFault d.body isClass) fun _ _ _ => Runs.pure trivial

theorem outlineStmt_noFault (positive : 0 < s.scopes.size) (complete : s.hierarchy.Complete)
    (faultless : stmt.faultless) : NoFault (outlineStmt api o stmt) s := by
  obtain ⟨kind, pos⟩ := stmt
  unfold outlineStmt
  cases kind with
  | importNames names =>
    refine NoFault.located pos ?_
    unfold declareImport
    split
    · exact Runs.fail fun _ => Stop.noConfusion
    · exact Runs.check_bind (fun _ _ => Runs.pure trivial) fun _ _ _ => Stop.noConfusion
  | importFrom module names => exact NoFault.failAt
  | functionDef d =>
    have first : NoFault (declareFunction pos d) s :=
      (checkDefinition_noFault pos d).bind (checkDefinition_runs pos d) fun _ _ _ => trivial
    exact Runs.bind first fun _ _ _ => Runs.pure trivial
  | classDef d => exact Runs.map (declareClass_noFault pos d)
  | assign targets value =>
    have sound := (Bool.and_eq_true_iff.mp faultless).2
    dsimp only
    split
    · exact Runs.pure trivial
    split
    · exact Runs.pure trivial
    · exact NoFault.failAt
    · exact NoFault.located _ (declareConstant_noFault positive complete _ sound)
  | _ => exact Runs.pure trivial

theorem outlineFrom_noFault (untouched : s.Untouched) (founded : s.hierarchy.Founded)
    (new : DeclaresNew s.hierarchy stmts) (faultless : Tree.blockFaultless stmts) :
    NoFault (outlineFrom api o stmts) s := by
  induction stmts generalizing s o with
  | nil => exact Runs.pure trivial
  | cons stmt rest ih =>
    have sound := Bool.and_eq_true_iff.mp faultless
    unfold outlineFrom
    refine (outlineStmt_noFault untouched.positive founded.complete sound.1).bind
      (outlineStmt_runs stmt) fun o₁ s₁ run => ?_
    exact ih (untouched.outlines run) (run.founded founded fun _ => new.first) (new.rest run) sound.2

/-! ## The definitions of the outline -/

theorem Members.unresolved_from {className : String} {body : List Tree.Stmt}
    (run : Members className s body s') {key : DefKey} {d : Tree.FunctionDef}
    (found : s'.definitions.Unresolved key d) :
    s.definitions.Unresolved key d ∨
      key = .method className d.name ∧ d ∈ body.filterMap Tree.Stmt.functionDef? := by
  induction run with
  | nil => exact .inl found
  | pass _ ih => exact ih found
  | @method s s' f pos rest hierarchy cells cell _ _ _ _ ih =>
    have listed : List.filterMap Tree.Stmt.functionDef? (⟨.functionDef f, pos⟩ :: rest) =
        f :: rest.filterMap Tree.Stmt.functionDef? := rfl
    rw [listed]
    rcases ih found with before | ⟨named, later⟩
    · by_cases same : key = .method className f.name
      · rw [same] at before
        have here : some (DefState.unresolved f) = some (.unresolved d) :=
          (Table.find?_insert_self ..).symm.trans before
        cases here
        exact .inr ⟨same, List.mem_cons_self⟩
      · exact .inl ((unresolved_insert same).mp before)
    · exact .inr ⟨named, List.mem_cons_of_mem _ later⟩

theorem Outlines.unresolved_from (run : Outlines o s stmt o' s') {key : DefKey}
    {d : Tree.FunctionDef} (found : s'.definitions.Unresolved key d) :
    s.definitions.Unresolved key d ∨ (key, d) ∈ stmt.keyedDefs := by
  cases run with
  | @function d' pos _ =>
    by_cases same : key = .function d'.name
    · rw [same] at found
      have here : some (DefState.unresolved d') = some (.unresolved d) :=
        (Table.find?_insert_self ..).symm.trans found
      cases here
      rw [same]
      exact .inr List.mem_cons_self
    · exact .inl ((unresolved_insert same).mp found)
  | classDef _ _ _ _ members =>
    refine (members.unresolved_from found).imp id ?_
    rintro ⟨rfl, written⟩
    exact List.mem_map.mpr ⟨d, written, rfl⟩
  | _ => exact .inl found

/-- The definitions of an outline are those of its statements. -/
theorem OutlinesAll.unresolved_from (run : OutlinesAll o s stmts o' s') {key : DefKey}
    {d : Tree.FunctionDef} (found : s'.definitions.Unresolved key d) :
    s.definitions.Unresolved key d ∨ (key, d) ∈ stmts.flatMap Tree.Stmt.keyedDefs := by
  induction run with
  | nil => exact .inl found
  | cons first _ ih =>
    rw [List.flatMap_cons, List.mem_append]
    rcases ih found with before | later
    · exact (first.unresolved_from before).imp id .inl
    · exact .inr (.inr later)

/-- What the outline enters is written in the module under its key. -/
theorem OutlinesAll.mem_keyedDefs {m : Tree.Module} (run : OutlinesAll .empty .empty m.body o s)
    {key : DefKey} {d : Tree.FunctionDef} (found : s.definitions.Unresolved key d) :
    (key, d) ∈ m.keyedDefs := by
  rcases run.unresolved_from found with before | written
  · cases before
  · exact written

/-! ## Modules -/

/-- The tables where something is translated: the scopes of the site are open, every scope is inside
an older one, and every class was declared after its base. -/
structure Safe (σ : Site) (s : State) : Prop where
  isOpen : IsOpen σ s
  grounded : s.scopes.Grounded
  founded : s.hierarchy.Founded

/-- No run of a module does anything outside the domain of an operation. -/
structure NeverFaults (api : ApiTables) (m : Tree.Module) : Prop where
  ends : ∀ f, translate api m ≠ .error (.fault f)
  reachable : ∀ o start n σ s, (outline api m).run .empty = (.ok o, start) →
    Reachable api o start (fun _ _ => True) (fun _ => True) n σ s → Safe σ s
  balanced : ∀ setting n, Balanced ⟨setting, inferAt setting n⟩

variable {m : Tree.Module}

theorem State.Untouched.logged (untouched : s.Untouched) : Logged s s [] := by
  refine ⟨?_, fun key began => ?_, fun key => ?_⟩
  · rw [untouched.progress]
    exact .start
  · rw [untouched.progress] at began
    cases began
  · rw [untouched.progress, Definitions.phase?]
    cases found : s.definitions.states.find? key with
    | none => rfl
    | some state =>
      obtain ⟨d, same⟩ := untouched.unresolved _ (Table.mem_of_findIn found)
      rw [show state = .unresolved d from same]
      rfl

/-- After the outline a run can go on. -/
theorem OutlinesAll.sound (run : OutlinesAll .empty .empty m.body o s) {sound : Prop}
    (bodies : sound → m.faultless) (distinct : sound → m.classNames.Nodup) (setting : Setting) :
    (soundFrame setting s sound).law.At (s.definitions.size + 1) .ofModule s := by
  have untouched := run.untouched .empty
  have positive := untouched.positive
  obtain ⟨bindings, module, -⟩ := untouched.scopes
  refine ⟨⟨⟨[], untouched.logged, rfl⟩, positive, module ▸ Scopes.grounded_singleton bindings,
    fun h => (run.founded .empty (.empty (distinct h))).complete, ?_⟩,
    ⟨decide_eq_true positive, decide_eq_true positive⟩⟩
  intro h key d found
  refine List.all_eq_true.mp (Bool.and_eq_true_iff.mp (bodies h)).2 d ?_
  obtain ⟨stmt, listed, written⟩ := List.mem_flatMap.mp (run.mem_keyedDefs found)
  refine List.mem_flatMap.mpr ⟨stmt, listed, ?_⟩
  rw [← stmt.map_keyedDefs]
  exact List.mem_map_of_mem written

theorem OutlinesAll.main_faultless (run : OutlinesAll .empty .empty m.body o s)
    (faultless : m.faultless) : Tree.blockFaultless o.main := by
  have all := (Bool.and_eq_true_iff.mp faultless).1
  have main : o.main = m.body.filter isMain := run.main_eq
  rw [main]
  rw [Tree.blockFaultless_iff] at all ⊢
  exact fun st hst => all st (List.mem_of_mem_filter hst)

theorem typedModule_noFault (api : ApiTables) (faultless : m.faultless)
    (distinct : m.classNames.Nodup) : NoFault (typedModule api m) .empty := by
  have body := (Bool.and_eq_true_iff.mp faultless).1
  have outlined : NoFault (outline api m) .empty :=
    outlineFrom_noFault .empty .empty (.empty distinct) body
  have main : NoFault (mainBlock api m) .empty := by
    unfold mainBlock
    refine outlined.bind (outline_runs m) fun o s run => Runs.get ?_
    have at_s := run.sound (fun _ : True => faultless) (fun _ => distinct) (o.setting api)
    have admits : (soundFrame (o.setting api) s True).law.AdmitsBlock none o.main :=
      ⟨fun _ _ => trivial, fun _ => trivial, fun _ => run.main_faultless faultless⟩
    have translated := Law.main_holds at_s admits
    rw [← bind_assoc]
    exact Runs.bind (Runs.imp translated (fun _ _ _ => trivial) fun _ _ isFailure => isFailure trivial)
      fun _ _ _ => Runs.pure trivial
  have collected : ∀ definitions s, NoFault (collectDefinitions definitions) s := by
    intro definitions s
    refine Runs.imp (collectDefinitions_runs definitions) (fun _ _ _ => trivial) ?_
    rintro _ s' ⟨key, pos, rfl⟩ f
    exact Stop.noConfusion
  unfold typedModule
  refine Runs.bind main fun found s _ => Runs.bind (collected _ s) fun _ _ _ => ?_
  exact Runs.get (Runs.pure trivial)

end Translate

/-! ## Top theorem -/

open Translate in
/-- If no comparison lacks an operand, the least integer is not negated and no class is declared
twice, then no operation of a run is outside its domain, whatever the tables of the standard
functions: scopes are open where they are used, a definition that begins is unresolved, and a base
is declared before the classes below it.  Every construct leaves the scopes as they were. -/
theorem never_faults (api : ApiTables) (m : Tree.Module) (faultless : m.faultless)
    (distinct : m.classNames.Nodup) : NeverFaults api m where
  ends f failed := by
    obtain ⟨s, run⟩ := run_of_translate failed
    exact (typedModule_noFault api faultless distinct).of_error run f rfl
  reachable o start n σ s outlined reachable := by
    have run := (outline_runs m).of_ok outlined
    have isOpen : (soundFrame (o.setting api) start False).law.Open (fun _ _ => True) fun _ => True :=
      FrameLaw.law_open id
    have at_start := run.sound (fun h : False => h.elim) False.elim (o.setting api)
    have at_s := Law.at_of_reachable isOpen at_start reachable
    have shape := Law.sameShape_of_reachable isOpen at_start reachable
    have founded : start.hierarchy.Founded :=
      run.founded .empty (.empty distinct)
    exact ⟨at_s.here, at_s.inv.grounded, founded.sameShape shape.hierarchy⟩
  balanced setting n := balanced setting n

open Tree.Build in
/-- A function that calls itself below a comparison, a class with a base, a loop and a handler. -/
def climbing : Tree.Module :=
  ⟨[define "climb" ["n"]
      [ifElse (compare (int 0) [(.lt, name "n"), (.lt, int 9)])
        [ret (some (unary .minus (int 1)))] [],
      ret (some (call (name "climb") [binOp (name "n") .add (int 1)]))],
    classDef "Base" none [define "up" ["self", "n"] [ret (some (name "n"))]],
    classDef "Stairs" (some "Base") [pass],
    forLoop (name "i") (call (name "range") [int 3])
      [tryExcept [exprStmt (method (call (name "Stairs") []) "up" [name "i"])]
        [handler (some "Exception") (some "e") [exprStmt (call (name "climb") [name "i"])]]]]⟩

theorem never_faults_climbing :
    (translate ApiTables.standard climbing).isOk ∧ climbing.faultless ∧
      climbing.classNames.Nodup ∧ Translate.NeverFaults ApiTables.standard climbing :=
  ⟨by decide +kernel, by decide +kernel, by decide +kernel,
    never_faults ApiTables.standard climbing (by decide +kernel) (by decide +kernel)⟩

open Tree.Build in
/-- An operator without an operand. -/
example : translate ApiTables.standard ⟨[exprStmt (expr (.compare (int 1) [.lt] []))]⟩ =
    .error (.fault .missingComparator) := rfl

open Tree.Build in
/-- A class that is its own base: an attribute that it does not have is looked for without end. -/
example : translate ApiTables.standard
    ⟨[classDef "Shape" none [pass], classDef "Shape" (some "Shape") [pass],
      exprStmt (attr (call (name "Shape") []) "size")]⟩ = .error (.fault .endlessWalk) := rfl

end TreeTyper
