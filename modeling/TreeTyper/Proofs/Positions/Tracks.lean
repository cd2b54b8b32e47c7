import Mathlib.Data.List.Forall2
import TreeTyper.Proofs.Positions.Relocate
import TreeTyper.Proofs.Run
import TreeTyper.Translate.Context

/-!
# Runs over relocated trees

The tables of a run hold positions in the syntax of the definitions that no call
reached yet, and nowhere else.  `TracksTo f g act act'` relates a run to the run
of the same tree elsewhere: from relocated tables it ends in relocated tables,
with the result that `g` makes of the other one, or it stops for the same reason
at the relocated position.  `Tracks` is the case of a result without positions.

    Tracks f act act' →
      act'.run (s.relocate f) = (relocateResult f id (act.run s).1, (act.run s).2.relocate f)

There is one rule for each primitive of a run; sequences are taken apart by
`Tracks.bind`.
-/

namespace TreeTyper

/-! ## Tables -/

namespace Table

variable {κ α β : Type} {g : α → β}

/-- The table with `g` applied to every value. -/
def mapValues (g : α → β) (t : Table κ α) : Table κ β := ⟨t.entries.map fun p => (p.1, g p.2)⟩

@[simp] theorem size_mapValues (t : Table κ α) : (t.mapValues g).size = t.size :=
  List.length_map ..

variable [DecidableEq κ]

@[simp] theorem find?_mapValues (t : Table κ α) (k : κ) :
    (t.mapValues g).find? k = (t.find? k).map g := by
  obtain ⟨entries⟩ := t
  change findIn k (entries.map _) = (findIn k entries).map g
  induction entries with
  | nil => rfl
  | cons p rest ih =>
    simp only [List.map_cons, findIn]
    split
    · rfl
    · exact ih

theorem erase_mapValues (t : Table κ α) (k : κ) :
    (t.mapValues g).erase k = (t.erase k).mapValues g := by
  obtain ⟨entries⟩ := t
  refine congrArg mk ?_
  change eraseIn k (entries.map _) = (eraseIn k entries).map _
  induction entries with
  | nil => rfl
  | cons p rest ih =>
    simp only [List.map_cons, eraseIn, ih]
    split <;> rfl

theorem insert_mapValues [LT κ] [DecidableLT κ] (t : Table κ α) (k : κ) (v : α) :
    (t.mapValues g).insert k (g v) = (t.insert k v).mapValues g := by
  obtain ⟨entries⟩ := t
  refine congrArg mk ?_
  change insertIn k (g v) (entries.map _) = (insertIn k v entries).map _
  induction entries with
  | nil => rfl
  | cons p rest ih =>
    simp only [List.map_cons, insertIn, ih]
    split
    · rfl
    split <;> rfl

end Table

/-! ## Definitions -/

def DefState.relocate (f : Relocation) : DefState → DefState
  | unresolved definition => unresolved (definition.relocate f)
  | inProgress => inProgress
  | resolved routine => resolved routine

namespace Definitions

def relocate (f : Relocation) (d : Definitions) : Definitions :=
  { d with states := d.states.mapValues (DefState.relocate f) }

variable {f : Relocation}

@[simp] theorem size_relocate (d : Definitions) : (d.relocate f).size = d.size :=
  Table.size_mapValues _

@[simp] theorem function?_relocate (d : Definitions) (name : String) :
    (d.relocate f).function? name = d.function? name := rfl

@[simp] theorem phase?_relocate (d : Definitions) (key : DefKey) :
    (d.relocate f).phase? key = d.phase? key := by
  unfold phase?
  rw [relocate, Table.find?_mapValues, Option.map_map]
  refine congrArg (Option.map · _) (funext fun state => ?_)
  cases state with
  | unresolved definition => rfl
  | inProgress => rfl
  | resolved routine => rfl

theorem begin?_relocate (d : Definitions) (key : DefKey) :
    (d.relocate f).begin? key =
      (d.begin? key).map fun begun => (begun.1.relocate f, begun.2.relocate f) := by
  unfold begin?
  rw [relocate, Table.find?_mapValues]
  cases d.states.find? key with
  | none => rfl
  | some state =>
    cases state with
    | unresolved definition =>
      have inserted := d.states.insert_mapValues (g := DefState.relocate f) key .inProgress
      exact congrArg (fun states => some (definition.relocate f, { d with states })) inserted
    | inProgress => rfl
    | resolved routine => rfl

theorem finish_relocate (d : Definitions) (key : DefKey) (routine : Typed.Routine) :
    (d.relocate f).finish key routine = (d.finish key routine).relocate f :=
  congrArg (fun states => { d with states }) (d.states.insert_mapValues key (.resolved routine))

theorem takeResolved?_relocate (d : Definitions) (key : DefKey) :
    (d.relocate f).takeResolved? key =
      (d.takeResolved? key).map fun taken => (taken.1, taken.2.relocate f) := by
  unfold takeResolved?
  rw [relocate, Table.find?_mapValues]
  cases d.states.find? key with
  | none => rfl
  | some state =>
    cases state with
    | resolved routine =>
      exact congrArg (fun states => some (routine, { d with states }))
        (d.states.erase_mapValues key)
    | unresolved definition => rfl
    | inProgress => rfl

theorem declareMethod_relocate (d : Definitions) (className : String)
    (definition : Tree.FunctionDef) :
    (d.relocate f).declareMethod className (definition.relocate f) =
      (d.declareMethod className definition).relocate f := by
  unfold declareMethod
  rw [definition.name_relocate]
  have inserted := d.states.insert_mapValues (g := DefState.relocate f)
    (.method className definition.name) (.unresolved definition)
  exact congrArg (fun states => { d with states }) inserted

end Definitions

namespace Translate

open Scopes (moduleScope)

variable {α β : Type} {f : Relocation}

def State.relocate (f : Relocation) (s : State) : State :=
  { s with definitions := s.definitions.relocate f }

namespace State

@[simp] theorem scopes_relocate (s : State) : (s.relocate f).scopes = s.scopes := rfl

@[simp] theorem hierarchy_relocate (s : State) : (s.relocate f).hierarchy = s.hierarchy := rfl

@[simp] theorem cells_relocate (s : State) : (s.relocate f).cells = s.cells := rfl

@[simp] theorem definitions_relocate (s : State) :
    (s.relocate f).definitions = s.definitions.relocate f := rfl

end State

/-- The stop at the relocated position. -/
def Stop.relocate (f : Relocation) : Stop → Stop
  | failure cause location => failure cause (location.map f.node)
  | fault f => fault f

/-- The result with `g` applied to it, or the stop at the relocated position. -/
def relocateResult (f : Relocation) (g : α → β) : Except Stop α → Except Stop β
  | .ok a => .ok (g a)
  | .error stop => .error (stop.relocate f)

/-- From relocated tables, `act'` does what `act` does, with the result that `g` makes of it. -/
structure TracksTo (f : Relocation) (g : α → β) (act : Run α) (act' : Run β) : Prop where
  same : ∀ s,
    act'.run (s.relocate f) = (relocateResult f g (act.run s).1, (act.run s).2.relocate f)

/-- From relocated tables, `act'` does what `act` does. -/
def Tracks (f : Relocation) (act act' : Run α) : Prop := TracksTo f id act act'

theorem Stop.relocate_locate (stop : Stop) (pos : Pos) :
    (stop.locate pos).relocate f = (stop.relocate f).locate (f.node pos) := by
  cases stop with
  | failure cause location =>
    cases location with
    | none => rfl
    | some inner => rfl
  | fault fault => rfl

/-! ## Sequences and stops -/

namespace TracksTo

variable {γ δ : Type} {g : α → γ} {h : β → δ}

theorem pure (a : α) : TracksTo f g (Pure.pure a) (Pure.pure (g a)) := ⟨fun _ => rfl⟩

theorem bind {act : Run α} {act' : Run γ} {next : α → Run β} {next' : γ → Run δ}
    (first : TracksTo f g act act') (rest : ∀ a, TracksTo f h (next a) (next' (g a))) :
    TracksTo f h (act >>= next) (act' >>= next') := by
  refine ⟨fun s => ?_⟩
  have same := first.same s
  rcases run : act.run s with ⟨result, s'⟩
  rw [run] at same
  cases result with
  | ok a => rw [Runs.run_bind_ok run, Runs.run_bind_ok same, (rest a).same s']
  | error stop =>
    rw [Runs.run_bind_error run, Runs.run_bind_error same]
    rfl

theorem get {next : State → Run β} {next' : State → Run δ}
    (rest : ∀ s, TracksTo f h (next s) (next' (s.relocate f))) :
    TracksTo f h (MonadState.get >>= next) (MonadState.get >>= next') :=
  ⟨fun s => (rest s).same s⟩

theorem fail (cause : Cause) : TracksTo f g (fail cause) (Translate.fail cause) := ⟨fun _ => rfl⟩

theorem failAt (pos : Pos) (cause : Cause) :
    TracksTo f g (failAt pos cause) (Translate.failAt (f.node pos) cause) := ⟨fun _ => rfl⟩

theorem abort (fault : Fault) : TracksTo f g (abort fault) (Translate.abort fault) :=
  ⟨fun _ => rfl⟩

theorem located {act : Run α} {act' : Run γ} (inner : TracksTo f g act act') (pos : Pos) :
    TracksTo f g (Translate.located pos act) (Translate.located (f.node pos) act') := by
  refine ⟨fun s => ?_⟩
  have same := inner.same s
  rcases run : act.run s with ⟨result, s'⟩
  rw [run] at same
  cases result with
  | ok a =>
    simp only [Translate.located, ExceptT.run_mk, run, same]
    rfl
  | error stop =>
    simp only [Translate.located, ExceptT.run_mk, run, same]
    exact congrArg (fun stop => (Except.error stop, s'.relocate f)) (stop.relocate_locate pos).symm

theorem ite {c c' : Prop} [Decidable c] [Decidable c'] {act other : Run α} {act' other' : Run γ}
    (same : c' = c) (yes : TracksTo f g act act') (no : TracksTo f g other other') :
    TracksTo f g (if c then act else other) (if c' then act' else other') := by
  subst same
  by_cases h : c'
  · rw [if_pos h, if_pos h]
    exact yes
  · rw [if_neg h, if_neg h]
    exact no

end TracksTo

namespace Tracks

variable {act act' : Run α} {next next' : α → Run β}

theorem pure (a : α) : Tracks f (Pure.pure a) (Pure.pure a) := TracksTo.pure a

theorem bind (first : Tracks f act act') (rest : ∀ a, Tracks f (next a) (next' a)) :
    Tracks f (act >>= next) (act' >>= next') :=
  TracksTo.bind first rest

/-- A result without positions, used for one with positions. -/
theorem bindTo {γ : Type} {h : β → γ} {next : α → Run β} {next' : α → Run γ}
    (first : Tracks f act act') (rest : ∀ a, TracksTo f h (next a) (next' a)) :
    TracksTo f h (act >>= next) (act' >>= next') :=
  TracksTo.bind first rest

theorem map {g : α → β} (first : Tracks f act act') : Tracks f (g <$> act) (g <$> act') := by
  rw [← bind_pure_comp, ← bind_pure_comp]
  exact first.bind fun a => .pure (g a)

theorem get {next next' : State → Run β} (rest : ∀ s, Tracks f (next s) (next' (s.relocate f))) :
    Tracks f (MonadState.get >>= next) (MonadState.get >>= next') :=
  TracksTo.get rest

theorem modify {g g' : State → State} (same : ∀ s, g' (s.relocate f) = (g s).relocate f) :
    Tracks f (modify g) (modify g') :=
  ⟨fun s => congrArg (Prod.mk (Except.ok PUnit.unit)) (same s)⟩

theorem set {s s' : State} (same : s' = s.relocate f) : Tracks f (set s) (set s') :=
  ⟨fun _ => congrArg (Prod.mk (Except.ok PUnit.unit)) same⟩

theorem fail (cause : Cause) : Tracks f (fail cause : Run α) (Translate.fail cause) :=
  TracksTo.fail cause

theorem failAt (pos : Pos) (cause : Cause) :
    Tracks f (failAt pos cause : Run α) (Translate.failAt (f.node pos) cause) :=
  TracksTo.failAt pos cause

theorem abort (fault : Fault) : Tracks f (abort fault : Run α) (Translate.abort fault) :=
  TracksTo.abort fault

theorem check (result : Except Cause α) : Tracks f (check result) (Translate.check result) := by
  cases result with
  | ok a => exact .pure a
  | error cause => exact .fail cause

theorem check_bind {result : Except Cause α} (rest : ∀ a, Tracks f (next a) (next' a)) :
    Tracks f (Translate.check result >>= next) (Translate.check result >>= next') :=
  (check result).bind rest

theorem walk_bind {ends : Bool} {next next' : Unit → Run β}
    (rest : Tracks f (next ()) (next' ())) :
    Tracks f (walk ends >>= next) (walk ends >>= next') := by
  cases ends with
  | true => exact (pure ()).bind fun _ => rest
  | false => exact (abort _).bind fun _ => rest

theorem located (inner : Tracks f act act') (pos : Pos) :
    Tracks f (located pos act) (Translate.located (f.node pos) act') :=
  TracksTo.located inner pos

theorem ite {c c' : Prop} [Decidable c] [Decidable c'] {other other' : Run α} (same : c' = c)
    (yes : Tracks f act act') (no : Tracks f other other') :
    Tracks f (if c then act else other) (if c' then act' else other') :=
  TracksTo.ite same yes no

/-! ## Scopes and cells -/

theorem requireAlive (id : ScopeId) : Tracks f (requireAlive id) (Translate.requireAlive id) :=
  .get fun _ => .ite rfl (.pure ()) (.abort _)

theorem lookup (id : ScopeId) (name : String) :
    Tracks f (lookup id name) (Translate.lookup id name) :=
  (requireAlive id).bind fun _ => .get fun _ => .pure _

theorem define (id : ScopeId) (name : String) (ty : Ty) :
    Tracks f (define id name ty) (Translate.define id name ty) :=
  (requireAlive id).bind fun _ => .modify fun _ => rfl

theorem assign (id : ScopeId) (name : String) (ty : Ty) :
    Tracks f (assign id name ty) (Translate.assign id name ty) :=
  (requireAlive id).bind fun _ => .modify fun _ => rfl

theorem localOwner (ctx : Context) (name : String) :
    Tracks f (localOwner ctx name) (Translate.localOwner ctx name) :=
  (requireAlive _).bind fun _ => .get fun _ => .ite rfl (.pure _) (.pure _)

theorem signature (cell : CellId) : Tracks f (signature cell) (Translate.signature cell) :=
  .get fun _ => .pure _

theorem setSignature (cell : CellId) (signature : Signature) :
    Tracks f (setSignature cell signature) (Translate.setSignature cell signature) :=
  .modify fun _ => rfl

theorem useDependency (space : String) :
    Tracks f (useDependency space) (Translate.useDependency space) := by
  refine .modify fun s => ?_
  change (if space ∈ s.dependencies then _ else _) = _
  split <;> rfl

theorem inScope {parent : ScopeId} {bindings : List (String × Ty)} {act act' : ScopeId → Run α}
    (inner : ∀ scope, Tracks f (act scope) (act' scope)) :
    Tracks f (inScope parent bindings act) (Translate.inScope parent bindings act') := by
  refine ⟨fun s => ?_⟩
  have same := (inner s.scopes.size).same (s.opened parent bindings)
  exact congrArg (fun ran : Except Stop α × State => (ran.1, ran.2.closed s.scopes.size)) same

end Tracks

/-! ## Deferred parts -/

/-- The part of a relocated tree in the place of a part. -/
structure Deferred.Tracks (f : Relocation) (d d' : Deferred) : Prop where
  source : d'.source = d.source.relocate f
  run : ∀ ctx, Translate.Tracks f (d.run ctx) (d'.run ctx)

/-- Calls of definitions from relocated positions do what they do elsewhere. -/
def Infer.Tracks (f : Relocation) (infer : Infer) : Prop :=
  ∀ key cell args pos,
    Translate.Tracks f (infer key cell args pos) (infer key cell args (f.node pos))

theorem Deferred.Tracks.pos {d d' : Deferred} (tracks : d.Tracks f d') :
    d'.source.pos = f.node d.source.pos := by
  rw [tracks.source, Tree.Expr.pos_relocate]

theorem Tracks.runAll {ds ds' : List Deferred} (tracks : List.Forall₂ (Deferred.Tracks f) ds ds')
    (ctx : Context) : Tracks f (runAll ctx ds) (Translate.runAll ctx ds') := by
  induction tracks with
  | nil => exact .pure []
  | cons first _ ih => exact (first.run ctx).bind fun _ => ih.bind fun _ => .pure _

end Translate

end TreeTyper
