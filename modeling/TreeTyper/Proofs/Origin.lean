import TreeTyper.Proofs.Law.Frame
import TreeTyper.Proofs.Law.Module
import TreeTyper.Proofs.Links
import TreeTyper.Proofs.Skeleton

/-!
# Where routines come from

A definition that is unresolved is as the outline left it.  So every routine was
made from the syntax that the outline entered for its key, and its block has the
skeleton of that body.

    s.definitions.Finished key r → ∃ d, start.Defines key d ∧ r.Renders key d        (Stems.finished)
-/

namespace TreeTyper

/-- The syntax of a definition whose body has not begun. -/
def Definitions.Unresolved (d : Definitions) (key : DefKey) (definition : Tree.FunctionDef) : Prop :=
  d.states.find? key = some (.unresolved definition)

namespace Definitions

variable {d d' : Definitions} {key key' : DefKey} {f f' : Tree.FunctionDef} {r : Typed.Routine}

theorem unresolved_iff_of_begin (begins : d.begin? key = some (f, d')) :
    d'.Unresolved key' f' ↔ key' ≠ key ∧ d.Unresolved key' f' := by
  obtain ⟨-, rfl⟩ := begin?_cases begins
  unfold Unresolved
  rw [Table.find?_insert]
  split
  · next same => simp [same]
  · next other => simp [other]

theorem unresolved_iff_of_finish :
    (d.finish key r).Unresolved key' f' ↔ key' ≠ key ∧ d.Unresolved key' f' := by
  unfold Unresolved finish
  rw [Table.find?_insert]
  split
  · next same => simp [same]
  · next other => simp [other]

end Definitions

namespace Translate

open Typed

/-- A routine is the definition `d` of its key, with a block of the same skeleton. -/
structure Renders (key : DefKey) (d : Tree.FunctionDef) (r : Routine) : Prop where
  form : r.form = routineForm key
  name : r.name = key.name
  params : r.params = parameterNames key d
  skeleton : blockSkeleton r.block = Tree.blockSkeleton d.body

/-- Unresolved definitions are as the outline left them, and routines were made from such. -/
structure Stems (start s : State) : Prop where
  ordered : s.definitions.states.Ordered
  unresolved : ∀ {key d}, s.definitions.Unresolved key d → start.definitions.Unresolved key d
  finished : ∀ {key r}, s.definitions.Finished key r →
    ∃ d, start.definitions.Unresolved key d ∧ Renders key d r

namespace Stems

variable {start s s' : State} {key : DefKey} {cell : CellId} {args params : List Ty}
  {definition : Tree.FunctionDef} {definitions : Definitions}

theorem congr (stems : Stems start s) (same : s'.definitions = s.definitions) : Stems start s' where
  ordered := same ▸ stems.ordered
  unresolved h := stems.unresolved (same ▸ h)
  finished h := stems.finished (same ▸ h)

theorem begun (stems : Stems start s)
    (beginning : Beginning s key cell args definition definitions params) :
    start.definitions.Unresolved key definition :=
  stems.unresolved (Definitions.begin?_cases beginning.begins).1

theorem entered (stems : Stems start s)
    (beginning : Beginning s key cell args definition definitions params) :
    Stems start (s.entered key cell definition definitions params) where
  ordered := Definitions.ordered_of_begin stems.ordered beginning.begins
  unresolved h := stems.unresolved ((Definitions.unresolved_iff_of_begin beginning.begins).mp h).2
  finished h := stems.finished (Definitions.finished_of_begin beginning.begins h)

theorem ended (stems : Stems start s) (found : start.definitions.Unresolved key definition)
    {block : List Stmt} (skeleton : blockSkeleton block = Tree.blockSkeleton definition.body)
    (cell : CellId) :
    Stems start (s.finished key cell (parameterNames key definition) block) where
  ordered := Definitions.ordered_finish stems.ordered ..
  unresolved h := stems.unresolved (Definitions.unresolved_iff_of_finish.mp h).2
  finished h := by
    rcases Definitions.finished_of_finish h with ⟨rfl, rfl⟩ | held
    · exact ⟨definition, found, rfl, rfl, rfl, skeleton⟩
    · exact stems.finished held

end Stems

/-- Routines stem from the outline. -/
def originFrame (setting : Setting) (start : State) : FrameLaw setting where
  Inv _ := Stems start
  same stems frame := ⟨stems.congr frame.definitions, trivial⟩
  openScope _ stems _ := ⟨stems.congr rfl, trivial⟩
  closeScope _ stems _ := ⟨stems.congr rfl, trivial⟩
  enter stems beginning := ⟨stems.entered beginning, trivial⟩
  leave stems beginning run inside _ := by
    have skeleton := (block_skeleton _ _ _).of_ok run
    exact ⟨(inside.ended (stems.begun beginning) skeleton _).congr rfl, trivial⟩

variable {s : State}

/-- Before the first call nothing has begun. -/
theorem State.Untouched.stems (untouched : s.Untouched) (linked : s.Linked) : Stems s s where
  ordered := linked.ordered
  unresolved h := h
  finished h := (untouched.not_finished h).elim

/-- The routines of a module are made from its outline. -/
theorem mainBlock_stems (api : ApiTables) (m : Tree.Module) :
    Runs (mainBlock api m) .empty
      (fun found s => ∃ start, (outline api m).run .empty = (.ok found.1, start) ∧
        Stems start s ∧ start.SameShape s)
      fun _ _ => True := by
  refine mainBlock_runs (fun _ _ _ => trivial) fun o start outlined run => ?_
  have stems := (run.untouched .empty).stems (run.linked .empty)
  refine ⟨(originFrame (o.setting api) start).law, ⟨stems, trivial⟩, {},
    fun main s at' moves _ => ?_, fun _ _ _ => trivial⟩
  exact ⟨start, outlined, at'.inv, moves.shape⟩

end Translate

end TreeTyper
