import TreeTyper.Translate.State

/-!
# Phases of definitions

What one operation on the definitions of a module changes: the phase of one key,
forward, and which routines are finished.

    d.begin? key = some (f, d') →
      d'.phase? key' = if key' = key then some .inProgress else d.phase? key'
-/

namespace TreeTyper

/-- How far a definition has got. -/
def Phase.rank : Phase → Nat
  | unresolved => 0
  | inProgress => 1
  | resolved => 2

/-- The definition whose body a routine was made from. -/
def Typed.Routine.key (r : Typed.Routine) : DefKey :=
  match r.form with
  | .function => .function r.name
  | .method className _ => .method className r.name
  | .constructor className => .method className r.name

namespace Definitions

variable {d d' : Definitions} {key key' : DefKey} {f : Tree.FunctionDef} {r r' : Typed.Routine}

/-- The table holds a finished routine. -/
def Finished (d : Definitions) (key : DefKey) (r : Typed.Routine) : Prop :=
  (key, DefState.resolved r) ∈ d.states.entries

/-! ## One step -/

theorem begin?_cases (begins : d.begin? key = some (f, d')) :
    d.states.find? key = some (.unresolved f) ∧
      d' = { d with states := d.states.insert key .inProgress } := by
  unfold begin? at begins
  split at begins
  · next found =>
    cases begins
    exact ⟨found, rfl⟩
  · cases begins

theorem phase?_of_begin (begins : d.begin? key = some (f, d')) (key' : DefKey) :
    d'.phase? key' = if key' = key then some .inProgress else d.phase? key' := by
  obtain ⟨-, rfl⟩ := begin?_cases begins
  unfold phase?
  rw [Table.find?_insert]
  split <;> rfl

theorem unresolved_of_begin (begins : d.begin? key = some (f, d')) :
    d.phase? key = some .unresolved := by
  unfold phase?
  rw [(begin?_cases begins).1]
  rfl

theorem phase?_finish (d : Definitions) (key : DefKey) (r : Typed.Routine) (key' : DefKey) :
    (d.finish key r).phase? key' = if key' = key then some .resolved else d.phase? key' := by
  unfold phase? finish
  rw [Table.find?_insert]
  split <;> rfl

theorem finished_of_begin (begins : d.begin? key = some (f, d'))
    (finished : d'.Finished key' r) : d.Finished key' r := by
  obtain ⟨-, rfl⟩ := begin?_cases begins
  rcases Table.eq_or_mem_of_mem_insertIn finished with same | held
  · cases same
  · exact held

theorem finished_of_finish (finished : (d.finish key r).Finished key' r') :
    key' = key ∧ r' = r ∨ d.Finished key' r' := by
  rcases Table.eq_or_mem_of_mem_insertIn finished with same | held
  · cases same
    exact .inl ⟨rfl, rfl⟩
  · exact .inr held

theorem takeResolved?_cases (taken : d.takeResolved? key = some (r, d')) :
    d.states.find? key = some (.resolved r) ∧ d' = { d with states := d.states.erase key } := by
  unfold takeResolved? at taken
  split at taken
  · next found =>
    cases taken
    exact ⟨found, rfl⟩
  · cases taken

theorem finished_of_take (taken : d.takeResolved? key = some (r, d')) : d.Finished key r :=
  Table.mem_of_findIn (takeResolved?_cases taken).1

theorem finished_below (taken : d.takeResolved? key = some (r, d'))
    (finished : d'.Finished key' r') : d.Finished key' r' := by
  obtain ⟨-, rfl⟩ := takeResolved?_cases taken
  exact Table.mem_of_mem_eraseIn finished

end Definitions

end TreeTyper
