import TreeTyper.Proofs.Declared
import TreeTyper.Proofs.Law.Frame
import TreeTyper.Proofs.Reachable

/-!
# Every body is translated at most once

The log of a run tells which bodies began and finished.  Bodies lie inside each
other, no body begins twice, and the phase of a definition is what the log says,
so phases only move forward; the bodies in progress are different definitions, so
the bound on their number is never reached.

    Logged start s stack        the log of s, with the bodies in progress, the innermost first
-/

namespace TreeTyper.Translate

open Typed

/-! ## Logs -/

/-- The bodies in progress after some changes of phases, the innermost first.  A body begins once
and finishes before the one around it. -/
inductive Nested : List Progress → List DefKey → Prop
  | start : Nested [] []
  | began {log stack key} : Nested log stack → Progress.began key ∉ log →
      Nested (log ++ [.began key]) (key :: stack)
  | finished {log stack key} : Nested log (key :: stack) →
      Nested (log ++ [.finished key]) stack

/-- The phase of a definition after some changes of phases. -/
def phaseAfter (log : List Progress) (key : DefKey) : Phase :=
  if .finished key ∈ log then .resolved
  else if .began key ∈ log then .inProgress
  else .unresolved

variable {log log' : List Progress} {stack : List DefKey} {key : DefKey}

/-- What the events of a log say about the bodies in progress. -/
structure Consistent (log : List Progress) (stack : List DefKey) : Prop where
  once : log.Nodup
  distinct : stack.Nodup
  mem_iff : ∀ key, key ∈ stack ↔ .began key ∈ log ∧ .finished key ∉ log
  began : ∀ key, .finished key ∈ log → .began key ∈ log

theorem Nested.consistent (nested : Nested log stack) : Consistent log stack := by
  induction nested with
  | start => exact ⟨List.nodup_nil, List.nodup_nil, by simp, by simp⟩
  | @began log stack key _ fresh ih =>
    have unfinished : .finished key ∉ log := fun finished => fresh (ih.began key finished)
    refine ⟨?_, ?_, fun other => ?_, fun other finished => ?_⟩
    · refine List.nodup_append.mpr ⟨ih.once, by simp, ?_⟩
      rintro event hevent _ hlast rfl
      rw [List.mem_singleton.mp hlast] at hevent
      exact fresh hevent
    · exact List.nodup_cons.mpr ⟨fun again => fresh ((ih.mem_iff key).mp again).1, ih.distinct⟩
    · by_cases same : other = key
      · simp [same, unfinished]
      · simp [same, ih.mem_iff other]
    · have before : .finished other ∈ log := by simpa using finished
      exact List.mem_append_left _ (ih.began other before)
  | @finished log stack key _ ih =>
    -- what finishes is on top of the stack: begun, and not finished before
    obtain ⟨apart, distinct⟩ := List.nodup_cons.mp ih.distinct
    obtain ⟨began, unfinished⟩ := (ih.mem_iff key).mp List.mem_cons_self
    refine ⟨?_, distinct, fun other => ?_, fun other finished => ?_⟩
    · refine List.nodup_append.mpr ⟨ih.once, by simp, ?_⟩
      rintro event hevent _ hlast rfl
      rw [List.mem_singleton.mp hlast] at hevent
      exact unfinished hevent
    · have outer := ih.mem_iff other
      by_cases same : other = key
      · simp [same, apart]
      · simpa [same] using outer
    · by_cases same : other = key
      · exact List.mem_append_left _ (same ▸ began)
      · have before : .finished other ∈ log := by simpa [same] using finished
        exact List.mem_append_left _ (ih.began other before)

/-- At every moment of a log some bodies are in progress. -/
theorem Nested.before (nested : Nested log' stack) (earlier : log <+: log') :
    ∃ stack, Nested log stack := by
  induction nested with
  | start =>
    rw [List.prefix_nil.mp earlier]
    exact ⟨[], .start⟩
  | @began log' stack key outer fresh ih =>
    rcases List.prefix_concat_iff.mp earlier with rfl | earlier
    · exact ⟨_, .began outer fresh⟩
    · exact ih earlier
  | @finished log' stack key outer ih =>
    rcases List.prefix_concat_iff.mp earlier with rfl | earlier
    · exact ⟨_, .finished outer⟩
    · exact ih earlier

/-- The log of a state and the phases of its definitions agree. -/
structure Logged (start s : State) (stack : List DefKey) : Prop where
  nested : Nested s.progress stack
  declared : ∀ key, .began key ∈ s.progress → (start.definitions.phase? key).isSome
  phases : ∀ key, s.definitions.phase? key =
    (start.definitions.phase? key).map fun _ => phaseAfter s.progress key

namespace Logged

variable {start s s' : State}

theorem congr (logged : Logged start s stack) (progress : s'.progress = s.progress)
    (definitions : s'.definitions = s.definitions) : Logged start s' stack := by
  refine ⟨?_, ?_, ?_⟩
  · rw [progress]
    exact logged.nested
  · rw [progress]
    exact logged.declared
  · rw [definitions, progress]
    exact logged.phases

theorem isSome_phase? (logged : Logged start s stack) (inProgress : key ∈ stack) :
    (start.definitions.phase? key).isSome :=
  logged.declared key ((logged.nested.consistent.mem_iff key).mp inProgress).1

theorem length_le (logged : Logged start s stack) :
    stack.length ≤ start.definitions.size := by
  have within : stack ⊆ start.definitions.states.keys := by
    intro key hkey
    have declared := logged.isSome_phase? hkey
    rw [Definitions.phase?, Option.isSome_map] at declared
    obtain ⟨found, hfound⟩ := Option.isSome_iff_exists.mp declared
    exact List.mem_map.mpr ⟨_, Table.mem_of_findIn hfound, rfl⟩
  have bound := List.Nodup.length_le_of_subset logged.nested.consistent.distinct within
  rwa [Table.keys, List.length_map] at bound

/-- An unresolved definition begins inside the bodies in progress. -/
theorem begins {definition : Tree.FunctionDef} {definitions : Definitions}
    (logged : Logged start s stack)
    (begins : s.definitions.begin? key = some (definition, definitions)) :
    Logged start { s with definitions, progress := s.progress ++ [.began key] } (key :: stack) := by
  have unresolved := Definitions.unresolved_of_begin begins
  rw [logged.phases key] at unresolved
  obtain ⟨found, declared, phase⟩ := Option.map_eq_some_iff.mp unresolved
  have unfinished : .finished key ∉ s.progress := by
    intro finished
    rw [phaseAfter, if_pos finished] at phase
    cases phase
  have fresh : .began key ∉ s.progress := by
    intro began
    rw [phaseAfter, if_neg unfinished, if_pos began] at phase
    cases phase
  refine ⟨.began logged.nested fresh, fun other began => ?_, fun other => ?_⟩
  · rcases List.mem_append.mp began with before | now
    · exact logged.declared other before
    · cases List.mem_singleton.mp now
      rw [declared]
      rfl
  · dsimp only
    rw [Definitions.phase?_of_begin begins]
    by_cases same : other = key
    · rw [if_pos same, same, declared]
      simp [phaseAfter, unfinished]
    · rw [if_neg same, logged.phases other]
      simp [phaseAfter, same]

/-- The innermost body finishes. -/
theorem finishes {routine : Routine} (logged : Logged start s (key :: stack)) :
    Logged start { s with
      definitions := s.definitions.finish key routine
      progress := s.progress ++ [.finished key] } stack := by
  refine ⟨.finished logged.nested, fun other began => ?_, fun other => ?_⟩
  · rcases List.mem_append.mp began with before | now
    · exact logged.declared other before
    · cases List.mem_singleton.mp now
  · dsimp only
    rw [Definitions.phase?_finish]
    by_cases same : other = key
    · obtain ⟨found, declared⟩ :=
        Option.isSome_iff_exists.mp (logged.isSome_phase? List.mem_cons_self)
      rw [if_pos same, same, declared]
      simp [phaseAfter]
    · rw [if_neg same, logged.phases other]
      simp [phaseAfter, same]

end Logged

/-! ## Runs -/

/-- A run extends the log and ends in the bodies in which it began. -/
structure Extends (start s s' : State) : Prop where
  grows : s.progress <+: s'.progress
  logged : ∀ stack, Logged start s stack → Logged start s' stack

namespace Extends

variable {start s s' s'' : State}

theorem same (progress : s'.progress = s.progress) (definitions : s'.definitions = s.definitions) :
    Extends start s s' :=
  ⟨by simp [progress], fun _ logged => logged.congr progress definitions⟩

theorem trans (a : Extends start s s') (b : Extends start s' s'') : Extends start s s'' :=
  ⟨a.grows.trans b.grows, fun stack logged => b.logged stack (a.logged stack logged)⟩

end Extends

/-- A run stops, but never because too many bodies are inside each other. -/
structure Halts (start s : State) (stop : Stop) (s' : State) : Prop where
  notDepth : stop ≠ .fault .depth
  grows : s.progress <+: s'.progress
  logged : (∃ stack, Logged start s stack) → ∃ stack, Logged start s' stack

/-- So many bodies can still begin as definitions are left. -/
def Remaining (start : State) (n : Nat) (s : State) : Prop :=
  ∃ stack, Logged start s stack ∧ n + stack.length = start.definitions.size + 1

namespace Remaining

variable {start s s' : State} {n : Nat}

theorem congr (remaining : Remaining start n s) (progress : s'.progress = s.progress)
    (definitions : s'.definitions = s.definitions) : Remaining start n s' := by
  obtain ⟨stack, logged, count⟩ := remaining
  exact ⟨stack, logged.congr progress definitions, count⟩

theorem ne_zero (remaining : Remaining start 0 s) : False := by
  obtain ⟨stack, logged, count⟩ := remaining
  have bound := logged.length_le
  omega

end Remaining

variable {start : State}

theorem logged_entered {s : State} {cell : CellId} {args params : List Ty}
    {definition : Tree.FunctionDef} {definitions : Definitions}
    (beginning : Beginning s key cell args definition definitions params)
    (logged : Logged start s stack) :
    Logged start (s.entered key cell definition definitions params) (key :: stack) :=
  (logged.begins beginning.begins).congr rfl rfl

theorem extends_entered {s s' : State} {cell : CellId} {args params : List Ty}
    {definition : Tree.FunctionDef} {definitions : Definitions} {names : List String}
    {block : List Stmt} (beginning : Beginning s key cell args definition definitions params)
    (inside : Extends start (s.entered key cell definition definitions params) s') :
    Extends start s ((s'.closed s.scopes.size).finished key cell names block) := by
  refine ⟨?_, fun stack logged => ?_⟩
  · have began : s.progress <+: s.progress ++ [.began key] := List.prefix_append ..
    exact (began.trans inside.grows).trans (List.prefix_append ..)
  · have innermost := inside.logged _ (logged_entered beginning logged)
    exact innermost.finishes.congr rfl rfl

theorem Remaining.entered {s : State} {n : Nat} {cell : CellId} {args params : List Ty}
    {definition : Tree.FunctionDef} {definitions : Definitions} (remaining : Remaining start (n + 1) s)
    (beginning : Beginning s key cell args definition definitions params) :
    Remaining start n (s.entered key cell definition definitions params) := by
  obtain ⟨stack, logged, count⟩ := remaining
  refine ⟨_, logged_entered beginning logged, ?_⟩
  rw [List.length_cons]
  omega

/-- The log tells the phases, and so many bodies can begin as definitions are left. -/
def phaseFrame (setting : Setting) (start : State) : FrameLaw setting where
  Inv := Remaining start
  Rel := Extends start
  Stopped := Halts start
  rel_refl _ := .same rfl rfl
  rel_trans := .trans
  stop_here notDepth _ _ := ⟨notDepth, List.prefix_refl _, id⟩
  stop_depth remaining := remaining.ne_zero.elim
  stop_locate pos halts := by
    refine ⟨?_, halts.grows, halts.logged⟩
    have notDepth := halts.notDepth
    unfold Stop.locate
    split
    · exact Stop.noConfusion
    · exact notDepth
  stop_rel rel halts := ⟨halts.notDepth, rel.grows.trans halts.grows, fun ⟨stack, logged⟩ =>
    halts.logged ⟨stack, rel.logged stack logged⟩⟩
  stop_closed halts := ⟨halts.notDepth, halts.grows, fun ⟨stack, logged⟩ => by
    obtain ⟨stack', logged'⟩ := halts.logged ⟨stack, logged.congr rfl rfl⟩
    exact ⟨stack', logged'.congr rfl rfl⟩⟩
  stop_entered _ beginning halts := by
    refine ⟨halts.notDepth, (List.prefix_append _ _).trans halts.grows, ?_⟩
    rintro ⟨stack, logged⟩
    obtain ⟨stack', logged'⟩ := halts.logged ⟨_, logged_entered beginning logged⟩
    exact ⟨stack', logged'.congr rfl rfl⟩
  same remaining frame := ⟨remaining.congr frame.progress frame.definitions,
    .same frame.progress frame.definitions⟩
  openScope _ remaining _ := ⟨remaining.congr rfl rfl, trivial⟩
  closeScope {_ s parent bindings s'} _ remaining rel := by
    have opened : Extends start s (s.opened parent bindings) := .same rfl rfl
    have closed : Extends start s' (s'.closed s.scopes.size) := .same rfl rfl
    exact ⟨remaining.congr rfl rfl, (opened.trans rel).trans closed⟩
  enter remaining beginning := ⟨remaining.entered beginning, trivial⟩
  leave remaining beginning _ _ rel := by
    obtain ⟨stack, logged, count⟩ := remaining
    exact ⟨⟨stack, (extends_entered beginning rel).logged stack logged, count⟩,
      extends_entered beginning rel⟩

def phaseLaw (setting : Setting) (start : State) : Law setting := (phaseFrame setting start).law

end TreeTyper.Translate
