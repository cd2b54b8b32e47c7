import TreeTyper.Proofs.Declared
import TreeTyper.Proofs.Law.Infer
import TreeTyper.Proofs.Ordered

/-!
# Modules keep every law

After the outline a module is a run at one site, which keeps a law that holds of
the tables then.  The definitions that are put out at the end are the routines
that the tables hold.
-/

namespace TreeTyper.Translate

open Typed

namespace Law

variable {setting : Setting} {L : Law setting} {n : Nat} {infer : Infer} {s : State} {σ : Site}

/-- The functions without parameters have their cells. -/
theorem links_pureFunctions {definitions : List TopDefinition} :
    ∀ d ∈ pureFunctions s definitions, s.Links d.1 d.2.1 := by
  intro d hd
  obtain ⟨top, -, found⟩ := List.mem_filterMap.mp hd
  split at found
  · split at found
    · next declared =>
      split at found
      · cases found
        exact declared
      · cases found
    · cases found
  · cases found

theorem inferPure_holds {m : Mode} (infers : L.Infers n infer)
    (definitions : List (DefKey × CellId × Pos)) (links : ∀ d ∈ definitions, s.Links d.1 d.2.1)
    (at_s : L.At n σ s) :
    L.Holds n m σ s (inferPure ⟨setting, infer⟩ definitions) fun _ _ => True := by
  induction definitions generalizing s with
  | nil => exact Holds.pure at_s trivial
  | cons d rest ih =>
    obtain ⟨key, cell, pos⟩ := d
    have first : s.Links key cell := links (key, cell, pos) List.mem_cons_self
    have others : ∀ d ∈ rest, s.Links d.1 d.2.1 := fun d hd => links d (List.mem_cons_of_mem _ hd)
    unfold inferPure
    refine Holds.get ?_
    split
    · exact (infers.holds at_s first (by simp)).bind fun _ s' at' move _ =>
        ih (fun d hd => move.links (others d hd)) at'
    · exact ih others at_s

/-- What a module does after its outline. -/
theorem main_holds {o : Outline} {api : ApiTables} {L : Law (o.setting api)} {s : State}
    (at_s : L.At (s.definitions.size + 1) .ofModule s)
    (admits : L.AdmitsBlock none o.main) :
    L.Holds (s.definitions.size + 1) .stmt .ofModule s
      (do
        inferPure (translatorOf api o s.definitions.size) (pureFunctions s o.definitions)
        block (translatorOf api o s.definitions.size) o.main Context.ofModule)
      fun main s' => L.KeepsBlock .ofModule s' main := by
  have infers := inferAt_infers (L := L) (s.definitions.size + 1)
  refine (inferPure_holds infers _ links_pureFunctions at_s).bind fun _ s' at' _ _ => ?_
  exact block_holds infers o.main Context.ofModule s' admits at'

end Law

variable {api : ApiTables} {m : Tree.Module} {s : State}

/-- The main block runs after the outline; a law for every outline says what it does. -/
theorem mainBlock_runs {post : Outline × List Stmt → State → Prop} {stopped : Stop → State → Prop}
    (early : ∀ stop s, StopsEarly .empty stop s → stopped stop s)
    (later : ∀ o s, (outline api m).run .empty = (.ok o, s) →
      OutlinesAll .empty .empty m.body o s → ∃ L : Law (o.setting api),
      L.At (s.definitions.size + 1) .ofModule s ∧ L.AdmitsBlock none o.main ∧
      (∀ main s', L.At (s.definitions.size + 1) .ofModule s' → L.Moves .stmt .ofModule s s' →
        L.KeepsBlock .ofModule s' main → post (o, main) s') ∧
      ∀ stop s', L.Stopped s stop s' → stopped stop s') :
    Runs (mainBlock api m) .empty post stopped := by
  unfold mainBlock
  have outlined : Runs (outline api m) .empty
      (fun o s => (outline api m).run .empty = (.ok o, s) ∧
        OutlinesAll .empty .empty m.body o s) stopped :=
    (outline_runs m).of_run.imp (fun _ _ ended => ended) early
  refine outlined.bind fun o s ⟨ended, run⟩ => ?_
  obtain ⟨L, at_s, admits, ends, stops⟩ := later o s ended run
  refine Runs.get ?_
  rw [← bind_assoc]
  refine Runs.bind (Runs.imp (Law.main_holds at_s admits) (fun _ _ h => h) stops) ?_
  rintro main s' ⟨at', moves, keeps⟩
  exact Runs.pure (ends main s' at' moves keeps)

/-! ## Definitions -/

theorem key_of_form {r : Routine} {key : DefKey} (form : r.form = routineForm key)
    (named : r.name = key.name) : r.key = key := by
  rw [Routine.key, form, named]
  cases key with
  | function name => rfl
  | method className name =>
    by_cases isConstructor : (DefKey.method className name).isConstructor
    · rw [routineForm, if_pos isConstructor]
      rfl
    · rw [routineForm, if_neg isConstructor]
      rfl

/-- The state with some other phases. -/
def State.withDefinitions (s : State) (definitions : Definitions) : State := { s with definitions }

/-- Only finished routines are taken out of the definitions, each under its key; the rest stays as
it is. -/
structure Takes (s : State) (keys : List DefKey) (routines : List Routine) (s' : State) : Prop where
  listed : ∀ r ∈ routines, ∃ key ∈ keys, s.definitions.Finished key r
  finished : ∀ key ∈ keys, ∃ r, s.definitions.Finished key r
  below : ∀ key r, s'.definitions.Finished key r → s.definitions.Finished key r
  rest : ∃ definitions, definitions.functions = s.definitions.functions ∧
    s' = s.withDefinitions definitions
  /-- Nothing is taken out twice. -/
  once : s.definitions.states.Ordered → s'.definitions.states.Ordered ∧ keys.Nodup ∧
    ∀ key ∈ keys, ∀ r, ¬s'.definitions.Finished key r

namespace Takes

variable {s s' s'' : State} {keys keys' : List DefKey} {routines routines' : List Routine}

theorem held (takes : Takes s keys routines s') :
    ∀ r ∈ routines, ∃ key, s.definitions.Finished key r := fun r hr =>
  (takes.listed r hr).imp fun _ found => found.2

theorem hierarchy (takes : Takes s keys routines s') : s'.hierarchy = s.hierarchy := by
  obtain ⟨definitions, -, rfl⟩ := takes.rest
  rfl

theorem none (s : State) : Takes s [] [] s :=
  ⟨by simp, by simp, fun _ _ h => h, ⟨s.definitions, rfl, rfl⟩,
    fun ordered => ⟨ordered, .nil, by simp⟩⟩

theorem append (a : Takes s keys routines s') (b : Takes s' keys' routines' s'') :
    Takes s (keys ++ keys') (routines ++ routines') s'' := by
  refine ⟨fun r hr => ?_, fun key hkey => ?_, fun key r h => a.below key r (b.below key r h), ?_,
    fun ordered => ?_⟩
  · rcases List.mem_append.mp hr with hr | hr
    · obtain ⟨key, known, finished⟩ := a.listed r hr
      exact ⟨key, List.mem_append_left _ known, finished⟩
    · obtain ⟨key, known, finished⟩ := b.listed r hr
      exact ⟨key, List.mem_append_right _ known, a.below key r finished⟩
  · rcases List.mem_append.mp hkey with hkey | hkey
    · exact a.finished key hkey
    · obtain ⟨r, finished⟩ := b.finished key hkey
      exact ⟨r, a.below key r finished⟩
  · obtain ⟨definitions, functions, rfl⟩ := a.rest
    obtain ⟨definitions', functions', rfl⟩ := b.rest
    exact ⟨definitions', functions'.trans functions, rfl⟩
  · obtain ⟨ordered', distinct, gone⟩ := a.once ordered
    obtain ⟨ordered'', distinct', gone'⟩ := b.once ordered'
    refine ⟨ordered'', List.nodup_append.mpr ⟨distinct, distinct', ?_⟩, fun key hkey r h => ?_⟩
    · rintro key hkey _ hkey' rfl
      obtain ⟨r, finished⟩ := b.finished key hkey'
      exact gone key hkey r finished
    · rcases List.mem_append.mp hkey with hkey | hkey
      · exact gone key hkey r (b.below key r h)
      · exact gone' key hkey r h

theorem subset (a : Takes s keys routines s') (within : ∀ r ∈ routines', r ∈ routines) :
    Takes s keys routines' s' :=
  { a with listed := fun r hr => a.listed r (within r hr) }

end Takes

/-- A definition that was not reached stops the run. -/
def Unreached (stop : Stop) : Prop := ∃ key pos, stop = .failure (.unreached key) (some pos)

theorem takeRoutine_runs (pos : Pos) (key : DefKey) :
    Runs (takeRoutine pos key) s (fun r s' => Takes s [key] [r] s') fun stop _ => Unreached stop := by
  unfold takeRoutine
  refine Runs.get ?_
  split
  · next r definitions taken =>
    have found := Definitions.finished_of_take taken
    obtain ⟨-, same⟩ := Definitions.takeResolved?_cases taken
    refine ⟨by simpa using found, by simpa using ⟨r, found⟩,
      fun key' r' h => Definitions.finished_below taken h, ⟨definitions, by rw [same], rfl⟩,
      fun ordered => ⟨Definitions.ordered_of_take ordered taken, by simp, ?_⟩⟩
    intro key' hkey r' finished
    have ordered' := Definitions.ordered_of_take ordered taken
    rw [List.mem_singleton.mp hkey, Definitions.finished_iff ordered', same,
      ordered.find?_erase_self] at finished
    cases finished
  · exact Runs.failAt ⟨key, pos, rfl⟩

theorem takeRoutines_runs (pos : Pos) (keys : List DefKey) :
    Runs (takeRoutines pos keys) s
      (fun rs s' => Takes s keys rs s' ∧ List.Forall₂ s.definitions.Finished keys rs)
      fun stop _ => Unreached stop := by
  induction keys generalizing s with
  | nil => exact Runs.pure ⟨.none s, .nil⟩
  | cons key rest ih =>
    refine (takeRoutine_runs pos key).bind fun r s₁ first => ?_
    refine ih.bind fun rs s₂ ⟨others, finished⟩ => Runs.pure ⟨first.append others, .cons ?_ ?_⟩
    · obtain ⟨key', known, found⟩ := first.listed r List.mem_cons_self
      rwa [List.mem_singleton.mp known] at found
    · exact finished.imp first.below

/-- What is put out for a definition of the top level: its routines in the order of the methods. -/
inductive PutOut (s : State) : TopDefinition → Definition → Prop
  | function {name pos r} : s.definitions.Finished (.function name) r →
      PutOut s (.function name pos) (.routine r)
  | exception {name base} : PutOut s (.exception name base) (.exception name base)
  | classDef {name base pos rs} :
      List.Forall₂ (fun f r => s.definitions.Finished (.method name f) r)
        (s.hierarchy.ownMethods name) rs →
      PutOut s (.classDef name base pos) (.classDef (classOf s.hierarchy name base rs))

theorem PutOut.below {s' : State} {top : TopDefinition} {found : Definition}
    (isPutOut : PutOut s' top found) (same : s'.hierarchy = s.hierarchy)
    (below : ∀ key r, s'.definitions.Finished key r → s.definitions.Finished key r) :
    PutOut s top found := by
  cases isPutOut with
  | function finished => exact .function (below _ _ finished)
  | exception => exact .exception
  | classDef finished =>
    rw [same] at finished ⊢
    exact .classDef (finished.imp fun _ _ => below _ _)

/-- Something is put out for every definition of the top level. -/
theorem mem_putOut {tops : List TopDefinition} {found : List Definition} {top : TopDefinition}
    (putOut : List.Forall₂ (PutOut s) tops found) (known : top ∈ tops) :
    ∃ d ∈ found, PutOut s top d := by
  induction putOut with
  | nil => cases known
  | cons first _ ih =>
    rcases List.mem_cons.mp known with rfl | known
    · exact ⟨_, List.mem_cons_self, first⟩
    · obtain ⟨d, later, isPutOut⟩ := ih known
      exact ⟨d, List.mem_cons_of_mem _ later, isPutOut⟩

theorem routines_classOf {h : Hierarchy} {name : String} {base : Option String}
    {routines : List Routine} {r : Routine}
    (hr : r ∈ (Definition.classDef (classOf h name base routines)).routines) : r ∈ routines := by
  rcases List.mem_append.mp hr with hr | hr
  · exact (List.mem_filter.mp hr).1
  · exact (List.mem_filter.mp (List.mem_of_getLast? (Option.mem_toList.mp hr))).1

theorem collectDefinition_runs (d : TopDefinition) :
    Runs (collectDefinition d) s
      (fun found s' => Takes s ((d.keys s.hierarchy).map (·.1)) found.routines s' ∧
        PutOut s d found)
      fun stop _ => Unreached stop := by
  cases d with
  | function name pos =>
    refine Runs.map ((takeRoutine_runs pos _).imp (fun r s' taken => ⟨taken, ?_⟩) fun _ _ h => h)
    obtain ⟨key, known, found⟩ := taken.listed r List.mem_cons_self
    rw [List.mem_singleton.mp known] at found
    exact .function found
  | exception name base => exact Runs.pure ⟨.none s, .exception⟩
  | classDef name base pos =>
    have keys : (TopDefinition.keys s.hierarchy (.classDef name base pos)).map (·.1) =
        (s.hierarchy.ownMethods name).map (.method name ·) := by
      rw [TopDefinition.keys, List.map_map]
      rfl
    rw [keys]
    refine Runs.get ((takeRoutines_runs pos _).bind fun rs s' found => ?_)
    obtain ⟨taken, finished⟩ := found
    refine Runs.pure ⟨taken.subset fun r hr => routines_classOf hr, .classDef ?_⟩
    exact List.forall₂_map_left_iff.mp finished

theorem collectDefinitions_runs (ds : List TopDefinition) :
    Runs (collectDefinitions ds) s
      (fun found s' => Takes s ((ds.flatMap (·.keys s.hierarchy)).map (·.1))
        (found.flatMap Definition.routines) s' ∧ List.Forall₂ (PutOut s) ds found)
      fun stop _ => Unreached stop := by
  induction ds generalizing s with
  | nil => exact Runs.pure ⟨.none s, .nil⟩
  | cons d rest ih =>
    rw [List.flatMap_cons, List.map_append]
    refine (collectDefinition_runs d).bind fun found s₁ ⟨first, isPutOut⟩ => ?_
    refine ih.bind fun others s₂ ⟨later, rest⟩ => Runs.pure ⟨first.append ?_, .cons isPutOut ?_⟩
    · rwa [first.hierarchy] at later
    · exact rest.imp fun _ _ isPutOut => isPutOut.below first.hierarchy first.below

theorem run_of_translate {result : Except Stop Module} (translated : translate api m = result) :
    ∃ s, (typedModule api m).run .empty = (result, s) :=
  ⟨_, Prod.ext translated rfl⟩

/-- A module is its main block with what is put out for its definitions after it. -/
theorem typedModule_puts_out {post : Outline × List Stmt → State → Prop} {stopped : Stop → State → Prop}
    (main : Runs (mainBlock api m) .empty post stopped)
    (unreached : ∀ found s stop s', post found s → Unreached stop → stopped stop s') :
    Runs (typedModule api m) .empty
      (fun typed s' => ∃ o s, post (o, typed.main) s ∧ typed.constants = o.constants ∧
        Takes s ((o.keys s.hierarchy).map (·.1)) typed.routines s' ∧
        List.Forall₂ (PutOut s) o.definitions typed.definitions) stopped := by
  unfold typedModule
  refine main.bind ?_
  rintro ⟨o, block⟩ s found
  refine Runs.bind (Runs.imp (collectDefinitions_runs o.definitions) (fun _ _ h => h) ?_) ?_
  · exact fun stop s' stops => unreached (o, block) s stop s' found stops
  rintro definitions s' ⟨taken, isPutOut⟩
  exact ⟨o, s, found, rfl, taken, isPutOut⟩

/-- A module is its main block with definitions that the tables hold after it. -/
theorem typedModule_runs {post : Outline × List Stmt → State → Prop} {stopped : Stop → State → Prop}
    (main : Runs (mainBlock api m) .empty post stopped)
    (unreached : ∀ found s stop s', post found s → Unreached stop → stopped stop s') :
    Runs (typedModule api m) .empty
      (fun typed s' => ∃ o s, post (o, typed.main) s ∧ typed.constants = o.constants ∧
        Takes s ((o.keys s.hierarchy).map (·.1)) typed.routines s') stopped :=
  (typedModule_puts_out main unreached).imp
    (fun _ _ ⟨o, s, found, constants, taken, _⟩ => ⟨o, s, found, constants, taken⟩) fun _ _ h => h

end TreeTyper.Translate
