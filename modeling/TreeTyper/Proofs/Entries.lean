import TreeTyper.Proofs.Growth
import TreeTyper.Proofs.Law.Also

/-!
# What a body makes of its parameters

A body begins with the types which its first call has left in the signature.  From
then on the signature and the scope of the body go separate ways: calls fill the
one, statements widen the other.  What is still known at the end is that both are
above the types with which the body began.

    BeganWith h s key r entry      what is left of the beginning once `r` is finished
-/

namespace TreeTyper

open Ty (FillsTo Widens)

namespace Typed.Routine

/-- A parameter by its place and its name; a later one of the same name would hide it. -/
def HasParam (r : Routine) (i : Nat) (name : String) : Prop :=
  r.params[i]? = some name ∧ name ∉ r.params.drop (i + 1)

/-- A node of the block that reads the parameter of a name: it is not in a handler that catches
under that name. -/
def Reads (r : Routine) (name : String) (x : Expr) : Prop :=
  x.kind = .localVar name ∧
    ∃ placed ∈ blockPlaced r.block, name ∉ placed.1 ∧ x ∈ placed.2.nodes

end Typed.Routine

/-! ## Bindings -/

/-- Of the bindings of a name the last one counts, wherever it stands. -/
theorem Scopes.find?_ofList_of_last {bindings : List (String × Ty)} {i : Nat} {name : String}
    {ty : Ty} (bound : bindings[i]? = some (name, ty))
    (last : ∀ b ∈ bindings.drop (i + 1), b.1 ≠ name) :
    (Table.ofList bindings).find? name = some ty := by
  obtain ⟨lt, here⟩ := List.getElem?_eq_some_iff.mp bound
  have parts : bindings = (bindings.take i ++ [(name, ty)]) ++ bindings.drop (i + 1) := by
    rw [← here, List.append_assoc, List.singleton_append, List.getElem_cons_drop,
      List.take_append_drop]
  have others : (bindings.drop (i + 1)).reverse.find? (·.1 = name) = none := by
    simpa using last
  rw [parts, Table.find?_ofList, List.reverse_append, List.find?_append, others]
  simp

namespace Translate

open Typed

/-- The types of the parameters with which the body of a routine began.  A call was accepted by
them; the signature has filled some of their holes since, and what the body reads is above them. -/
structure BeganWith (h : Hierarchy) (s : State) (key : DefKey) (r : Routine)
    (entry : List Ty) : Prop where
  call : ∃ call ∈ s.calls, call.key = key ∧ call.phase = .unresolved ∧ Accepts h call.args entry
  signature : ∃ cell, s.Links key cell ∧ List.Forall₂ FillsTo entry (s.cells.get cell).params
  reads : ∀ {i name t x}, r.HasParam i name → entry[i]? = some t → r.Reads name x →
    t.Widens h x.type

/-- A parameter is bound to its type, unless it has the name of the own instance of a method. -/
theorem find?_bodyBindings {key : DefKey} {names : List String} {params : List Ty} {i : Nat}
    {name : String} {t : Ty} (named : names[i]? = some name) (last : name ∉ names.drop (i + 1))
    (typed : params[i]? = some t) (notSelf : ¬(name = "self" ∧ key.className?.isSome)) :
    (Table.ofList (bodyBindings key names params)).find? name = some t := by
  have bound : (names.zip params)[i]? = some (name, t) :=
    List.getElem?_zip_eq_some.mpr ⟨named, typed⟩
  obtain ⟨lt, -⟩ := List.getElem?_eq_some_iff.mp bound
  refine Scopes.find?_ofList_of_last (i := i) ?_ ?_
  · rw [bodyBindings, List.getElem?_append_left lt]
    exact bound
  · have rest : (names.zip params).drop (i + 1) =
        (names.drop (i + 1)).zip (params.drop (i + 1)) := List.drop_zipWith
    rw [bodyBindings, List.drop_append_of_le_length lt, rest]
    intro b listed isName
    rcases List.mem_append.mp listed with isParam | isSelf
    · exact last (isName ▸ (List.of_mem_zip isParam).1)
    · split at isSelf
      · next isMethod =>
        rw [List.mem_singleton.mp isSelf] at isName
        exact notSelf ⟨isName.symm, by rw [isMethod]; rfl⟩
      · cases isSelf

/-! ## Bodies -/

/-- The watch of a body from where it begins, for what it reads from its variables. -/
def Watch.ofBody (entered : State) (scope : ScopeId) (key : DefKey) : Watch :=
  ⟨entered, False, scope, fun key' name =>
    key' = key ∧ (entered.scopes.lookupLocal scope name).isSome⟩

section Bodies

variable {setting : Setting} {n : Nat} {s s' : State} {key : DefKey} {cell : CellId}
  {args params : List Ty} {definition : Tree.FunctionDef} {definitions : Definitions}
  {block : List Stmt} {name : String} {ty : Ty}

theorem Watch.Above.ofBody (plain : (s.entered key cell definition definitions params).IsPlain)
    (beginning : Beginning s key cell args definition definitions params) (scope : ScopeId) :
    (Watch.ofBody (s.entered key cell definition definitions params) scope key).Above
      (s.entered key cell definition definitions params) where
  shape := .refl _
  plain
  size := Nat.le_refl _
  bindings _ _ old found := ⟨old, found, .refl old⟩
  attributes watched := watched.elim
  keepsSelf watched := watched.elim
  begun key' _ guarded f found := by
    obtain ⟨-, begun⟩ := Definitions.begin?_cases beginning.begins
    change definitions.states.find? key' = some (.unresolved f) at found
    rw [begun, guarded.1, Table.find?_insert_self] at found
    cases found

theorem Watch.Stands.ofBody (s : State) (key : DefKey) (cell : CellId)
    (definition : Tree.FunctionDef) (definitions : Definitions) (params : List Ty) :
    (Watch.ofBody (s.entered key cell definition definitions params) s.scopes.size key).Stands
      (.ofBody s.scopes.size key cell) (s.entered key cell definition definitions params) where
  scope := Nat.lt_succ_self _
  body := Nat.lt_succ_self _
  chain _ := ⟨Scopes.parent?_child_self .., .body⟩
  self watched := watched.elim
  owned _ _ _ guarded := ⟨rfl, guarded.2⟩

/-- What a body reads from a variable which it began with is above what that was. -/
theorem reads_above (plain : setting.api.IsPlain) (apart : s.hierarchy.NumbersApart)
    (plainTables : (s.entered key cell definition definitions params).IsPlain)
    (beginning : Beginning s key cell args definition definitions params)
    (run : (Translate.block ⟨setting, inferAt setting n⟩ definition.body
      ((Context.ofBody s.scopes.size key cell).last true)).run
      (s.entered key cell definition definitions params) = (.ok block, s'))
    (bound : (Table.ofList (bodyBindings key (parameterNames key definition) params)).find? name =
      some ty) :
    ∀ placed ∈ blockPlaced block, name ∉ placed.1 → ∀ x ∈ placed.2.nodes,
      x.kind = .localVar name →
      ¬(name = "self" ∧ key.className?.isSome) ∧ ty.Widens s.hierarchy x.type := by
  let w := Watch.ofBody (s.entered key cell definition definitions params) s.scopes.size key
  have positive : 0 < w.start.scopes.size := Nat.succ_pos _
  have known : w.start.scopes.lookupLocal s.scopes.size name = some ty :=
    (Scopes.lookupLocal_child_self ..).trans bound
  -- the watch starts with the body, so the law speaks of everything that is read in it
  let L := growthLaw setting w plain apart positive
  have begins : L.At n (.ofBody s.scopes.size key cell) w.start :=
    ⟨.ofBody plainTables beginning s.scopes.size, .ofBody ..⟩
  have admits : L.AdmitsBlock (some key) definition.body :=
    { binds := fun _ _ watched => watched.elim }
  have held := Law.block_holds (Law.inferAt_infers n) definition.body
    ((Context.ofBody s.scopes.size key cell).last true) w.start admits begins
  obtain ⟨-, -, keeps⟩ := held.of_ok run
  intro placed listed notCaught x below isVar
  have kept : w.Keeps (.ofBody s.scopes.size key cell) placed.1 s' placed.2 :=
    keeps.placed placed listed
  -- the name is still bound in the scope of the body, which is therefore where it resolves
  have guarded : w.guarded key name := ⟨rfl, Option.isSome_iff_exists.mpr ⟨ty, known⟩⟩
  have owned : (s'.scopes.lookupLocal s.scopes.size name).isSome :=
    (kept.owned key name rfl guarded).2
  obtain ⟨ty', found⟩ := Option.isSome_iff_exists.mp owned
  have resolved : s'.scopes.resolve s.scopes.size name = some (s.scopes.size, ty') := by
    rw [Scopes.resolve_eq, found]
  obtain ⟨notSelf, above⟩ := kept.guarded key name rfl guarded notCaught ty' resolved x below isVar
  exact ⟨notSelf, above ty known⟩

/-- The routine of a body that ends began with the types of its parameters. -/
theorem BeganWith.of_body {start : State} (linked : start.Linked) (plain : setting.api.IsPlain)
    (apart : start.hierarchy.NumbersApart) (signed : Signed setting.api start s)
    (links : s.Links key cell) (fine : ∀ t ∈ args, t.isPlain)
    (beginning : Beginning s key cell args definition definitions params)
    (run : (Translate.block ⟨setting, inferAt setting n⟩ definition.body
      ((Context.ofBody s.scopes.size key cell).last true)).run
      (s.entered key cell definition definitions params) = (.ok block, s'))
    {s'' : State} (shape : s.SameShape s'')
    (grows : GrowsTo setting.api.IsPlain (s.entered key cell definition definitions params) s'')
    {ret : Ty} {type : Ty} (called : (⟨key, cell, args, ret, type, .unresolved⟩ : Call) ∈ s''.calls) {r : Routine}
    (names : r.params = parameterNames key definition) (made : r.block = block) :
    BeganWith start.hierarchy s'' key r params where
  call := by
    obtain ⟨-, -, accepts⟩ := signed.withParams (fun _ => fine) beginning.matched
    exact ⟨_, called, rfl, rfl, accepts plain⟩
  signature := by
    refine ⟨cell, shape.links_iff.mpr links, ?_⟩
    have content := signed.get_withSignature linked links { s.cells.get cell with params }
    have fills := (grows cell).params plain
    change List.Forall₂ FillsTo ((s.withSignature cell _).cells.get cell).params _ at fills
    rwa [content] at fills
  reads := by
    rintro i name t x ⟨named, last⟩ typed ⟨isVar, placed, listed, notCaught, below⟩
    rw [names] at named last
    rw [made] at listed
    have plainParams := (signed.plain plain).matched fine beginning.matched
    have plainTables : (s.entered key cell definition definitions params).IsPlain :=
      (signed.plain plain).entered definitions plainParams
    have reads : ∀ {ty}, (Table.ofList (bodyBindings key (parameterNames key definition)
        params)).find? name = some ty →
        ¬(name = "self" ∧ key.className?.isSome) ∧ ty.Widens s.hierarchy x.type := fun bound =>
      reads_above plain (apart.sameShape signed.shape.hierarchy) plainTables beginning run bound
        placed listed notCaught x below isVar
    -- the name of the own instance is bound to that, whatever the parameters are called
    by_cases isSelf : name = "self" ∧ key.className?.isSome
    · obtain ⟨c, isMethod⟩ := Option.isSome_iff_exists.mp isSelf.2
      have bound :=
        find?_bodyBindings_self isMethod (parameterNames key definition) params
      rw [← isSelf.1] at bound
      exact absurd isSelf (reads bound).1
    · have widens := (reads (find?_bodyBindings named last typed isSelf)).2
      exact signed.shape.hierarchy.widens_iff.mp widens

end Bodies

/-! ## Runs -/

/-- Every finished routine began with some types. -/
def State.Entered (start s : State) : Prop :=
  ∀ key r, s.definitions.states.find? key = some (.resolved r) →
    ∃ entry, BeganWith start.hierarchy s key r entry

theorem BeganWith.mono {plain : Prop} (isPlain : plain) {h : Hierarchy} {s s' : State}
    {key : DefKey} {r : Routine} {entry : List Ty} (began : BeganWith h s key r entry)
    (shape : s.SameShape s') (grows : GrowsTo plain s s') (calls : s.calls ⊆ s'.calls) :
    BeganWith h s' key r entry where
  call := by
    obtain ⟨call, known, rest⟩ := began.call
    exact ⟨call, calls known, rest⟩
  signature := by
    obtain ⟨cell, links, fills⟩ := began.signature
    exact ⟨cell, shape.links_iff.mpr links,
      Ty.forall₂_fillsTo_trans fills ((grows cell).params isPlain)⟩
  reads := began.reads

theorem BeganWith.sameShape {h h' : Hierarchy} {s : State} {key : DefKey} {r : Routine}
    {entry : List Ty} (began : BeganWith h s key r entry) (same : h.SameShape h') :
    BeganWith h' s key r entry where
  call := by
    obtain ⟨call, known, reaches, phase, accepts⟩ := began.call
    exact ⟨call, known, reaches, phase, accepts.sameShape same⟩
  signature := began.signature
  reads named typed reads := same.widens_iff.mpr (began.reads named typed reads)

/-- That bodies began with some types is kept along with the signatures. -/
def entries (setting : Setting) {start : State} (linked : start.Linked)
    (plain : setting.api.IsPlain) : (signatureLaw setting linked).Addition where
  Inv s := start.hierarchy.NumbersApart → start.Entered s
  same := fun {s s'} entered hierarchy cells definitions calls apart key r found => by
    have shape : s.SameShape s' := ⟨by rw [hierarchy]; exact .refl _, by rw [definitions]⟩
    have known : s.calls ⊆ s'.calls := by
      rw [calls]
      exact List.Subset.refl _
    obtain ⟨entry, began⟩ := entered apart key r (definitions ▸ found)
    exact ⟨entry, began.mono plain shape (.of_cells cells) known⟩
  moves entered moves definitions calls apart key r found := by
    obtain ⟨entry, began⟩ := entered apart key r (definitions ▸ found)
    exact ⟨entry, began.mono plain moves.shape moves.rel.grows calls⟩
  enter {_ _ _ _ _ _ definitions _} signed entered _ fine beginning apart key' r found := by
    obtain ⟨-, begun⟩ := Definitions.begin?_cases beginning.begins
    change definitions.states.find? key' = some (.resolved r) at found
    rw [begun, Table.find?_insert] at found
    split at found
    · cases found
    · obtain ⟨entry, began⟩ := entered apart key' r found
      have grows := growsTo_entered signed (fun h t ht => fine t ht h) beginning
      exact ⟨entry, began.mono plain (sameShape_entered beginning) grows (List.Subset.refl _)⟩
  leave {_ s key cell args definition definitions params s' block} signed links fine beginning run
      inside entered rel shape _ _ _ apart key' r found := by
    have ended : Signed setting.api start (s'.closed s.scopes.size) :=
      inside.congr ⟨.refl _, rfl⟩ rfl rfl rfl fun h => (inside.plain h).closed s.scopes.size
    have linksEnded : (s'.closed s.scopes.size).Links key cell := shape.links_iff.mpr links
    have grows := (ended.returned linked linksEnded).2
    change (Definitions.finish _ key _).states.find? key' = some (.resolved r) at found
    rw [Definitions.finish, Table.find?_insert] at found
    split at found
    · next same =>
      cases found
      subst same
      refine ⟨params, .of_body linked plain apart signed links (fun t ht => fine t ht plain)
        beginning run ?_ ?_ List.mem_cons_self rfl rfl⟩
      · exact ⟨shape.hierarchy, shape.functions⟩
      · exact rel.grows.trans grows
    · obtain ⟨entry, began⟩ := entered apart key' r found
      exact ⟨entry, began.mono plain ⟨.refl _, rfl⟩ grows (List.subset_cons_self ..)⟩

end Translate

end TreeTyper
