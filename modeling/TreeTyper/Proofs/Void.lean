import TreeTyper.Proofs.Agreement
import TreeTyper.Proofs.Origin

/-!
# Definitions that return nothing

The return type of a body that ends is `Void` if its cell is still open.  Methods
that override each other share the cell, so what counts is whether a return stands
in any of their bodies: where none does, the cell holds nothing or `Void`.
-/

namespace TreeTyper

namespace Translate

open Typed

/-! ## Cells without returns -/

/-- The only cell of a definition, where no definition of the cell returns. -/
structure Silent (start : State) (key : DefKey) (cell : CellId) : Prop where
  links : start.Links key cell
  own : ∀ cell', start.Links key cell' → cell' = cell
  other : key.isConstructor = false
  silent : ∀ {key' d}, start.Links key' cell → start.definitions.Unresolved key' d →
    Tree.blockReturns d.body = false

/-- The return types of a cell without returns. -/
def IsSilent (ret : Ty) : Prop := ret = .hole ∨ ret = .void

theorem IsSilent.returnAfter {key : DefKey} {found : Signature} (isSilent : IsSilent found.ret)
    (other : key.isConstructor = false) : returnAfter key found = .void := by
  rw [returnAfter_of_not_constructor other]
  rcases isSilent with isOpen | isVoid
  · rw [if_pos isOpen]
  · rw [isVoid]
    rfl

/-- The cell holds no return type but `Void`, and that is what the definition got. -/
structure Quiet (start : State) (key : DefKey) (cell : CellId) (s : State) : Prop where
  stems : Stems start s
  shape : start.SameShape s
  ret : IsSilent (s.cells.get cell).ret
  returns : ∀ {r}, s.definitions.Finished key r → r.returns = .void

namespace Quiet

variable {start s s' : State} {key key' : DefKey} {cell cell' : CellId} {args params : List Ty}
  {definition : Tree.FunctionDef} {definitions : Definitions}

theorem congr (quiet : Quiet start key cell s) (shape : s.SameShape s')
    (cells : s'.cells = s.cells) (same : s'.definitions = s.definitions) :
    Quiet start key cell s' where
  stems := quiet.stems.congr same
  shape := quiet.shape.trans shape
  ret := cells ▸ quiet.ret
  returns h := quiet.returns (same ▸ h)

/-- A signature is written to another cell, or with another silent return type. -/
theorem withSignature (quiet : Quiet start key cell s) {signature : Signature}
    (keeps : cell' = cell → IsSilent signature.ret) :
    Quiet start key cell (s.withSignature cell' signature) where
  stems := quiet.stems.congr rfl
  shape := quiet.shape.trans ⟨.refl _, rfl⟩
  ret := by
    change IsSilent ((s.cells.set cell' signature).get cell).ret
    rcases get_set_cases s.cells cell' cell signature with ⟨written, same⟩ | kept
    · rw [written]
      exact keeps same.symm
    · rw [kept]
      exact quiet.ret
  returns := quiet.returns

theorem withParams (quiet : Quiet start key cell s) (cell' : CellId) (params : List Ty) :
    Quiet start key cell (s.withSignature cell' { s.cells.get cell' with params }) :=
  quiet.withSignature fun same => same ▸ quiet.ret

theorem entered (quiet : Quiet start key cell s)
    (beginning : Beginning s key' cell' args definition definitions params) :
    Quiet start key cell (s.entered key' cell' definition definitions params) :=
  { quiet.withParams cell' params with
    stems := quiet.stems.entered beginning
    shape := quiet.shape.trans (sameShape_entered beginning)
    returns := fun h => quiet.returns (Definitions.finished_of_begin beginning.begins h) }

/-- A body ends, that of a definition of the cell or of another one. -/
theorem ended (quiet : Quiet start key cell s) (linked : start.Linked)
    (silent : Silent start key cell) (links : start.Links key' cell')
    (found : start.definitions.Unresolved key' definition) {block : List Stmt}
    (skeleton : blockSkeleton block = Tree.blockSkeleton definition.body) :
    Quiet start key cell (s.finished key' cell' (parameterNames key' definition) block) := by
  have isVoid : cell' = cell → returnAfter key' (s.cells.get cell') = .void := by
    rintro rfl
    refine quiet.ret.returnAfter (Bool.eq_false_iff.mpr fun isConstructor => ?_)
    obtain ⟨className, rfl⟩ := eq_of_isConstructor isConstructor
    have same := linked.alone links silent.links
    rw [same] at silent
    cases silent.other
  have written : Quiet start key cell (s.withSignature cell'
      { s.cells.get cell' with ret := returnAfter key' (s.cells.get cell') }) :=
    quiet.withSignature fun same => .inr (isVoid same)
  refine ⟨quiet.stems.ended found skeleton cell', quiet.shape.trans ⟨.refl _, rfl⟩, written.ret,
    fun h => ?_⟩
  rcases Definitions.finished_of_finish h with ⟨rfl, rfl⟩ | held
  · exact isVoid (silent.own cell' links)
  · exact quiet.returns held

end Quiet

/-- A cell without returns stays silent. -/
def silentLaw (setting : Setting) {start : State} {key : DefKey} {cell : CellId}
    (linked : start.Linked) (silent : Silent start key cell) : Law setting where
  Inv _ := Quiet start key cell
  Here σ _ := ∀ key' cell', σ.definition = some (key', cell') → start.Links key' cell'
  Knows := State.Links
  Returns key? := ∀ key' ∈ key?, ¬start.Links key' cell
  here_rel here _ _ := here
  depend _ _ quiet := ⟨quiet.congr ⟨.refl _, rfl⟩ rfl rfl, trivial⟩
  retype {_ σ s e _ ty} quiet _ _ _ _ := by
    have shape := Law.sameShape_refined s σ e ty
    obtain ⟨scopes, hierarchy, same⟩ := s.refined_eq σ e ty
    rw [same] at shape ⊢
    exact ⟨quiet.congr shape rfl rfl, trivial, trivial⟩
  openScope quiet here _ _ := ⟨quiet.congr ⟨.refl _, rfl⟩ rfl rfl, here⟩
  closeScope _ _ quiet _ _ := ⟨quiet.congr ⟨.refl _, rfl⟩ rfl rfl, trivial⟩
  declare quiet _ _ _ _ _ := ⟨quiet.congr ⟨.refl _, rfl⟩ rfl rfl, trivial⟩
  join quiet _ _ _ _ _ _ := ⟨quiet.congr ⟨.refl _, rfl⟩ rfl rfl, trivial⟩
  joinAttribute _ _ quiet _ _ _ :=
    ⟨quiet.congr ⟨.updateAttribute .., rfl⟩ rfl rfl, trivial, trivial⟩
  register _ quiet _ _ := ⟨quiet.congr ⟨.registerAttribute .., rfl⟩ rfl rfl, trivial⟩
  merge {_ _ _ key' cell' _ _ _} quiet here definition returns _ _ _ := by
    -- a definition that returns is none of the cell
    refine ⟨quiet.withSignature fun same => ?_, trivial, trivial⟩
    exact absurd (same ▸ here key' cell' definition) (returns key' rfl)
  answer quiet _ _ _ _ _ :=
    ⟨(quiet.withParams _ _).congr ⟨.refl _, rfl⟩ rfl rfl, trivial, trivial⟩
  enter quiet links _ beginning := by
    refine ⟨quiet.entered beginning, ?_⟩
    rintro _ _ ⟨⟩
    exact quiet.shape.links_iff.mp links
  enter_returns quiet _ beginning returns := by
    rintro _ ⟨⟩ links
    rw [silent.silent links (quiet.stems.begun beginning)] at returns
    cases returns
  leave quiet links _ beginning run inside _ _ _ _ := by
    have skeleton := (block_skeleton _ _ _).of_ok run
    have ended := inside.ended linked silent (quiet.shape.links_iff.mp links)
      (quiet.stems.begun beginning) skeleton
    exact ⟨ended.congr ⟨.refl _, rfl⟩ rfl rfl, trivial, trivial⟩

/-! ## The end of a run -/

/-- A definition of a cell without returns ends with the return type `Void`. -/
theorem mainBlock_silent {api : ApiTables} {m : Tree.Module} {o : Outline} {start : State}
    (outlined : (outline api m).run .empty = (.ok o, start)) {key : DefKey} {cell : CellId}
    (silent : Silent start key cell) :
    Runs (mainBlock api m) .empty
      (fun _ s => ∀ r, s.definitions.Finished key r → r.returns = .void) fun _ _ => True := by
  refine mainBlock_runs (fun _ _ _ => trivial) fun o' start' outlined' run => ?_
  obtain ⟨⟨⟩, rfl⟩ := Prod.ext_iff.mp (outlined.symm.trans outlined')
  have untouched := run.untouched .empty
  have linked := run.linked .empty
  have isSilent : IsSilent (start.cells.get cell).ret := by
    obtain ⟨arity, same⟩ := untouched.get_cells cell
    rw [same]
    exact .inl rfl
  have quiet : Quiet start key cell start := ⟨untouched.stems linked, .refl start, isSilent,
    fun finished => (untouched.not_finished finished).elim⟩
  exact ⟨silentLaw (o.setting api) linked silent,
    ⟨quiet, fun _ _ definition => nomatch definition⟩, { returns := fun _ _ => (nomatch ·) },
    fun main s at' _ _ r finished => at'.inv.returns finished, fun _ _ _ => trivial⟩

/-- A method shares its cell with one of another class, which returns. -/
def State.LendsReturn (start : State) (key : DefKey) : Prop :=
  ∃ c c' f cell d, key = .method c f ∧ c' ≠ c ∧ start.Links (.method c f) cell ∧
    start.Links (.method c' f) cell ∧ start.definitions.Unresolved (.method c' f) d ∧
    Tree.blockReturns d.body

theorem Renders.returned_ne_nil {key : DefKey} {d : Tree.FunctionDef} {r : Routine}
    (renders : Renders key d r) (returns : Tree.blockReturns d.body) :
    blockReturned r.block ≠ [] := by
  intro none
  have absent := (returns_blockSkeleton r.block).mpr none
  rw [renders.skeleton, Tree.blockReturns_skeleton d.body returns] at absent
  cases absent

theorem Renders.key_eq {key : DefKey} {d : Tree.FunctionDef} {r : Routine}
    (renders : Renders key d r) : r.key = key :=
  key_of_form renders.form renders.name

theorem fillsTo_void {t : Ty} (fills : t.FillsTo .void) : t = .void ∨ t = .hole := by
  cases t with
  | hole => exact .inr rfl
  | atom name => exact .inl ((Ty.fillsTo_iff_of_not_hasHoles rfl).mp fills).symm
  | _ => cases fills

end Translate

/-! ## Top theorem -/

open Translate in
/-- In a module that is translated, a definition with return type `Void` returns nothing but `Void`
and values of which nothing is known.  A definition that returns nothing but `Void` has return type
`Void`, unless it is a method without any return and takes its type over from one of the same cell. -/
theorem void_returns (api : ApiTables) (m : Tree.Module) (typed : Typed.Module) (o : Outline)
    (start s : State) (outlined : (outline api m).run .empty = (.ok o, start))
    (run : (typedModule api m).run .empty = (.ok typed, s)) :
    ∀ r ∈ typed.routines, r.key.isConstructor = false →
      (r.returns = .void → ∀ e ∈ Typed.blockReturned r.block, e.type = .void ∨ e.type = .hole) ∧
      ((∀ e ∈ Typed.blockReturned r.block, e.type = .void) →
        r.returns = .void ∨ Typed.blockReturned r.block = [] ∧ start.LendsReturn r.key) := by
  have settled := (typedModule_settled api m).of_ok run
  have stems := mainBlock_stems api m
  obtain ⟨o', s₀, ⟨start', outlined', stems₀, shape⟩, -, taken⟩ :=
    (typedModule_runs stems fun _ _ _ _ _ _ => trivial).of_ok run
  intro r hr other
  obtain ⟨cell, agrees, unique⟩ := settled.routines r hr
  have returned := agrees.returned other
  refine ⟨fun isVoid e he => fillsTo_void (isVoid ▸ returned e he), fun allVoid => ?_⟩
  by_cases none : Typed.blockReturned r.block = []
  swap
  · obtain ⟨e, he⟩ := List.exists_mem_of_ne_nil _ none
    have fills := returned e he
    rw [allVoid e he] at fills
    exact .inl ((Ty.fillsTo_iff_of_not_hasHoles rfl).mp fills)
  by_cases lends : start.LendsReturn r.key
  · exact .inr ⟨none, lends⟩
  obtain ⟨⟨⟩, rfl⟩ := Prod.ext_iff.mp (outlined.symm.trans outlined')
  have linked := ((outline_runs m).of_ok outlined).linked .empty
  have shape' : start.SameShape s := by
    obtain ⟨definitions, functions, rfl⟩ := taken.rest
    exact shape.trans ⟨.refl _, functions⟩
  have links : start.Links r.key cell := shape'.links_iff.mp agrees.links
  -- neither this body nor that of another definition of the cell returns
  have silent : Silent start r.key cell := by
    refine ⟨links, fun cell' links' => unique cell' (shape'.links_iff.mpr links'), other, ?_⟩
    intro key' d links' unresolved
    refine Bool.eq_false_iff.mpr fun returns => ?_
    by_cases same : key' = r.key
    · obtain ⟨key, -, finished⟩ := taken.listed r hr
      obtain ⟨d', unresolved', renders⟩ := stems₀.finished finished
      rw [same, renders.key_eq] at unresolved
      obtain ⟨⟩ := Option.some.inj (unresolved.symm.trans unresolved')
      exact renders.returned_ne_nil returns none
    · rcases linked.alike links links' with alike | ⟨c, c', f, isMethod, rfl⟩
      · exact same alike.symm
      · rw [isMethod] at links same
        exact lends ⟨c, c', f, cell, d, isMethod, fun h => same (h ▸ rfl), links, links', unresolved,
          returns⟩
  obtain ⟨_, s₁, ⟨⟨_, _, stems₁, -⟩, ends⟩, -, taken₁⟩ :=
    (typedModule_runs (stems.and (mainBlock_silent outlined silent))
      fun _ _ _ _ _ _ => ⟨trivial, trivial⟩).of_ok run
  obtain ⟨key, -, finished⟩ := taken₁.listed r hr
  obtain ⟨d, -, renders⟩ := stems₁.finished finished
  exact .inl (ends r (renders.key_eq.symm ▸ finished))

open Tree.Build in
/-- A method without a return that overrides another, after a call of each of them, and a function
whose bare return gives nothing. -/
def overridden (body : List Tree.Stmt) : Tree.Module :=
  ⟨[classDef "Base" none [define "m" ["self", "x"] body],
    classDef "Derived" (some "Base") [define "m" ["self", "x"] [pass]],
    define "leave" ["n"] [ifElse (compare (name "n") [(.gt, int 0)]) [ret .none] []],
    exprStmt (method (call (name "Base") []) "m" [int 1]),
    exprStmt (method (call (name "Derived") []) "m" [int 1]),
    exprStmt (call (name "leave") [int 1])]⟩

open Tree.Build in
theorem void_returns_overridden : ∃ o start typed s,
    (Translate.outline ApiTables.standard (overridden [pass])).run .empty = (.ok o, start) ∧
    (Translate.typedModule ApiTables.standard (overridden [pass])).run .empty = (.ok typed, s) ∧
    ∀ r ∈ typed.routines, r.key.isConstructor = false →
      (r.returns = .void → ∀ e ∈ Typed.blockReturned r.block, e.type = .void ∨ e.type = .hole) ∧
      ((∀ e ∈ Typed.blockReturned r.block, e.type = .void) →
        r.returns = .void ∨ Typed.blockReturned r.block = [] ∧ start.LendsReturn r.key) := by
  have outlines : ((Translate.outline ApiTables.standard (overridden [pass])).run
      .empty).1.isOk = true := by
    decide +kernel
  have translates : ((Translate.typedModule ApiTables.standard (overridden [pass])).run
      .empty).1.isOk = true := by
    decide +kernel
  obtain ⟨o, start, outlined⟩ := Translate.exists_of_run_isOk outlines
  obtain ⟨typed, s, run⟩ := Translate.exists_of_run_isOk translates
  exact ⟨o, start, typed, s, outlined, run, void_returns _ _ typed o start s outlined run⟩

/-- Whether the override of a method returns nothing and has a return type other than `Void`. -/
def takesReturn : Typed.Module → Bool
  | ⟨_, _, [_, .classDef ⟨_, _, _, [r], _⟩, _], _⟩ =>
    decide (r.key = .method "Derived" "m") &&
      (Typed.blockReturned r.block).isEmpty && decide (r.returns ≠ .void)
  | _ => false

open Tree.Build in
/-- The return of a method stands for an override that has none. -/
theorem override_takes_return : ∃ typed s,
    (Translate.typedModule ApiTables.standard (overridden [ret (some (int 1))])).run .empty =
      (.ok typed, s) ∧
    ∃ r ∈ typed.routines, r.key = .method "Derived" "m" ∧ Typed.blockReturned r.block = [] ∧
      r.returns ≠ .void := by
  have checked : Translate.passes (Translate.typedModule ApiTables.standard
      (overridden [ret (some (int 1))])) .empty (fun typed _ => takesReturn typed) = true := by
    decide +kernel
  obtain ⟨typed, s, run, takes⟩ := Translate.exists_of_passes checked
  unfold takesReturn at takes
  split at takes
  · next r _ _ _ =>
    simp only [Bool.and_eq_true, decide_eq_true_eq, List.isEmpty_iff] at takes
    obtain ⟨⟨key, none⟩, other⟩ := takes
    refine ⟨_, s, run, r, by simp [Typed.Module.routines, Typed.Definition.routines], key, none,
      other⟩
  · cases takes

open Tree.Build in
/-- An element of an empty list, given to a function that returns it. -/
def returningOpen : Tree.Module :=
  ⟨[define "f" ["a"] [ret (some (name "a"))],
    assign (name "xs") (list []),
    exprStmt (call (name "f") [index (name "xs") (int 0)])]⟩

/-- Whether the only function returns a value of which nothing is known and has the return type
`Void`. -/
def returnsOpen : Typed.Module → Bool
  | ⟨_, _, [.routine r], _⟩ =>
    decide (r.returns = .void) && (Typed.blockReturned r.block).any (·.type = .hole)
  | _ => false

/-- A value of which nothing is known is returned under the type `Void`. -/
theorem open_return_void : ∃ typed s,
    (Translate.typedModule ApiTables.standard returningOpen).run .empty = (.ok typed, s) ∧
    ∃ r ∈ typed.routines, r.returns = .void ∧ ∃ e ∈ Typed.blockReturned r.block, e.type = .hole := by
  have checked : Translate.passes (Translate.typedModule ApiTables.standard returningOpen) .empty
      (fun typed _ => returnsOpen typed) = true := by
    decide +kernel
  obtain ⟨typed, s, run, answers⟩ := Translate.exists_of_passes checked
  unfold returnsOpen at answers
  split at answers
  · next r _ =>
    simp only [Bool.and_eq_true, decide_eq_true_eq, List.any_eq_true] at answers
    obtain ⟨isVoid, e, he, isOpen⟩ := answers
    refine ⟨_, s, run, r, by simp [Typed.Module.routines, Typed.Definition.routines], isVoid, e, he,
      isOpen⟩
  · cases answers

end TreeTyper
