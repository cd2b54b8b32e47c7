import TreeTyper.Proofs.Agreement
import TreeTyper.Proofs.Entries
import TreeTyper.Proofs.Fitting
import TreeTyper.Proofs.Logged

/-!
# Calls fit the bodies that they reach

Every call of a module that was translated is in the log, and every logged call of
a definition fits what its body reads from a parameter, in whatever order the calls
came: as long as the body has not filled a hole that its first call had left open.
Such a hole is filled in the scope of the body alone, and later calls are checked
against the signature.

    def f(a): a.append("s")
    f([])        the body reads `a` as a list of strings
    f([1])       the signature still takes a list of anything               (filling_misses)
-/

namespace TreeTyper

/-- The calls of a routine fit what its body reads from the parameters, where the body leaves the
holes alone with which it began. -/
def Typed.Routine.FitsCalls (r : Typed.Routine) (s : Translate.State) : Prop :=
  ∃ entry, Translate.BeganWith s.hierarchy s r.key r entry ∧
    ∀ i name e x, r.HasParam i name → entry[i]? = some e → r.Reads name x → e.keepsHoles x.type →
      ∀ args, Logs s.calls r.key args → ∀ arg, args[i]? = some arg →
        (compatible s.hierarchy arg.type x.type).isSome

theorem forall₂_getElem? {α β : Type} {R : α → β → Prop} {as : List α} {bs : List β}
    (related : List.Forall₂ R as bs) {i : Nat} {a : α} (found : as[i]? = some a) :
    ∃ b, bs[i]? = some b ∧ R a b := by
  induction related generalizing i with
  | nil => simp at found
  | cons first _ ih =>
    cases i with
    | zero =>
      cases found
      exact ⟨_, rfl, first⟩
    | succ i => exact ih found

namespace Translate

open Typed

variable {api : ApiTables} {s : State} {r : Routine} {entry : List Ty}

/-- What a signature accepts fits the body that began with types which it has filled since. -/
theorem BeganWith.fits (apart : s.hierarchy.NumbersApart) {key : DefKey}
    (began : BeganWith s.hierarchy s key r entry) {call : Call}
    (accepts : Accepts s.hierarchy call.args (s.cells.get call.cell).params)
    (only : ∀ cell, s.Links key cell → cell = call.cell) {i : Nat} {name : String} {e t : Ty}
    {x : Expr} (named : r.HasParam i name) (typed : entry[i]? = some e) (reads : r.Reads name x)
    (keeps : e.keepsHoles x.type) (passed : call.args[i]? = some t) :
    (compatible s.hierarchy t x.type).isSome := by
  obtain ⟨cell, links, fills⟩ := began.signature
  rw [only cell links] at fills
  obtain ⟨p, param, accepted⟩ := forall₂_getElem? accepts passed
  obtain ⟨p', param', filled⟩ := forall₂_getElem? fills typed
  rw [param] at param'
  cases param'
  exact Ty.fits_of_keepsHoles apart filled (began.reads named typed reads) keeps accepted

theorem mainBlock_entered (plain : api.IsPlain) (m : Tree.Module) :
    Runs (mainBlock api m) .empty
      (fun _ s => ∃ start : State, start.hierarchy.BasesDeclared ∧ Signed api start s ∧
        (start.hierarchy.NumbersApart → start.Entered s))
      fun _ _ => True := by
  refine mainBlock_runs (fun _ _ _ => trivial) fun o start _ run => ?_
  have linked := run.linked .empty
  have untouched := run.untouched .empty
  have bases : State.empty.hierarchy.BasesDeclared := fun _ _ above => nomatch above
  refine ⟨(signatureLaw (o.setting api) linked).also (entries (o.setting api) linked plain),
    ⟨⟨untouched.signed linked, fun _ key r found => ?_⟩, fun _ _ definition => nomatch definition⟩,
    {}, fun main s at' _ _ => ?_, fun _ _ _ => trivial⟩
  · exact (untouched.not_finished (Table.mem_of_findIn found)).elim
  · exact ⟨start, run.basesDeclared bases, at'.inv⟩

theorem typedModule_entered (plain : api.IsPlain) (m : Tree.Module) :
    Runs (typedModule api m) .empty
      (fun typed s => ¬s.hierarchy.isClass Ty.intName → ¬s.hierarchy.isClass Ty.floatName →
        s.hierarchy.NumbersApart ∧
          ∀ r ∈ typed.routines, ∃ entry, BeganWith s.hierarchy s r.key r entry)
      fun _ _ => True := by
  refine Runs.imp (typedModule_runs (mainBlock_entered plain m) fun _ _ _ _ _ _ => trivial) ?_
    fun _ _ h => h
  rintro typed s' ⟨o, s, ⟨start, bases, signed, entered⟩, -, taken⟩ noInt noFloat
  obtain ⟨definitions, functions, rfl⟩ := taken.rest
  have same := signed.shape.hierarchy
  have apart : start.hierarchy.NumbersApart :=
    ⟨bases, by rw [← same.isClass_eq]; exact noInt, by rw [← same.isClass_eq]; exact noFloat⟩
  refine ⟨apart.sameShape same, fun r hr => ?_⟩
  obtain ⟨key, known, finished⟩ := taken.listed r hr
  have found := (Definitions.finished_iff signed.ordered).mp finished
  obtain ⟨cell, agrees⟩ := signed.routines found
  obtain ⟨entry, began⟩ := entered apart key r found
  have ended : BeganWith start.hierarchy (s.withDefinitions definitions) key r entry :=
    began.mono plain ⟨.refl _, functions⟩ (.of_cells rfl) (List.Subset.refl _)
  rw [agrees.key_eq]
  exact ⟨entry, ended.sameShape same⟩

end Translate

open Translate in
/-- In a module that was translated, every call is in the log, and the logged calls of a definition
fit what its body reads from its parameters.  Calls of a value of function type alone are matched
with that type instead. -/
theorem calls_fit_bodies (m : Tree.Module) (typed : Typed.Module) (s : State)
    (run : (typedModule ApiTables.standard m).run .empty = (.ok typed, s))
    (noInt : ¬s.hierarchy.isClass Ty.intName) (noFloat : ¬s.hierarchy.isClass Ty.floatName) :
    (∀ e ∈ Typed.blockRoots typed.main, ∀ x ∈ e.nodes, x.Logged s.calls s.hierarchy none) ∧
      ∀ r ∈ typed.routines,
        (∀ e ∈ Typed.blockRoots r.block, ∀ x ∈ e.nodes,
          x.Logged s.calls s.hierarchy r.key.className?) ∧
        r.FitsCalls s := by
  have plain := ApiTables.isPlain_standard
  obtain ⟨-, main, routines⟩ := (typedModule_nodes (loggedNodes ApiTables.standard) m).of_ok run
  have settled := (typedModule_settled ApiTables.standard m).of_ok run
  obtain ⟨apart, entered⟩ := (typedModule_entered plain m).of_ok run noInt noFloat
  refine ⟨main, fun r hr => ⟨routines r hr, ?_⟩⟩
  obtain ⟨entry, began⟩ := entered r hr
  obtain ⟨cell, -, unique⟩ := settled.routines r hr
  refine ⟨entry, began, ?_⟩
  rintro i name e x named typed reads keeps args ⟨call, known, reaches, passes⟩ arg passed
  have justified := settled.calls call known
  have sameCell : call.cell = cell := unique call.cell (reaches ▸ justified.links)
  refine began.fits apart (justified.args plain) (fun cell' links => ?_) named typed reads keeps ?_
  · rw [sameCell]
    exact unique cell' links
  · rw [passes, Typed.types, List.getElem?_map, passed]
    rfl

open Tree.Build in
/-- A function with a handler that hides a parameter, and a method whose body asks nothing of the
elements of a list. -/
def measuring : Tree.Module :=
  ⟨[define "total" ["xs", "start"]
      [tryExcept [augAssign (name "start") .add (index (name "xs") (int 0))]
        [handler (some "Exception") (some "xs") [exprStmt (call (name "print") [name "start"])]],
        ret (some (name "start"))],
    classDef "Shelf" none
      [define "size" ["self", "items"] [ret (some (call (name "len") [name "items"]))]],
    exprStmt (call (name "total") [list [int 1], int 2]),
    exprStmt (call (name "total") [list [int 3, int 4], int 5]),
    exprStmt (method (call (name "Shelf") []) "size" [list []]),
    exprStmt (method (call (name "Shelf") []) "size" [list [string "s"]])]⟩

theorem calls_fit_bodies_measuring : ∃ typed s,
    (Translate.typedModule ApiTables.standard measuring).run .empty = (.ok typed, s) ∧
    ¬s.hierarchy.isClass Ty.intName ∧ ¬s.hierarchy.isClass Ty.floatName ∧
    (∀ e ∈ Typed.blockRoots typed.main, ∀ x ∈ e.nodes, x.Logged s.calls s.hierarchy none) ∧
      ∀ r ∈ typed.routines,
        (∀ e ∈ Typed.blockRoots r.block, ∀ x ∈ e.nodes,
          x.Logged s.calls s.hierarchy r.key.className?) ∧
        r.FitsCalls s := by
  have checked : Translate.passes (Translate.typedModule ApiTables.standard measuring) .empty
      (fun _ s => decide (¬s.hierarchy.isClass Ty.intName ∧ ¬s.hierarchy.isClass Ty.floatName)) =
        true := by
    decide +kernel
  obtain ⟨typed, s, run, noNumber⟩ := Translate.exists_of_passes checked
  obtain ⟨noInt, noFloat⟩ := of_decide_eq_true noNumber
  exact ⟨typed, s, run, noInt, noFloat, calls_fit_bodies measuring typed s run noInt noFloat⟩

open Tree.Build in
/-- A function that fills a hole of its parameter, called with a list of nothing known and then with
one of integers. -/
def filling : Tree.Module :=
  ⟨[define "f" ["a"] [exprStmt (method (name "a") "append" [string "s"])],
    exprStmt (call (name "f") [list []]),
    exprStmt (call (name "f") [list [int 1]])]⟩

/-- Whether a call of `f` passes what does not fit the receiver in its body. -/
def passesMisfit : Typed.Module → Translate.State → Bool
  | ⟨_, _, [.routine ⟨.function, "f", ["a"],
        [.expr ⟨.standardMethodCall ⟨.localVar "a", read⟩ _ _, _⟩], _, _⟩],
      [_, .expr ⟨.call ⟨.localVar "f", _⟩ [⟨_, passed⟩], _⟩]⟩, s =>
    decide ((∃ call ∈ s.calls, call.key = .function "f" ∧ call.args = [passed]) ∧
      compatible s.hierarchy passed read = none)
  | _, _ => false

/-- A hole that the body fills is not filled in the signature, so a later call need not fit the
body: strings are added to a list of integers. -/
theorem filling_misses : ∃ typed s,
    (Translate.typedModule ApiTables.standard filling).run .empty = (.ok typed, s) ∧
    ∃ r ∈ typed.routines, ∃ callee arg type x, (⟨.call callee [arg], type⟩ : Typed.Expr) ∈
      Typed.blockRoots typed.main ∧ callee.kind = .localVar r.name ∧ Logs s.calls r.key [arg] ∧
      r.HasParam 0 "a" ∧ r.Reads "a" x ∧ compatible s.hierarchy arg.type x.type = none := by
  have checked : Translate.passes (Translate.typedModule ApiTables.standard filling) .empty
      passesMisfit = true := by
    decide +kernel
  obtain ⟨typed, s, run, misfit⟩ := Translate.exists_of_passes checked
  unfold passesMisfit at misfit
  split at misfit
  · next read _ _ _ _ _ _ callee kind passed answer =>
    obtain ⟨logged, misses⟩ := of_decide_eq_true misfit
    refine ⟨_, s, run, _, List.mem_singleton_self _, ⟨.localVar "f", callee⟩, ⟨kind, passed⟩, answer,
      ⟨.localVar "a", read⟩, ?_, rfl, logged, ⟨rfl, List.not_mem_nil⟩, ⟨rfl, ?_⟩, misses⟩
    · exact List.mem_append_right _ List.mem_cons_self
    · refine ⟨_, List.mem_cons_self, List.not_mem_nil, ?_⟩
      rw [Typed.Expr.nodes_eq]
      refine List.mem_cons_of_mem _ (List.mem_flatMap.mpr ⟨_, List.mem_cons_self, ?_⟩)
      exact Typed.Expr.mem_nodes_self _
  · cases misfit

end TreeTyper
