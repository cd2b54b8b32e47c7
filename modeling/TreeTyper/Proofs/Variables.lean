import TreeTyper.Api.Standard
import TreeTyper.Proofs.Growth
import TreeTyper.Proofs.Reachable
import TreeTyper.Tree.Build

/-!
# Variables keep their values usable

Whatever is translated next, a variable that is bound stays bound, and its values
stay usable at its later type: holes are filled, integers become floats, classes
become ancestors.  So do the values of attributes, if no method assigns its own
instance: a refined receiver is looked up in the class of the body, and not in the
class of the value that was assigned.

    Advances … s s' → s.VariablesWiden s.hierarchy s'        (variables_widen)
-/

namespace TreeTyper

namespace Translate

open Scopes (moduleScope)

variable {api : ApiTables} {o : Outline} {m : Tree.Module} {start s s' : State} {n : Nat} {σ : Site}
  {ctx : Context} {allowed : Option DefKey → String → Prop}

/-- The watch of a run for variables, and for attributes if `attributes` holds. -/
def Watch.tables (start : State) (attributes : Prop) : Watch :=
  ⟨start, attributes, moduleScope, fun _ _ => False⟩

/-- A state is above itself. -/
theorem Watch.Above.refl {attributes : Prop} (plain : s.IsPlain)
    (keepsSelf : attributes → s.KeepsSelf) : (Watch.tables s attributes).Above s where
  shape := .refl s
  plain
  size := Nat.le_refl _
  bindings _ _ old found := ⟨old, found, .refl old⟩
  attributes _ _ := .refl _
  keepsSelf
  begun _ _ guarded := guarded.elim

/-- Where a body stands does not depend on where the watch began. -/
theorem Watch.Stands.again {attributes : Prop} (stands : (Watch.tables start attributes).Stands σ s) :
    (Watch.tables s attributes).Stands σ s :=
  { stands with owned := fun _ _ _ guarded => guarded.elim }

/-- The main block stands in the module scope. -/
theorem Watch.Stands.ofModule {attributes : Prop} (positive : 0 < start.scopes.size) :
    (Watch.tables start attributes).Stands .ofModule start where
  scope := positive
  body := positive
  chain notModule := absurd rfl notModule
  self _ _ isMethod := nomatch isMethod
  owned _ _ _ guarded := guarded.elim

theorem advances_widen (plain : api.IsPlain) (untouched : start.Untouched)
    (apart : start.hierarchy.NumbersApart) (attributes : Prop)
    (keeps : attributes → start.KeepsSelf ∧ ∀ key? name, allowed key? name → KeepsSelf key? name)
    (reachable : Reachable api o start allowed (fun t => t.isPlain) n ctx.site s)
    (advances : Advances (o.translator api n) allowed (fun t => t.isPlain) ctx s s') :
    (Watch.tables s attributes).Above s' := by
  have allows : ∀ (s : State) key? name, allowed key? name →
      (Watch.tables s attributes).Allows key? name :=
    fun _ key? name isAllowed watched => (keeps watched).2 key? name isAllowed
  have fromStart := Law.at_of_reachable
    (L := growthLaw (o.setting api) (.tables start attributes) plain apart untouched.positive)
    ⟨fun _ plainTy => plainTy, allows start, fun _ _ _ => trivial, fun _ => trivial, id⟩
    ⟨.refl untouched.isPlain fun watched => (keeps watched).1, .ofModule untouched.positive⟩ reachable
  have above := fromStart.inv
  have positive : 0 < s.scopes.size := Nat.lt_of_lt_of_le untouched.positive above.size
  have fromHere : (growthLaw (o.setting api) (.tables s attributes) plain
      (apart.sameShape above.shape.hierarchy) positive).At n ctx.site s :=
    ⟨.refl above.plain above.keepsSelf, fromStart.here.again⟩
  exact (fromHere.advance
    ⟨fun _ plainTy => plainTy, allows s, fun _ _ _ => trivial, fun _ => trivial, id⟩ advances).1.inv

end Translate

open Translate in
/-- At every moment of a run, what is translated next leaves the variables bound and only widens
their types; those of attributes widen too, if no method assigns its own instance. -/
theorem variables_widen {m : Tree.Module} {o : Outline} {start s s' : State} {n : Nat}
    {ctx : Context} {allowed : Option DefKey → String → Prop}
    (outlined : (outline ApiTables.standard m).run .empty = (.ok o, start))
    (noInt : ¬start.hierarchy.isClass Ty.intName) (noFloat : ¬start.hierarchy.isClass Ty.floatName)
    (reachable : Reachable ApiTables.standard o start allowed (fun t => t.isPlain) n ctx.site s)
    (advances : Advances (o.translator ApiTables.standard n) allowed (fun t => t.isPlain) ctx s s') :
    s.VariablesWiden s.hierarchy s' ∧
      (start.KeepsSelf → (∀ key? name, allowed key? name → KeepsSelf key? name) →
        s.AttributesWiden s.hierarchy s') := by
  have run := (outline_runs m).of_ok outlined
  have untouched := run.untouched .empty
  have bases : State.empty.hierarchy.BasesDeclared := fun _ _ above => nomatch above
  have apart : start.hierarchy.NumbersApart := ⟨run.basesDeclared bases, noInt, noFloat⟩
  have plain := ApiTables.isPlain_standard
  refine ⟨?_, fun keepsSelf allowsSelf => ?_⟩
  · exact (advances_widen plain untouched apart False False.elim reachable advances).bindings
  · exact (advances_widen plain untouched apart True (fun _ => ⟨keepsSelf, allowsSelf⟩) reachable
      advances).attributes trivial

open Tree.Build in
/-- A variable and an attribute that are lists of nothing known until something is added. -/
def collecting : Tree.Module :=
  ⟨[classDef "Bag" none
      [define "__init__" ["self"] [assign (attr (name "self") "items") (list [])],
        define "add" ["self", "item"] [exprStmt (method (attr (name "self") "items") "append"
          [name "item"])]]]⟩

open Tree.Build in
/-- The first statements of the main block bind the variable and the attribute. -/
def collectingBegins : Tree.Stmt :=
  ifElse (boolean true) [assign (name "xs") (list []), assign (name "bag") (call (name "Bag") [])] []

open Tree.Build in
/-- The next ones add to them. -/
def collectingAdds : Tree.Stmt :=
  ifElse (boolean true) [exprStmt (method (name "xs") "append" [int 1]),
    exprStmt (method (name "bag") "add" [string "s"])] []

open Translate in
/-- Whether both blocks are translated, `xs` is a list of nothing known between them, and no
definition that waits binds a name. -/
def collects : Bool :=
  passes (outline ApiTables.standard collecting) .empty fun o start =>
    let t := o.translator ApiTables.standard (start.definitions.size + 1)
    passes (stmt t collectingBegins .ofModule) start fun _ s =>
      passes (stmt t collectingAdds .ofModule) s fun _ _ => decide <|
        ¬start.hierarchy.isClass Ty.intName ∧ ¬start.hierarchy.isClass Ty.floatName ∧
        s.scopes.lookupLocal Scopes.moduleScope "xs" = some (.list .hole) ∧
        start.definitions.states.entries.all fun e => match e.2 with
          | .unresolved f => (Tree.blockNames f.body).isEmpty
          | _ => true

open Translate in
set_option maxRecDepth 100000 in
theorem variables_widen_collecting : ∃ o start s s' node,
    (outline ApiTables.standard collecting).run .empty = (.ok o, start) ∧
    (stmt (o.translator ApiTables.standard (start.definitions.size + 1)) collectingAdds .ofModule).run
      s = (.ok node, s') ∧
    s.scopes.lookupLocal Scopes.moduleScope "xs" = some (.list .hole) ∧
    s.VariablesWiden s.hierarchy s' ∧ s.AttributesWiden s.hierarchy s' := by
  have checked : collects = true := by
    decide +kernel
  obtain ⟨o, start, outlined, checked⟩ := exists_of_passes checked
  obtain ⟨node, s, begins, checked⟩ := exists_of_passes checked
  obtain ⟨node', s', adds, checked⟩ := exists_of_passes checked
  obtain ⟨noInt, noFloat, bound, empty⟩ := of_decide_eq_true checked
  have onlyModule : ∀ x, KeepsSelf none x := fun _ isMethod => nomatch isMethod
  have keepsSelf : start.KeepsSelf := by
    intro key f found b listed
    have none := List.all_eq_true.mp empty _ (Table.mem_of_findIn found)
    rw [List.isEmpty_iff.mp none] at listed
    cases listed
  have reachable : Reachable ApiTables.standard o start KeepsSelf (fun t => t.isPlain)
      (start.definitions.size + 1) .ofModule s :=
    .advance .start (.stmt _ node (fun x _ => onlyModule x) begins)
  have continues : Advances (o.translator ApiTables.standard (start.definitions.size + 1))
      KeepsSelf (fun t => t.isPlain) .ofModule s s' := .stmt _ node' (fun x _ => onlyModule x) adds
  obtain ⟨bindings, attributes⟩ := variables_widen outlined noInt noFloat reachable continues
  exact ⟨o, start, s, s', node', outlined, adds, bound, bindings,
    attributes keepsSelf fun _ _ allowed => allowed⟩

open Tree.Build in
/-- A function that adds to a list of the module. -/
def adding : Tree.Module :=
  ⟨[define "g" ["n"] [exprStmt (method (name "xs") "append" [string "s"]), ret (some (name "n"))],
    assign (name "xs") (list [])]⟩

open Translate Tree.Build in
/-- Whether `xs` holds strings after `g(1)`, and integers after the same call as an argument. -/
def forgets : Bool :=
  passes (outline ApiTables.standard adding) .empty fun o start =>
    let t := o.translator ApiTables.standard (start.definitions.size + 1)
    passes (stmt t (assign (name "xs") (list [])) .ofModule) start fun _ s =>
      passes (expr t (call (name "g") [int 1]) .ofModule) s fun _ inside =>
        passes (expr t (method (name "xs") "append" [call (name "g") [int 1]]) .ofModule) s
          fun _ after => decide <|
            inside.scopes.lookupLocal Scopes.moduleScope "xs" = some (.list .string) ∧
            after.scopes.lookupLocal Scopes.moduleScope "xs" = some (.list .int) ∧
            ¬Ty.Widens s.hierarchy (.list .string) (.list .int)

open Translate Tree.Build in
set_option maxRecDepth 100000 in
/-- The type of a receiver is read before the arguments, so what they add to it is lost: a list of
strings becomes one of integers. -/
theorem receiver_forgets : ∃ o start s inside after first last,
    (outline ApiTables.standard adding).run .empty = (.ok o, start) ∧
    Reachable ApiTables.standard o start (fun _ _ => True) (fun t => t.isPlain)
      (start.definitions.size + 1) .ofModule s ∧
    (expr (o.translator ApiTables.standard (start.definitions.size + 1))
      (call (name "g") [int 1]) .ofModule).run s = (.ok first, inside) ∧
    (expr (o.translator ApiTables.standard (start.definitions.size + 1))
      (method (name "xs") "append" [call (name "g") [int 1]]) .ofModule).run s = (.ok last, after) ∧
    inside.scopes.lookupLocal Scopes.moduleScope "xs" = some (.list .string) ∧
    after.scopes.lookupLocal Scopes.moduleScope "xs" = some (.list .int) ∧
    ¬Ty.Widens s.hierarchy (.list .string) (.list .int) := by
  have checked : forgets = true := by
    decide +kernel
  obtain ⟨o, start, outlined, checked⟩ := exists_of_passes checked
  obtain ⟨node, s, begins, checked⟩ := exists_of_passes checked
  obtain ⟨first, inside, argument, checked⟩ := exists_of_passes checked
  obtain ⟨last, after, whole, forgotten⟩ := exists_of_passes checked
  have advances : Advances (o.translator ApiTables.standard (start.definitions.size + 1))
      (fun _ _ => True) (fun t => t.isPlain) .ofModule start s :=
    .stmt _ node (fun _ _ => trivial) begins
  have reachable : Reachable ApiTables.standard o start (fun _ _ => True) (fun t => t.isPlain)
      (start.definitions.size + 1) .ofModule s := .advance .start advances
  exact ⟨o, start, s, inside, after, first, last, outlined, reachable, argument, whole,
    of_decide_eq_true forgotten⟩

end TreeTyper
