import TreeTyper.Proofs.Closed
import TreeTyper.Proofs.Faultless
import TreeTyper.Proofs.Looking

/-!
# Loops with one variable

Which head a loop has shows in the form of the expression that it runs over, before
anything is known of its type.  With one variable the form should not matter: the
loop runs over whatever expression has elements, and its sequence is what the
expression becomes on its own.

    loopHead … over e ends ↔ e is translated to a node with elements, and x is new
                                                               (run_loopHead_iff)

That is so for every expression but the call of a builtin iterator and `r.items()`.
The latter is always taken for the items of a dictionary, which bind two variables,
so a method `items` of a declared class cannot be looped over where it is called.
-/

namespace TreeTyper

namespace Tree

/-- The name that is called, if there are no keywords. -/
def Expr.calledName? : Expr → Option String
  | ⟨.call ⟨.name id, _⟩ _ [], _⟩ => some id
  | _ => none

/-- The receiver of a call of `items` without arguments. -/
def Expr.itemsReceiver? : Expr → Option Expr
  | ⟨.call ⟨.attr value name, _⟩ [] [], _⟩ => if name = "items" then some value else none
  | _ => none

end Tree

/-! ## What the standard tables do not have -/

namespace ApiTables

open Overrides (cells)

theorem lookup_eq_none {α : Type} {t : Table String (Table String α)} {name : String}
    (absent : ∀ cell ∈ cells t, cell.2.1 ≠ name) (owner : String) : lookup t owner name = none := by
  cases found : lookup t owner name with
  | none => rfl
  | some a => exact absurd rfl (absent _ (mem_cells_of_lookup found))

set_option maxRecDepth 100000 in
theorem standard_function?_items (space : String) : standard.function? space "items" = none :=
  lookup_eq_none (by decide +kernel) space

set_option maxRecDepth 100000 in
theorem standard_method?_items (owner : String) : standard.method? owner "items" = none :=
  lookup_eq_none (by decide +kernel) owner

set_option maxRecDepth 100000 in
theorem standard_function?_iterators : ∀ id ∈ ["range", "enumerate", "zip"],
    standard.function? globalSpace id = none := by
  decide +kernel

end ApiTables

namespace Translate

open Typed

variable {t : Translator} {ctx : Context} {s s' : State} {target e : Tree.Expr} {x : String}

/-! ## Forms -/

/-- A call of a builtin iterator that neither a variable nor a function hides. -/
def IteratesBuiltin (ctx : Context) (s : State) (e : Tree.Expr) : Prop :=
  ∃ id ∈ ["range", "enumerate", "zip"], e.calledName? = some id ∧
    s.scopes.lookup ctx.scope id = none ∧ ¬s.IsFunction id

theorem iterated_cases (t : Translator) (e : Tree.Expr) :
    (∃ id args, e.calledName? = some id ∧ e.itemsReceiver? = none ∧ iterated t e = .call id args) ∨
      (∃ receiver, e.calledName? = none ∧ e.itemsReceiver? = some receiver ∧
        iterated t e = .items ⟨receiver, expr t receiver⟩) ∨
      e.calledName? = none ∧ e.itemsReceiver? = none ∧ iterated t e = .other := by
  unfold iterated
  split
  · next id _ args _ => exact .inl ⟨id, exprs t args, rfl, rfl, rfl⟩
  · next value name _ _ =>
    split
    · next same => exact .inr (.inl ⟨value, rfl, if_pos same, rfl⟩)
    · next other => exact .inr (.inr ⟨rfl, if_neg other, rfl⟩)
  · next noName noItems =>
    refine .inr (.inr ⟨?_, ?_, rfl⟩)
    · unfold Tree.Expr.calledName?
      split
      · exact absurd rfl (noName _ _ _ _)
      · rfl
    · unfold Tree.Expr.itemsReceiver?
      split
      · exact absurd rfl (noItems _ _ _ _)
      · rfl

theorem run_isBuiltinIterator (alive : s.scopes.isAlive ctx.scope) (id : String) :
    ∃ builtin, (isBuiltinIterator ctx id).run s = (.ok builtin, s) ∧
      (builtin = true ↔ id ∈ ["range", "enumerate", "zip"] ∧
        s.scopes.lookup ctx.scope id = none ∧ ¬s.IsFunction id) := by
  unfold isBuiltinIterator
  by_cases known : id ∈ ["range", "enumerate", "zip"]
  · rw [if_neg (not_not.mpr known), Runs.run_bind_ok (Runs.run_lookup alive id)]
    refine ⟨_, rfl, ?_⟩
    rw [Bool.and_eq_true, Option.isNone_iff_eq_none, and_iff_right known, State.IsFunction]
    rw [Bool.not_eq_true', Definitions.isFunction, Bool.not_eq_true]
    rfl
  · rw [if_pos known]
    exact ⟨false, rfl, iff_of_false Bool.false_ne_true fun builtin => known builtin.1⟩

/-! ## Heads -/

/-- A name can be the variable of a loop. -/
structure IsNew (t : Translator) (ctx : Context) (s : State) (x : String) : Prop where
  snake : nameCase x = .snake
  constant : x ∉ t.setting.constants
  unseen : s.scopes.lookup ctx.scope x = none

instance (t : Translator) (ctx : Context) (s : State) (x : String) : Decidable (IsNew t ctx s x) :=
  decidable_of_iff (nameCase x = .snake ∧ x ∉ t.setting.constants ∧
    s.scopes.lookup ctx.scope x = none)
    ⟨fun ⟨snake, constant, unseen⟩ => ⟨snake, constant, unseen⟩,
      fun isNew => ⟨isNew.snake, isNew.constant, isNew.unseen⟩⟩

theorem run_checkLoopVariable_iff (alive : s.scopes.isAlive ctx.scope) :
    (checkLoopVariable t ctx target x).run s = (.ok (), s') ↔ IsNew t ctx s x ∧ s' = s := by
  unfold checkLoopVariable
  by_cases snake : nameCase x = .snake
  · rw [if_neg (not_not.mpr snake), Runs.run_bind_ok (Runs.run_lookup alive x)]
    by_cases taken : x ∈ t.setting.constants ∨ (s.scopes.lookup ctx.scope x).isSome
    · rw [if_pos (by simpa using taken)]
      refine iff_of_false (fun run => ?_) fun ⟨isNew, _⟩ => ?_
      · obtain ⟨owner, s₁, _, fails⟩ := Runs.of_bind_ok run
        cases fails
      · rcases taken with isConstant | found
        · exact isNew.constant isConstant
        · rw [isNew.unseen] at found
          cases found
    · rw [if_neg (by simpa using taken)]
      obtain ⟨constant, unseen⟩ := not_or.mp taken
      have isNew : IsNew t ctx s x := ⟨snake, constant, by simpa using unseen⟩
      constructor
      · intro run
        cases run
        exact ⟨isNew, rfl⟩
      · rintro ⟨-, rfl⟩
        rfl
  · rw [if_pos snake]
    exact iff_of_false (nomatch ·) fun ⟨isNew, _⟩ => snake isNew.snake

theorem run_checkLoopVariables_iff (alive : s.scopes.isAlive ctx.scope) {bs : List Binder} :
    (checkLoopVariables t ctx target bs).run s = (.ok (), s') ↔
      (∀ b ∈ bs, IsNew t ctx s b.name) ∧ s' = s := by
  induction bs with
  | nil =>
    constructor
    · intro run
      cases run
      exact ⟨nofun, rfl⟩
    · rintro ⟨-, rfl⟩
      rfl
  | cons b bs ih =>
    unfold checkLoopVariables
    rw [Runs.run_bind_iff, List.forall_mem_cons]
    constructor
    · rintro ⟨_, s₁, first, rest⟩
      obtain ⟨isNew, rfl⟩ := (run_checkLoopVariable_iff alive).mp first
      obtain ⟨others, rfl⟩ := ih.mp rest
      exact ⟨⟨isNew, others⟩, rfl⟩
    · rintro ⟨⟨isNew, others⟩, rfl⟩
      exact ⟨(), s', (run_checkLoopVariable_iff alive).mpr ⟨isNew, rfl⟩, ih.mpr ⟨others, rfl⟩⟩

theorem run_elementOf_iff {pos : Pos} {sequence : Expr} {elem : Ty} :
    (elementOf pos sequence).run s = (.ok elem, s') ↔
      sequence.type.element? = some elem ∧ s' = s := by
  unfold elementOf
  split
  · next found iterates =>
    rw [iterates]
    constructor
    · intro run
      cases run
      exact ⟨rfl, rfl⟩
    · rintro ⟨same, rfl⟩
      cases same
      rfl
  · next none => exact iff_of_false (nomatch ·) fun ⟨iterates, _⟩ => nomatch none ▸ iterates

theorem targetNames?_of_name? (single : target.name? = some x) : targetNames? target = none := by
  unfold Tree.Expr.name? at single
  split at single
  · rfl
  · cases single

/-- The head over a sequence with one variable. -/
def LoopHead.single (sequence : Expr) (x : String) (elem : Ty) : LoopHead :=
  .iterate (.single sequence) (.single ⟨x, elem⟩)

theorem run_plainHead_iff (single : target.name? = some x) {iter : Deferred} {head : LoopHead} :
    (plainHead ctx target iter).run s = (.ok head, s') ↔
      ∃ node elem, (iter.run ctx).run s = (.ok node, s') ∧ node.type.element? = some elem ∧
        head = .single node x elem := by
  unfold plainHead
  rw [single]
  dsimp only
  rw [Runs.run_bind_iff]
  constructor
  · rintro ⟨node, s₁, translated, rest⟩
    obtain ⟨elem, s₂, found, ends⟩ := Runs.of_bind_ok rest
    obtain ⟨iterates, rfl⟩ := run_elementOf_iff.mp found
    cases ends
    exact ⟨node, elem, translated, iterates, rfl⟩
  · rintro ⟨node, elem, translated, iterates, rfl⟩
    refine ⟨node, s', translated, ?_⟩
    rw [Runs.run_bind_ok (run_elementOf_iff.mpr ⟨iterates, rfl⟩)]
    rfl

/-- An expression that is no iterator of its own is the sequence of the head. -/
theorem run_uncheckedHead_plain (alive : s.scopes.isAlive ctx.scope)
    (noBuiltin : ¬IteratesBuiltin ctx s e) (noItems : e.itemsReceiver? = none) {iter : Deferred} :
    (uncheckedHead t ctx target iter (iterated t e)).run s = (plainHead ctx target iter).run s := by
  rcases iterated_cases t e with ⟨id, args, named, -, form⟩ | ⟨_, -, items, -⟩ | ⟨-, -, form⟩
  · rw [form]
    obtain ⟨builtin, run, means⟩ := run_isBuiltinIterator alive id
    unfold uncheckedHead
    dsimp only
    rw [Runs.run_bind_ok run]
    cases builtin with
    | false => rfl
    | true =>
      obtain ⟨known, unbound, noFunction⟩ := means.mp rfl
      exact absurd ⟨id, known, named, unbound, noFunction⟩ noBuiltin
  · rw [noItems] at items
    cases items
  · rw [form]
    rfl

/-- What the translation of an expression keeps open. -/
def KeepsOpen (t : Translator) (ctx : Context) (s : State) (e : Tree.Expr) : Prop :=
  ∀ node s', (expr t e ctx).run s = (.ok node, s') → s'.scopes.isAlive ctx.scope

/-- An expression becomes a node with elements, and then a name can still be the variable. -/
structure Iterates (t : Translator) (ctx : Context) (s : State) (e : Tree.Expr) (x : String)
    (node : Expr) (elem : Ty) (s' : State) : Prop where
  translated : (expr t e ctx).run s = (.ok node, s')
  iterates : node.type.element? = some elem
  isNew : IsNew t ctx s' x

theorem run_loopHead_iff (alive : s.scopes.isAlive ctx.scope) (keeps : KeepsOpen t ctx s e)
    (single : target.name? = some x) (noBuiltin : ¬IteratesBuiltin ctx s e)
    (noItems : e.itemsReceiver? = none) {head : LoopHead} :
    (loopHead t ctx target ⟨e, expr t e⟩ (iterated t e)).run s = (.ok head, s') ↔
      ∃ node elem, Iterates t ctx s e x node elem s' ∧ head = .single node x elem := by
  unfold loopHead
  rw [Runs.run_bind_iff]
  constructor
  · rintro ⟨unchecked, s₁, first, rest⟩
    rw [run_uncheckedHead_plain alive noBuiltin noItems, run_plainHead_iff single] at first
    obtain ⟨node, elem, translated, iterates, rfl⟩ := first
    obtain ⟨_, s₂, checked, ends⟩ := Runs.of_bind_ok rest
    obtain ⟨isNew, rfl⟩ := (run_checkLoopVariables_iff (keeps node s₁ translated)).mp checked
    cases ends
    exact ⟨node, elem, ⟨translated, iterates, isNew ⟨x, elem⟩ (List.mem_singleton_self _)⟩, rfl⟩
  · rintro ⟨node, elem, ⟨translated, iterates, isNew⟩, rfl⟩
    refine ⟨.single node x elem, s', ?_, ?_⟩
    · rw [run_uncheckedHead_plain alive noBuiltin noItems, run_plainHead_iff single]
      exact ⟨node, elem, translated, iterates, rfl⟩
    · have checked : (checkLoopVariables t ctx target (LoopHead.single node x elem).binders).run s' =
          (.ok (), s') := by
        refine (run_checkLoopVariables_iff (keeps node s' translated)).mpr ⟨fun b hb => ?_, rfl⟩
        cases List.mem_singleton.mp hb
        exact isNew
      rw [Runs.run_bind_ok checked]
      rfl

/-! ## Loops and comprehensions -/

theorem run_forLoop_iff {body : List Tree.Stmt} {pos : Pos} {node : Option Stmt} :
    (stmt t ⟨.forLoop target e body [], pos⟩ ctx).run s = (.ok node, s') ↔
      ∃ head s₁ inside, (loopHead t ctx target ⟨e, expr t e⟩ (iterated t e)).run s =
          (.ok head, s₁) ∧
        (inScope ctx.scope (bindings head.binders) fun scope =>
          block t body (ctx.inScope scope).looping).run s₁ = (.ok inside, s') ∧
        node = some (head.stmt inside) := by
  rw [stmt, Runs.run_located_iff, stmtKind, Runs.run_bind_iff]
  constructor
  · rintro ⟨head, s₁, first, rest⟩
    obtain ⟨inside, s₂, translated, ends⟩ := Runs.of_bind_ok rest
    cases ends
    exact ⟨head, s₁, inside, first, translated, rfl⟩
  · rintro ⟨head, s₁, inside, first, translated, rfl⟩
    refine ⟨head, s₁, first, ?_⟩
    rw [Runs.run_bind_ok translated]
    rfl

/-- The condition and the element of a comprehension, in the scope of its variables. -/
def comprehensionParts (t : Translator) (ctx : Context) (elt : Tree.Expr) (ifs : List Tree.Expr) :
    Run (Option Expr × Expr) := do
  let test ← testNode ctx (exprs t ifs).head?
  let item ← expr t elt ctx
  return (test, item)

theorem listCompNode_single {elt : Deferred} {ifs : List Tree.Expr} (short : ifs.length ≤ 1) :
    listCompNode t ctx elt (clauses t [⟨target, e, ifs⟩]) =
      comprehension t ctx elt (clause t ⟨target, e, ifs⟩) := by
  rcases ifs with _ | ⟨first, _ | ⟨second, rest⟩⟩
  · rfl
  · rfl
  · simp at short

theorem run_comprehension_iff {elt : Tree.Expr} {ifs : List Tree.Expr} {node : Expr} :
    (comprehension t ctx ⟨elt, expr t elt⟩ (clause t ⟨target, e, ifs⟩)).run s = (.ok node, s') ↔
      ∃ sequence iterators s₁ test item,
        (loopHead t ctx target ⟨e, expr t e⟩ (iterated t e)).run s =
          (.ok (.iterate sequence iterators), s₁) ∧
        (inScope ctx.scope (bindings iterators.binders) fun scope =>
          comprehensionParts t (ctx.inScope scope) elt ifs).run s₁ = (.ok (test, item), s') ∧
        node = ⟨.iterate sequence iterators test item, .list item.type⟩ := by
  unfold comprehension
  rw [Runs.run_bind_iff]
  constructor
  · rintro ⟨head, s₁, first, rest⟩
    cases head with
    | range start stop step index => cases rest
    | iterate sequence iterators =>
      obtain ⟨⟨test, item⟩, s₂, translated, ends⟩ := Runs.of_bind_ok rest
      cases ends
      exact ⟨sequence, iterators, s₁, test, item, first, translated, rfl⟩
  · rintro ⟨sequence, iterators, s₁, test, item, first, translated, rfl⟩
    exact ⟨_, s₁, first, Runs.run_bind_ok translated⟩

theorem run_listComp_iff {elt : Tree.Expr} {generators : List Tree.Comprehension} {pos : Pos}
    {node : Expr} :
    (expr t ⟨.listComp elt generators, pos⟩ ctx).run s = (.ok node, s') ↔
      ∃ target e ifs sequence iterators s₁ test item, generators = [⟨target, e, ifs⟩] ∧
        ifs.length ≤ 1 ∧
        (loopHead t ctx target ⟨e, expr t e⟩ (iterated t e)).run s =
          (.ok (.iterate sequence iterators), s₁) ∧
        (inScope ctx.scope (bindings iterators.binders) fun scope =>
          comprehensionParts t (ctx.inScope scope) elt ifs).run s₁ = (.ok (test, item), s') ∧
        node = ⟨.iterate sequence iterators test item, .list item.type⟩ := by
  rw [expr, Runs.run_located_iff, exprKind]
  by_cases shape : ∃ target e ifs, generators = [⟨target, e, ifs⟩] ∧ ifs.length ≤ 1
  · obtain ⟨target, e, ifs, rfl, short⟩ := shape
    rw [listCompNode_single short, run_comprehension_iff]
    constructor
    · rintro ⟨sequence, iterators, s₁, test, item, first, translated, rfl⟩
      exact ⟨target, e, ifs, sequence, iterators, s₁, test, item, rfl, short, first, translated, rfl⟩
    · rintro ⟨_, _, _, sequence, iterators, s₁, test, item, same, -, first, translated, rfl⟩
      cases same
      exact ⟨sequence, iterators, s₁, test, item, first, translated, rfl⟩
  · refine iff_of_false ?_ fun ⟨target, e, ifs, _, _, _, _, _, same, short, _⟩ =>
      shape ⟨target, e, ifs, same, short⟩
    rcases generators with _ | ⟨⟨target, e, ifs⟩, _ | ⟨_, _⟩⟩
    · exact (nomatch ·)
    · rcases ifs with _ | ⟨first, _ | ⟨second, rest⟩⟩
      · exact absurd ⟨target, e, [], rfl, Nat.zero_le 1⟩ shape
      · exact absurd ⟨target, e, [first], rfl, Nat.le_refl 1⟩ shape
      · exact (nomatch ·)
    · exact (nomatch ·)

/-- With one variable a loop, and a comprehension, runs over what an expression becomes on its
own. -/
structure RunsOver (t : Translator) (ctx : Context) (s : State) (target : Tree.Expr) (x : String)
    (e : Tree.Expr) : Prop where
  head : ∀ head s', (loopHead t ctx target ⟨e, expr t e⟩ (iterated t e)).run s = (.ok head, s') ↔
    ∃ node elem, Iterates t ctx s e x node elem s' ∧ head = .single node x elem
  loop : ∀ body pos result s',
    (stmt t ⟨.forLoop target e body [], pos⟩ ctx).run s = (.ok result, s') ↔
      ∃ node elem s₁ inside, Iterates t ctx s e x node elem s₁ ∧
        (inScope ctx.scope [(x, elem)] fun scope =>
          block t body (ctx.inScope scope).looping).run s₁ = (.ok inside, s') ∧
        result = some (.forEach (.single node) (.single ⟨x, elem⟩) inside)
  comprehension : ∀ elt ifs pos result s',
    (expr t ⟨.listComp elt [⟨target, e, ifs⟩], pos⟩ ctx).run s = (.ok result, s') ↔
      ifs.length ≤ 1 ∧ ∃ node elem s₁ test item, Iterates t ctx s e x node elem s₁ ∧
        (inScope ctx.scope [(x, elem)] fun scope =>
          comprehensionParts t (ctx.inScope scope) elt ifs).run s₁ = (.ok (test, item), s') ∧
        result = ⟨.iterate (.single node) (.single ⟨x, elem⟩) test item, .list item.type⟩

theorem runsOver (alive : s.scopes.isAlive ctx.scope) (keeps : KeepsOpen t ctx s e)
    (single : target.name? = some x) (noBuiltin : ¬IteratesBuiltin ctx s e)
    (noItems : e.itemsReceiver? = none) : RunsOver t ctx s target x e := by
  have heads : ∀ head s',
      (loopHead t ctx target ⟨e, expr t e⟩ (iterated t e)).run s = (.ok head, s') ↔
        ∃ node elem, Iterates t ctx s e x node elem s' ∧ head = .single node x elem :=
    fun _ _ => run_loopHead_iff alive keeps single noBuiltin noItems
  refine ⟨heads, fun body pos result s' => ?_, fun elt ifs pos result s' => ?_⟩
  · rw [run_forLoop_iff]
    constructor
    · rintro ⟨head, s₁, inside, first, translated, rfl⟩
      obtain ⟨node, elem, known, rfl⟩ := (heads head s₁).mp first
      exact ⟨node, elem, s₁, inside, known, translated, rfl⟩
    · rintro ⟨node, elem, s₁, inside, known, translated, rfl⟩
      exact ⟨_, s₁, inside, (heads _ s₁).mpr ⟨node, elem, known, rfl⟩, translated, rfl⟩
  · rw [run_listComp_iff]
    constructor
    · rintro ⟨_, _, _, sequence, iterators, s₁, test, item, same, short, first, translated, rfl⟩
      cases same
      obtain ⟨node, elem, known, same⟩ := (heads _ s₁).mp first
      cases same
      exact ⟨short, node, elem, s₁, test, item, known, translated, rfl⟩
    · rintro ⟨short, node, elem, s₁, test, item, known, translated, rfl⟩
      exact ⟨target, e, ifs, _, _, s₁, test, item, rfl, short,
        (heads _ s₁).mpr ⟨node, elem, known, rfl⟩, translated, rfl⟩

/-! ## The expressions left out -/

/-- With one variable no call of `items` is a head. -/
theorem loopHead_items {receiver : Tree.Expr} (items : e.itemsReceiver? = some receiver)
    (single : target.name? = some x) (iter : Deferred) :
    Gives (loopHead t ctx target iter (iterated t e)) fun _ => False := by
  rcases iterated_cases t e with ⟨_, _, -, none, -⟩ | ⟨receiver', -, _, form⟩ | ⟨-, none, -⟩
  · rw [none] at items
    cases items
  · have noPair : targetPair? target = none := by
      rw [targetPair?, targetNames?_of_name? single]
    have stops : Gives (itemsHead t ctx target ⟨receiver', expr t receiver'⟩) fun _ => False := by
      unfold itemsHead
      rw [noPair]
      refine .skip fun sequence => ?_
      split
      · exact .failAt
      · exact .skip fun _ => .fail
    rw [form]
    exact stops.bind fun _ => False.elim
  · rw [none] at items
    cases items

theorem rangeHead_range (single : target.name? = some x) (args : List Deferred) :
    Gives (rangeHead ctx target args)
      fun head => ∃ start stop step, head = .range start stop step x := by
  unfold rangeHead
  rw [single]
  refine .ite .fail (.skip fun nodes => ?_)
  split
  · exact .pure ⟨_, _, _, rfl⟩
  · exact .pure ⟨_, _, _, rfl⟩
  · exact .pure ⟨_, _, _, rfl⟩
  · exact .fail

/-- With one variable the call of a builtin iterator is a head over a range of integers only. -/
theorem run_loopHead_builtin (alive : s.scopes.isAlive ctx.scope)
    (builtin : IteratesBuiltin ctx s e) (single : target.name? = some x) {iter : Deferred}
    {head : LoopHead} (run : (loopHead t ctx target iter (iterated t e)).run s = (.ok head, s')) :
    ∃ start stop step, head = .range start stop step x := by
  obtain ⟨id, known, named, unbound, noFunction⟩ := builtin
  rcases iterated_cases t e with ⟨id', args, named', -, form⟩ | ⟨_, none, -, -⟩ | ⟨none, -, -⟩
  · rw [named] at named'
    cases named'
    rw [form] at run
    obtain ⟨unchecked, s₁, first, rest⟩ := Runs.of_bind_ok run
    obtain ⟨_, s₂, -, ends⟩ := Runs.of_bind_ok rest
    cases ends
    obtain ⟨isBuiltin, asked, means⟩ := run_isBuiltinIterator alive id
    unfold uncheckedHead at first
    dsimp only at first
    rw [Runs.run_bind_ok asked, if_pos (means.mpr ⟨known, unbound, noFunction⟩)] at first
    have several : targetNames? target = none := targetNames?_of_name? single
    split at first
    · exact (rangeHead_range single args).of_ok first
    split at first
    · rw [enumerateHead, targetPair?, several] at first
      cases first
    · rw [zipHead, several] at first
      split at first
      · cases first
      · cases first
  · rw [named] at none
    cases none
  · rw [named] at none
    cases none

theorem newInstance_type (pos : Pos) (className : String) (args : List Deferred) :
    Gives (newInstance t ctx pos className args) fun node => node.type = .atom className := by
  unfold newInstance
  refine .skip fun nodes => .skip fun s => ?_
  split
  · exact .skip fun _ => .skip fun _ => .skip fun _ => .pure rfl
  · exact .ite (.skip fun _ => .skip fun _ => .skip fun _ => .pure rfl)
      (.skip fun _ => .skip fun _ => .pure rfl)

/-- On its own the call of a builtin iterator is no sequence. -/
theorem element?_of_builtin (standard : t.setting.api = .standard)
    (builtin : IteratesBuiltin ctx s e) (alive : s.scopes.isAlive ctx.scope) {node : Expr}
    (run : (expr t e ctx).run s = (.ok node, s')) : node.type.element? = none := by
  obtain ⟨id, known, named, unbound, noFunction⟩ := builtin
  unfold Tree.Expr.calledName? at named
  split at named
  · next id' _ args pos =>
    cases named
    rw [expr, Runs.run_located_iff, exprKind] at run
    unfold callNode callee at run
    dsimp only at run
    split at run
    · cases run
    have undefined : s.definitions.function? id = none := by
      simpa [State.IsFunction] using noFunction
    unfold callName at run
    rw [standard, ApiTables.standard_function?_iterators id known] at run
    dsimp only at run
    rw [Runs.run_bind_ok (Runs.run_lookup alive id), unbound] at run
    obtain ⟨s₁, s₂, got, run⟩ := Runs.of_bind_ok run
    cases got
    rw [undefined] at run
    dsimp only at run
    split at run
    -- left is a class of that name: of all atoms only strings have elements
    · have type := (newInstance_type pos id (exprs t args)).of_ok run
      have noText : id ≠ Ty.stringName := by
        rintro rfl
        exact absurd known (by decide)
      rw [type, Ty.element?, if_neg noText]
    · split at run
      · cases run
      · split at run
        · cases run
        · cases run
  · cases named

/-- The node is the call of a method `items` that the module declares. -/
inductive CallsOwnItems (t : Translator) (ctx : Context) (s : State) (receiver : Tree.Expr) :
    Expr → Prop
  | instance {node : Expr} {s₁ : State} {type : Ty}
      (translated : (expr t receiver ctx).run s = (.ok node, s₁))
      (isClass : s₁.hierarchy.isClass node.type.head) :
      CallsOwnItems t ctx s receiver ⟨.methodCall node "items" [], type⟩
  | this {type : Ty} (named : receiver.name? = some "self") (inClass : ctx.className?.isSome) :
      CallsOwnItems t ctx s receiver ⟨.thisMethodCall "items" [], type⟩

theorem run_methodCall_items (standard : t.setting.api = .standard) {pos : Pos}
    {receiver node : Expr} (run : (methodCall t ctx pos receiver "items" []).run s = (.ok node, s')) :
    s.hierarchy.isClass receiver.type.head ∧ node.kind = .methodCall receiver "items" [] := by
  unfold methodCall at run
  dsimp only at run
  obtain ⟨s₁, s₂, got, run⟩ := Runs.of_bind_ok run
  cases got
  split at run
  · next isClass =>
    obtain ⟨⟨key, cell⟩, s₂, -, run₁⟩ := Runs.of_bind_ok run
    obtain ⟨nodes, s₃, none, run₂⟩ := Runs.of_bind_ok run₁
    cases none
    obtain ⟨ret, s₄, -, ends⟩ := Runs.of_bind_ok run₂
    cases ends
    exact ⟨isClass, rfl⟩
  · rw [standard, ApiTables.standard_method?_items] at run
    cases run

theorem callsOwnItems_of_value (standard : t.setting.api = .standard) {pos : Pos}
    {receiver : Tree.Expr} {node : Expr}
    (run : (do
      let object ← expr t receiver ctx
      methodCall t ctx pos object "items" [] : Run Expr).run s = (.ok node, s')) :
    CallsOwnItems t ctx s receiver node := by
  obtain ⟨object, s₁, translated, run⟩ := Runs.of_bind_ok run
  obtain ⟨isClass, kind⟩ := run_methodCall_items standard run
  obtain ⟨_, type⟩ := node
  cases kind
  exact .instance translated isClass

/-- No standard function or method is called `items`. -/
theorem callsOwnItems_of_run (standard : t.setting.api = .standard)
    (alive : s.scopes.isAlive ctx.scope) {receiver : Tree.Expr}
    (items : e.itemsReceiver? = some receiver) {node : Expr}
    (run : (expr t e ctx).run s = (.ok node, s')) : CallsOwnItems t ctx s receiver node := by
  unfold Tree.Expr.itemsReceiver? at items
  split at items
  case h_2 => cases items
  next value name _ pos =>
  split at items
  case isFalse => cases items
  next same =>
  cases items
  rw [same, expr, Runs.run_located_iff, exprKind] at run
  change (callAttribute t ctx pos ⟨receiver, expr t receiver⟩ "items" []).run s = _ at run
  unfold callAttribute at run
  dsimp only at run
  split at run
  · exact callsOwnItems_of_value standard run
  · next id named =>
    rw [Runs.run_bind_ok (Runs.run_lookup alive id)] at run
    split at run
    -- the name of a library, none of which has a function `items`
    · unfold libraryCall at run
      dsimp only at run
      rw [standard, ApiTables.standard_function?_items] at run
      split at run
      · cases run
      · cases run
    · split at run
      · next className inClass =>
        split at run
        · next isSelf =>
          obtain ⟨⟨key, cell⟩, s₂, -, run₁⟩ := Runs.of_bind_ok run
          obtain ⟨nodes, s₃, none, run₂⟩ := Runs.of_bind_ok run₁
          cases none
          obtain ⟨ret, s₄, -, ends⟩ := Runs.of_bind_ok run₂
          cases ends
          exact .this (isSelf ▸ named) (by rw [inClass]; rfl)
        · exact callsOwnItems_of_value standard run
      · exact callsOwnItems_of_value standard run

/-! ## Reachable states -/

variable {api : ApiTables} {m : Tree.Module} {o : Outline} {start : State} {n : Nat} {σ : Site}

/-- The scopes of a reachable site are open. -/
theorem isOpen_of_reachable (outlined : (outline api m).run .empty = (.ok o, start))
    (reachable : Reachable api o start (fun _ _ => True) (fun _ => True) n σ s) :
    IsOpen σ s := by
  have isOpen : (soundFrame (o.setting api) start False).law.Open (fun _ _ => True) fun _ => True :=
    FrameLaw.law_open id
  have at_start := ((outline_runs m).of_ok outlined).sound (fun h : False => h.elim) False.elim
    (o.setting api)
  exact (Law.at_of_reachable isOpen at_start reachable).here

/-- An expression makes no name visible but that of a function. -/
theorem IsNew.after {node : Expr} (isNew : IsNew (o.translator api n) ctx s x)
    (noFunction : ¬s.IsFunction x)
    (run : (expr (o.translator api n) e ctx).run s = (.ok node, s')) :
    IsNew (o.translator api n) ctx s' x := by
  have infers : (sightLaw (o.setting api)).Infers n (inferAt (o.setting api) n) :=
    Law.inferAt_infers n
  obtain ⟨-, moves, -⟩ :=
    (Law.expr_evaluates infers e False.elim ctx s ⟨trivial, trivial⟩).of_ok run
  obtain ⟨names, none, grows⟩ := moves.rel
  refine ⟨isNew.snake, isNew.constant, ?_⟩
  rw [← Option.not_isSome_iff_eq_none]
  intro found
  rcases grows.isSome_lookup found with found | known | isFunction
  · rw [isNew.unseen] at found
    cases found
  · rw [none rfl] at known
    cases known
  · exact noFunction isFunction

end Translate

/-! ## Top theorem -/

open Translate in
/-- Under the standard tables a loop with one variable runs over what its expression becomes on its
own, if that is neither the call of a builtin iterator nor `r.items()`.  Whether the variable is new
is asked after the expression, which can make only a function visible.  Over `r.items()` there is no
loop with one variable, though it can be the call of a method that the module declares; and the call
of a builtin iterator is a range or no loop. -/
theorem loops_with_one_variable {m : Tree.Module} {o : Outline} {start s : State} {n : Nat}
    {ctx : Context} (outlined : (outline .standard m).run .empty = (.ok o, start))
    (reachable : Reachable .standard o start (fun _ _ => True) (fun _ => True) n ctx.site s)
    {target : Tree.Expr} {x : String} (single : target.name? = some x) (e : Tree.Expr) :
    let t := o.translator .standard n
    (¬IteratesBuiltin ctx s e → e.itemsReceiver? = none → RunsOver t ctx s target x e) ∧
    (∀ node s', (expr t e ctx).run s = (.ok node, s') → IsNew t ctx s x → ¬s.IsFunction x →
      IsNew t ctx s' x) ∧
    (∀ receiver, e.itemsReceiver? = some receiver →
      (∀ head s', (loopHead t ctx target ⟨e, expr t e⟩ (iterated t e)).run s ≠ (.ok head, s')) ∧
      ∀ node s', (expr t e ctx).run s = (.ok node, s') → CallsOwnItems t ctx s receiver node) ∧
    (IteratesBuiltin ctx s e →
      (∀ head s', (loopHead t ctx target ⟨e, expr t e⟩ (iterated t e)).run s = (.ok head, s') →
        ∃ first stop step, head = .range first stop step x) ∧
      ∀ node s', (expr t e ctx).run s = (.ok node, s') → node.type.element? = none) := by
  intro t
  have alive := (isOpen_of_reachable outlined reachable).scope
  have keeps : KeepsOpen t ctx s e := fun node s' run =>
    (isOpen_of_reachable outlined (.advance reachable (.expr e node run))).scope
  refine ⟨runsOver alive keeps single, fun node s' run isNew noFunction => ?_,
    fun receiver items => ⟨fun head s' run => ?_, fun node s' run => ?_⟩,
    fun builtin => ⟨fun head s' run => ?_, fun node s' run => ?_⟩⟩
  · exact isNew.after noFunction run
  · exact (loopHead_items items single _).of_ok run
  · exact callsOwnItems_of_run rfl alive items run
  · exact run_loopHead_builtin alive builtin single run
  · exact element?_of_builtin rfl builtin alive run

open Tree.Build in
/-- A class with a method that gives a list of integers, and an instance of it. -/
def bags (message : String) : Tree.Module :=
  ⟨[classDef "Bag" none [define message ["self"] [ret (some (list [int 1, int 2]))]],
    assign (name "bag") (call (name "Bag") [])]⟩

open Translate Tree.Build in
/-- The head of `for x in bag.message()`. -/
def bagHead (t : Translator) (message : String) : Run LoopHead :=
  loopHead t .ofModule (name "x") ⟨method (name "bag") message [],
    expr t (method (name "bag") message [])⟩ (iterated t (method (name "bag") message []))

open Translate Tree.Build in
/-- After `bag = Bag()` the call of the method is a list of integers and `x` is new, and the head
over the call is accepted or not. -/
def BagLoops (message : String) (accepted : Bool) : Prop :=
  ∃ o start s node s', (outline .standard (bags message)).run .empty = (.ok o, start) ∧
    Reachable .standard o start (fun _ _ => True) (fun _ => True) (start.definitions.size + 1)
      .ofModule s ∧
    (expr (o.translator .standard (start.definitions.size + 1)) (method (name "bag") message [])
      .ofModule).run s = (.ok node, s') ∧ node.type = .list .int ∧
    IsNew (o.translator .standard (start.definitions.size + 1)) .ofModule s' "x" ∧
    ((bagHead (o.translator .standard (start.definitions.size + 1)) message).run s).1.isOk = accepted

open Translate Tree.Build in
/-- Computes what `BagLoops` says. -/
def bagLoops (message : String) (accepted : Bool) : Bool :=
  passes (outline .standard (bags message)) .empty fun o start =>
    let t := o.translator .standard (start.definitions.size + 1)
    passes (stmt t (assign (name "bag") (call (name "Bag") [])) .ofModule) start fun _ s =>
      passes (expr t (method (name "bag") message []) .ofModule) s fun node s' => decide <|
        node.type = .list .int ∧ IsNew t .ofModule s' "x" ∧
        ((bagHead t message).run s).1.isOk = accepted

open Translate in
theorem BagLoops.of_bagLoops {message : String} {accepted : Bool}
    (checked : bagLoops message accepted = true) : BagLoops message accepted := by
  obtain ⟨o, start, outlined, checked⟩ := exists_of_passes checked
  obtain ⟨made, s, begins, checked⟩ := exists_of_passes checked
  obtain ⟨node, s', translated, checked⟩ := exists_of_passes checked
  obtain ⟨type, isNew, head⟩ := of_decide_eq_true checked
  have reachable : Reachable .standard o start (fun _ _ => True) (fun _ => True)
      (start.definitions.size + 1) .ofModule s :=
    .advance .start (.stmt _ made (fun _ _ => trivial) begins)
  exact ⟨o, start, s, node, s', outlined, reachable, translated, type, isNew, head⟩

open Translate Tree.Build in
set_option maxRecDepth 100000 in
theorem loops_with_one_variable_bag : ∃ o start s node s',
    (outline .standard (bags "elems")).run .empty = (.ok o, start) ∧ node.type = .list .int ∧
    (bagHead (o.translator .standard (start.definitions.size + 1)) "elems").run s =
      (.ok (.single node "x" .int), s') := by
  have checked : bagLoops "elems" true = true := by
    decide +kernel
  obtain ⟨o, start, s, node, s', outlined, reachable, translated, type, isNew, -⟩ :=
    BagLoops.of_bagLoops checked
  have noBuiltin : ¬IteratesBuiltin .ofModule s (method (name "bag") "elems" []) := by
    rintro ⟨id, -, named, -⟩
    cases named
  have runs := (loops_with_one_variable outlined reachable
    (show (name "x").name? = some "x" from rfl) (method (name "bag") "elems" [])).1 noBuiltin rfl
  have iterates : node.type.element? = some .int := by
    rw [type]
    rfl
  exact ⟨o, start, s, node, s', outlined, type,
    (runs.head _ _).mpr ⟨node, .int, ⟨translated, iterates, isNew⟩, rfl⟩⟩

set_option maxRecDepth 100000 in
/-- A method of a class can be looped over where it is called, unless its name is `items`. -/
theorem items_not_looped_over : BagLoops "elems" true ∧ BagLoops "items" false :=
  ⟨.of_bagLoops (by decide +kernel), .of_bagLoops (by decide +kernel)⟩

end TreeTyper
