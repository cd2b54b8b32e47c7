import TreeTyper.Translate.Standard

/-!
# Heads of loops

A loop or a comprehension runs over a range of integers, over a sequence with or
without an index, over the items of a dictionary, or over several sequences at
once.  Which of these it is shows in the form of the expression after `in`.  The
variables of a head are new names in snake case.
-/

namespace TreeTyper.Translate

open Typed

/-- The form of the expression a loop runs over, with the parts still to be translated. -/
inductive Iterated where
  /-- The call of a name. -/
  | call (id : String) (args : List Deferred)
  /-- The items of a value. -/
  | items (receiver : Deferred)
  | other

/-- What a loop runs over and the variables it binds. -/
inductive LoopHead where
  | range (start stop step : Expr) (index : String)
  | iterate (sequence : Sequence) (iterators : Iterators)

def LoopHead.binders : LoopHead → List Binder
  | range _ _ _ index => [⟨index, .int⟩]
  | iterate _ iterators => iterators.binders

/-- The bindings of the scope of a loop. -/
def bindings (bs : List Binder) : List (String × Ty) := bs.map fun b => (b.name, b.type)

/-! ## Targets -/

def namesOf : List Tree.Expr → Option (List String)
  | [] => some []
  | e :: es => do
    let id ← e.name?
    let ids ← namesOf es
    return id :: ids

/-- The names of a target of several variables. -/
def targetNames? (target : Tree.Expr) : Option (List String) :=
  match target.kind with
  | .tuple elts => namesOf elts
  | _ => none

/-- The two names of a target of two variables. -/
def targetPair? (target : Tree.Expr) : Option (String × String) :=
  match targetNames? target with
  | some [a, b] => some (a, b)
  | _ => none

/-! ## Heads -/

/-- The type of the elements of a translated sequence. -/
def elementOf (pos : Pos) (sequence : Expr) : Run Ty :=
  match sequence.type.element? with
  | some elem => pure elem
  | none => failAt pos (.notIterable sequence.type)

/-- The bounds of a range, each an integer in the role that it plays. -/
def boundNodes (ctx : Context) : List (Deferred × String) → Run (List Expr)
  | [] => return []
  | (d, role) :: rest => do
    let node ← d.run ctx
    if node.type.isAtom Ty.intName then
      let nodes ← boundNodes ctx rest
      return node :: nodes
    else failAt d.source.pos (.rangeBound role node.type)

def rangeHead (ctx : Context) (target : Tree.Expr) (args : List Deferred) : Run LoopHead := do
  match target.name? with
  | none => failAt target.pos .rangeTarget
  | some index =>
    let roles := match args.length with
      | 1 => ["end"]
      | 2 => ["start", "end"]
      | 3 => ["start", "end", "step"]
      | _ => []
    if roles.isEmpty then fail (.rangeArguments args.length)
    else
      match ← boundNodes ctx (args.zip roles) with
      | [stop] => return .range (.int 0) stop (.int 1) index
      | [start, stop] => return .range start stop (.int 1) index
      | [start, stop, step] => return .range start stop step index
      | nodes => fail (.rangeArguments nodes.length)

/-- A head that binds the keys and values of a dictionary. -/
def itemsOf (sequence : Expr) (names : String × String) (key value : Ty) : LoopHead :=
  .iterate (.withItems sequence) (.withItems ⟨names.1, key⟩ ⟨names.2, value⟩)

def enumerateHead (ctx : Context) (target : Tree.Expr) (args : List Deferred) : Run LoopHead := do
  match targetPair? target with
  | none => failAt target.pos .enumerateTarget
  | some names =>
    match args with
    | [arg] =>
      let sequence ← arg.run ctx
      match sequence.type with
      | .dictionary key value => return itemsOf sequence names key value
      | _ =>
        let elem ← elementOf arg.source.pos sequence
        return .iterate (.withIndex sequence) (.withIndex ⟨names.1, .int⟩ ⟨names.2, elem⟩)
    | args => fail (.enumerateArguments args.length)

/-- The sequences of a `zip` with the variables over their elements. -/
def zipNodes (ctx : Context) : List (Deferred × String) → Run (List (Expr × Binder))
  | [] => return []
  | (d, name) :: rest => do
    let sequence ← d.run ctx
    let elem ← elementOf d.source.pos sequence
    let nodes ← zipNodes ctx rest
    return (sequence, ⟨name, elem⟩) :: nodes

def zipHead (ctx : Context) (target : Tree.Expr) (args : List Deferred) : Run LoopHead := do
  if args.length < 2 then fail (.zipArguments args.length)
  else
    match (targetNames? target).filter (·.length = args.length) with
    | none => failAt target.pos (.zipTarget args.length)
    | some names =>
      let nodes ← zipNodes ctx (args.zip names)
      return .iterate (.zip (nodes.map (·.1))) (.zip (nodes.map (·.2)))

def itemsHead (t : Translator) (ctx : Context) (target : Tree.Expr) (receiver : Deferred) :
    Run LoopHead := do
  let sequence ← receiver.run ctx
  match sequence.type with
  | .dictionary key value =>
    match targetPair? target with
    | some names => return itemsOf sequence names key value
    | none => failAt target.pos .itemsTarget
  | ty => fail (unknownAttribute t.setting.api (← get).hierarchy ty "items")

def plainHead (ctx : Context) (target : Tree.Expr) (iter : Deferred) : Run LoopHead := do
  match target.name? with
  | none => failAt target.pos .severalVariables
  | some name =>
    let sequence ← iter.run ctx
    let elem ← elementOf iter.source.pos sequence
    return .iterate (.single sequence) (.single ⟨name, elem⟩)

/-- Whether a called name is one of the builtin iterators and is not shadowed. -/
def isBuiltinIterator (ctx : Context) (id : String) : Run Bool := do
  if id ∉ ["range", "enumerate", "zip"] then return false
  else
    let local? ← lookup ctx.scope id
    return local?.isNone && !(← get).definitions.isFunction id

/-- The head before its variables are checked. -/
def uncheckedHead (t : Translator) (ctx : Context) (target : Tree.Expr) (iter : Deferred)
    (form : Iterated) : Run LoopHead := do
  match form with
  | .call id args =>
    if ← isBuiltinIterator ctx id then
      if id = "range" then rangeHead ctx target args
      else if id = "enumerate" then enumerateHead ctx target args
      else zipHead ctx target args
    else plainHead ctx target iter
  | .items receiver => itemsHead t ctx target receiver
  | .other => plainHead ctx target iter

/-- A loop variable is in snake case and shadows nothing. -/
def checkLoopVariable (t : Translator) (ctx : Context) (target : Tree.Expr) (name : String) :
    Run Unit := do
  if nameCase name ≠ .snake then failAt target.pos (.spelling name)
  else if name ∈ t.setting.constants || (← lookup ctx.scope name).isSome then
    let owner := match ← localOwner ctx name with
      | some _ => ctx.name
      | none => "global scope"
    failAt target.pos (.shadowing name owner)

def checkLoopVariables (t : Translator) (ctx : Context) (target : Tree.Expr) :
    List Binder → Run Unit
  | [] => return ()
  | b :: bs => do
    checkLoopVariable t ctx target b.name
    checkLoopVariables t ctx target bs

def loopHead (t : Translator) (ctx : Context) (target : Tree.Expr) (iter : Deferred)
    (form : Iterated) : Run LoopHead := do
  let head ← uncheckedHead t ctx target iter form
  checkLoopVariables t ctx target head.binders
  return head

/-! ## Comprehensions -/

/-- The only `for` clause of a comprehension, with its parts still to be translated. -/
structure DeferredClause where
  target : Tree.Expr
  iter : Deferred
  form : Iterated
  ifs : List Deferred

def testNode (ctx : Context) (test : Option Deferred) : Run (Option Expr) :=
  match test with
  | none => return none
  | some d => do
    let node ← d.run ctx
    return some (← check (testable node))

/-- A clause with the first of its conditions, if it has one. -/
def comprehension (t : Translator) (ctx : Context) (elt : Deferred)
    (clause : DeferredClause) : Run Expr := do
  match ← loopHead t ctx clause.target clause.iter clause.form with
  | .range .. => failAt clause.iter.source.pos .comprehensionRange
  | .iterate sequence iterators =>
    let (test, block) ← inScope ctx.scope (bindings iterators.binders) fun scope => do
      let test ← testNode (ctx.inScope scope) clause.ifs.head?
      let block ← elt.run (ctx.inScope scope)
      return (test, block)
    return ⟨.iterate sequence iterators test block, .list block.type⟩

/-- A list comprehension with the given clauses. -/
def listCompNode (t : Translator) (ctx : Context) (elt : Deferred)
    (clauses : List DeferredClause) : Run Expr := do
  match clauses with
  | [clause] =>
    match clause.ifs with
    | _ :: second :: _ => failAt second.source.pos .comprehensionIfs
    | _ => comprehension t ctx elt clause
  | _ => fail .comprehensionFors

end TreeTyper.Translate
