import TreeTyper.Proofs.Law.Node
import TreeTyper.Proofs.Reachable

/-!
# Calls are logged

A call node of the output says which definition it reaches: a function by its
name, a method by the class of the receiver, a constructor by the class.  The log
has each of these calls with the types of the arguments of its node, and that of a
function with the type that the called name carries.

    e.Logged s.calls s.hierarchy className?        of every node of a body        (loggedNodes)

A name that is called can also be a variable; then its type is a function type
which the arguments match.  Nothing is ever taken out of the log.

    Advances … s s' → s.calls <:+ s'.calls        (Advances.calls_suffix)
-/

namespace TreeTyper

/-- The log has a call of a definition with the given arguments. -/
def Logs (calls : List Call) (key : DefKey) (args : List Typed.Expr) : Prop :=
  ∃ call ∈ calls, call.key = key ∧ call.args = Typed.types args

/-- The log has a call of a definition that left a type in its cell. -/
def LogsTyped (calls : List Call) (key : DefKey) (args : List Typed.Expr) (type : Ty) : Prop :=
  ∃ call ∈ calls, call.key = key ∧ call.args = Typed.types args ∧ call.type = type

/-- A value of a function type without holes, which the arguments match. -/
def Typed.Expr.Callable (callee : Expr) (h : Hierarchy) (args : List Expr) : Prop :=
  ∃ params ret name found, callee.type = .function params ret ∧ callee.type.hasHoles = false ∧
    matchParams h params (types args) name = .ok found

/-- A call in a body, of a class if that is a method, is in the log under the definition that it
reaches, if it is not the call of a value. -/
def Typed.Expr.Logged (calls : List Call) (h : Hierarchy) (className? : Option String)
    (e : Typed.Expr) : Prop :=
  match e.kind with
  | .call callee args =>
    (∃ id, callee.kind = .localVar id ∧ LogsTyped calls (.function id) args callee.type) ∨
      callee.Callable h args
  | .methodCall receiver message args =>
    ∃ entry, h.method? receiver.type.head message = some entry ∧
      Logs calls (.method entry.definedIn message) args
  | .thisMethodCall message args =>
    ∃ className entry, className? = some className ∧ h.method? className message = some entry ∧
      Logs calls (.method entry.definedIn message) args
  | .newInstance className args =>
    match h.method? className Hierarchy.constructorName with
    | some entry => Logs calls (.method entry.definedIn Hierarchy.constructorName) args
    | none => args = []
  | _ => True

namespace Translate

open Typed

variable {api : ApiTables} {σ : Site} {s s' : State} {calls calls' : List Call} {h h' : Hierarchy}
  {className? : Option String} {e : Expr}

/-! ## Nodes -/

theorem Logs.mono {key : DefKey} {args : List Expr} (logs : Logs calls key args)
    (more : calls ⊆ calls') : Logs calls' key args :=
  logs.imp fun _ found => ⟨more found.1, found.2⟩

theorem LogsTyped.mono {key : DefKey} {args : List Expr} {type : Ty}
    (logs : LogsTyped calls key args type) (more : calls ⊆ calls') :
    LogsTyped calls' key args type :=
  logs.imp fun _ found => ⟨more found.1, found.2⟩

theorem matchParams_eq (shape : h.SameShape h') (params args : List Ty) (name : String) :
    matchParams h' params args name = matchParams h params args name := by
  have places : ∀ params args i,
      matchParamsFrom h' name i params args = matchParamsFrom h name i params args := by
    intro params
    induction params with
    | nil => exact fun _ _ => rfl
    | cons param params ih =>
      intro args i
      cases args with
      | nil => rfl
      | cons arg args =>
        rw [matchParamsFrom, matchParamsFrom, ih, expectCompatible, expectCompatible,
          shape.compatible_eq]
  rw [matchParams, matchParams, places]

theorem Callable.sameShape {callee : Expr} {args : List Expr} (callable : callee.Callable h args)
    (shape : h.SameShape h') : callee.Callable h' args := by
  obtain ⟨params, ret, name, found, type, full, matched⟩ := callable
  exact ⟨params, ret, name, found, type, full, (matchParams_eq shape ..).trans matched⟩

theorem Logged.mono (logged : e.Logged calls h className?) (more : calls ⊆ calls')
    (shape : h.SameShape h') : e.Logged calls' h' className? := by
  obtain ⟨kind, type⟩ := e
  cases kind with
  | call callee args =>
    rcases logged with ⟨id, isVar, logs⟩ | callable
    · exact .inl ⟨id, isVar, LogsTyped.mono logs more⟩
    · exact .inr (Callable.sameShape callable shape)
  | methodCall receiver message args =>
    obtain ⟨entry, declared, logs⟩ := logged
    exact ⟨entry, (shape.method?_eq ..).trans declared, Logs.mono logs more⟩
  | thisMethodCall message args =>
    obtain ⟨className, entry, isMethod, declared, logs⟩ := logged
    exact ⟨className, entry, isMethod, (shape.method?_eq ..).trans declared, Logs.mono logs more⟩
  | newInstance className args =>
    unfold Expr.Logged at logged ⊢
    dsimp only at logged ⊢
    rw [shape.method?_eq]
    split at logged
    · exact Logs.mono logged more
    · exact logged
  | _ => trivial

/-- Auxiliary nodes are no calls. -/
theorem logged_of_isAuxiliary {free : String → Prop} (auxiliary : e.IsAuxiliary free) :
    e.Logged calls h className? := by
  obtain ⟨kind, type⟩ := e
  cases kind <;> trivial

theorem Answered.logs {key : DefKey} {cell : CellId} {args : List Expr} {ret : Ty}
    (answered : s.Answered key cell (types args) ret) : Logs s.calls key args := by
  obtain ⟨type, phase, known⟩ := answered
  exact ⟨_, known, rfl, rfl⟩

theorem JustAnswered.logs {key : DefKey} {cell : CellId} {args : List Expr} {ret : Ty}
    (latest : s.JustAnswered key cell (types args) ret) :
    LogsTyped s.calls key args (s.cells.get cell).toTy := by
  obtain ⟨phase, first⟩ := latest
  exact ⟨_, List.mem_of_mem_head? first, rfl, rfl, rfl⟩

theorem Makes.logged {free : String → Prop} {below : List String → Expr → Prop}
    {parts : List Expr} (made : Makes api σ s free below s.Answered parts e) :
    e.Logged s.calls s.hierarchy σ.className? := by
  cases made with
  | literal isLiteral => cases isLiteral <;> trivial
  | binary made =>
    obtain ⟨result, -, ⟨-, rfl⟩ | ⟨_, _, _, -, -, rfl⟩⟩ := binary_cases made
    · trivial
    · trivial
  | test made differs =>
    rcases testable_cases made with rfl | ⟨-, rfl⟩ | ⟨-, rfl⟩ | rfl
    · exact absurd rfl differs
    · trivial
    · trivial
    · trivial
  | regexp made differs =>
    rcases toRegexp_cases made with rfl | ⟨value, rfl⟩ | rfl
    · exact absurd rfl differs
    · trivial
    · trivial
  -- the calls: of a value that has a function type, or answered and therefore in the log
  | valueCall type full matched => exact .inr ⟨_, _, _, _, type, full, matched⟩
  | functionCall _ _ _ latest => exact .inl ⟨_, rfl, JustAnswered.logs latest⟩
  | methodCall declared called => exact ⟨_, declared, Answered.logs called⟩
  | thisMethodCall isMethod declared called =>
    exact ⟨_, _, isMethod, declared, Answered.logs called⟩
  | newInstance declared called =>
    unfold Expr.Logged
    dsimp only
    rw [declared]
    exact Answered.logs called
  | plainInstance _ undeclared =>
    unfold Expr.Logged
    dsimp only
    rw [undeclared]
  | _ => trivial

/-- That a node is logged is a property of the node. -/
def loggedNodes (api : ApiTables) : NodeProperty api where
  Of s className? e := e.Logged s.calls s.hierarchy className?
  mono logged shape calls := Logged.mono logged calls shape.hierarchy
  make made := Makes.logged made
  auxiliary := logged_of_isAuxiliary
  target := trivial
  retype logged _ := logged

/-! ## The log -/

/-- The log only grows, however a run ends. -/
def logLaw (setting : Setting) : Law setting where
  Rel _ _ s s' := s.calls <:+ s'.calls
  Call s s' := s.calls <:+ s'.calls
  Stopped s _ s' := s.calls <:+ s'.calls
  rel_refl _ _ _ := List.suffix_refl _
  rel_trans := List.IsSuffix.trans
  stop_here _ _ _ := List.suffix_refl _
  stop_depth _ := List.suffix_refl _
  stop_rel := List.IsSuffix.trans
  depend _ _ _ := ⟨trivial, List.suffix_refl _⟩
  retype {_ σ s e _ ty} _ _ _ _ _ := by
    rw [State.calls_refined]
    exact ⟨trivial, List.suffix_refl _, trivial⟩
  closeScope _ _ _ rel _ := ⟨trivial, rel⟩
  declare _ _ _ _ _ _ := ⟨trivial, List.suffix_refl _⟩
  join _ _ _ _ _ _ _ := ⟨trivial, List.suffix_refl _⟩
  joinAttribute _ _ _ _ _ _ := ⟨trivial, List.suffix_refl _, trivial⟩
  register _ _ _ _ := ⟨trivial, List.suffix_refl _⟩
  merge _ _ _ _ _ _ _ := ⟨trivial, List.suffix_refl _, trivial⟩
  answer _ _ _ _ _ _ := ⟨trivial, List.suffix_cons .., trivial⟩
  leave _ _ _ _ _ _ _ rel _ _ := ⟨trivial, List.IsSuffix.trans rel (List.suffix_cons ..), trivial⟩

theorem logLaw_at {setting : Setting} {n : Nat} (σ : Site) (s : State) : (logLaw setting).At n σ s :=
  ⟨trivial, trivial⟩

/-- What is translated next only adds calls to the log. -/
theorem Advances.calls_suffix {o : Outline} {n : Nat} {allowed : Option DefKey → String → Prop}
    {typed : Ty → Prop} {ctx : Context}
    (advances : Advances (o.translator api n) allowed typed ctx s s') : s.calls <:+ s'.calls := by
  have isOpen : (logLaw (o.setting api)).Open allowed typed :=
    ⟨fun _ _ => trivial, fun _ _ _ => trivial, fun _ _ _ => trivial, fun _ => trivial, id⟩
  exact ((logLaw_at ..).advance isOpen advances).2.rel

/-- An inference that succeeds is the latest call of the log, and one that fails takes none out. -/
theorem inferAt_logged (setting : Setting) (n : Nat) (key : DefKey) (cell : CellId)
    (args : List Ty) (pos : Pos) (s : State) :
    Runs (inferAt setting n key cell args pos) s
      (fun ret s' => s.calls <:+ s'.calls ∧ s'.JustAnswered key cell args ret)
      fun _ s' => s.calls <:+ s'.calls := by
  have infers : (logLaw setting).Infers n (inferAt setting n) := Law.inferAt_infers n
  refine Runs.imp (infers s key cell args pos trivial trivial fun _ _ => trivial) ?_ fun _ _ h => h
  rintro ret s' ⟨-, grows, -, -, latest⟩
  exact ⟨grows, latest⟩

/-! ## Called names -/

/-- A name that no visible scope binds is looked up without success. -/
theorem run_lookup_bind {α : Type} {scope : ScopeId} {id : String} {act : Option Ty → Run α} {a : α}
    (unbound : s.scopes.lookup scope id = none)
    (run : (lookup scope id >>= act).run s = (.ok a, s')) : (act none).run s = (.ok a, s') := by
  have read : Runs (lookup scope id) s (fun found s₁ => found = none ∧ s₁ = s) fun _ _ => True :=
    Runs.lookup (fun _ => ⟨unbound, rfl⟩) fun _ => trivial
  obtain ⟨found, s₁, looked, rest⟩ := Runs.of_bind_ok run
  obtain ⟨rfl, rfl⟩ := read.of_ok looked
  exact rest

/-- A call of a name that is accepted was translated as such. -/
theorem run_callName {t : Translator} {ctx : Context} {id : String} {namePos pos : Pos}
    {args : List Tree.Expr} {keywords : List Tree.Keyword} {node : Expr}
    (run : (expr t ⟨.call ⟨.name id, namePos⟩ args keywords, pos⟩ ctx).run s = (.ok node, s')) :
    (callName t ctx pos id (exprs t args)).run s = (.ok node, s') := by
  rw [expr, Runs.run_located_iff, exprKind] at run
  unfold callNode callee at run
  split at run
  · cases run
  split at run
  · cases run
  exact run

/-- A called name means a function of the module: no function of the global namespace and no
variable that is visible has the name. -/
structure CallsFunction (api : ApiTables) (ctx : Context) (s : State) (id : String) (cell : CellId) :
    Prop where
  notGlobal : api.function? ApiTables.globalSpace id = none
  unbound : s.scopes.lookup ctx.scope id = none
  declared : s.definitions.function? id = some cell

/-- The node of a call that was just answered, with the type that the call left in the cell. -/
def State.JustCalled (s : State) (id : String) (cell : CellId) (node : Expr) : Prop :=
  ∃ args ret, node = ⟨.call (.localVar id (s.cells.get cell).toTy) args, ret⟩ ∧
    s.JustAnswered (.function id) cell (types args) ret

theorem justCalled_of_run {setting : Setting} {n : Nat} {ctx : Context} {id : String} {cell : CellId}
    (calls : CallsFunction setting.api ctx s id cell) {namePos pos : Pos} {args : List Tree.Expr}
    {keywords : List Tree.Keyword} {node : Expr}
    (run : (expr ⟨setting, inferAt setting n⟩ ⟨.call ⟨.name id, namePos⟩ args keywords, pos⟩ ctx).run s =
      (.ok node, s')) : s'.JustCalled id cell node := by
  have called := run_callName run
  unfold callName at called
  rw [calls.notGlobal] at called
  obtain ⟨s₁, _, got, rest⟩ := Runs.of_bind_ok (run_lookup_bind calls.unbound called)
  cases got
  rw [calls.declared] at rest
  obtain ⟨nodes, s₂, -, rest⟩ := Runs.of_bind_ok rest
  obtain ⟨ret, s₃, inferred, rest⟩ := Runs.of_bind_ok rest
  obtain ⟨-, latest⟩ := (inferAt_logged ..).of_ok inferred
  cases rest
  exact ⟨nodes, ret, rfl, latest⟩

end Translate

end TreeTyper
