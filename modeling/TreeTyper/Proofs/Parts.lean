import TreeTyper.Proofs.Law.Basic

/-!
# What a node is made of

Every node of a new expression is the expression itself, a node of one of its
parts, or auxiliary: a length, the number it is compared with, an array around an
argument, the name of a called function.

    Makes api σ s free below called parts e → x ∈ e.nodes →
      x = e ∨ x.IsAuxiliary free ∨ ∃ p ∈ parts, x ∈ p.nodes                 (Makes.mem_nodes)
-/

namespace TreeTyper

namespace Typed.Expr

/-- The kinds of the nodes that are put between a node and its parts, where no scope binds the
names that are `free`. -/
def IsAuxiliary (free : String → Prop) (e : Expr) : Prop :=
  match e.kind with
  | .int _ | .standardMethodCall .. | .array _ => True
  | .localVar name => free name
  | _ => False

end Typed.Expr

namespace Translate

open Typed

/-! ## Operands -/

theorem testable_cases {value e : Expr} (made : testable value = .ok e) :
    e = value ∨ value.type.isSized ∧ e = greater (lengthOf value) (.int 0) ∨
      value.type.isNumeric ∧ e = greater value (.int 0) ∨
      e = ⟨.standardMethodCall value "has_match" [], .boolean⟩ := by
  unfold testable at made
  split at made
  · cases made
    exact .inl rfl
  split at made
  · next sized =>
    cases made
    exact .inr (.inl ⟨sized, rfl⟩)
  split at made
  · next numeric =>
    cases made
    exact .inr (.inr (.inl ⟨numeric, rfl⟩))
  split at made
  · cases made
    exact .inr (.inr (.inr rfl))
  · cases made

theorem toRegexp_cases {pattern e : Expr} (made : toRegexp pattern = .ok e) :
    e = pattern ∨ (∃ value, e = ⟨.regex value, .atom Ty.regexpName⟩) ∨
      e = ⟨.standardCall "regexp" "compile" [pattern], .atom Ty.regexpName⟩ := by
  unfold toRegexp at made
  split at made
  · next value _ =>
    cases made
    exact .inr (.inl ⟨value, rfl⟩)
  split at made
  · cases made
    exact .inl rfl
  split at made
  · cases made
    exact .inr (.inr rfl)
  · cases made

theorem binary_cases {api : ApiTables} {op : String} {left right e : Expr}
    (made : binary api op left right = .ok e) :
    ∃ result, Ty.binaryResult? op left.type right.type = some result ∧
      (result.isPrimitive ∧ e = ⟨.binaryOp op left right, result⟩ ∨
        ∃ receiver arg message, receiver ∈ [left, right] ∧ arg ∈ [left, right] ∧
          e = ⟨.standardMethodCall receiver message [formatArgument op arg], result⟩) := by
  unfold binary at made
  split at made
  · cases made
  split at made
  · cases made
  next result typed =>
  refine ⟨result, typed, ?_⟩
  split at made
  · next primitive =>
    cases made
    exact .inl ⟨primitive, rfl⟩
  · split at made
    next receiver arg operands =>
    have within : receiver ∈ [left, right] ∧ arg ∈ [left, right] := by
      split at operands
      · cases operands
        simp
      · cases operands
        simp
    split at made
    · cases made
    · next message _ =>
      cases made
      exact .inr ⟨receiver, arg, message, within.1, within.2, rfl⟩

/-! ## Nodes -/

variable {s : State} {free : String → Prop} {parts : List Expr}

/-- The nodes that are put between a node and its parts. -/
inductive Auxiliary (s : State) (free : String → Prop) (parts : List Expr) : Expr → Prop
  | zero : Auxiliary s free parts (.int 0)
  | length {p} : p ∈ parts → Auxiliary s free parts (lengthOf p)
  | argument {p} : p ∈ parts → Auxiliary s free parts ⟨.array [p], .array .string 1⟩
  | function {id cell} : free id → s.definitions.function? id = some cell →
      Auxiliary s free parts (.localVar id (s.cells.get cell).toTy)

theorem Auxiliary.isAuxiliary {e : Expr} (auxiliary : Auxiliary s free parts e) :
    e.IsAuxiliary free := by
  cases auxiliary with
  | function unbound _ => exact unbound
  | _ => trivial

theorem Auxiliary.children {e : Expr} (auxiliary : Auxiliary s free parts e) :
    ∀ c ∈ e.children, c ∈ parts := by
  cases auxiliary with
  | zero | function _ _ => simp [Expr.int, Expr.localVar, Expr.children, ExprKind.children]
  | length hp | argument hp => simpa [lengthOf, Expr.children, ExprKind.children] using hp

/-- Nodes below a node: those of the parts, and auxiliary ones. -/
def From (s : State) (free : String → Prop) (parts : List Expr) (x : Expr) : Prop :=
  Auxiliary s free parts x ∨ ∃ p ∈ parts, x ∈ p.nodes

theorem from_part {p : Expr} (hp : p ∈ parts) : ∀ x ∈ p.nodes, From s free parts x :=
  fun _ hx => .inr ⟨p, hp, hx⟩

theorem from_auxiliary {e : Expr} (auxiliary : Auxiliary s free parts e) :
    ∀ x ∈ e.nodes, From s free parts x :=
  Expr.forall_nodes.mpr ⟨.inl auxiliary, fun c hc => from_part (auxiliary.children c hc)⟩

theorem from_formatArgument {p : Expr} (op : String) (hp : p ∈ parts) :
    ∀ x ∈ (formatArgument op p).nodes, From s free parts x := by
  unfold formatArgument
  split
  · exact from_auxiliary (.argument hp)
  · exact from_part hp

theorem Makes.children {api : ApiTables} {σ : Site}
    {below : List String → Expr → Prop} {called : DefKey → CellId → List Ty → Ty → Prop} {e : Expr}
    (made : Makes api σ s free below called parts e) :
    ∀ c ∈ e.children, ∀ x ∈ c.nodes, From s free parts x := by
  -- most forms have just their parts below them
  have direct : ∀ {kind : ExprKind} {type : Ty}, (∀ c ∈ kind.children, c ∈ parts) →
      ∀ c ∈ (⟨kind, type⟩ : Expr).children, ∀ x ∈ c.nodes, From s free parts x :=
    fun within c hc => from_part (within c hc)
  cases made with
  | literal isLiteral => cases isLiteral <;> exact direct (by simp [ExprKind.children])
  | binary made =>
    obtain ⟨result, -, ⟨-, rfl⟩ | ⟨receiver, arg, message, hr, ha, rfl⟩⟩ := binary_cases made
    · exact direct (by simp [ExprKind.children])
    · intro c hc
      rcases List.mem_cons.mp hc with rfl | hc
      · exact from_part hr
      · rw [List.mem_singleton.mp hc]
        exact from_formatArgument _ ha
  | test made differs =>
    rcases testable_cases made with rfl | ⟨-, rfl⟩ | ⟨-, rfl⟩ | rfl
    · exact absurd rfl differs
    · intro c hc
      rcases List.mem_cons.mp hc with rfl | hc
      · exact from_auxiliary (.length (by simp))
      · rw [List.mem_singleton.mp hc]
        exact from_auxiliary .zero
    · intro c hc
      rcases List.mem_cons.mp hc with rfl | hc
      · exact from_part (by simp)
      · rw [List.mem_singleton.mp hc]
        exact from_auxiliary .zero
    · exact direct (by simp [ExprKind.children])
  | regexp made differs =>
    rcases toRegexp_cases made with rfl | ⟨value, rfl⟩ | rfl
    · exact absurd rfl differs
    · exact direct (by simp [ExprKind.children])
    · exact direct (by simp [ExprKind.children])
  | functionCall unbound declared =>
    intro c hc
    rcases List.mem_cons.mp hc with rfl | hc
    · exact from_auxiliary (.function unbound declared)
    · exact from_part hc
  | standardMethodCall =>
    intro c hc
    rcases List.mem_cons.mp hc with rfl | hc
    · exact from_part (by simp)
    · exact from_part (by simp [hc])
  | _ => exact direct (by simp [ExprKind.children])

variable {api : ApiTables} {σ : Site} {below : List String → Expr → Prop}
  {called : DefKey → CellId → List Ty → Ty → Prop} {e x : Expr}

theorem Makes.from_nodes (made : Makes api σ s free below called parts e) (hx : x ∈ e.nodes) :
    x = e ∨ From s free parts x := by
  rw [Expr.nodes_eq] at hx
  rcases List.mem_cons.mp hx with rfl | hx
  · exact .inl rfl
  · obtain ⟨c, hc, hx⟩ := List.mem_flatMap.mp hx
    exact .inr (made.children c hc x hx)

theorem Makes.mem_nodes (made : Makes api σ s free below called parts e) (hx : x ∈ e.nodes) :
    x = e ∨ x.IsAuxiliary free ∨ ∃ p ∈ parts, x ∈ p.nodes :=
  (made.from_nodes hx).imp id (Or.imp Auxiliary.isAuxiliary id)

end Translate

end TreeTyper
