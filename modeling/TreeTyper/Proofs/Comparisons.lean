import TreeTyper.Proofs.Dictionary
import TreeTyper.Proofs.Law.Expr

/-!
# Chains of comparisons

A chain of comparisons becomes the conjunction of the comparisons of neighbours.  Each
operand is translated once, but the tree has no place to keep a value: an operand that
stands between two others is a part of both comparisons.

    node.callCount = calls (first :: rest) + calls rest.dropLast            (callCount_chain)
    (∀ E, E.eval node = E.chain first links) ↔ calls rest.dropLast = 0    (eval_eq_chain_iff)

So its calls run a second time.  A chain whose inner operands are free of calls is
evaluated as it reads: each operand at most once, from left to right, until a comparison
fails.
-/

namespace TreeTyper.Typed

/-! ## Calls -/

/-- Whether an expression runs a routine, a constructor or something of the standard tables. -/
def Expr.isCall (e : Expr) : Bool :=
  match e.kind with
  | .call .. | .methodCall .. | .thisMethodCall .. => true
  | .standardCall .. | .standardMethodCall .. | .newInstance .. => true
  | _ => false

/-- The number of calls in an expression, at any depth. -/
def Expr.callCount (e : Expr) : Nat := e.nodes.countP Expr.isCall

/-- The number of calls in some expressions. -/
def calls : List Expr → Nat
  | [] => 0
  | e :: es => e.callCount + calls es

theorem calls_cons (e : Expr) (es : List Expr) : calls (e :: es) = e.callCount + calls es := rfl

theorem callCount_comparison (op : String) (left right : Expr) (type : Ty) :
    Expr.callCount ⟨.comparison op left right, type⟩ = left.callCount + right.callCount := by
  rw [Expr.callCount, Expr.nodes, ExprKind.nodes, List.countP_cons, List.countP_append]
  rfl

theorem callCount_binaryOp (op : String) (left right : Expr) (type : Ty) :
    Expr.callCount ⟨.binaryOp op left right, type⟩ = left.callCount + right.callCount := by
  rw [Expr.callCount, Expr.nodes, ExprKind.nodes, List.countP_cons, List.countP_append]
  rfl

/-! ## Evaluation -/

/-- A way to evaluate expressions to values of `ν`, with effects on a state of `σ` and failures of
`ε`: a conjunction does not evaluate its right side if its left side does not hold, a comparison
evaluates both sides from left to right, and nothing but a call has an effect. -/
structure Evaluation (σ ν ε : Type) where
  eval : Expr → StateT σ (Except ε) ν
  /-- The value of a condition that holds. -/
  truth : ν
  holds : ν → Bool
  compare : String → ν → ν → Except ε ν
  holds_truth : holds truth
  eval_and : ∀ left right type, eval ⟨.binaryOp "and" left right, type⟩ = do
    let v ← eval left
    if holds v then eval right else pure v
  eval_comparison : ∀ op left right type, eval ⟨.comparison op left right, type⟩ = do
    let x ← eval left
    let y ← eval right
    compare op x y
  state_of_callFree : ∀ e s v s', e.callCount = 0 → (eval e).run s = .ok (v, s') → s' = s

namespace Evaluation

variable {σ ν ε : Type} (E : Evaluation σ ν ε)

/-- Conditions one after the other, as long as the value so far holds. -/
def allFrom (v : ν) : List Expr → StateT σ (Except ε) ν
  | [] => pure v
  | e :: es => if E.holds v then do allFrom (← E.eval e) es else pure v

/-- The conjunction of some conditions. -/
def all (es : List Expr) : StateT σ (Except ε) ν := E.allFrom E.truth es

/-- Compares the value `x` with the operands that follow, each of which is evaluated once, as long
as the comparison before, of the value `v`, holds. -/
def chainFrom (x v : ν) : List (String × Expr) → StateT σ (Except ε) ν
  | [] => pure v
  | (op, e) :: links =>
    if E.holds v then do
      let y ← E.eval e
      let w ← E.compare op x y
      chainFrom y w links
    else pure v

/-- A chain of comparisons as it reads: every operand is evaluated at most once, from left to right,
until a comparison fails. -/
def chain (first : Expr) (links : List (String × Expr)) : StateT σ (Except ε) ν := do
  let x ← E.eval first
  E.chainFrom x E.truth links

end Evaluation

end TreeTyper.Typed

namespace TreeTyper.Translate

open Typed

variable {σ ν ε : Type} {first node : Expr} {links : List (String × Expr)}

/-- The comparisons of neighbours. -/
def neighbours (left : Expr) : List (String × Expr) → List Expr
  | [] => []
  | (op, right) :: links => ⟨.comparison op left right, .boolean⟩ :: neighbours right links

/-! ## Counting -/

theorem callCount_conjoin : ∀ {es : List Expr} {node : Expr}, conjoin es = some node →
    node.callCount = calls es
  | [], _, found => nomatch found
  | [last], node, found => by
    cases found
    rw [calls_cons]
    rfl
  | left :: next :: rest, node, found => by
    obtain ⟨right, joined, rfl⟩ := Option.map_eq_some_iff.mp found
    rw [conjunction, callCount_binaryOp, callCount_conjoin joined, calls_cons left]

/-- Every operand but the last is a left side, and every one but the first a right side. -/
theorem calls_neighbours (first : Expr) (links : List (String × Expr)) :
    calls (neighbours first links) =
      calls (first :: links.map (·.2)).dropLast + calls (links.map (·.2)) := by
  induction links generalizing first with
  | nil => rfl
  | cons link links ih =>
    obtain ⟨op, right⟩ := link
    rw [neighbours, calls_cons, callCount_comparison, ih]
    show _ = calls (first :: right :: links.map (·.2)).dropLast + calls (right :: links.map (·.2))
    rw [List.dropLast_cons_cons, calls_cons first, calls_cons right]
    omega

/-- The calls of the operands between the first and the last one stand there twice. -/
theorem callCount_chain (joined : conjoin (neighbours first links) = some node) :
    node.callCount =
      calls (first :: links.map (·.2)) + calls (links.map (·.2)).dropLast := by
  rw [callCount_conjoin joined, calls_neighbours]
  cases links with
  | nil => cases joined
  | cons link links =>
    rw [List.map_cons, List.dropLast_cons_cons, calls_cons, calls_cons first]
    omega

/-! ## Evaluating -/

section Evaluating

variable (E : Evaluation σ ν ε)

theorem allFrom_cons (v : ν) (e : Expr) (es : List Expr) :
    E.allFrom v (e :: es) = if E.holds v then E.all (e :: es) else pure v := by
  rw [Evaluation.all, Evaluation.allFrom, Evaluation.allFrom, if_pos E.holds_truth]

/-- A conjunction is its first condition, and the conjunction of the others if that holds. -/
theorem all_cons (e : Expr) (es : List Expr) :
    E.all (e :: es) = E.eval e >>= fun v => E.allFrom v es := by
  rw [Evaluation.all, Evaluation.allFrom, if_pos E.holds_truth]

theorem eval_conjoin : ∀ {es : List Expr} {node : Expr}, conjoin es = some node →
    E.eval node = E.all es
  | [], _, found => nomatch found
  | [last], node, found => by
    cases found
    rw [all_cons]
    exact (bind_pure _).symm
  | left :: next :: rest, node, found => by
    obtain ⟨right, joined, rfl⟩ := Option.map_eq_some_iff.mp found
    rw [conjunction, E.eval_and, eval_conjoin joined, all_cons E left]
    refine bind_congr fun v => ?_
    rw [allFrom_cons]

/-- What follows an evaluation without calls may take it that evaluating again gives the same. -/
theorem eval_bind_congr {e : Expr} (callFree : e.callCount = 0) {f g : ν → StateT σ (Except ε) ν}
    (same : ∀ y s, (E.eval e).run s = .ok (y, s) → (f y).run s = (g y).run s) :
    E.eval e >>= f = E.eval e >>= g := by
  funext s
  change (E.eval e).run s >>= _ = (E.eval e).run s >>= _
  cases ends : (E.eval e).run s with
  | error stop => rfl
  | ok found =>
    obtain ⟨y, s'⟩ := found
    obtain rfl := E.state_of_callFree e s y s' callFree ends
    exact same y s' ends

theorem chainFrom_cons (x v : ν) (link : String × Expr) (links : List (String × Expr)) :
    E.chainFrom x v (link :: links) =
      if E.holds v then E.chainFrom x E.truth (link :: links) else pure v := by
  obtain ⟨op, e⟩ := link
  rw [Evaluation.chainFrom, Evaluation.chainFrom, if_pos E.holds_truth]

/-- If no operand between two others has a call, the conjunction of the comparisons evaluates the
chain as it reads. -/
theorem all_neighbours : ∀ {links : List (String × Expr)} {first : Expr}, links ≠ [] →
    calls (links.map (·.2)).dropLast = 0 → E.all (neighbours first links) = E.chain first links
  | [], _, notNil, _ => absurd rfl notNil
  | (op, right) :: links, first, _, callFree => by
    have start (x : ν) : E.chainFrom x E.truth ((op, right) :: links) = E.eval right >>= fun y =>
        liftM (E.compare op x y) >>= fun w => E.chainFrom y w links := by
      rw [Evaluation.chainFrom, if_pos E.holds_truth]
    rw [neighbours, all_cons, E.eval_comparison, Evaluation.chain, bind_assoc]
    refine bind_congr fun x => ?_
    rw [start, bind_assoc]
    cases links with
    | nil => rfl
    | cons link links =>
      have both : right.callCount + calls ((link :: links).map (·.2)).dropLast = 0 := by
        rwa [List.map_cons, List.map_cons, List.dropLast_cons_cons, calls_cons] at callFree
      have rest : E.all (neighbours right (link :: links)) = E.chain right (link :: links) :=
        all_neighbours (List.cons_ne_nil _ _) (by omega)
      refine eval_bind_congr E (by omega) fun y s again => ?_
      cases compared : E.compare op x y with
      | error stop => rfl
      | ok w =>
        show (E.allFrom w (neighbours right (link :: links))).run s =
          (E.chainFrom y w (link :: links)).run s
        rw [neighbours, allFrom_cons, ← neighbours, rest, chainFrom_cons]
        by_cases holds : E.holds w
        · rw [if_pos holds, if_pos holds, Evaluation.chain]
          change (E.eval right).run s >>= _ = _
          rw [again]
          rfl
        · rw [if_neg holds, if_neg holds]

end Evaluating

/-! ## Calls that run twice -/

/-- The evaluation under which every condition holds and the state counts the calls that ran. -/
def counting : Evaluation Nat Unit Empty where
  eval e := modify (· + e.callCount)
  truth := ()
  holds _ := true
  compare _ _ _ := .ok ()
  holds_truth := rfl
  eval_and left right type := by
    funext n
    rw [callCount_binaryOp]
    exact congrArg (fun m => Except.ok ((), m)) (Nat.add_assoc n _ _).symm
  eval_comparison op left right type := by
    funext n
    rw [callCount_comparison]
    exact congrArg (fun m => Except.ok ((), m)) (Nat.add_assoc n _ _).symm
  state_of_callFree e n v n' callFree ends := by
    cases ends
    exact congrArg (n + ·) callFree

theorem counting_chainFrom (n : Nat) (links : List (String × Expr)) :
    (counting.chainFrom () () links).run n = .ok ((), n + calls (links.map (·.2))) := by
  induction links generalizing n with
  | nil => rfl
  | cons link links ih =>
    obtain ⟨op, e⟩ := link
    rw [List.map_cons, calls_cons, ← Nat.add_assoc]
    exact ih (n + e.callCount)

theorem counting_chain (n : Nat) (first : Expr) (links : List (String × Expr)) :
    (counting.chain first links).run n = .ok ((), n + calls (first :: links.map (·.2))) := by
  rw [calls_cons, ← Nat.add_assoc]
  exact counting_chainFrom (n + first.callCount) links

/-- The conjunction evaluates the chain as it reads, whatever the calls do, exactly if what stands
between two operands has no call. -/
theorem eval_eq_chain_iff (joined : conjoin (neighbours first links) = some node) :
    (∀ (σ ν ε : Type) (E : Evaluation σ ν ε), E.eval node = E.chain first links) ↔
      calls (links.map (·.2)).dropLast = 0 := by
  constructor
  · intro same
    have ran : (counting.chain first links).run 0 = .ok ((), 0 + node.callCount) := by
      rw [← same]
      rfl
    rw [counting_chain, callCount_chain joined] at ran
    have counts : 0 + calls (first :: links.map (·.2)) = 0 + (calls (first :: links.map (·.2)) +
        calls (links.map (·.2)).dropLast) := congrArg Prod.snd (Except.ok.inj ran)
    omega
  · intro callFree σ ν ε E
    have notNil : links ≠ [] := by
      rintro rfl
      cases joined
    rw [eval_conjoin E joined, all_neighbours E notNil callFree]

/-! ## Translation -/

section Compare

variable {t : Translator} {ctx : Context} {s s' : State} {ops : List Tree.ComparisonOperator}

theorem run_comparisons {left : Expr} {rest : List (Expr × Pos)} {nodes : List Expr}
    (run : (comparisons left ops rest).run s = (.ok nodes, s')) :
    nodes = neighbours left ((ops.map (·.symbol)).zip (rest.map (·.1))) ∧ s' = s := by
  induction ops generalizing left rest nodes s s' with
  | nil =>
    cases run
    exact ⟨rfl, rfl⟩
  | cons op ops ih =>
    cases rest with
    | nil => cases run
    | cons second rest =>
      obtain ⟨right, pos⟩ := second
      unfold comparisons at run
      split at run
      · cases run
      obtain ⟨_, s₁, checked, run'⟩ := Runs.of_bind_ok run
      obtain ⟨-, rfl⟩ := Runs.run_check_iff.mp (Runs.run_located_iff.mp checked)
      obtain ⟨others, s₂, inner, ends⟩ := Runs.of_bind_ok run'
      obtain ⟨rfl, rfl⟩ := ih inner
      cases ends
      exact ⟨rfl, rfl⟩

theorem run_compare {left : Tree.Expr} {comparators : List Tree.Expr} {pos : Pos}
    (run : (expr t ⟨.compare left ops comparators, pos⟩ ctx).run s = (.ok node, s')) :
    ∃ first rest, (runAll ctx (exprs t (left :: comparators))).run s = (.ok (first :: rest), s') ∧
      rest.length = comparators.length ∧
      conjoin (neighbours first ((ops.map (·.symbol)).zip rest)) = some node := by
  rw [expr, Runs.run_located_iff, exprKind] at run
  obtain ⟨first, s₁, translated, run₁⟩ := Runs.of_bind_ok run
  obtain ⟨rest, s₂, others, run₂⟩ := Runs.of_bind_ok run₁
  obtain ⟨nodes, s₃, compared, run₃⟩ := Runs.of_bind_ok run₂
  obtain ⟨rfl, rfl⟩ := run_comparisons compared
  have lengths : rest.length = comparators.length := by
    rw [(Law.runAll_length (exprs t comparators) ctx s₁).of_ok others, Law.exprs_length]
  have operands : (rest.zip ((exprs t comparators).map (·.source.pos))).map (·.1) = rest := by
    refine List.map_fst_zip ?_
    rw [List.length_map, Law.exprs_length, lengths]
  rw [operands] at run₃
  split at run₃
  · next joined =>
    cases run₃
    refine ⟨first, rest, ?_, lengths, joined⟩
    rw [exprs, runAll, Runs.run_bind_ok translated, Runs.run_bind_ok others]
    rfl
  · cases run₃

end Compare

end TreeTyper.Translate

namespace TreeTyper

open Typed Translate

/-- A chain of comparisons that is accepted has each operand translated once, in order, and becomes
the conjunction of the comparisons of neighbours, whatever its calls do.  In the result the calls of
the operands between the first and the last one stand twice.  So it is evaluated as it reads, with
each operand evaluated at most once, exactly if those have no calls. -/
theorem comparison_chain {t : Translator} {ctx : Context} {s s' : State} {pos : Pos}
    {left : Tree.Expr} {ops : List Tree.ComparisonOperator} {comparators : List Tree.Expr}
    {node : Expr} (lengths : ops.length = comparators.length)
    (run : (expr t ⟨.compare left ops comparators, pos⟩ ctx).run s = (.ok node, s')) :
    ∃ first rest,
      (runAll ctx (exprs t (left :: comparators))).run s = (.ok (first :: rest), s') ∧
      conjoin (neighbours first ((ops.map (·.symbol)).zip rest)) = some node ∧
      (∀ (σ ν ε : Type) (E : Evaluation σ ν ε),
        E.eval node = E.all (neighbours first ((ops.map (·.symbol)).zip rest))) ∧
      node.callCount = calls (first :: rest) + calls rest.dropLast ∧
      ((∀ (σ ν ε : Type) (E : Evaluation σ ν ε),
        E.eval node = E.chain first ((ops.map (·.symbol)).zip rest)) ↔
          calls rest.dropLast = 0) := by
  obtain ⟨first, rest, operands, length, joined⟩ := run_compare run
  have kept : ((ops.map (·.symbol)).zip rest).map (·.2) = rest := by
    refine List.map_snd_zip ?_
    rw [List.length_map, lengths, length]
  have counts := callCount_chain joined
  have once := eval_eq_chain_iff joined
  rw [kept] at counts once
  exact ⟨first, rest, operands, joined, fun σ ν ε E => eval_conjoin E joined, counts, once⟩

open Tree.Build in
/-- `int(input())` -/
def readInt : Tree.Expr := call (name "int") [call (name "input") []]

/-- What `int(input())` becomes. -/
def readNode : Expr :=
  ⟨.standardCall "global" "to_int" [⟨.standardCall "io" "read" [], .string⟩], .int⟩

open Tree.Build in
/-- `int(input()) < 3 <= int(input())` reads two lines, the second one if the first has a number
below three. -/
theorem comparison_chain_around_three : ∃ node,
    (expr bare ⟨.compare readInt [.lt, .ltE] [int 3, readInt], ⟨1, 0⟩⟩ .ofModule).run .empty =
      (.ok node, .empty) ∧
    node.callCount = 4 ∧
    ∀ (σ ν ε : Type) (E : Evaluation σ ν ε),
      E.eval node = E.chain readNode [("<", .int 3), ("<=", readNode)] := by
  have run : (expr bare ⟨.compare readInt [.lt, .ltE] [int 3, readInt], ⟨1, 0⟩⟩ .ofModule).run
      .empty = (.ok (conjunction ⟨.comparison "<" readNode (.int 3), .boolean⟩
        ⟨.comparison "<=" (.int 3) readNode, .boolean⟩), .empty) := by
    rfl
  have operands : (runAll .ofModule (exprs bare [readInt, int 3, readInt])).run .empty =
      (.ok [readNode, .int 3, readNode], .empty) := by
    rfl
  obtain ⟨first, rest, translated, -, -, counts, once⟩ := comparison_chain rfl run
  cases operands.symm.trans translated
  exact ⟨_, run, counts, once.mpr rfl⟩

/-- What `0 < int(input()) < 9` becomes. -/
def readTwice : Expr :=
  conjunction ⟨.comparison "<" (.int 0) readNode, .boolean⟩
    ⟨.comparison "<" readNode (.int 9), .boolean⟩

open Tree.Build in
/-- `0 < int(input()) < 9` reads two lines, where the chain as it reads takes one. -/
theorem inner_operand_runs_twice :
    (expr bare ⟨.compare (int 0) [.lt, .lt] [readInt, int 9], ⟨1, 0⟩⟩ .ofModule).run .empty =
      (.ok readTwice, .empty) ∧
    (runAll .ofModule (exprs bare [int 0, readInt, int 9])).run .empty =
      (.ok [.int 0, readNode, .int 9], .empty) ∧
    (counting.eval readTwice).run 0 = .ok ((), 4) ∧
    (counting.chain (.int 0) [("<", readNode), ("<", .int 9)]).run 0 = .ok ((), 2) :=
  ⟨rfl, rfl, rfl, rfl⟩

end TreeTyper
