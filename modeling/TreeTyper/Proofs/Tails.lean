import TreeTyper.Proofs.Faultless
import TreeTyper.Proofs.Flow
import TreeTyper.Proofs.Law.Also

/-!
# Where control flows

Every body that is put out has the flow of control of a definition that is written
under its key, translated in tail position; the main block has that of the other
statements and is never in tail position.  Jumps are in loops, returns in
definitions, and what follows a return that is implicit is the end of its block.

    translate api m = .ok typed → r ∈ typed.routines →
      ∃ d, (r.key, d) ∈ m.keyedDefs ∧ blockFlow r.block = Tree.blockFlow true d.body
-/

namespace TreeTyper

namespace Translate

open Typed

/-- A routine flows as the body it was made from, outside of any loop. -/
structure FlowsAs (d : Tree.FunctionDef) (r : Routine) : Prop where
  same : blockFlow r.block = Tree.blockFlow true d.body
  placed : allPlaced true false (blockFlow r.block)

/-- Every finished routine flows as a definition that was unresolved at the start. -/
def FlowsFrom (start s : State) : Prop :=
  ∀ key r, s.definitions.Finished key r → ∃ d, start.definitions.Unresolved key d ∧ FlowsAs d r

/-- That routines flow as what they stem from is kept while they do. -/
def flowing (setting : Setting) (start : State) : (originFrame setting start).law.Addition where
  Inv := FlowsFrom start
  same flows _ _ definitions _ := by
    unfold FlowsFrom
    rw [definitions]
    exact flows
  moves flows _ definitions _ := by
    unfold FlowsFrom
    rw [definitions]
    exact flows
  enter _ flows _ _ beginning key r finished :=
    flows key r (Definitions.finished_of_begin beginning.begins finished)
  leave {_ s key cell _ _ _ _ _ block} stems _ _ beginning run _ flows _ _ _ _ _ key' r finished := by
    rcases Definitions.finished_of_finish finished with ⟨rfl, rfl⟩ | held
    · have body := (block_flow _ _ _).of_ok run
      exact ⟨_, Stems.begun stems beginning, body.same, body.placed⟩
    · exact flows key' r held

theorem mainBlock_flows (api : ApiTables) (m : Tree.Module) :
    Runs (mainBlock api m) .empty
      (fun found s => ∃ start, OutlinesAll .empty .empty m.body found.1 start ∧
        Stems start s ∧ FlowsFrom start s)
      fun _ _ => True := by
  refine mainBlock_runs (fun _ _ _ => trivial) fun o start outlined run => ?_
  have untouched := run.untouched .empty
  have nothing : FlowsFrom start start := fun key r finished =>
    (untouched.not_finished finished).elim
  refine ⟨(originFrame (o.setting api) start).law.also (flowing (o.setting api) start),
    ⟨⟨untouched.stems (run.linked .empty), nothing⟩, trivial⟩, {},
    fun main s at' _ _ => ?_, fun _ _ _ => trivial⟩
  exact ⟨start, run, at'.inv.1, at'.inv.2⟩

/-- The main block flows as its statements, in no definition and in no loop. -/
theorem mainBlock_flow (api : ApiTables) (m : Tree.Module) :
    Gives (mainBlock api m) fun found =>
      Flows .ofModule (Tree.blockFlow false found.1.main) (blockFlow found.2) := by
  unfold mainBlock
  refine .skip fun o => .skip fun s => .skip fun _ => ?_
  exact (block_flow _ o.main .ofModule).bind fun main flows => .pure flows

end Translate

/-! ## Top theorem -/

open Translate in
/-- In a translated module a return is implicit exactly where it is written in tail position, and
then it ends its block; jumps are only in loops and returns only in definitions. -/
theorem control_flow_kept (api : ApiTables) (m : Tree.Module) (typed : Typed.Module)
    (translated : translate api m = .ok typed) :
    (Typed.blockFlow typed.main = Tree.blockFlow false (m.body.filter isMain) ∧
      allPlaced false false (Typed.blockFlow typed.main)) ∧
    ∀ r ∈ typed.routines,
      (∃ d, (r.key, d) ∈ m.keyedDefs ∧ Typed.blockFlow r.block = Tree.blockFlow true d.body) ∧
      allPlaced true false (Typed.blockFlow r.block) ∧ tailsLast (Typed.blockFlow r.block) := by
  obtain ⟨s', run⟩ := run_of_translate translated
  have main := (mainBlock_flows api m).and (mainBlock_flow api m .empty)
  obtain ⟨o, s, ⟨⟨start, outlines, stems, flows⟩, flow⟩, -, taken⟩ :=
    (typedModule_runs main fun _ _ _ _ _ _ => ⟨trivial, trivial⟩).of_ok run
  refine ⟨⟨?_, flow.placed⟩, fun r hr => ?_⟩
  · have block : o.main = m.body.filter isMain := outlines.main_eq
    rw [← block]
    exact flow.same
  · obtain ⟨key, finished⟩ := taken.held r hr
    obtain ⟨d, unresolved, same, placed⟩ := flows key r finished
    obtain ⟨_, -, renders⟩ := stems.finished finished
    refine ⟨⟨d, ?_, same⟩, placed, ?_⟩
    · rw [key_of_form renders.form renders.name]
      exact outlines.mem_keyedDefs unresolved
    · rw [same]
      exact Tree.tailsLast_blockFlow true d.body

open Tree.Build in
/-- Returns in and out of tail position, in branches, in a loop and below handlers, and jumps in a
definition and in the main block. -/
def searching : Tree.Module :=
  ⟨[define "sign" ["n"]
      [ifElse (compare (name "n") [(.gt, int 0)]) [ret (some (int 1))]
        [ifElse (compare (name "n") [(.lt, int 0)]) [ret (some (int 0))]
          [tryExcept [ret (some (int 2))] [handler none none [ret (some (int 3))]]]]],
    classDef "Search" none
      [define "first" ["self", "xs"]
        [forLoop (name "x") (name "xs")
          [ifElse (compare (name "x") [(.gt, int 9)]) [ret (some (name "x"))] [stmt .continueLoop]],
        ret (some (int 0)),
        pass]],
    forLoop (name "i") (call (name "range") [int 3])
      [ifElse (compare (call (name "sign") [name "i"]) [(.eq, int 1)]) [stmt .breakLoop] []],
    exprStmt (method (call (name "Search") []) "first" [list [int 1]])]⟩

theorem control_flow_kept_searching : ∃ typed, translate ApiTables.standard searching = .ok typed ∧
    (Typed.blockFlow typed.main =
        Tree.blockFlow false (searching.body.filter Translate.isMain) ∧
      allPlaced false false (Typed.blockFlow typed.main)) ∧
    ∀ r ∈ typed.routines,
      (∃ d, (r.key, d) ∈ searching.keyedDefs ∧
        Typed.blockFlow r.block = Tree.blockFlow true d.body) ∧
      allPlaced true false (Typed.blockFlow r.block) ∧ tailsLast (Typed.blockFlow r.block) := by
  have isOk : (translate ApiTables.standard searching).isOk = true := by
    decide +kernel
  obtain ⟨typed, translated⟩ := exists_of_isOk isOk
  exact ⟨typed, translated, control_flow_kept _ searching typed translated⟩

end TreeTyper
