import TreeTyper.Api.Standard
import TreeTyper.Proofs.Caller.Infer
import TreeTyper.Proofs.Reachable
import TreeTyper.Tree.Build

/-!
# A body never sees the locals of its callers

Whatever scopes lie above the module scope when a call is inferred, the answer is
the same, the tables end the same, and those scopes are left as they were.  The
module scope is changed alike, and no name in it is bound anew.

    Reachable … n σ s → InfersWithoutLocals (inferAt setting n) s key cell args pos  (locals_unseen)
-/

namespace TreeTyper

namespace Translate

open Scopes (moduleScope)

/-! ## Other callers -/

/-- The state with other scopes. -/
def State.withArena (s : State) (arena : List Scope) : State := { s with scopes := ⟨arena⟩ }

/-- What a call of a definition does with the module scope and the other tables does not depend on
the scopes of its callers, and leaves these as they are. -/
def InfersWithoutLocals (infer : Infer) (s : State) (key : DefKey) (cell : CellId)
    (args : List Ty) (pos : Pos) : Prop :=
  ∃ locals global, s.scopes.arena = locals ++ [global] ∧
    ∃ (result : Except Stop Ty) (after : State) (global' : Scope),
    (∀ name, (global'.bindings.find? name).isSome = (global.bindings.find? name).isSome) ∧
    ∀ others, (infer key cell args pos).run (s.withArena (others ++ [global])) =
      (result, after.withArena (others ++ [global']))

theorem infersWithoutLocals {s : State} (positive : 0 < s.scopes.size) (setting : Setting) (n : Nat)
    (key : DefKey) (cell : CellId) (args : List Ty) (pos : Pos) :
    InfersWithoutLocals (inferAt setting n) s key cell args pos := by
  obtain ⟨locals, global, arena⟩ : ∃ locals global, s.scopes.arena = locals ++ [global] :=
    ⟨_, _, (List.dropLast_concat_getLast (List.ne_nil_of_length_pos positive)).symm⟩
  rcases run : (inferAt setting n key cell args pos).run (s.withArena [global]) with ⟨result, after⟩
  have mirrors : ∀ others, Mirrors others (s.withArena [global])
      (inferAt setting n key cell args pos) (inferAt setting n key cell args pos) :=
    fun others => inferAt_isBlind setting others n key cell args pos _ Nat.one_pos
  have confined := (mirrors []).confined
  rw [run] at confined
  obtain ⟨global', left⟩ : ∃ global', after.scopes.arena = [global'] :=
    List.length_eq_one_iff.mp confined.size
  have module_eq : after.scopes = ⟨[global']⟩ := congrArg Scopes.mk left
  refine ⟨locals, global, arena, result, after, global', fun name => ?_, fun others => ?_⟩
  · have names := confined.names name
    rw [module_eq] at names
    exact names
  · have same := (mirrors others).same
    rw [run] at same
    refine same.trans (congrArg (Prod.mk result) ?_)
    rw [State.calledFrom, module_eq]
    rfl

/-! ## Scopes of reachable states -/

/-- A run closes the scopes it opens, so the module scope stays. -/
def scopesFrame (setting : Setting) : FrameLaw setting where
  Inv _ s := 0 < s.scopes.size
  Rel s s' := s'.scopes.links = s.scopes.links
  rel_refl _ := rfl
  rel_trans a b := b.trans a
  same positive frame := ⟨Scopes.size_eq_of_links frame.links ▸ positive, frame.links⟩
  openScope _ _ _ := ⟨Nat.succ_pos _, trivial⟩
  closeScope positive _ rel := by
    have links := Scopes.links_discard_child rel
    exact ⟨Nat.lt_of_lt_of_eq positive (Scopes.size_eq_of_links links).symm, links⟩
  enter _ _ := ⟨Nat.succ_pos _, trivial⟩
  leave positive _ _ _ rel := by
    have links := Scopes.links_discard_child rel
    exact ⟨Nat.lt_of_lt_of_eq positive (Scopes.size_eq_of_links links).symm, links⟩

def scopesLaw (setting : Setting) : Law setting := (scopesFrame setting).law

theorem scopesLaw_open {setting : Setting} {allowed : Option DefKey → String → Prop}
    {typed : Ty → Prop} : (scopesLaw setting).Open allowed typed :=
  FrameLaw.law_open id

end Translate

/-! ## Top theorems -/

open Translate in
/-- At every moment of a run, a call of a definition has the answer, the failure and the effects
that it would have under any other callers. -/
theorem locals_unseen {api : ApiTables} {m : Tree.Module} {o : Outline} {start s : State} {n : Nat}
    {σ : Site} (outlined : (outline api m).run .empty = (.ok o, start))
    (reachable : Reachable api o start (fun _ _ => True) (fun _ => True) n σ s) (key : DefKey)
    (cell : CellId) (args : List Ty) (pos : Pos) :
    InfersWithoutLocals (o.translator api n).infer s key cell args pos := by
  have positive := (((outline_runs m).of_ok outlined).untouched .empty).positive
  have at_s := Law.at_of_reachable (L := scopesLaw (o.setting api)) scopesLaw_open
    ⟨positive, trivial⟩ reachable
  exact infersWithoutLocals at_s.inv (o.setting api) n key cell args pos

open Tree.Build in
/-- A function whose parameter has the name of a variable of its caller. -/
def shadowing : Tree.Module :=
  ⟨[define "last" ["xs"] [assign (name "x") (index (name "xs") (int 0)), ret (some (name "x"))],
    define "main" [] [assign (name "x") (call (name "last") [list [int 1]])],
    exprStmt (call (name "main") [])]⟩

open Translate in
set_option maxRecDepth 100000 in
theorem locals_unseen_shadowing : ∃ o start,
    (outline ApiTables.standard shadowing).run .empty = (.ok o, start) ∧
    InfersWithoutLocals (o.translator ApiTables.standard (start.definitions.size + 1)).infer
      (start.opened Scopes.moduleScope [("x", .string)]) (.function "last") 0 [.list .int] ⟨2, 4⟩ := by
  have isOk : ((outline ApiTables.standard shadowing).run .empty).1.isOk = true := by
    decide +kernel
  obtain ⟨o, start, run⟩ := exists_of_run_isOk isOk
  have inside : Reachable ApiTables.standard o start (fun _ _ => True) (fun _ => True)
      (start.definitions.size + 1) (Site.ofModule.inScope start.scopes.size)
      (start.opened Scopes.moduleScope [("x", .string)]) :=
    .scope .start (fun _ _ => .inl trivial) fun _ _ => trivial
  exact ⟨o, start, run, locals_unseen run inside _ _ _ _⟩

end TreeTyper
