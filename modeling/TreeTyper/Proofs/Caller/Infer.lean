import TreeTyper.Proofs.Caller.Stmt
import TreeTyper.Translate.Infer

/-!
# Inference does not see its callers

A body is translated in a scope inside the module scope, whoever called it, so by
recursion on the number of bodies that can still begin inference is the same run
under all callers.

    (inferAt setting n).IsBlind locals                                  (inferAt_isBlind)
-/

namespace TreeTyper.Translate

open Typed
open Scopes (moduleScope)

variable {locals : List Scope} {s : State} {t : Translator}

namespace Mirrors

theorem beginDefinition (key : DefKey) :
    Mirrors locals s (beginDefinition key) (Translate.beginDefinition key) := by
  unfold Translate.beginDefinition
  refine .get ?_
  rw [State.definitions_calledFrom]
  cases s.definitions.begin? key with
  | none => exact .abort _
  | some begun => exact ⟨rfl, .of_scopes rfl⟩

theorem finishDefinition (key : DefKey) (cell : CellId) (names : List String)
    (block : List Stmt) :
    Mirrors locals s (finishDefinition key cell names block)
      (Translate.finishDefinition key cell names block) :=
  ⟨rfl, .of_scopes rfl⟩

theorem setSignature (cell : CellId) (signature : Signature) :
    Mirrors locals s (setSignature cell signature) (Translate.setSignature cell signature) :=
  .modify rfl (.of_scopes rfl)

theorem answer (key : DefKey) (cell : CellId) (args : List Ty) (ret : Ty) (phase : Phase) :
    Mirrors locals s (answer key cell args ret phase)
      (Translate.answer key cell args ret phase) :=
  ⟨rfl, .of_scopes rfl⟩

/-- The scope of a body lies inside the module scope, however many callers there are. -/
theorem inScope_module {α : Type} {bindings : List (String × Ty)} {act act' : ScopeId → Run α}
    (positive : 0 < s.scopes.size)
    (h : Mirrors locals (s.opened moduleScope bindings) (act s.scopes.size)
      (act' (Scopes.raise locals.length s.scopes.size))) :
    Mirrors locals s (Translate.inScope moduleScope bindings act)
      (Translate.inScope moduleScope bindings act') := by
  have nested := Mirrors.inScope positive h
  rwa [Scopes.raise_module] at nested

theorem inferBody (infers : t.infer.IsBlind locals) (positive : 0 < s.scopes.size) (key : DefKey)
    (cell : CellId) (params : List Ty) :
    Mirrors locals s (inferBody t key cell params) (Translate.inferBody t key cell params) := by
  unfold Translate.inferBody
  refine (beginDefinition key).bind fun definition s₁ began => .get ?_
  refine (setSignature cell _).bind fun _ s₂ set => ?_
  have positive₂ : 0 < s₂.scopes.size := by
    rw [(began.trans set).size]
    exact positive
  have inner : Own s₂.scopes.size (s₂.opened moduleScope
      (bodyBindings key (parameterNames key definition) params)) :=
    ⟨Nat.ne_of_gt positive₂, decide_eq_true (Nat.lt_succ_self _)⟩
  refine (inScope_module positive₂ ?_).bind fun block s₃ _ => finishDefinition key cell _ block
  exact block_mirrors infers definition.body ((Context.ofBody s₂.scopes.size key cell).last true) _
    ⟨inner, inner⟩

theorem inferCall (infers : t.infer.IsBlind locals) :
    (Translate.inferCall t).IsBlind locals := by
  intro key cell args pos s positive
  unfold Translate.inferCall
  refine .get (.get (.walk_bind ?_))
  refine (Mirrors.located (.check _)).bind fun params s₁ confined => .get ?_
  rw [State.definitions_calledFrom]
  have positive₁ : 0 < s₁.scopes.size := by
    rw [confined.size]
    exact positive
  cases s₁.definitions.phase? key with
  | none => exact .failAt ..
  | some phase =>
    cases phase with
    | resolved => exact (setSignature cell _).bind fun _ _ _ => answer ..
    | inProgress =>
      refine .ite rfl (fun _ => .failAt ..) fun _ => ?_
      exact (setSignature cell _).bind fun _ _ _ => answer ..
    | unresolved => exact (inferBody infers positive₁ key cell params).bind fun _ _ _ => answer ..

end Mirrors

theorem inferAt_isBlind (setting : Setting) (locals : List Scope) (n : Nat) :
    (inferAt setting n).IsBlind locals := by
  induction n with
  | zero => exact fun _ _ _ _ _ _ => .abort _
  | succ n ih => exact Mirrors.inferCall (t := ⟨setting, inferAt setting n⟩) ih

end TreeTyper.Translate
