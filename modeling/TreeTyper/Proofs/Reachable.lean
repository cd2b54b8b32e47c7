import TreeTyper.Proofs.Law.Frame
import TreeTyper.Proofs.Law.Module
import TreeTyper.Proofs.Plain

/-!
# Reachable states

The states in which the translation of an expression, of a statement or of a body
can begin, at the site where it stands.  Any construct may come next, not only
those of the module at hand, so what holds of every reachable state holds at every
moment of every run that continues the same outline.

    L.At at the start → Reachable … n σ s → L.At n σ s        (Law.at_of_reachable)
-/

namespace TreeTyper.Translate

open Typed

/-- The translator of a module with so many bodies that can still begin inside each other. -/
def Outline.translator (o : Outline) (api : ApiTables) (n : Nat) : Translator :=
  ⟨o.setting api, inferAt (o.setting api) n⟩

/-- A construct is translated with success; its statements bind only `allowed` names, and types
that come from elsewhere are `typed`. -/
inductive Advances (t : Translator) (allowed : Option DefKey → String → Prop)
    (typed : Ty → Prop) (ctx : Context) (s s' : State) : Prop
  | expr (e : Tree.Expr) (node : Expr) : (expr t e ctx).run s = (.ok node, s') →
      Advances t allowed typed ctx s s'
  | stmt (st : Tree.Stmt) (node : Option Stmt) : (∀ x ∈ st.names, allowed ctx.site.key? x) →
      (stmt t st ctx).run s = (.ok node, s') → Advances t allowed typed ctx s s'
  /-- The body of a handler, or of a loop, in its scope. -/
  | nested (body : List Tree.Stmt) (bindings : List (String × Ty)) (inner : ScopeId → Context)
      (nodes : List Stmt) : (∀ id, (inner id).site = ctx.site.inScope id) →
      (∀ x ∈ Tree.blockNames body, allowed ctx.site.key? x) →
      (∀ b ∈ bindings, allowed ctx.site.key? b.1 ∨ s.scopes.lookup ctx.scope b.1 = none) →
      (∀ b ∈ bindings, typed b.2) →
      (inScope ctx.scope bindings fun id => block t body (inner id)).run s = (.ok nodes, s') →
      Advances t allowed typed ctx s s'
  | infer (key : DefKey) (cell : CellId) (args : List Ty) (pos : Pos) (ret : Ty) :
      (∀ t ∈ args, typed t) → (t.infer key cell args pos).run s = (.ok ret, s') →
      Advances t allowed typed ctx s s'
  | depend (dependencies : List String) : s' = { s with dependencies } →
      Advances t allowed typed ctx s s'

/-- The states that a run can reach after the outline, each with the site and with the number of
bodies that can still begin inside each other. -/
inductive Reachable (api : ApiTables) (o : Outline) (start : State)
    (allowed : Option DefKey → String → Prop) (typed : Ty → Prop) : Nat → Site → State → Prop
  | start : Reachable api o start allowed typed (start.definitions.size + 1) .ofModule start
  | advance {n ctx s s'} : Reachable api o start allowed typed n ctx.site s →
      Advances (o.translator api n) allowed typed ctx s s' →
      Reachable api o start allowed typed n ctx.site s'
  | scope {n σ s bindings} : Reachable api o start allowed typed n σ s →
      (∀ b ∈ bindings, allowed σ.key? b.1 ∨ s.scopes.lookup σ.scope b.1 = none) →
      (∀ b ∈ bindings, typed b.2) →
      Reachable api o start allowed typed n (σ.inScope s.scopes.size) (s.opened σ.scope bindings)
  | enter {n σ s key cell args definition definitions params} :
      Reachable api o start allowed typed (n + 1) σ s → (∀ t ∈ args, typed t) →
      Beginning s key cell args definition definitions params →
      Reachable api o start allowed typed n (.ofBody s.scopes.size key cell)
        (s.entered key cell definition definitions params)

namespace Law

variable {api : ApiTables} {o : Outline} {start : State} {allowed : Option DefKey → String → Prop}
  {typed : Ty → Prop} {L : Law (o.setting api)} {n : Nat} {σ : Site} {ctx : Context} {s s' : State}

/-- A law that asks nothing of code, except that it binds only allowed names, and of types no more
than that they are typed. -/
structure Open (L : Law setting) (allowed : Option DefKey → String → Prop) (typed : Ty → Prop) :
    Prop where
  fine : ∀ t : Ty, typed t → L.Fine t
  binds : ∀ k x, allowed k x → L.Binds k x
  knows : ∀ s key cell, L.Knows s key cell
  returns : ∀ k, L.Returns k
  faulty : ¬L.Faultless

theorem Open.admits {setting : Setting} {L : Law setting} {k : Option DefKey} {names : List String}
    {returns faultless : Bool} (isOpen : L.Open allowed typed) (bound : ∀ x ∈ names, allowed k x) :
    L.Admits k names returns faultless :=
  ⟨fun x hx => isOpen.binds k x (bound x hx), fun _ => isOpen.returns k,
    fun faultless => absurd faultless isOpen.faulty⟩

/-- A construct that is translated with success keeps the law. -/
theorem At.advance (isOpen : L.Open allowed typed) (at_s : L.At n ctx.site s)
    (advances : Advances (o.translator api n) allowed typed ctx s s') :
    L.At n ctx.site s' ∧ L.Moves .stmt ctx.site s s' := by
  have infers : L.Infers n (inferAt (o.setting api) n) := inferAt_infers n
  cases advances with
  | expr e node run =>
    have sound : L.Faultless → e.faultless := fun faultless => absurd faultless isOpen.faulty
    obtain ⟨at', moves, -⟩ := (expr_evaluates infers e sound ctx s at_s).of_ok run
    exact ⟨at', moves.stmt⟩
  | stmt st node names run =>
    obtain ⟨at', moves, -⟩ := (stmt_holds infers st ctx s (isOpen.admits names) at_s).of_ok run
    exact ⟨at', moves⟩
  | nested body bindings inner nodes site names fresh types run =>
    have admits : L.AdmitsBlock ctx.site.key? body := isOpen.admits names
    -- the block is run in a scope of its own, with bindings that the law admits
    have inside : L.At n (ctx.site.inScope s.scopes.size) (s.opened ctx.scope bindings) →
        L.Holds n .stmt (ctx.site.inScope s.scopes.size) (s.opened ctx.scope bindings)
          (block (o.translator api n) body (inner s.scopes.size)) fun _ _ => True := by
      intro at'
      rw [← site] at at' ⊢
      refine (block_holds infers body (inner s.scopes.size) _ ?_ at').imp fun _ _ _ _ _ => trivial
      rw [site]
      exact admits
    have nested : L.Holds n .stmt ctx.site s
        (inScope ctx.scope bindings fun id => block (o.translator api n) body (inner id))
        fun _ _ => True :=
      Holds.inScope at_s (fun b hb => (fresh b hb).imp (isOpen.binds _ _) id)
        (fun b hb => isOpen.fine b.2 (types b hb)) inside fun _ _ _ _ => trivial
    obtain ⟨at', moves, -⟩ := nested.of_ok run
    exact ⟨at', moves⟩
  | infer key cell args pos ret types run =>
    have fine : ∀ t ∈ args, L.Fine t := fun t ht => isOpen.fine t (types t ht)
    obtain ⟨inv, call, shape, -⟩ :=
      (infers s key cell args pos at_s.inv (isOpen.knows s key cell) fine).of_ok run
    have moves : L.Moves .stmt ctx.site s s' := ⟨L.rel_call call, shape⟩
    exact ⟨at_s.move inv moves, moves⟩
  | depend dependencies same =>
    obtain ⟨inv, rel⟩ := L.depend ctx.site dependencies at_s.inv
    rw [same]
    have moves : L.Moves .expr ctx.site s { s with dependencies } := ⟨rel, ⟨.refl _, rfl⟩⟩
    exact ⟨at_s.move inv moves, moves.stmt⟩

/-- A law that holds after the outline holds of every reachable state. -/
theorem at_of_reachable (isOpen : L.Open allowed typed)
    (at_start : L.At (start.definitions.size + 1) .ofModule start)
    (reachable : Reachable api o start allowed typed n σ s) : L.At n σ s := by
  induction reachable with
  | start => exact at_start
  | advance _ advances ih => exact (ih.advance isOpen advances).1
  | scope _ names types ih =>
    obtain ⟨inv, here⟩ := L.openScope ih.inv ih.here
      (fun b hb => (names b hb).imp (isOpen.binds _ _) id)
      fun b hb => isOpen.fine b.2 (types b hb)
    exact ⟨inv, here⟩
  | enter _ types beginning ih =>
    have fine := fun t ht => isOpen.fine t (types t ht)
    obtain ⟨inv, here⟩ := L.enter ih.inv (isOpen.knows _ _ _) fine beginning
    exact ⟨inv, here⟩

/-- Along a run under a law nothing but attributes, bindings, signatures and phases changes. -/
theorem sameShape_of_reachable (isOpen : L.Open allowed typed)
    (at_start : L.At (start.definitions.size + 1) .ofModule start)
    (reachable : Reachable api o start allowed typed n σ s) : start.SameShape s := by
  induction reachable with
  | start => exact .refl _
  | advance before advances ih =>
    have at_s := at_of_reachable isOpen at_start before
    exact ih.trans (at_s.advance isOpen advances).2.shape
  | scope _ _ _ ih => exact ⟨ih.hierarchy, ih.functions⟩
  | enter _ _ beginning ih =>
    obtain ⟨-, rfl⟩ := Definitions.begin?_cases beginning.begins
    exact ⟨ih.hierarchy, ih.functions⟩

end Law

/-- A law about definitions and scopes asks nothing of names and types. -/
theorem FrameLaw.law_open {setting : Setting} {F : FrameLaw setting}
    {allowed : Option DefKey → String → Prop} {typed : Ty → Prop} (faulty : ¬F.Faultless) :
    F.law.Open allowed typed :=
  ⟨fun _ _ => trivial, fun _ _ _ => trivial, fun _ _ _ => trivial, fun _ => trivial, faulty⟩

end TreeTyper.Translate
