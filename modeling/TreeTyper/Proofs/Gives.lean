import TreeTyper.Proofs.Run

/-!
# Results whatever the tables hold

What is known of the result of a run by its program text alone.

    (act.run s) = (.ok a, s') → Gives act known → known a        (Gives.of_ok)
-/

namespace TreeTyper.Translate

variable {α β : Type}

/-- From whatever tables, a result of `act` is `known`. -/
def Gives (act : Run α) (known : α → Prop) : Prop :=
  ∀ s, Runs act s (fun a _ => known a) fun _ _ => True

namespace Gives

variable {act : Run α} {known known' : α → Prop}

theorem of_ok (h : Gives act known) {a : α} {s s' : State} (run : act.run s = (.ok a, s')) :
    known a :=
  (h s).of_ok run

theorem anything (act : Run α) : Gives act fun _ => True := Runs.anyhow act

theorem imp (h : Gives act known) (weaker : ∀ a, known a → known' a) : Gives act known' :=
  fun s => (h s).imp (fun a _ => weaker a) fun _ _ _ => trivial

theorem and (h : Gives act known) (h' : Gives act known') :
    Gives act fun a => known a ∧ known' a :=
  fun s => ((h s).and (h' s)).imp (fun _ _ both => both) fun _ _ _ => trivial

theorem bind {f : α → Run β} {after : β → Prop} (h : Gives act known)
    (next : ∀ a, known a → Gives (f a) after) : Gives (act >>= f) after :=
  fun s => (h s).bind fun a s' ha => next a ha s'

/-- The result of the first run does not matter. -/
theorem skip {f : α → Run β} {after : β → Prop} (next : ∀ a, Gives (f a) after) :
    Gives (act >>= f) after :=
  (anything act).bind fun a _ => next a

theorem map {f : α → β} {after : β → Prop} (h : Gives act fun a => after (f a)) :
    Gives (f <$> act) after :=
  fun s => Runs.map (h s)

theorem pure {a : α} (h : known a) : Gives (Pure.pure a) known := fun _ => Runs.pure h

theorem fail {cause : Cause} : Gives (fail cause) known := fun _ => Runs.fail trivial

theorem failAt {pos : Pos} {cause : Cause} : Gives (failAt pos cause) known :=
  fun _ => Runs.failAt trivial

theorem abort {fault : Fault} : Gives (abort fault) known := fun _ => Runs.abort trivial

theorem located {pos : Pos} (h : Gives act known) : Gives (located pos act) known :=
  fun s => Runs.located (h s)

theorem ite {condition : Prop} [Decidable condition] {other : Run α} (h : Gives act known)
    (h' : Gives other known) : Gives (if condition then act else other) known := by
  split
  · exact h
  · exact h'

theorem walk_bind {ends : Bool} {f : Unit → Run α} (h : Gives (f ()) known) :
    Gives (walk ends >>= f) known :=
  skip fun _ => h

theorem inScope {parent : ScopeId} {bindings : List (String × Ty)} {act : ScopeId → Run α}
    (h : ∀ scope, Gives (act scope) known) : Gives (inScope parent bindings act) known :=
  fun s => Runs.inScope (h s.scopes.size _)

end Gives

end TreeTyper.Translate
