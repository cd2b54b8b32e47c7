import Mathlib.Data.List.Basic

/-!
# Walks along links

A table of links sends an element to the one behind it, if there is one: a scope to
its parent, a class to its base.  `Walk next a path` says that going from `a` along
the links comes to an end, and that `path` is what it passes, `a` first.

    an element has at most one walk                                     (Walk.unique)
    links that go down in a measure lead to an end                      (Walk.exists_of_measure)
-/

namespace TreeTyper

/-- Going from an element along the links passes the elements of a list and ends. -/
inductive Walk {α : Type} (next : α → Option α) : α → List α → Prop
  | last {a : α} : next a = none → Walk next a [a]
  | step {a b : α} {rest : List α} : next a = some b → Walk next b rest → Walk next a (a :: rest)

namespace Walk

variable {α : Type} {next : α → Option α} {a : α} {path path' : List α}

theorem unique (walk : Walk next a path) (other : Walk next a path') : path = path' := by
  induction walk generalizing path' with
  | last ends =>
    cases other with
    | last _ => rfl
    | step link _ => rw [ends] at link; cases link
  | step link _ ih =>
    cases other with
    | last ends => rw [ends] at link; cases link
    | step link' rest =>
      rw [link] at link'
      cases link'
      rw [ih rest]

/-- A walk ends where there is no link. -/
theorem exists_end (walk : Walk next a path) :
    ∃ z, path.getLast? = some z ∧ z ∈ path ∧ next z = none := by
  induction walk with
  | @last a ends => exact ⟨a, rfl, List.mem_singleton_self a, ends⟩
  | step link _ ih =>
    obtain ⟨z, last, listed, ends⟩ := ih
    exact ⟨z, by rw [List.getLast?_cons, last]; rfl, List.mem_cons_of_mem _ listed, ends⟩

/-- Links that stay in a set and go down in a measure come to an end. -/
theorem exists_of_measure (measure : α → Nat) {inside : α → Prop}
    (link : ∀ a b, inside a → next a = some b → inside b ∧ measure b < measure a)
    (start : inside a) : ∃ path, Walk next a path ∧ ∀ b ∈ path, inside b := by
  induction size : measure a using Nat.strongRecOn generalizing a with
  | ind n ih =>
    cases behind : next a with
    | none => exact ⟨[a], .last behind, List.forall_mem_singleton.mpr start⟩
    | some b =>
      obtain ⟨within, less⟩ := link a b start behind
      obtain ⟨path, walk, all⟩ := ih _ (size ▸ less) within rfl
      exact ⟨a :: path, .step behind walk, List.forall_mem_cons.mpr ⟨start, all⟩⟩

end Walk

end TreeTyper
