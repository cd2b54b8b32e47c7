import Mathlib.Logic.Relation
import TreeTyper.Proofs.Declared

/-!
# Ancestors

The ancestors of a class are the names that its bases lead to: a way without
repetitions has no more names with a base than there are classes, so the bound of
the walk cuts nothing off.  This takes no order of the declarations; a class that
is declared again may be its own ancestor.

    b ∈ h.ancestors a ↔ Leads h.base? a b        (mem_ancestors_iff)
-/

namespace TreeTyper

open Relation (ReflTransGen)

namespace Hierarchy

variable {h : Hierarchy} {next next' : String → Option String} {a b c : String} {steps : Nat}

/-! ## Ways up -/

/-- Going up along `next` leads from one name to another. -/
def Leads (next : String → Option String) : String → String → Prop :=
  ReflTransGen fun a b => next a = some b

theorem leads_of_mem_chain (known : b ∈ chain next steps a) : Leads next a b := by
  induction steps generalizing a with
  | zero =>
    rw [chain, List.mem_singleton] at known
    rw [known]
    exact .refl
  | succ steps ih =>
    rw [chain] at known
    rcases List.mem_cons.mp known with rfl | known
    · exact .refl
    · split at known
      · next up above => exact .head above (ih known)
      · cases known

/-- What comes later on a walk is above what came before. -/
theorem leads_of_chain_eq {before after : List String}
    (walk : chain next steps c = before ++ a :: after) (later : b ∈ after) : Leads next a b := by
  induction before generalizing steps c with
  | nil =>
    have here : c = a := (List.cons.inj ((chain.eq_def ..).symm.trans walk)).1
    rw [← here]
    exact leads_of_mem_chain (by rw [walk]; exact List.mem_cons_of_mem _ later)
  | cons first before ih =>
    cases steps with
    | zero => simp [chain] at walk
    | succ steps =>
      rw [chain] at walk
      have rest := (List.cons.inj walk).2
      split at rest
      · exact ih rest
      · cases before <;> cases rest

theorem chain_subset (more : ∀ {x y}, next' x = some y → next x = some y) (steps : Nat) (a : String) :
    chain next' steps a ⊆ chain next steps a := by
  induction steps generalizing a with
  | zero => exact List.Subset.refl _
  | succ steps ih =>
    rw [chain, chain]
    refine List.cons_subset_cons a ?_
    split
    · next up above =>
      rw [more above]
      exact ih up
    · exact List.nil_subset _

/-- A way to another name leaves its first name for good. -/
theorem Leads.away (leads : Leads next a b) (differs : a ≠ b) :
    ∃ up, next a = some up ∧ Leads (fun x => if x = a then none else next x) up b := by
  induction leads with
  | refl => exact absurd rfl differs
  | @tail c b _ step ih =>
    by_cases same : a = c
    · exact ⟨b, same ▸ step, .refl⟩
    · obtain ⟨up, above, rest⟩ := ih same
      exact ⟨up, above, rest.tail ((if_neg (Ne.symm same)).trans step)⟩

/-- A walk with as many steps as there are names with something above them finds all that they lead
to. -/
theorem mem_chain_of_leads {names : List String} (named : ∀ x y, next x = some y → x ∈ names)
    (leads : Leads next a b) : b ∈ chain next names.length a := by
  induction length : names.length generalizing next names a with
  | zero =>
    by_cases same : a = b
    · rw [same, chain]
      exact List.mem_cons_self
    · obtain ⟨up, above, -⟩ := leads.away same
      have listed := named a up above
      rw [List.length_eq_zero_iff.mp length] at listed
      cases listed
  | succ n ih =>
    rw [chain]
    by_cases same : a = b
    · rw [same]
      exact List.mem_cons_self
    · obtain ⟨up, above, rest⟩ := leads.away same
      rw [above]
      refine List.mem_cons_of_mem _ ?_
      have away : ∀ x y, (if x = a then none else next x) = some y → x ∈ names.erase a := by
        intro x y step
        split at step
        · cases step
        · next other => exact (List.mem_erase_of_ne other).mpr (named x y step)
      have shorter : (names.erase a).length = n := by
        rw [List.length_erase_of_mem (named a up above), length]
        rfl
      refine chain_subset (fun step => ?_) n up (ih away rest shorter)
      split at step
      · cases step
      · exact step

/-! ## Ancestors -/

theorem mem_ancestors_iff : b ∈ h.ancestors a ↔ Leads h.base? a b := by
  refine ⟨leads_of_mem_chain, fun leads => ?_⟩
  have named : ∀ x y, h.base? x = some y → x ∈ h.classes.keys := by
    intro x y above
    obtain ⟨info, found, -⟩ := Option.bind_eq_some_iff.mp above
    exact List.mem_map.mpr ⟨_, Table.mem_of_findIn found, rfl⟩
  have size : h.classes.keys.length = h.classes.size := List.length_map _
  rw [ancestors, ← size]
  exact mem_chain_of_leads named leads

theorem isSubclass_iff : h.isSubclass a b ↔ Leads h.base? a b := by
  rw [← mem_ancestors_iff, isSubclass, decide_eq_true_iff]

theorem isSubclass_trans (ab : h.isSubclass a b) (bc : h.isSubclass b c) : h.isSubclass a c :=
  isSubclass_iff.mpr ((isSubclass_iff.mp ab).trans (isSubclass_iff.mp bc))

/-- Every base is a class. -/
def BasesDeclared (h : Hierarchy) : Prop := ∀ a b, h.base? a = some b → h.isClass b

/-- The ancestors of a class are classes. -/
theorem BasesDeclared.isClass (declared : h.BasesDeclared) (isClass : h.isClass a)
    (below : h.isSubclass a b) : h.isClass b := by
  induction isSubclass_iff.mp below with
  | refl => exact isClass
  | tail _ step ih => exact declared _ _ step

theorem BasesDeclared.sameBases {h' : Hierarchy} (declared : h.BasesDeclared)
    (same : SameBases h h') : h'.BasesDeclared := by
  intro a b above
  rw [same.base?] at above
  rw [same.isClass]
  exact declared a b above

theorem BasesDeclared.declareClass {h' : Hierarchy} (known : h.BasesDeclared) {name : String}
    {base : Option String} (declared : h.declareClass name base = some h') : h'.BasesDeclared := by
  obtain ⟨h₁, methods, rfl, rest⟩ := declareClass_cases declared
  have kept : SameBases h h₁ ∧ ∀ b, base = some b → h₁.isClass b := by
    rcases rest with ⟨rfl, rfl, -⟩ | ⟨b, info, rfl, found, -, rfl⟩
    · exact ⟨.refl h₁, fun b same => nomatch same⟩
    · refine ⟨.withClass _ found rfl, fun b' same => ?_⟩
      cases same
      rw [isClass_withClass, decide_eq_true rfl, Bool.true_or]
  intro a b above
  rw [base?_withClass] at above
  rw [isClass_withClass, Bool.or_eq_true]
  split at above
  · exact .inr (kept.2 b above)
  · exact .inr (known.sameBases kept.1 a b above)

end Hierarchy

namespace Translate

variable {o o' : Outline} {s s' : State}

theorem Outlines.basesDeclared {stmt : Tree.Stmt} (run : Outlines o s stmt o' s')
    (known : s.hierarchy.BasesDeclared) : s'.hierarchy.BasesDeclared := by
  cases run with
  | classDef _ _ _ declared members => exact (known.declareClass declared).sameBases members.sameBases
  | _ => exact known

theorem OutlinesAll.basesDeclared {stmts : List Tree.Stmt} (run : OutlinesAll o s stmts o' s')
    (known : s.hierarchy.BasesDeclared) : s'.hierarchy.BasesDeclared := by
  induction run with
  | nil => exact known
  | cons first _ ih => exact ih (first.basesDeclared known)

end Translate

end TreeTyper
