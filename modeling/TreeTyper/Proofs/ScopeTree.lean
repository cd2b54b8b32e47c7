import TreeTyper.Proofs.Chains
import TreeTyper.Proofs.Walk

/-!
# Scopes form a tree of maps

The numbers of closed scopes are given again, and a walk outwards follows stored
parents with nothing to bound it.  Whatever is done to the scopes, the module scope
stays open and every other open scope has a parent with a smaller number; so closing
scopes never closes a parent of one that stays, and every walk ends at the module
scope.  On such scopes the nearest one on the walk that binds a name is the one that
look-up reads and that assignment changes, and nothing else changes.

    Permits empty changes → (after empty changes).IsTree                  (scopes_form_tree)

Look-up, owner and assignment of a name are all read off `nearest?`:

    s.resolve id name = the binding in s.nearest? path name               (resolve_eq_nearest)
-/

namespace TreeTyper.Scopes

variable {s s' : Scopes} {id owner up mark : Nat} {path : List ScopeId} {name : String} {ty : Ty}

/-! ## Changes -/

/-- What is done to scopes. -/
inductive Change
  | define (id : ScopeId) (name : String) (ty : Ty)
  | assign (id : ScopeId) (name : String) (ty : Ty)
  | child (parent : ScopeId) (bindings : List (String × Ty))
  /-- The number of open scopes is read, to close later ones with it. -/
  | mark
  | discard (mark : Nat)

/-- The scope is open, and the module scope is not closed. -/
def Permitted (s : Scopes) : Change → Prop
  | .define id .. => s.isAlive id
  | .assign id .. => s.isAlive id
  | .child parent _ => s.isAlive parent
  | .mark => True
  | .discard mark => 1 ≤ mark

instance (s : Scopes) : (c : Change) → Decidable (s.Permitted c)
  | .define id .. => inferInstanceAs (Decidable (s.isAlive id = true))
  | .assign id .. => inferInstanceAs (Decidable (s.isAlive id = true))
  | .child parent _ => inferInstanceAs (Decidable (s.isAlive parent = true))
  | .mark => inferInstanceAs (Decidable True)
  | .discard mark => inferInstanceAs (Decidable (1 ≤ mark))

def change (s : Scopes) : Change → Scopes
  | .define id name ty => s.define id name ty
  | .assign id name ty => s.assign id name ty
  | .child parent bindings => (s.child parent bindings).1
  | .mark => s
  | .discard mark => s.discard mark

/-- The scopes after some changes. -/
def after (s : Scopes) (changes : List Change) : Scopes := changes.foldl change s

/-- Every change is permitted when its turn comes. -/
def Permits (s : Scopes) : List Change → Prop
  | [] => True
  | c :: rest => s.Permitted c ∧ (s.change c).Permits rest

instance decidablePermits (s : Scopes) : (changes : List Change) → Decidable (s.Permits changes)
  | [] => inferInstanceAs (Decidable True)
  | c :: rest =>
    have := decidablePermits (s.change c) rest
    inferInstanceAs (Decidable (s.Permitted c ∧ (s.change c).Permits rest))

/-! ## A root and parents below -/

theorem isAlive_iff : s.isAlive id ↔ id < s.size := decide_eq_true_iff

/-- The module scope is open and outermost, and every other open scope is inside an older one. -/
structure Rooted (s : Scopes) : Prop where
  root : s.isAlive moduleScope
  outermost : s.parent? moduleScope = none
  inside : ∀ {id}, s.isAlive id → id ≠ moduleScope → ∃ up, s.parent? id = some up ∧ up < id

theorem discard_of_size_le (le : s.size ≤ mark) : s.discard mark = s := by
  rw [discard, Nat.sub_eq_zero_of_le le, List.drop_zero]

namespace Rooted

theorem empty : Rooted Scopes.empty where
  root := rfl
  outermost := rfl
  inside alive inner := absurd (Nat.lt_one_iff.mp (isAlive_iff.mp alive)) inner

theorem congr (rooted : s.Rooted) (same : s'.links = s.links) : s'.Rooted := by
  have alive : ∀ id, s'.isAlive id = s.isAlive id := fun id => by
    rw [isAlive, isAlive, size_eq_of_links same]
  constructor
  · rw [alive]
    exact rooted.root
  · rw [parent?_congr same]
    exact rooted.outermost
  · intro id isOpen inner
    rw [alive] at isOpen
    rw [parent?_congr same]
    exact rooted.inside isOpen inner

theorem child (rooted : s.Rooted) (alive : s.isAlive up) (bindings : List (String × Ty)) :
    (s.child up bindings).1.Rooted := by
  have positive : moduleScope < s.size := isAlive_iff.mp rooted.root
  constructor
  · exact isAlive_iff.mpr (Nat.lt_succ_of_lt positive)
  · rw [parent?_child_of_ne (Nat.ne_of_lt positive)]
    exact rooted.outermost
  · intro id isOpen inner
    rw [isAlive_iff, size_child] at isOpen
    rcases Nat.lt_succ_iff_lt_or_eq.mp isOpen with older | rfl
    · rw [parent?_child_of_ne (Nat.ne_of_lt older)]
      exact rooted.inside (isAlive_iff.mpr older) inner
    · exact ⟨up, parent?_child_self .., isAlive_iff.mp alive⟩

theorem discard (rooted : s.Rooted) (kept : 1 ≤ mark) : (s.discard mark).Rooted := by
  rcases Nat.le_total s.size mark with all | le
  · rw [discard_of_size_le all]
    exact rooted
  constructor
  · rw [isAlive_iff, size_discard le]
    exact kept
  · exact (parent?_discard le kept).trans rooted.outermost
  · intro id isOpen inner
    rw [isAlive_iff, size_discard le] at isOpen
    rw [parent?_discard le isOpen]
    exact rooted.inside (isAlive_iff.mpr (Nat.lt_of_lt_of_le isOpen le)) inner

theorem change (rooted : s.Rooted) {c : Change} (permitted : s.Permitted c) :
    (s.change c).Rooted := by
  cases c with
  | define id name ty => exact rooted.congr (links_define ..)
  | assign id name ty => exact rooted.congr (links_assign ..)
  | child parent bindings => exact rooted.child permitted bindings
  | mark => exact rooted
  | discard mark => exact rooted.discard permitted

/-- The ids of closed scopes may be given again: no change leaves a stale parent behind. -/
theorem after (rooted : s.Rooted) {changes : List Change} (permitted : s.Permits changes) :
    (s.after changes).Rooted := by
  induction changes generalizing s with
  | nil => exact rooted
  | cons c rest ih => exact ih (rooted.change permitted.1) permitted.2

/-- Only an open scope has a parent, and it is not the module scope. -/
theorem parent (rooted : s.Rooted) (link : s.parent? id = some up) : s.isAlive id ∧ up < id := by
  have alive : id < s.size := by
    refine Nat.lt_of_not_le fun above => ?_
    rw [parent?, scope?_eq_none above] at link
    cases link
  have inner : id ≠ moduleScope := by
    rintro rfl
    rw [rooted.outermost] at link
    cases link
  obtain ⟨up', same, below⟩ := rooted.inside (isAlive_iff.mpr alive) inner
  rw [link] at same
  cases same
  exact ⟨isAlive_iff.mpr alive, below⟩

theorem grounded (rooted : s.Rooted) : s.Grounded := fun _ _ link => (rooted.parent link).2

/-- Every walk passes open scopes only and ends at the module scope. -/
theorem walk (rooted : s.Rooted) (alive : s.isAlive id) :
    ∃ path, Walk s.parent? id path ∧ path.getLast? = some moduleScope ∧
      ∀ i ∈ path, s.isAlive i := by
  have outwards : ∀ id up, s.isAlive id → s.parent? id = some up → s.isAlive up ∧ up < id := by
    intro id up alive link
    have below : up < id := (rooted.parent link).2
    exact ⟨isAlive_iff.mpr (Nat.lt_trans below (isAlive_iff.mp alive)), below⟩
  obtain ⟨path, walk, all⟩ := Walk.exists_of_measure (fun id => id) outwards alive
  obtain ⟨top, last, listed, ends⟩ := walk.exists_end
  have isModule : top = moduleScope := by
    by_contra inner
    obtain ⟨up, link, -⟩ := rooted.inside (all top listed) inner
    rw [ends] at link
    cases link
  exact ⟨path, walk, isModule ▸ last, all⟩

end Rooted

/-! ## The nearest binding -/

/-- The nearest of the scopes of a walk that binds a name. -/
def nearest? (s : Scopes) (path : List ScopeId) (name : String) : Option ScopeId :=
  path.find? fun id => (s.lookupLocal id name).isSome

theorem isSome_lookupLocal_of_nearest? (found : s.nearest? path name = some owner) :
    (s.lookupLocal owner name).isSome :=
  List.find?_some (p := fun id => (s.lookupLocal id name).isSome) found

/-- The walk of `resolve` is the walk along the parents. -/
theorem resolve_eq_nearest (grounded : s.Grounded) (walk : Walk s.parent? id path)
    (name : String) :
    s.resolve id name = (s.nearest? path name).bind fun owner =>
      (s.lookupLocal owner name).map fun ty => (owner, ty) := by
  induction walk with
  | @last id ends =>
    rw [resolve_eq, ends, nearest?, List.find?_cons]
    cases bound : s.lookupLocal id name with
    | some ty => simp [bound]
    | none => rfl
  | @step id up rest link walk ih =>
    rw [resolve_eq, link, Option.bind_some, if_pos (grounded _ _ link), nearest?, List.find?_cons]
    cases bound : s.lookupLocal id name with
    | some ty => simp [bound]
    | none => exact ih

theorem lookup_eq_nearest (grounded : s.Grounded) (walk : Walk s.parent? id path)
    (name : String) :
    s.lookup id name = (s.nearest? path name).bind (s.lookupLocal · name) := by
  rw [lookup, resolve_eq_nearest grounded walk, Option.map_bind]
  refine Option.bind_congr fun owner _ => ?_
  rw [Function.comp, Option.map_map]
  exact Option.map_id' ..

/-- Which scope owns a name, when it is not asked for the type. -/
theorem owner_eq_nearest (grounded : s.Grounded) (walk : Walk s.parent? id path)
    (name : String) : (s.resolve id name).map (·.1) = s.nearest? path name := by
  rw [resolve_eq_nearest grounded walk]
  cases found : s.nearest? path name with
  | none => rfl
  | some owner =>
    obtain ⟨ty, bound⟩ := Option.isSome_iff_exists.mp (isSome_lookupLocal_of_nearest? found)
    rw [Option.bind_some, bound]
    rfl

theorem resolveLocal_eq_nearest (grounded : s.Grounded) (walk : Walk s.parent? id path)
    (name : String) :
    s.resolveLocal id name =
      (s.nearest? path name).filter fun owner => owner ≠ moduleScope ∨ id = moduleScope := by
  rw [← owner_eq_nearest grounded walk, resolveLocal]
  cases s.resolve id name with
  | none => rfl
  | some found =>
    by_cases top : found.1 = moduleScope
    · by_cases here : id = moduleScope <;> simp [Option.filter, top, here]
    · simp [Option.filter, top]

theorem assign_eq_nearest (grounded : s.Grounded) (walk : Walk s.parent? id path)
    (name : String) (ty : Ty) :
    s.assign id name ty = s.define ((s.nearest? path name).getD id) name ty := by
  rw [← owner_eq_nearest grounded walk, assign]
  cases s.resolve id name <;> rfl

/-! ## What changes -/

/-- In one scope one name has a type now, and everything else is as before. -/
structure Rebinds (s s' : Scopes) (owner : ScopeId) (name : String) (ty : Ty) : Prop where
  links : s'.links = s.links
  bound : s'.lookupLocal owner name = some ty
  others : ∀ id name', id ≠ owner ∨ name' ≠ name → s'.lookupLocal id name' = s.lookupLocal id name'

theorem rebinds_define (alive : s.isAlive owner) (name : String) (ty : Ty) :
    Rebinds s (s.define owner name ty) owner name ty where
  links := links_define ..
  bound := lookupLocal_define_self (isAlive_iff.mp alive) ..
  others _ _ differs := differs.elim
    (fun scope => lookupLocal_define_of_ne scope ..) (fun name => lookupLocal_define_other name ..)

theorem rebinds_assign (rooted : s.Rooted) (alive : s.isAlive id)
    (walk : Walk s.parent? id path) (name : String) (ty : Ty) :
    Rebinds s (s.assign id name ty) ((s.nearest? path name).getD id) name ty := by
  rw [assign_eq_nearest rooted.grounded walk]
  refine rebinds_define ?_ name ty
  cases found : s.nearest? path name with
  | none => exact alive
  | some owner =>
    obtain ⟨ty', bound⟩ := Option.isSome_iff_exists.mp (isSome_lookupLocal_of_nearest? found)
    exact isAlive_iff.mpr (lt_size_of_lookupLocal bound)

/-! ## A tree of maps -/

/-- Scopes that are a tree of maps from names to types. -/
structure IsTree (s : Scopes) : Prop where
  rooted : s.Rooted
  /-- A scope that stays open when others are closed keeps its parent, which stays open too. -/
  kept : ∀ {mark id}, 1 ≤ mark → (s.discard mark).isAlive id →
    (s.discard mark).parent? id = s.parent? id ∧
      ∀ up, s.parent? id = some up → (s.discard mark).isAlive up
  /-- Every walk outwards comes to an end, over open scopes and at the module scope. -/
  walk : ∀ {id}, s.isAlive id → ∃ path, Walk s.parent? id path ∧
    path.getLast? = some moduleScope ∧ ∀ i ∈ path, s.isAlive i
  /-- A name has the type of its binding in the nearest scope that binds it. -/
  lookup : ∀ {id path}, Walk s.parent? id path → ∀ name,
    s.lookup id name = (s.nearest? path name).bind (s.lookupLocal · name)
  /-- That scope owns the name, unless it is the module scope seen from another one. -/
  resolveLocal : ∀ {id path}, Walk s.parent? id path → ∀ name,
    s.resolveLocal id name =
      (s.nearest? path name).filter fun owner => owner ≠ moduleScope ∨ id = moduleScope
  /-- An assignment changes the binding there, or makes one where it stands, and no other. -/
  assign : ∀ {id path}, s.isAlive id → Walk s.parent? id path → ∀ name ty,
    Rebinds s (s.assign id name ty) ((s.nearest? path name).getD id) name ty

theorem alive_parent_discard (rooted : s.Rooted) (kept : 1 ≤ mark)
    (alive : (s.discard mark).isAlive id) :
    (s.discard mark).parent? id = s.parent? id ∧
      ∀ up, s.parent? id = some up → (s.discard mark).isAlive up := by
  have same : (s.discard mark).parent? id = s.parent? id := by
    rcases Nat.le_total s.size mark with all | le
    · rw [discard_of_size_le all]
    · rw [isAlive_iff, size_discard le] at alive
      exact parent?_discard le alive
  refine ⟨same, fun up link => ?_⟩
  rw [← same] at link
  have below : up < id := ((rooted.discard kept).parent link).2
  exact isAlive_iff.mpr (Nat.lt_trans below (isAlive_iff.mp alive))

theorem Rooted.isTree (rooted : s.Rooted) : s.IsTree where
  rooted := rooted
  kept := alive_parent_discard rooted
  walk := rooted.walk
  lookup := lookup_eq_nearest rooted.grounded
  resolveLocal := resolveLocal_eq_nearest rooted.grounded
  assign := rebinds_assign rooted

end TreeTyper.Scopes

namespace TreeTyper

open Scopes

/-! ## Top theorem -/

/-- Whatever is done to new scopes, they are a tree of maps. -/
theorem scopes_form_tree (changes : List Change) (permitted : Scopes.empty.Permits changes) :
    (Scopes.empty.after changes).IsTree :=
  (Rooted.empty.after permitted).isTree

/-- Scopes 1 and 2 are opened, closed and opened again. -/
def reopened : List Change :=
  [.define moduleScope "k" .int, .mark, .child moduleScope [("x", .string)], .child 1 [],
    .assign 2 "k" .string, .assign 2 "x" .float, .assign 2 "fresh" .boolean, .discard 1,
    .child moduleScope [("y", .int)], .child 1 []]

theorem scopes_form_tree_reopened :
    Scopes.empty.Permits reopened ∧ (Scopes.empty.after reopened).IsTree ∧
      Walk (Scopes.empty.after reopened).parent? 2 [2, 1, moduleScope] ∧
      (Scopes.empty.after reopened).lookup 2 "k" = some .string ∧
      (Scopes.empty.after reopened).lookup 2 "x" = none ∧
      (Scopes.empty.after reopened).resolveLocal 2 "y" = some 1 ∧
      (Scopes.empty.after reopened).resolveLocal 2 "k" = none := by
  have permitted : Scopes.empty.Permits reopened := by decide +kernel
  exact ⟨permitted, scopes_form_tree reopened permitted,
    .step (by decide +kernel) (.step (by decide +kernel) (.last (by decide +kernel))),
    by decide +kernel, by decide +kernel, by decide +kernel, by decide +kernel⟩

end TreeTyper
