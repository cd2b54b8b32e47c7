import TreeTyper.Proofs.Operators
import TreeTyper.Proofs.Order

/-!
# Joins are least upper bounds

What two types are brought to is the least type that both widen to.  For classes it
is their nearest common ancestor, which stands below every other one.  Without
functions a join fails only where nothing is above both types: functions are brought
to each other in one direction or the other, so two of them can have an upper bound
and no join.

    unify h a b = some c → IsJoin h a b c                             (isJoin_unify)
    a.Widens h d → b.Widens h d → ∃ c, unify h a b = some c           (exists_unify)
    ts.Perm ts' → joinAll h ts = joinAll h ts'                        (joinAll_perm)
-/

namespace TreeTyper

variable {h : Hierarchy}

/-! ## Common ancestors -/

namespace Hierarchy

variable {a b c e : String}

/-- Every common ancestor is above the nearest one. -/
theorem isSubclass_of_commonAncestor (found : h.commonAncestor a b = some c)
    (above : h.isSubclass a e) (above' : h.isSubclass b e) : h.isSubclass c e := by
  obtain ⟨nearest, -⟩ := Option.filter_eq_some_iff.mp found
  obtain ⟨-, before, after, walk, others⟩ := List.find?_eq_some_iff_append.mp nearest
  have listed : e ∈ before ++ c :: after := walk ▸ of_decide_eq_true above
  rcases List.mem_append.mp listed with passed | later
  · have refused := others e passed
    rw [above'] at refused
    cases refused
  · rcases List.mem_cons.mp later with rfl | later
    · exact isSubclass_iff.mpr .refl
    · exact isSubclass_iff.mpr (leads_of_chain_eq walk later)

theorem exists_commonAncestor (bases : h.BasesDeclared) (isClass : h.isClass a)
    (above : h.isSubclass a e) (above' : h.isSubclass b e) :
    ∃ c, h.commonAncestor a b = some c := by
  have listed : e ∈ h.ancestors a := of_decide_eq_true above
  obtain ⟨c, nearest⟩ := Option.isSome_iff_exists.mp
    (List.find?_isSome.mpr ⟨e, listed, above'⟩)
  have onWay : h.isSubclass a c := decide_eq_true (List.mem_of_find?_eq_some nearest)
  refine ⟨c, ?_⟩
  rw [commonAncestor, nearest]
  exact Option.filter_some_pos (bases.isClass isClass onWay)

end Hierarchy

/-! ## Atoms -/

namespace Ty

theorem widens_atom_iff {t : Ty} {b : String} : t.Widens h (atom b) ↔
    t = hole ∨ ∃ a, t = atom a ∧ (a = b ∨ compatibleAtoms h a b = some (atom b)) := by
  cases t with
  | atom a => simp [atom_widens_iff]
  | hole => simp [hole_widens_iff]
  | _ => simp [Widens, compatible]

theorem widens_placeholder_iff {t : Ty} {p : Placeholder} :
    t.Widens h (placeholder p) ↔ t = hole ∨ t = placeholder p := by
  cases t with
  | hole => simp [hole_widens_iff]
  | placeholder q => simp [placeholder_widens_iff, eq_comm]
  | _ => simp [Widens, compatible]

theorem atom_widens_atom_iff {a b : String} : (atom a).Widens h (atom b) ↔
    a = b ∨ (a = intName ∧ b = floatName) ∨ h.isClass a ∧ h.isSubclass a b := by
  rw [atom_widens_iff, ← compatibleAtoms_iff]
  simp

/-- A class is usable as itself and as the classes above it. -/
theorem class_widens_iff (apart : h.NumbersApart) {a b : String} (isClass : h.isClass a) :
    (atom a).Widens h (atom b) ↔ h.isSubclass a b := by
  rw [atom_widens_atom_iff]
  constructor
  · rintro (rfl | ⟨rfl, -⟩ | ⟨-, above⟩)
    · exact Hierarchy.isSubclass_iff.mpr .refl
    · exact (apart.int isClass).elim
    · exact above
  · exact fun above => .inr (.inr ⟨isClass, above⟩)

/-- Atoms below one atom are numbers, or classes below it. -/
theorem numeric_or_class_of_widens (apart : h.NumbersApart) {a b e : String} (differ : a ≠ b)
    (ae : (atom a).Widens h (atom e)) (be : (atom b).Widens h (atom e)) :
    (atom a).isNumeric ∧ (atom b).isNumeric ∨
      (h.isClass a ∧ h.isSubclass a e) ∧ h.isClass b ∧ h.isSubclass b e := by
  have notFloat : ∀ {c}, h.isClass c → ¬h.isSubclass c floatName := fun isClass above =>
    apart.float (apart.bases.isClass isClass above)
  have itself : ∀ c, h.isSubclass c c := fun c => Hierarchy.isSubclass_iff.mpr .refl
  rcases atom_widens_atom_iff.mp ae with rfl | ⟨rfl, rfl⟩ | ⟨isClass, above⟩
  · rcases atom_widens_atom_iff.mp be with rfl | ⟨rfl, rfl⟩ | ⟨isClass, above⟩
    · exact absurd rfl differ
    · exact .inl ⟨rfl, rfl⟩
    · exact .inr ⟨⟨apart.bases.isClass isClass above, itself a⟩, isClass, above⟩
  · rcases atom_widens_atom_iff.mp be with rfl | ⟨rfl, -⟩ | ⟨isClass, above⟩
    · exact .inl ⟨rfl, rfl⟩
    · exact absurd rfl differ
    · exact (notFloat isClass above).elim
  · rcases atom_widens_atom_iff.mp be with rfl | ⟨rfl, rfl⟩ | ⟨isClass', above'⟩
    · exact .inr ⟨⟨isClass, above⟩, apart.bases.isClass isClass above, itself b⟩
    · exact (notFloat isClass above).elim
    · exact .inr ⟨⟨isClass, above⟩, isClass', above'⟩

end Ty

open Ty

/-! ## Below every upper bound -/

/-- A type below every type that two types widen to. -/
def BelowBounds (h : Hierarchy) (a b c : Ty) : Prop :=
  ∀ d, a.Widens h d → b.Widens h d → c.Widens h d

/-- Types that are below the upper bounds of two lists, place by place. -/
def AllBelowBounds (h : Hierarchy) (as bs cs : List Ty) : Prop :=
  ∀ ds, List.Forall₂ (Widens h) as ds → List.Forall₂ (Widens h) bs ds →
    List.Forall₂ (Widens h) cs ds

namespace BelowBounds

variable {a b c : Ty} {as bs cs : List Ty}

theorem left (a b : Ty) : BelowBounds h a b a := fun _ ad _ => ad

theorem right (a b : Ty) : BelowBounds h a b b := fun _ _ bd => bd

theorem symm (below : BelowBounds h a b c) : BelowBounds h b a c := fun d bd ad => below d ad bd

theorem list (below : BelowBounds h a b c) : BelowBounds h (.list a) (.list b) (.list c) := by
  intro _ ad bd
  obtain ⟨d, rfl, first⟩ := list_widens_iff.mp ad
  obtain ⟨_, same, second⟩ := list_widens_iff.mp bd
  cases same
  exact list_widens_iff.mpr ⟨d, rfl, below d first second⟩

theorem set (below : BelowBounds h a b c) : BelowBounds h (.set a) (.set b) (.set c) := by
  intro _ ad bd
  obtain ⟨d, rfl, first⟩ := set_widens_iff.mp ad
  obtain ⟨_, same, second⟩ := set_widens_iff.mp bd
  cases same
  exact set_widens_iff.mpr ⟨d, rfl, below d first second⟩

theorem array (below : BelowBounds h a b c) (n : Nat) :
    BelowBounds h (.array a n) (.array b n) (.array c n) := by
  intro _ ad bd
  obtain ⟨d, rfl, first⟩ := array_widens_iff.mp ad
  obtain ⟨_, same, second⟩ := array_widens_iff.mp bd
  cases same
  exact array_widens_iff.mpr ⟨d, rfl, below d first second⟩

theorem dictionary {k k' k'' v v' v'' : Ty} (keys : BelowBounds h k k' k'')
    (values : BelowBounds h v v' v'') :
    BelowBounds h (.dictionary k v) (.dictionary k' v') (.dictionary k'' v'') := by
  intro _ ad bd
  obtain ⟨dk, dv, rfl, kd, vd⟩ := dictionary_widens_iff.mp ad
  obtain ⟨_, _, same, kd', vd'⟩ := dictionary_widens_iff.mp bd
  cases same
  exact dictionary_widens_iff.mpr ⟨dk, dv, rfl, keys dk kd kd', values dv vd vd'⟩

theorem tuple (below : AllBelowBounds h as bs cs) :
    BelowBounds h (.tuple as) (.tuple bs) (.tuple cs) := by
  intro _ ad bd
  obtain ⟨ds, rfl, first⟩ := tuple_widens_iff.mp ad
  obtain ⟨_, same, second⟩ := tuple_widens_iff.mp bd
  cases same
  exact tuple_widens_iff.mpr ⟨ds, rfl, below ds first second⟩

theorem function {r r' r'' : Ty} (params : AllBelowBounds h as bs cs)
    (rets : BelowBounds h r r' r'') :
    BelowBounds h (.function as r) (.function bs r') (.function cs r'') := by
  intro _ ad bd
  obtain ⟨ds, dr, rfl, pd, rd⟩ := function_widens_iff.mp ad
  obtain ⟨_, _, same, pd', rd'⟩ := function_widens_iff.mp bd
  cases same
  exact function_widens_iff.mpr ⟨ds, dr, rfl, params ds pd pd', rets dr rd rd'⟩

end BelowBounds

theorem AllBelowBounds.nil : AllBelowBounds h [] [] [] := fun _ all _ => all

theorem AllBelowBounds.cons {a b c : Ty} {as bs cs : List Ty} (below : BelowBounds h a b c)
    (all : AllBelowBounds h as bs cs) : AllBelowBounds h (a :: as) (b :: bs) (c :: cs)
  | _, .cons ad ads, .cons bd bds => .cons (below _ ad bd) (all _ ads bds)

/-- What compatibility brings a type to is in each place a part of one of the two. -/
theorem belowBounds_compatible {a b c : Ty} (found : compatible h a b = some c) :
    BelowBounds h a b c := by
  refine compatible_induction (P := BelowBounds h) (Q := AllBelowBounds h)
    ?_ ?_ ?_ ?_ ?_ ?_ ?_ ?_ ?_ ?_ ?_ ?_ ?_ ?_ found
  · exact fun t => .left t t
  · exact fun t => .left t _
  · exact fun t _ => .left t _
  · exact fun t _ _ => .right _ t
  · exact fun t => .left t _
  · intro a b c found
    rw [eq_of_compatibleAtoms found]
    exact .right _ _
  · exact fun _ _ _ => .list
  · exact fun _ _ _ => .set
  · exact fun _ _ _ n below => .array below n
  · exact fun _ _ _ _ _ _ => .dictionary
  · exact fun _ _ _ => .tuple
  · exact fun _ _ _ _ _ _ => .function
  · exact .nil
  · exact fun _ _ _ _ _ _ => .cons

theorem belowBounds_unifyAtoms (apart : h.NumbersApart) {a b : String} {c : Ty} (differ : a ≠ b)
    (found : unifyAtoms h a b = some c) : BelowBounds h (.atom a) (.atom b) c := by
  intro d ad bd
  unfold unifyAtoms at found
  split at found
  · next numbers =>
    cases found
    obtain ⟨numericA, numericB⟩ := Bool.and_eq_true_iff.mp numbers
    rcases Ty.isNumeric_iff.mp numericA with isInt | isFloat
    · rcases Ty.isNumeric_iff.mp numericB with isInt' | isFloat'
      · cases isInt
        cases isInt'
        exact absurd rfl differ
      · rwa [isFloat'] at bd
    · rwa [isFloat] at ad
  split at found
  · next classes =>
    obtain ⟨isClass, isClass'⟩ := Bool.and_eq_true_iff.mp classes
    obtain ⟨c, meets, rfl⟩ := Option.map_eq_some_iff.mp found
    obtain ⟨e, rfl, -⟩ := atom_widens_iff.mp ad
    rw [class_widens_iff apart isClass] at ad
    rw [class_widens_iff apart isClass'] at bd
    rw [class_widens_iff apart (Option.filter_eq_some_iff.mp meets).2]
    exact Hierarchy.isSubclass_of_commonAncestor meets ad bd
  · cases found

theorem belowBounds_unify (apart : h.NumbersApart) {a b c : Ty} (found : unify h a b = some c) :
    BelowBounds h a b c := by
  refine unify_induction (P := BelowBounds h) (Q := AllBelowBounds h)
    ?_ ?_ ?_ ?_ ?_ ?_ ?_ ?_ ?_ ?_ ?_ ?_ ?_ found
  · exact fun t => .left t t
  · exact fun t => .right _ t
  · exact fun t => .left t _
  · exact fun a b c differ found => belowBounds_unifyAtoms apart differ found
  · exact fun _ _ _ => .list
  · exact fun _ _ _ => .set
  · exact fun _ _ _ n below => .array below n
  · exact fun _ _ _ _ _ _ => .dictionary
  · exact fun _ _ _ => .tuple
  · exact fun _ _ _ => belowBounds_compatible
  · exact fun _ _ _ found => (belowBounds_compatible found).symm
  · exact .nil
  · exact fun _ _ _ _ _ _ => .cons

/-- The least type that two types widen to. -/
structure IsJoin (h : Hierarchy) (a b c : Ty) : Prop where
  left : a.Widens h c
  right : b.Widens h c
  least : BelowBounds h a b c

theorem isJoin_unify (apart : h.NumbersApart) {a b c : Ty} (plainA : a.isPlain)
    (plainB : b.isPlain) (found : unify h a b = some c) : IsJoin h a b c where
  left := (widens_unify plainA plainB found).1
  right := (widens_unify plainA plainB found).2
  least := belowBounds_unify apart found

theorem IsJoin.symm {a b c : Ty} (join : IsJoin h a b c) : IsJoin h b a c :=
  ⟨join.right, join.left, join.least.symm⟩

theorem IsJoin.unique (apart : h.NumbersApart) (acyclic : Hierarchy.Acyclic h.base?) {a b c c' : Ty}
    (join : IsJoin h a b c) (join' : IsJoin h a b c') : c = c' :=
  Widens.antisymm (not_float_widens_int apart) acyclic (join.least c' join'.left join'.right)
    (join'.least c join.left join.right)

/-! ## Where there is a join -/

theorem exists_unifyAtoms (apart : h.NumbersApart) {a b e : String} (differ : a ≠ b)
    (ae : (atom a).Widens h (atom e)) (be : (atom b).Widens h (atom e)) :
    ∃ c, unifyAtoms h a b = some c := by
  unfold unifyAtoms
  split
  · exact ⟨_, rfl⟩
  next notNumbers =>
  rcases numeric_or_class_of_widens apart differ ae be with
    ⟨numericA, numericB⟩ | ⟨⟨isClass, above⟩, isClass', above'⟩
  · simp [numericA, numericB] at notNumbers
  · obtain ⟨c, meets⟩ := Hierarchy.exists_commonAncestor apart.bases isClass above above'
    exact ⟨.atom c, by simp [isClass, isClass', meets]⟩

theorem exists_unify_atom (apart : h.NumbersApart) {a b e : String}
    (ae : (atom a).Widens h (atom e)) (be : (atom b).Widens h (atom e)) :
    ∃ c, unify h (.atom a) (.atom b) = some c := by
  rw [unify_atom]
  split
  · exact ⟨_, rfl⟩
  · next differ => exact exists_unifyAtoms apart differ ae be

namespace Ty

mutual

/-- Whether no function occurs at any depth. -/
def isFunctionFree : Ty → Bool
  | function _ _ => false
  | list t => isFunctionFree t
  | set t => isFunctionFree t
  | array t _ => isFunctionFree t
  | dictionary k v => isFunctionFree k && isFunctionFree v
  | tuple ts => allFunctionFree ts
  | atom _ | hole | any | number | placeholder _ => true

def allFunctionFree : List Ty → Bool
  | [] => true
  | t :: ts => isFunctionFree t && allFunctionFree ts

end

end Ty

mutual

/-- Two types with an upper bound have a join, if there is no function in one of them. -/
theorem exists_unify (apart : h.NumbersApart) : ∀ {a b d : Ty}, a.Widens h d → b.Widens h d →
    a.isFunctionFree → ∃ c, unify h a b = some c
  | .hole, b, _, _, _, _ => ⟨b, unify_hole_left b⟩
  | .atom a, _, _, ad, bd, _ => by
    obtain ⟨e, rfl, -⟩ := atom_widens_iff.mp ad
    rcases widens_atom_iff.mp bd with rfl | ⟨b, rfl, -⟩
    · exact ⟨_, unify_hole_right _⟩
    · exact exists_unify_atom apart ad bd
  -- the upper bound is a list, so the other side is a hole or a list
  | .list a, _, _, ad, bd, free => by
    obtain ⟨d, rfl, first⟩ := list_widens_iff.mp ad
    rcases widens_list_iff.mp bd with rfl | ⟨b, rfl, second⟩
    · exact ⟨_, unify_hole_right _⟩
    · obtain ⟨c, found⟩ := exists_unify apart first second free
      exact ⟨.list c, by rw [unify_list, found]; rfl⟩
  | .set a, _, _, ad, bd, free => by
    obtain ⟨d, rfl, first⟩ := set_widens_iff.mp ad
    rcases widens_set_iff.mp bd with rfl | ⟨b, rfl, second⟩
    · exact ⟨_, unify_hole_right _⟩
    · obtain ⟨c, found⟩ := exists_unify apart first second free
      exact ⟨.set c, by rw [unify_set, found]; rfl⟩
  | .array a n, _, _, ad, bd, free => by
    obtain ⟨d, rfl, first⟩ := array_widens_iff.mp ad
    rcases widens_array_iff.mp bd with rfl | ⟨b, rfl, second⟩
    · exact ⟨_, unify_hole_right _⟩
    · obtain ⟨c, found⟩ := exists_unify apart first second free
      exact ⟨.array c n, by rw [unify_array, if_pos rfl, found]; rfl⟩
  | .dictionary k v, _, _, ad, bd, free => by
    obtain ⟨freeKey, freeValue⟩ := Bool.and_eq_true_iff.mp free
    obtain ⟨dk, dv, rfl, firstKey, firstValue⟩ := dictionary_widens_iff.mp ad
    rcases widens_dictionary_iff.mp bd with rfl | ⟨k', v', rfl, secondKey, secondValue⟩
    · exact ⟨_, unify_hole_right _⟩
    · obtain ⟨key, foundKey⟩ := exists_unify apart firstKey secondKey freeKey
      obtain ⟨value, foundValue⟩ := exists_unify apart firstValue secondValue freeValue
      exact ⟨.dictionary key value, by rw [unify_dictionary, foundKey, foundValue]; rfl⟩
  | .tuple as, _, _, ad, bd, free => by
    obtain ⟨ds, rfl, first⟩ := tuple_widens_iff.mp ad
    rcases widens_tuple_iff.mp bd with rfl | ⟨bs, rfl, second⟩
    · exact ⟨_, unify_hole_right _⟩
    · obtain ⟨cs, found⟩ := exists_unifyAll apart first second free
      exact ⟨.tuple cs, by rw [unify_tuple, found]; rfl⟩
  -- under `Any` and `Number` there is nothing else; there is no case for functions
  | .any, b, _, ad, bd, _ => by
    rw [any_widens_iff.mp ad, widens_any_iff] at bd
    exact ⟨.any, by rw [bd, unify_self]⟩
  | .number, b, _, ad, bd, _ => by
    rw [number_widens_iff.mp ad, widens_number_iff] at bd
    exact ⟨.number, by rw [bd, unify_self]⟩
  | .placeholder p, b, _, ad, bd, _ => by
    rw [placeholder_widens_iff.mp ad, widens_placeholder_iff] at bd
    rcases bd with rfl | rfl
    · exact ⟨_, unify_hole_right _⟩
    · exact ⟨_, unify_self h _⟩

theorem exists_unifyAll (apart : h.NumbersApart) : ∀ {as bs ds : List Ty},
    List.Forall₂ (Widens h) as ds → List.Forall₂ (Widens h) bs ds → allFunctionFree as →
    ∃ cs, unifyAll h as bs = some cs
  | [], _, _, .nil, .nil, _ => ⟨[], by rw [unifyAll]⟩
  | a :: as, _, _, .cons ad ads, .cons bd bds, free => by
    obtain ⟨freeHead, freeTail⟩ := Bool.and_eq_true_iff.mp free
    obtain ⟨c, found⟩ := exists_unify apart ad bd freeHead
    obtain ⟨cs, foundAll⟩ := exists_unifyAll apart ads bds freeTail
    exact ⟨c :: cs, by rw [unifyAll_cons, found, foundAll]; rfl⟩

end

/-! ## Symmetry -/

theorem unify_function (ps ps' : List Ty) (r r' : Ty) :
    unify h (.function ps r) (.function ps' r') =
      (compatible h (.function ps r) (.function ps' r')).or
        (compatible h (.function ps' r') (.function ps r)) := by
  by_cases same : (Ty.function ps r) = .function ps' r'
  · rw [same, unify_self, compatible_self]
    rfl
  · exact if_neg same

/-- There is a join of two types, in both orders. -/
def Joins (h : Hierarchy) (a b : Ty) : Prop :=
  (unify h a b).isSome ∧ (unify h b a).isSome

def AllJoin (h : Hierarchy) (as bs : List Ty) : Prop :=
  (unifyAll h as bs).isSome ∧ (unifyAll h bs as).isSome

namespace Joins

variable {a b : Ty} {as bs : List Ty}

theorem symm (joins : Joins h a b) : Joins h b a := And.symm joins

theorem refl (t : Ty) : Joins h t t := by simp [Joins]

theorem hole_left (t : Ty) : Joins h .hole t := by simp [Joins, unify_hole_left, unify_hole_right]

theorem hole_right (t : Ty) : Joins h t .hole := (hole_left t).symm

theorem list (joins : Joins h a b) : Joins h (.list a) (.list b) := by
  simpa [Joins, unify_list] using joins

theorem set (joins : Joins h a b) : Joins h (.set a) (.set b) := by
  simpa [Joins, unify_set] using joins

theorem array (joins : Joins h a b) (n : Nat) : Joins h (.array a n) (.array b n) := by
  simpa [Joins, unify_array] using joins

theorem dictionary {k k' v v' : Ty} (keys : Joins h k k') (values : Joins h v v') :
    Joins h (.dictionary k v) (.dictionary k' v') := by
  rw [Joins, unify_dictionary, unify_dictionary, isSome_bind_map, isSome_bind_map,
    Bool.and_eq_true, Bool.and_eq_true]
  exact ⟨⟨keys.1, values.1⟩, keys.2, values.2⟩

theorem tuple (joins : AllJoin h as bs) : Joins h (.tuple as) (.tuple bs) := by
  simpa [Joins, unify_tuple] using show _ ∧ _ from joins

/-- Two functions one of which is brought to the other. -/
theorem function {f : Ty} {ps ps' : List Ty} {r r' : Ty}
    (found : compatible h (.function ps r) (.function ps' r') = some f) :
    Joins h (.function ps r) (.function ps' r') := by
  simp [Joins, unify_function, found]

theorem atom (apart : h.NumbersApart) {a b e : String} (ae : (Ty.atom a).Widens h (.atom e))
    (be : (Ty.atom b).Widens h (.atom e)) : Joins h (.atom a) (.atom b) :=
  ⟨Option.isSome_iff_exists.mpr (exists_unify_atom apart ae be),
    Option.isSome_iff_exists.mpr (exists_unify_atom apart be ae)⟩

end Joins

theorem AllJoin.nil : AllJoin h [] [] := by simp [AllJoin, unifyAll]

theorem AllJoin.cons {a b : Ty} {as bs : List Ty} (joins : Joins h a b) (all : AllJoin h as bs) :
    AllJoin h (a :: as) (b :: bs) := by
  rw [AllJoin, unifyAll_cons, unifyAll_cons, isSome_bind_map, isSome_bind_map,
    Bool.and_eq_true, Bool.and_eq_true]
  exact ⟨⟨joins.1, all.1⟩, joins.2, all.2⟩

/-- A type that is brought to another one has a join with it. -/
theorem joins_of_compatible (apart : h.NumbersApart) {a b c : Ty}
    (found : compatible h a b = some c) : Joins h a b := by
  -- functions join if one is brought to the other, so the induction keeps that it is
  refine (compatible_induction (P := fun a b c => compatible h a b = some c ∧ Joins h a b)
    (Q := fun as bs cs => compatibleAll h as bs = some cs ∧ AllJoin h as bs)
    ?_ ?_ ?_ ?_ ?_ ?_ ?_ ?_ ?_ ?_ ?_ ?_ ?_ ?_ found).2
  · exact fun t => ⟨compatible_self h t, .refl t⟩
  · intro t
    cases t <;> simp [Joins, unify, compatible]
  · intro t numeric
    cases t <;> simp_all [Joins, unify, compatible]
  · exact fun t notAny notNumber => ⟨compatible_hole_left notAny notNumber, .hole_left t⟩
  · exact fun t => ⟨compatible_hole_right t, .hole_right t⟩
  · intro a b c found
    obtain rfl := eq_of_compatibleAtoms found
    have widens : (Ty.atom a).Widens h (.atom b) := atom_widens_iff.mpr ⟨b, rfl, .inr found⟩
    exact ⟨widens, .atom apart widens (.refl _)⟩
  · rintro a b c ⟨found, joins⟩
    exact ⟨by rw [compatible_list, found]; rfl, joins.list⟩
  · rintro a b c ⟨found, joins⟩
    exact ⟨by rw [compatible_set, found]; rfl, joins.set⟩
  · rintro a b c n ⟨found, joins⟩
    exact ⟨by rw [compatible_array, if_pos rfl, found]; rfl, joins.array n⟩
  · rintro _ _ _ _ _ _ ⟨foundKey, keys⟩ ⟨foundValue, values⟩
    exact ⟨by rw [compatible_dictionary, foundKey, foundValue]; rfl, keys.dictionary values⟩
  · rintro as bs cs ⟨found, joins⟩
    exact ⟨by rw [compatible_tuple, found]; rfl, .tuple joins⟩
  · rintro ps ps' ps'' r r' r'' ⟨foundParams, -⟩ ⟨foundRet, -⟩
    have found : compatible h (.function ps r) (.function ps' r') = some (.function ps'' r'') := by
      rw [compatible_function, foundParams, foundRet]
      rfl
    exact ⟨found, .function found⟩
  · exact ⟨compatibleAll_self [], .nil⟩
  · rintro _ _ _ _ _ _ ⟨found, joins⟩ ⟨foundAll, all⟩
    exact ⟨by rw [compatibleAll_cons, found, foundAll]; rfl, .cons joins all⟩

theorem joins_of_unify (apart : h.NumbersApart) {a b c : Ty} (found : unify h a b = some c) :
    Joins h a b := by
  refine unify_induction (P := fun a b _ => Joins h a b) (Q := fun as bs _ => AllJoin h as bs)
    ?_ ?_ ?_ ?_ ?_ ?_ ?_ ?_ ?_ ?_ ?_ ?_ ?_ found
  · exact .refl
  · exact .hole_left
  · exact .hole_right
  · intro a b c _ found
    obtain ⟨left, right⟩ := widens_unifyAtoms found
    obtain ⟨e, rfl, -⟩ := atom_widens_iff.mp left
    exact .atom apart left right
  · exact fun _ _ _ => .list
  · exact fun _ _ _ => .set
  · exact fun _ _ _ n joins => joins.array n
  · exact fun _ _ _ _ _ _ => .dictionary
  · exact fun _ _ _ => .tuple
  · exact fun _ _ _ => joins_of_compatible apart
  · exact fun _ _ _ found => (joins_of_compatible apart found).symm
  · exact .nil
  · exact fun _ _ _ _ _ _ => .cons

/-- Joins do not depend on the order of the two types. -/
theorem unify_comm (apart : h.NumbersApart) (acyclic : Hierarchy.Acyclic h.base?) {a b : Ty}
    (plainA : a.isPlain) (plainB : b.isPlain) : unify h a b = unify h b a := by
  have one : ∀ {a b c : Ty}, a.isPlain → b.isPlain → unify h a b = some c →
      unify h b a = some c := by
    intro a b c plainA plainB found
    obtain ⟨c', found'⟩ := Option.isSome_iff_exists.mp (joins_of_unify apart found).2
    have join := (isJoin_unify apart plainA plainB found).symm
    rw [found', join.unique apart acyclic (isJoin_unify apart plainB plainA found')]
  ext c
  exact ⟨one plainA plainB, one plainB plainA⟩

/-! ## Bringing many types together -/

/-- What two types are brought to is above both. -/
def BringsAbove (h : Hierarchy) (join : Ty → Ty → Option Ty) : Prop :=
  ∀ a b c, a.isPlain → b.isPlain → join a b = some c → c.isPlain ∧ a.Widens h c ∧ b.Widens h c

theorem bringsAbove_unify : BringsAbove h (unify h) := fun _ _ _ plainA plainB found =>
  ⟨isPlain_unify plainA plainB found, widens_unify plainA plainB found⟩

theorem bringsAbove_compatible : BringsAbove h (compatible h) := fun _ _ _ plainA plainB found =>
  ⟨isPlain_compatible plainA plainB found, widens_of_compatible plainA plainB found⟩

namespace BringsAbove

variable {join : Ty → Ty → Option Ty}

theorem symm (above : BringsAbove h join) : BringsAbove h fun a b => join b a := by
  intro a b c plainA plainB found
  have ⟨plain, right, left⟩ := above b a c plainB plainA found
  exact ⟨plain, left, right⟩

/-- What has been met early still widens to what all are brought to in the end. -/
theorem fold (above : BringsAbove h join) (apart : h.NumbersApart) {acc c : Ty} {ts : List Ty}
    (plain : acc.isPlain) (plainAll : ∀ t ∈ ts, t.isPlain) (found : ts.foldlM join acc = some c) :
    acc.Widens h c ∧ ∀ t ∈ ts, t.Widens h c := by
  induction ts generalizing acc with
  | nil =>
    cases found
    exact ⟨.refl _, by simp⟩
  | cons t ts ih =>
    rw [List.foldlM_cons] at found
    obtain ⟨next, joins, rest⟩ := Option.bind_eq_some_iff.mp found
    rw [List.forall_mem_cons] at plainAll
    have ⟨plainNext, left, right⟩ := above acc t next plain plainAll.1 joins
    have ⟨nextAbove, restAbove⟩ := ih plainNext plainAll.2 rest
    exact ⟨left.trans apart nextAbove,
      List.forall_mem_cons.mpr ⟨right.trans apart nextAbove, restAbove⟩⟩

end BringsAbove

/-! ## Joins of many types -/

/-- The least type that all the given types widen to, one after the other. -/
def joinAll (h : Hierarchy) (ts : List Ty) : Option Ty := ts.foldlM (unify h) .hole

section Fold

variable {acc c d : Ty} {ts : List Ty}

/-- What some types are joined to is below all that is above them. -/
theorem least_of_fold (apart : h.NumbersApart) (found : ts.foldlM (unify h) acc = some c)
    (above : acc.Widens h d) (aboveAll : ∀ t ∈ ts, t.Widens h d) : c.Widens h d := by
  induction ts generalizing acc with
  | nil =>
    cases found
    exact above
  | cons t ts ih =>
    rw [List.foldlM_cons] at found
    obtain ⟨next, joins, rest⟩ := Option.bind_eq_some_iff.mp found
    rw [List.forall_mem_cons] at aboveAll
    have nextBelow : next.Widens h d := belowBounds_unify apart joins d above aboveAll.1
    exact ih rest nextBelow aboveAll.2

theorem exists_fold (apart : h.NumbersApart) (free : ∀ t ∈ ts, t.isFunctionFree)
    (above : acc.Widens h d) (aboveAll : ∀ t ∈ ts, t.Widens h d) :
    ∃ c, ts.foldlM (unify h) acc = some c := by
  induction ts generalizing acc with
  | nil => exact ⟨_, rfl⟩
  | cons t ts ih =>
    rw [List.forall_mem_cons] at free aboveAll
    obtain ⟨_, back⟩ := exists_unify apart aboveAll.1 above free.1
    obtain ⟨next, joins⟩ := Option.isSome_iff_exists.mp (joins_of_unify apart back).2
    obtain ⟨c, found⟩ := ih free.2 (belowBounds_unify apart joins d above aboveAll.1) aboveAll.2
    exact ⟨c, by rw [List.foldlM_cons, joins]; exact found⟩

end Fold

/-- Without functions the order of the types does not matter. -/
theorem joinAll_perm (apart : h.NumbersApart) (acyclic : Hierarchy.Acyclic h.base?)
    {ts ts' : List Ty} (plain : ∀ t ∈ ts, t.isPlain) (free : ∀ t ∈ ts, t.isFunctionFree)
    (reordered : ts.Perm ts') : joinAll h ts = joinAll h ts' := by
  have one : ∀ {ts ts' : List Ty} {c : Ty}, ts.Perm ts' → (∀ t ∈ ts, t.isPlain) →
      (∀ t ∈ ts, t.isFunctionFree) → joinAll h ts = some c → joinAll h ts' = some c := by
    intro ts ts' c reordered plain free found
    have plain' : ∀ t ∈ ts', t.isPlain := fun t ht => plain t (reordered.mem_iff.mpr ht)
    have free' : ∀ t ∈ ts', t.isFunctionFree := fun t ht => free t (reordered.mem_iff.mpr ht)
    have ⟨above, aboveAll⟩ := bringsAbove_unify.fold apart rfl plain found
    have aboveAll' : ∀ t ∈ ts', t.Widens h c := fun t ht => aboveAll t (reordered.mem_iff.mpr ht)
    obtain ⟨c', found'⟩ := exists_fold apart free' above aboveAll'
    have ⟨above', all'⟩ := bringsAbove_unify.fold apart rfl plain' found'
    have below : c.Widens h c' :=
      least_of_fold apart found above' fun t ht => all' t (reordered.mem_iff.mp ht)
    have below' : c'.Widens h c := least_of_fold apart found' above aboveAll'
    have same : c = c' := below.antisymm (not_float_widens_int apart) acyclic below'
    rwa [same]
  ext c
  refine ⟨one reordered plain free, one reordered.symm ?_ ?_⟩
  · exact fun t ht => plain t (reordered.mem_iff.mpr ht)
  · exact fun t ht => free t (reordered.mem_iff.mpr ht)

end TreeTyper
