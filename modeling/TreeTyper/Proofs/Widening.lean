import TreeTyper.Proofs.Ancestors
import TreeTyper.Proofs.Filling
import TreeTyper.Proofs.PlainNodes

/-!
# Types that widen

`a.Widens h b` says that a value of type `a` is usable as one of type `b` as it
is: `b` is `a` with some holes filled, `Int` turned into `Float` and classes into
ancestors.  Joins widen both sides, and what is stored in a container or matched
by a method widens the type of the receiver.

    unify h a b = some c → a.Widens h c ∧ b.Widens h c                  (widens_unify)
    Refinement h old evidence ty → old.Widens h ty                      (Refinement.widens)

Widening twice is widening when no class has the name of a number: a class called
`Float` would have `Int` below its base.
-/

namespace TreeTyper

/-- The bases of classes are classes, none with the name of a number. -/
structure Hierarchy.NumbersApart (h : Hierarchy) : Prop where
  bases : h.BasesDeclared
  int : ¬h.isClass Ty.intName
  float : ¬h.isClass Ty.floatName

theorem Hierarchy.NumbersApart.sameShape {h h' : Hierarchy} (apart : h.NumbersApart)
    (same : h.SameShape h') : h'.NumbersApart where
  bases a b above := by
    rw [same.base?_eq] at above
    rw [same.isClass_eq]
    exact apart.bases a b above
  int := by
    rw [same.isClass_eq]
    exact apart.int
  float := by
    rw [same.isClass_eq]
    exact apart.float

namespace Ty

variable {h : Hierarchy}

/-- A value of the first type is usable as one of the second type, as it is. -/
def Widens (h : Hierarchy) (a b : Ty) : Prop := compatible h a b = some b

instance (h : Hierarchy) (a b : Ty) : Decidable (a.Widens h b) :=
  inferInstanceAs (Decidable (compatible h a b = some b))

/-! ## Constructor by constructor -/

theorem hole_widens_iff {t : Ty} : hole.Widens h t ↔ t ≠ any ∧ t ≠ number := by
  unfold Widens
  cases t <;> simp [compatible, isNumeric, isAtom]

theorem atom_widens_iff {a : String} {t : Ty} :
    (atom a).Widens h t ↔ ∃ b, t = atom b ∧ (a = b ∨ compatibleAtoms h a b = some (atom b)) := by
  unfold Widens
  cases t with
  | atom b =>
    rw [compatible_atom]
    by_cases same : a = b <;> simp [same]
  | _ => simp [compatible]

theorem list_widens_iff {a t : Ty} : (list a).Widens h t ↔ ∃ b, t = list b ∧ a.Widens h b := by
  unfold Widens
  cases t with
  | list b => simp [compatible_list]
  | _ => simp [compatible]

theorem set_widens_iff {a t : Ty} : (set a).Widens h t ↔ ∃ b, t = set b ∧ a.Widens h b := by
  unfold Widens
  cases t with
  | set b => simp [compatible_set]
  | _ => simp [compatible]

theorem array_widens_iff {a t : Ty} {n : Nat} :
    (array a n).Widens h t ↔ ∃ b, t = array b n ∧ a.Widens h b := by
  unfold Widens
  cases t with
  | array b m =>
    by_cases same : n = m
    · simp [compatible_array, same]
    · simp [compatible_array, same, Ne.symm same]
  | _ => simp [compatible]

theorem dictionary_widens_iff {k v t : Ty} : (dictionary k v).Widens h t ↔
    ∃ k' v', t = dictionary k' v' ∧ k.Widens h k' ∧ v.Widens h v' := by
  unfold Widens
  cases t with
  | dictionary k' v' => simp [compatible_dictionary, Option.bind_eq_some_iff]
  | _ => simp [compatible]

/-- Types that widen place by place. -/
theorem forall₂_widens_iff {as bs : List Ty} :
    List.Forall₂ (Widens h) as bs ↔ compatibleAll h as bs = some bs := by
  induction as generalizing bs with
  | nil => cases bs <;> simp [compatibleAll]
  | cons a as ih =>
    cases bs with
    | nil => simp [compatibleAll]
    | cons b bs => simp [compatibleAll_cons, Option.bind_eq_some_iff, ih, Widens]

theorem tuple_widens_iff {as : List Ty} {t : Ty} : (tuple as).Widens h t ↔
    ∃ bs, t = tuple bs ∧ List.Forall₂ (Widens h) as bs := by
  simp only [forall₂_widens_iff]
  unfold Widens
  cases t with
  | tuple bs => simp [compatible_tuple]
  | _ => simp [compatible]

theorem function_widens_iff {ps : List Ty} {r t : Ty} : (function ps r).Widens h t ↔
    ∃ ps' r', t = function ps' r' ∧ List.Forall₂ (Widens h) ps ps' ∧ r.Widens h r' := by
  simp only [forall₂_widens_iff]
  unfold Widens
  cases t with
  | function ps' r' => simp [compatible_function, Option.bind_eq_some_iff]
  | _ => simp [compatible]

theorem any_widens_iff {t : Ty} : any.Widens h t ↔ t = any := by
  unfold Widens
  cases t <;> simp [compatible, isNumeric, isAtom]

theorem number_widens_iff {t : Ty} : number.Widens h t ↔ t = number := by
  unfold Widens
  cases t <;> simp [compatible]

theorem widens_any_iff {t : Ty} : t.Widens h any ↔ t = any := by
  unfold Widens
  cases t <;> simp [compatible]

theorem widens_number_iff {t : Ty} : t.Widens h number ↔ t = number := by
  unfold Widens
  cases t <;> simp [compatible, isNumeric]

theorem placeholder_widens_iff {p : Placeholder} {t : Ty} :
    (placeholder p).Widens h t ↔ t = placeholder p := by
  unfold Widens
  cases t with
  | placeholder q =>
    by_cases same : p = q
    · simp [same]
    · simp [compatible, same, Ne.symm same]
  | _ => simp [compatible, isNumeric, isAtom]

/-! ## An order -/

theorem Widens.refl (t : Ty) : t.Widens h t := compatible_self h t

theorem FillsTo.widens {a b : Ty} (fills : a.FillsTo b) (plain : b.isPlain) : a.Widens h b :=
  compatible_of_fillsTo fills plain

theorem compatibleAtoms_iff {a b : String} : compatibleAtoms h a b = some (atom b) ↔
    a = intName ∧ b = floatName ∨ h.isClass a ∧ h.isSubclass a b := by
  unfold compatibleAtoms
  split
  · next numbers => simp [numbers, float]
  split
  · next classes => simp [Bool.and_eq_true_iff.mp classes]
  · next notNumbers notClasses => simpa [notNumbers] using notClasses

theorem compatibleAtoms_trans (apart : h.NumbersApart) {a b c : String}
    (ab : compatibleAtoms h a b = some (atom b)) (bc : compatibleAtoms h b c = some (atom c)) :
    compatibleAtoms h a c = some (atom c) := by
  rw [compatibleAtoms_iff] at *
  rcases ab with ⟨-, rfl⟩ | ⟨isClass, below⟩
  · rcases bc with ⟨same, -⟩ | ⟨isClass, -⟩
    · exact absurd same (by decide)
    · exact (apart.float isClass).elim
  · rcases bc with ⟨rfl, -⟩ | ⟨-, below'⟩
    · exact (apart.int (apart.bases.isClass isClass below)).elim
    · exact .inr ⟨isClass, Hierarchy.isSubclass_trans below below'⟩

mutual

theorem Widens.trans (apart : h.NumbersApart) :
    ∀ {a b c : Ty}, a.Widens h b → b.Widens h c → a.Widens h c
  | hole, b, c, ab, bc => by
    obtain ⟨notAny, notNumber⟩ := hole_widens_iff.mp ab
    -- only `Any` widens to `Any`, and only `Number` to `Number`
    refine hole_widens_iff.mpr ⟨?_, ?_⟩
    · rintro rfl
      exact notAny (widens_any_iff.mp bc)
    · rintro rfl
      exact notNumber (widens_number_iff.mp bc)
  | atom a, _, _, ab, bc => by
    obtain ⟨b, rfl, first⟩ := atom_widens_iff.mp ab
    obtain ⟨c, rfl, second⟩ := atom_widens_iff.mp bc
    refine atom_widens_iff.mpr ⟨c, rfl, ?_⟩
    rcases first with rfl | first
    · exact second
    rcases second with rfl | second
    · exact .inr first
    · exact .inr (compatibleAtoms_trans apart first second)
  | list a, _, _, ab, bc => by
    obtain ⟨b, rfl, first⟩ := list_widens_iff.mp ab
    obtain ⟨c, rfl, second⟩ := list_widens_iff.mp bc
    exact list_widens_iff.mpr ⟨c, rfl, Widens.trans apart first second⟩
  | set a, _, _, ab, bc => by
    obtain ⟨b, rfl, first⟩ := set_widens_iff.mp ab
    obtain ⟨c, rfl, second⟩ := set_widens_iff.mp bc
    exact set_widens_iff.mpr ⟨c, rfl, Widens.trans apart first second⟩
  | array a n, _, _, ab, bc => by
    obtain ⟨b, rfl, first⟩ := array_widens_iff.mp ab
    obtain ⟨c, rfl, second⟩ := array_widens_iff.mp bc
    exact array_widens_iff.mpr ⟨c, rfl, Widens.trans apart first second⟩
  | dictionary k v, _, _, ab, bc => by
    obtain ⟨k', v', rfl, keys, values⟩ := dictionary_widens_iff.mp ab
    obtain ⟨k'', v'', rfl, keys', values'⟩ := dictionary_widens_iff.mp bc
    exact dictionary_widens_iff.mpr
      ⟨k'', v'', rfl, Widens.trans apart keys keys', Widens.trans apart values values'⟩
  | tuple as, _, _, ab, bc => by
    obtain ⟨bs, rfl, first⟩ := tuple_widens_iff.mp ab
    obtain ⟨cs, rfl, second⟩ := tuple_widens_iff.mp bc
    exact tuple_widens_iff.mpr ⟨cs, rfl, forall₂_widens_trans apart first second⟩
  | function ps r, _, _, ab, bc => by
    obtain ⟨ps', r', rfl, params, rets⟩ := function_widens_iff.mp ab
    obtain ⟨ps'', r'', rfl, params', rets'⟩ := function_widens_iff.mp bc
    exact function_widens_iff.mpr
      ⟨ps'', r'', rfl, forall₂_widens_trans apart params params', Widens.trans apart rets rets'⟩
  | any, _, _, ab, bc => by rwa [any_widens_iff.mp ab] at bc
  | number, _, _, ab, bc => by rwa [number_widens_iff.mp ab] at bc
  | placeholder _, _, _, ab, bc => by rwa [placeholder_widens_iff.mp ab] at bc

theorem forall₂_widens_trans (apart : h.NumbersApart) : ∀ {as bs cs : List Ty},
    List.Forall₂ (Widens h) as bs → List.Forall₂ (Widens h) bs cs →
    List.Forall₂ (Widens h) as cs
  | [], _, _, .nil, .nil => .nil
  | _ :: _, _, _, .cons ab abs, .cons bc bcs =>
    .cons (Widens.trans apart ab bc) (forall₂_widens_trans apart abs bcs)

end

end Ty

open Ty (Widens)

variable {h : Hierarchy}

theorem Hierarchy.SameShape.widens_iff {h' : Hierarchy} (same : h.SameShape h') {a b : Ty} :
    a.Widens h' b ↔ a.Widens h b := by
  rw [Widens, Widens, same.compatible_eq]

/-! ## Joins -/

theorem widens_of_compatible {a b c : Ty} (plainA : a.isPlain) (plainB : b.isPlain)
    (found : compatible h a b = some c) : a.Widens h c ∧ b.Widens h c := by
  obtain ⟨fills, accepted⟩ := fillsTo_compatible plainB found
  exact ⟨accepted, fills.widens (isPlain_compatible plainA plainB found)⟩

theorem widens_unifyAtoms {a b : String} {c : Ty} (found : unifyAtoms h a b = some c) :
    (Ty.atom a).Widens h c ∧ (Ty.atom b).Widens h c := by
  unfold unifyAtoms at found
  split at found
  · next numbers =>
    cases found
    have toFloat : ∀ {name}, (Ty.atom name).isNumeric → (Ty.atom name).Widens h .float := by
      intro name numeric
      refine Ty.atom_widens_iff.mpr ⟨Ty.floatName, rfl, ?_⟩
      rw [Ty.compatibleAtoms_iff]
      simp only [Ty.isNumeric, Ty.isAtom, Bool.or_eq_true, beq_iff_eq] at numeric
      tauto
    exact (Bool.and_eq_true_iff.mp numbers).imp toFloat toFloat
  split at found
  · next classes =>
    obtain ⟨c, meets, rfl⟩ := Option.map_eq_some_iff.mp found
    obtain ⟨isClass, isClass'⟩ := Bool.and_eq_true_iff.mp classes
    obtain ⟨nearest, -⟩ := Option.filter_eq_some_iff.mp meets
    have above : h.isSubclass a c := decide_eq_true (List.mem_of_find?_eq_some nearest)
    have above' : h.isSubclass b c := List.find?_some (p := fun c => h.isSubclass b c) nearest
    exact ⟨Ty.atom_widens_iff.mpr ⟨c, rfl, .inr (Ty.compatibleAtoms_iff.mpr (.inr ⟨isClass, above⟩))⟩,
      Ty.atom_widens_iff.mpr ⟨c, rfl, .inr (Ty.compatibleAtoms_iff.mpr (.inr ⟨isClass', above'⟩))⟩⟩
  · cases found

/-- A join is above both types. -/
theorem widens_unify {a b c : Ty} (plainA : a.isPlain) (plainB : b.isPlain)
    (found : unify h a b = some c) : a.Widens h c ∧ b.Widens h c := by
  revert plainA plainB
  refine unify_induction
    (P := fun a b c => a.isPlain → b.isPlain → a.Widens h c ∧ b.Widens h c)
    (Q := fun as bs cs => Ty.allPlain as → Ty.allPlain bs →
      List.Forall₂ (Widens h) as cs ∧ List.Forall₂ (Widens h) bs cs)
    ?_ ?_ ?_ ?_ ?_ ?_ ?_ ?_ ?_ ?_ ?_ ?_ ?_ found
  · exact fun t _ _ => ⟨.refl t, .refl t⟩
  · exact fun t _ plain => ⟨(Ty.hole_fillsTo t).widens plain, .refl t⟩
  · exact fun t plain _ => ⟨.refl t, (Ty.hole_fillsTo t).widens plain⟩
  · exact fun a b c _ found _ _ => widens_unifyAtoms found
  · intro a b c ih plainA plainB
    obtain ⟨left, right⟩ := ih plainA plainB
    exact ⟨Ty.list_widens_iff.mpr ⟨c, rfl, left⟩, Ty.list_widens_iff.mpr ⟨c, rfl, right⟩⟩
  · intro a b c ih plainA plainB
    obtain ⟨left, right⟩ := ih plainA plainB
    exact ⟨Ty.set_widens_iff.mpr ⟨c, rfl, left⟩, Ty.set_widens_iff.mpr ⟨c, rfl, right⟩⟩
  · intro a b c n ih plainA plainB
    obtain ⟨left, right⟩ := ih plainA plainB
    exact ⟨Ty.array_widens_iff.mpr ⟨c, rfl, left⟩, Ty.array_widens_iff.mpr ⟨c, rfl, right⟩⟩
  · intro k k' k'' v v' v'' ihKey ihValue plainA plainB
    simp only [Ty.isPlain, Bool.and_eq_true] at plainA plainB
    obtain ⟨leftKey, rightKey⟩ := ihKey plainA.1 plainB.1
    obtain ⟨leftValue, rightValue⟩ := ihValue plainA.2 plainB.2
    exact ⟨Ty.dictionary_widens_iff.mpr ⟨k'', v'', rfl, leftKey, leftValue⟩,
      Ty.dictionary_widens_iff.mpr ⟨k'', v'', rfl, rightKey, rightValue⟩⟩
  · intro as bs cs ih plainA plainB
    obtain ⟨left, right⟩ := ih plainA plainB
    exact ⟨Ty.tuple_widens_iff.mpr ⟨cs, rfl, left⟩, Ty.tuple_widens_iff.mpr ⟨cs, rfl, right⟩⟩
  · exact fun a b c found plainA plainB => widens_of_compatible plainA plainB found
  · exact fun a b c found plainA plainB => (widens_of_compatible plainB plainA found).symm
  · exact fun _ _ => ⟨.nil, .nil⟩
  · intro a b c as bs cs ih ihAll plainA plainB
    simp only [Ty.allPlain, Bool.and_eq_true] at plainA plainB
    obtain ⟨left, right⟩ := ih plainA.1 plainB.1
    obtain ⟨leftAll, rightAll⟩ := ihAll plainA.2 plainB.2
    exact ⟨.cons left leftAll, .cons right rightAll⟩

/-! ## Refinements -/

namespace Translate

theorem widens_store {slot value t : Ty} (plainSlot : slot.isPlain) (plainValue : value.isPlain)
    (kept : store h slot value = some t) : slot.Widens h t := by
  unfold store at kept
  split at kept
  · exact (widens_unify plainSlot plainValue kept).1
  · obtain ⟨_, -, rfl⟩ := Option.map_eq_some_iff.mp kept
    exact .refl slot

theorem widens_storeAt {sequence index value t : Ty} (plain : sequence.isPlain)
    (plainIndex : index.isPlain) (plainValue : value.isPlain)
    (kept : storeAt h sequence index value = .ok t) : sequence.Widens h t := by
  cases storeAt_eq_ok_iff.mp kept with
  | list _ found => exact Ty.list_widens_iff.mpr ⟨_, rfl, widens_store plain plainValue found⟩
  | array n _ found => exact Ty.array_widens_iff.mpr ⟨_, rfl, widens_store plain plainValue found⟩
  | dictionary foundKey found =>
    obtain ⟨plainKey, plainSlot⟩ := Bool.and_eq_true_iff.mp plain
    exact Ty.dictionary_widens_iff.mpr ⟨_, _, rfl,
      widens_store plainKey plainIndex foundKey, widens_store plainSlot plainValue found⟩

/-- The type of a function never changes. -/
theorem Refinement.not_function {old ty : Ty} {evidence : List Ty}
    (refines : Refinement h old evidence ty) (params : List Ty) (ret : Ty) :
    old ≠ .function params ret := by
  rintro rfl
  cases refines with
  | matched found refined =>
    obtain ⟨-, b, -, -, filled⟩ := matchSignature_cases found
    obtain ⟨old, same, -, rfl, differs⟩ := (filled _).mp refined
    cases same
    exact differs (Ty.FillsTo.refl _)
  | stored kept => cases storeAt_eq_ok_iff.mp kept

/-- A receiver widens. -/
theorem Refinement.widens {old t : Ty} {evidence : List Ty} (plain : old.isPlain)
    (plainEvidence : ∀ e ∈ evidence, e.isPlain) (refines : Refinement h old evidence t) :
    old.Widens h t := by
  have plainT := isPlain_refinement plain plainEvidence refines
  cases refines with
  | matched found refined =>
    obtain ⟨-, b, -, -, filled⟩ := matchSignature_cases found
    obtain ⟨old, same, -, rfl, -⟩ := (filled _).mp refined
    cases same
    exact (Ty.fillsTo_fill _ _).widens plainT
  | stored kept =>
    exact widens_storeAt plain (plainEvidence _ (by simp)) (plainEvidence _ (by simp)) kept

end Translate

end TreeTyper
