import TreeTyper.Proofs.Checking
import TreeTyper.Proofs.Joins

/-!
# Storing at an index

A slot that is known throughout has to accept what is stored in it, and stays.  A slot
with a hole at any depth takes the join, and a join moves what is known of it as well:
a tuple of a list of unknown elements and an `Int` has its `Int` turned into a `Float`
by a tuple with a `Float`.  So a store fills holes and does nothing else exactly if the
slots accept what is stored before it, unless some class stands above itself or one
called `Float` below `Int`: there a slot can accept a value and be widened by it.

    store h slot t = some slot' →
      (slot.FillsTo slot' ↔ compatible h t slot = some slot')           (fillsTo_iff_of_store)
-/

namespace TreeTyper

open Ty

variable {h : Hierarchy}

/-! ## Joins that fill -/

/-- A join that leaves what is known of the first type is that type, filled from the second. -/
theorem eq_fill_of_unify {a b c : Ty} (plainA : a.isPlain) (plainB : b.isPlain)
    (found : unify h a b = some c) (fills : a.FillsTo c) : c = a.fill b := by
  revert plainA plainB fills
  refine unify_induction (P := fun a b c => a.isPlain → b.isPlain → a.FillsTo c → c = a.fill b)
    (Q := fun as bs cs => allPlain as → allPlain bs → List.Forall₂ FillsTo as cs →
      as.length = bs.length ∧ cs = fillAll as bs)
    ?_ ?_ ?_ ?_ ?_ ?_ ?_ ?_ ?_ ?_ ?_ ?_ ?_ found
  · exact fun t _ _ _ => (FillsTo.refl t).symm
  · exact fun t _ _ _ => (fill_hole t).symm
  · exact fun t _ _ _ => (fill_hole_right t).symm
  · intro a b c _ _ _ _ fills
    rw [(fillsTo_iff_of_not_hasHoles rfl).mp fills, fill_of_not_hasHoles _ _ rfl]
  · intro a b c ih plainA plainB fills
    obtain ⟨_, same, inner⟩ := list_fillsTo_iff.mp fills
    cases same
    exact congrArg list (ih plainA plainB inner)
  · intro a b c ih plainA plainB fills
    obtain ⟨_, same, inner⟩ := set_fillsTo_iff.mp fills
    cases same
    exact congrArg set (ih plainA plainB inner)
  · intro a b c n ih plainA plainB fills
    obtain ⟨_, same, inner⟩ := array_fillsTo_iff.mp fills
    cases same
    exact congrArg (array · n) (ih plainA plainB inner)
  · intro k k' k'' v v' v'' ihKey ihValue plainA plainB fills
    obtain ⟨_, _, same, keys, values⟩ := dictionary_fillsTo_iff.mp fills
    cases same
    simp only [isPlain, Bool.and_eq_true] at plainA plainB
    exact congrArg₂ dictionary (ihKey plainA.1 plainB.1 keys) (ihValue plainA.2 plainB.2 values)
  · intro as bs cs ih plainA plainB fills
    obtain ⟨_, same, all⟩ := tuple_fillsTo_iff.mp fills
    cases same
    obtain ⟨lengths, filled⟩ := ih plainA plainB all
    rw [fill, if_pos lengths, filled]
  -- the second type takes the first one, so `c` is `b.fill a`: both fill to it, and fills commute
  · intro a b c found _ plainB fills
    rw [compatible_eq_fill plainB found] at fills ⊢
    exact (fill_comm_of_fillsTo fills (fillsTo_fill b a)).1.symm
  · exact fun a b c found plainA _ _ => compatible_eq_fill plainA found
  · exact fun _ _ _ => ⟨rfl, rfl⟩
  · intro a b c as bs cs ih ihAll plainA plainB fills
    obtain ⟨first, rest⟩ := List.forall₂_cons.mp fills
    simp only [allPlain, Bool.and_eq_true] at plainA plainB
    obtain ⟨lengths, filled⟩ := ihAll plainA.2 plainB.2 rest
    exact ⟨congrArg (· + 1) lengths, congrArg₂ List.cons (ih plainA.1 plainB.1 first) filled⟩

/-- A join leaves what is known of the first type exactly if the first type accepts the second. -/
theorem fillsTo_iff_of_unify {a b c : Ty} (plainA : a.isPlain) (plainB : b.isPlain)
    (found : unify h a b = some c) : a.FillsTo c ↔ compatible h b a = some c := by
  constructor
  · intro fills
    exact (compatible_iff_fill plainA).mpr
      ⟨eq_fill_of_unify plainA plainB found fills, (widens_unify plainA plainB found).2⟩
  · exact fun accepted => (fillsTo_compatible plainA accepted).1

section Acyclic

variable (acyclic : Hierarchy.Acyclic h.base?) (directed : ¬float.Widens h int)
include acyclic directed

/-- Two types that accept each other give one type. -/
theorem compatible_comm {a b c e : Ty} (plainA : a.isPlain) (plainB : b.isPlain)
    (found : compatible h a b = some c) (back : compatible h b a = some e) : c = e := by
  obtain ⟨ac, bc⟩ := widens_of_compatible plainA plainB found
  obtain ⟨be, ae⟩ := widens_of_compatible plainB plainA back
  exact Widens.antisymm directed acyclic (belowBounds_compatible found e ae be)
    (belowBounds_compatible back c bc ac)

/-- Two atoms of which the first accepts the second are brought to the first. -/
theorem eq_of_unifyAtoms {a b : String} {c : Ty} (differ : a ≠ b)
    (found : unifyAtoms h a b = some c) (accepted : (atom b).Widens h (atom a)) :
    c = .atom a := by
  have above := (widens_unifyAtoms found).1
  suffices back : c.Widens h (atom a) from Widens.antisymm directed acyclic back above
  unfold unifyAtoms at found
  split at found
  · next numbers =>
    cases found
    obtain ⟨numericA, numericB⟩ := Bool.and_eq_true_iff.mp numbers
    rcases isNumeric_iff.mp numericA with isInt | isFloat
    · rcases isNumeric_iff.mp numericB with isInt' | isFloat'
      · exact absurd (Ty.atom.inj (isInt.trans isInt'.symm)) differ
      · rw [isInt, isFloat'] at accepted
        exact absurd accepted directed
    · rw [isFloat]
      exact .refl _
  split at found
  · next notNumbers classes =>
    obtain ⟨c, meets, rfl⟩ := Option.map_eq_some_iff.mp found
    rcases atom_widens_atom_iff.mp accepted with same | ⟨rfl, rfl⟩ | ⟨-, below⟩
    · exact absurd same.symm differ
    · exact absurd rfl notNumbers
    · have itself : h.isSubclass a a := Hierarchy.isSubclass_iff.mpr .refl
      exact atom_widens_atom_iff.mpr (.inr (.inr ⟨(Option.filter_eq_some_iff.mp meets).2,
        Hierarchy.isSubclass_of_commonAncestor meets itself below⟩))
  · cases found

/-- A join with a type that the first type accepts leaves what is known of the first type. -/
theorem fillsTo_of_accepts {a b c : Ty} (plainA : a.isPlain) (plainB : b.isPlain)
    (found : unify h a b = some c) (accepts : (compatible h b a).isSome) : a.FillsTo c := by
  revert plainA plainB accepts
  refine unify_induction
    (P := fun a b c => a.isPlain → b.isPlain → (compatible h b a).isSome → a.FillsTo c)
    (Q := fun as bs cs => allPlain as → allPlain bs → (compatibleAll h bs as).isSome →
      List.Forall₂ FillsTo as cs)
    ?_ ?_ ?_ ?_ ?_ ?_ ?_ ?_ ?_ ?_ ?_ ?_ ?_ found
  · exact fun t _ _ _ => .refl t
  · exact fun t _ _ _ => hole_fillsTo t
  · exact fun t _ _ _ => .refl t
  -- of two different atoms, the one that takes the other is their join
  · intro a b c differ found _ _ accepts
    obtain ⟨e, accepted⟩ := Option.isSome_iff_exists.mp accepts
    have kept := compatible_eq_fill rfl accepted
    rw [fill_of_not_hasHoles _ _ rfl] at kept
    subst kept
    rw [eq_of_unifyAtoms acyclic directed differ found accepted]
    exact .refl _
  · intro a b c ih plainA plainB accepts
    rw [compatible_list, Option.isSome_map] at accepts
    exact list_fillsTo_iff.mpr ⟨c, rfl, ih plainA plainB accepts⟩
  · intro a b c ih plainA plainB accepts
    rw [compatible_set, Option.isSome_map] at accepts
    exact set_fillsTo_iff.mpr ⟨c, rfl, ih plainA plainB accepts⟩
  · intro a b c n ih plainA plainB accepts
    rw [compatible_array, if_pos rfl, Option.isSome_map] at accepts
    exact array_fillsTo_iff.mpr ⟨c, rfl, ih plainA plainB accepts⟩
  · intro k k' k'' v v' v'' ihKey ihValue plainA plainB accepts
    rw [compatible_dictionary, isSome_bind_map, Bool.and_eq_true] at accepts
    simp only [isPlain, Bool.and_eq_true] at plainA plainB
    exact dictionary_fillsTo_iff.mpr ⟨k'', v'', rfl, ihKey plainA.1 plainB.1 accepts.1,
      ihValue plainA.2 plainB.2 accepts.2⟩
  · intro as bs cs ih plainA plainB accepts
    rw [compatible_tuple, Option.isSome_map] at accepts
    exact tuple_fillsTo_iff.mpr ⟨cs, rfl, ih plainA plainB accepts⟩
  -- each takes the other, and both directions give the same type
  · intro a b c found plainA plainB accepts
    obtain ⟨e, back⟩ := Option.isSome_iff_exists.mp accepts
    rw [compatible_comm acyclic directed plainA plainB found back]
    exact (fillsTo_compatible plainA back).1
  · exact fun a b c found plainA _ _ => (fillsTo_compatible plainA found).1
  · exact fun _ _ _ => .nil
  · intro a b c as bs cs ih ihAll plainA plainB accepts
    rw [compatibleAll_cons, isSome_bind_map, Bool.and_eq_true] at accepts
    simp only [allPlain, Bool.and_eq_true] at plainA plainB
    exact .cons (ih plainA.1 plainB.1 accepts.1) (ihAll plainA.2 plainB.2 accepts.2)

end Acyclic

namespace Translate

/-! ## One slot -/

/-- What a slot is after a value was stored in it: it takes values of that type as they are, and is
what it was if it was known throughout. -/
structure Took (h : Hierarchy) (slot value slot' : Ty) : Prop where
  accepts : value.Widens h slot'
  widens : slot.Widens h slot'
  stays : slot.hasHoles = false → slot' = slot

section Store

variable {slot value slot' : Ty} (plainSlot : slot.isPlain) (plainValue : value.isPlain)
  (kept : store h slot value = some slot')
include plainSlot plainValue kept

theorem took_of_store : Took h slot value slot' where
  accepts := by
    unfold store at kept
    split at kept
    · exact (widens_unify plainSlot plainValue kept).2
    · next full =>
      obtain ⟨t, accepted, rfl⟩ := Option.map_eq_some_iff.mp kept
      have unfilled := compatible_eq_fill plainSlot accepted
      rw [fill_of_not_hasHoles _ _ (Bool.not_eq_true _ ▸ full)] at unfilled
      rwa [unfilled] at accepted
  widens := widens_store plainSlot plainValue kept
  stays full := eq_of_store full kept

/-- A store only fills holes of a slot exactly if it leaves what the slot takes the value for. -/
theorem fillsTo_iff_of_store : slot.FillsTo slot' ↔ compatible h value slot = some slot' := by
  cases holes : slot.hasHoles with
  | true =>
    rw [store, if_pos holes] at kept
    exact fillsTo_iff_of_unify plainSlot plainValue kept
  | false =>
    have took := took_of_store plainSlot plainValue kept
    obtain rfl := took.stays holes
    exact ⟨fun _ => took.accepts, fun _ => .refl _⟩

theorem fillsTo_iff_accepts_of_store (acyclic : Hierarchy.Acyclic h.base?)
    (directed : ¬float.Widens h int) :
    slot.FillsTo slot' ↔ (compatible h value slot).isSome := by
  constructor
  · intro fills
    exact Option.isSome_of_eq_some ((fillsTo_iff_of_store plainSlot plainValue kept).mp fills)
  · intro accepts
    cases holes : slot.hasHoles with
    | true =>
      rw [store, if_pos holes] at kept
      exact fillsTo_of_accepts acyclic directed plainSlot plainValue kept accepts
    | false =>
      rw [eq_of_store holes kept]
      exact .refl _

end Store

/-- A slot takes what it accepts, where no class has the name of a number. -/
theorem exists_store (apart : h.NumbersApart) {slot value : Ty}
    (accepts : (compatible h value slot).isSome) : ∃ slot', store h slot value = some slot' := by
  obtain ⟨t, accepted⟩ := Option.isSome_iff_exists.mp accepts
  rw [← Option.isSome_iff_exists, store]
  split
  · exact (joins_of_compatible apart accepted).2
  · rwa [Option.isSome_map]

/-! ## The slots of a container -/

namespace EachSlot

variable {P R S : Ty → Ty → Ty → Prop} {index value sequence new : Ty}

theorem imp (implies : ∀ slot t slot', R slot t slot' → S slot t slot')
    (each : EachSlot R index value sequence new) : EachSlot S index value sequence new := by
  cases each with
  | list isInt elem => exact .list isInt (implies _ _ _ elem)
  | array n isInt elem => exact .array n isInt (implies _ _ _ elem)
  | dictionary key slot => exact .dictionary (implies _ _ _ key) (implies _ _ _ slot)

theorem and (each : EachSlot R index value sequence new)
    (each' : EachSlot S index value sequence new) :
    EachSlot (fun slot t slot' => R slot t slot' ∧ S slot t slot') index value sequence new := by
  cases each with
  | list isInt elem =>
    cases each' with
    | list _ elem' => exact .list isInt ⟨elem, elem'⟩
  | array n isInt elem =>
    cases each' with
    | array _ _ elem' => exact .array n isInt ⟨elem, elem'⟩
  | dictionary key slot =>
    cases each' with
    | dictionary key' slot' => exact .dictionary ⟨key, key'⟩ ⟨slot, slot'⟩

theorem congr (each : EachSlot P index value sequence new)
    (same : ∀ slot t slot', P slot t slot' → (R slot t slot' ↔ S slot t slot')) :
    EachSlot R index value sequence new ↔ EachSlot S index value sequence new := by
  constructor
  · exact fun first => (each.and first).imp fun _ _ _ both => (same _ _ _ both.1).mp both.2
  · exact fun second => (each.and second).imp fun _ _ _ both => (same _ _ _ both.1).mpr both.2

/-- The slots can be chosen one by one. -/
theorem choose (choice : ∀ slot t slot', R slot t slot' → ∃ slot'', S slot t slot'')
    (each : EachSlot R index value sequence new) :
    ∃ new', EachSlot S index value sequence new' := by
  cases each with
  | list isInt elem =>
    obtain ⟨elem', chosen⟩ := choice _ _ _ elem
    exact ⟨_, .list isInt chosen⟩
  | array n isInt elem =>
    obtain ⟨elem', chosen⟩ := choice _ _ _ elem
    exact ⟨_, .array n isInt chosen⟩
  | dictionary key slot =>
    obtain ⟨key', chosenKey⟩ := choice _ _ _ key
    obtain ⟨slot', chosenSlot⟩ := choice _ _ _ slot
    exact ⟨_, .dictionary chosenKey chosenSlot⟩

/-- A container has holes filled exactly if its slots have. -/
theorem fillsTo_iff (each : EachSlot R index value sequence new) : sequence.FillsTo new ↔
    EachSlot (fun slot _ slot' => slot.FillsTo slot') index value sequence new := by
  constructor
  · intro fills
    cases each with
    | list isInt =>
      obtain ⟨_, same, inner⟩ := list_fillsTo_iff.mp fills
      cases same
      exact .list isInt inner
    | array n isInt =>
      obtain ⟨_, same, inner⟩ := array_fillsTo_iff.mp fills
      cases same
      exact .array n isInt inner
    | dictionary =>
      obtain ⟨_, _, same, keys, values⟩ := dictionary_fillsTo_iff.mp fills
      cases same
      exact .dictionary keys values
  · intro fills
    cases fills with
    | list _ inner => exact list_fillsTo_iff.mpr ⟨_, rfl, inner⟩
    | array n _ inner => exact array_fillsTo_iff.mpr ⟨_, rfl, inner⟩
    | dictionary keys values => exact dictionary_fillsTo_iff.mpr ⟨_, _, rfl, keys, values⟩

end EachSlot

theorem eachSlot_storeAt {sequence index value new : Ty} (plain : sequence.isPlain)
    (plainIndex : index.isPlain) (plainValue : value.isPlain)
    (kept : storeAt h sequence index value = .ok new) :
    EachSlot (fun slot t slot' => slot.isPlain ∧ t.isPlain ∧ store h slot t = some slot')
      index value sequence new := by
  cases storeAt_eq_ok_iff.mp kept with
  | list isInt found => exact .list isInt ⟨plain, plainValue, found⟩
  | array n isInt found => exact .array n isInt ⟨plain, plainValue, found⟩
  | dictionary foundKey found =>
    obtain ⟨plainKey, plainSlot⟩ := Bool.and_eq_true_iff.mp plain
    exact .dictionary ⟨plainKey, plainIndex, foundKey⟩ ⟨plainSlot, plainValue, found⟩

/-! ## Top theorem -/

/-- After a store the slots take what was stored as it is, and a slot that was known throughout is
what it was.  Nothing but holes changed exactly if every slot accepted before the store what was
stored in it; so nothing else changes where no slot was known in part.  Where no class has the name
of a number, a store that every slot accepts succeeds. -/
theorem storing_fills {sequence index value : Ty} (plain : sequence.isPlain)
    (plainIndex : index.isPlain) (plainValue : value.isPlain) :
    (∀ new, storeAt h sequence index value = .ok new →
      EachSlot (Took h) index value sequence new ∧
      (EachSlot (fun slot _ _ => slot = hole ∨ slot.hasHoles = false) index value sequence new →
        sequence.FillsTo new) ∧
      (sequence.FillsTo new ↔
        EachSlot (fun slot t slot' => compatible h t slot = some slot') index value sequence new) ∧
      (Hierarchy.Acyclic h.base? → ¬float.Widens h int → (sequence.FillsTo new ↔
        EachSlot (fun slot t _ => (compatible h t slot).isSome) index value sequence new))) ∧
    (h.NumbersApart →
      EachSlot (fun slot t _ => (compatible h t slot).isSome) index value sequence sequence →
      ∃ new, storeAt h sequence index value = .ok new) := by
  refine ⟨fun new kept => ?_, fun apart accepted => ?_⟩
  · have stored := eachSlot_storeAt plain plainIndex plainValue kept
    have took : EachSlot (Took h) index value sequence new :=
      stored.imp fun _ _ _ ⟨plainSlot, plainValue, kept⟩ => took_of_store plainSlot plainValue kept
    refine ⟨took, fun whole => ?_, ?_, fun acyclic directed => ?_⟩
    · refine took.fillsTo_iff.mpr ((took.and whole).imp ?_)
      rintro slot _ slot' ⟨took, rfl | full⟩
      · exact hole_fillsTo slot'
      · rw [took.stays full]
        exact .refl slot
    · rw [stored.fillsTo_iff]
      exact stored.congr fun _ _ _ ⟨plainSlot, plainValue, kept⟩ =>
        fillsTo_iff_of_store plainSlot plainValue kept
    · rw [stored.fillsTo_iff]
      exact stored.congr fun _ _ _ ⟨plainSlot, plainValue, kept⟩ =>
        fillsTo_iff_accepts_of_store plainSlot plainValue kept acyclic directed
  · obtain ⟨new, stored⟩ := accepted.choose fun _ _ _ accepts => exists_store apart accepts
    exact ⟨new, storeAt_eq_ok_iff.mpr stored⟩

/-- A table of figures of which the names and the notes are not known yet. -/
def figures : Ty := dictionary hole (tuple [list hole, float, atom "Shape"])

/-- The table after a square of an `Int` was stored, under a `String` and with notes. -/
def noted : Ty := dictionary string (tuple [list string, float, atom "Shape"])

/-- The table takes the square, and is only filled. -/
theorem storing_fills_shapes :
    storeAt shapes figures string (tuple [list string, int, atom "Square"]) = .ok noted ∧
    figures.FillsTo noted := by
  have computed :
      storeAt shapes figures string (tuple [list string, int, atom "Square"]) = .ok noted := by
    decide +kernel
  have plain : figures.isPlain ∧ (tuple [list string, int, atom "Square"]).isPlain := by
    decide
  have apart : shapes.NumbersApart := shapes_declaredOnce.numbersApart (by decide) (by decide)
  obtain ⟨after, succeeds⟩ := @storing_fills shapes _ string _ plain.1 rfl plain.2
  obtain ⟨new, kept⟩ := succeeds apart (.dictionary (by decide) (by decide +kernel))
  obtain ⟨-, -, -, fills⟩ := after new kept
  obtain rfl : new = noted := Except.ok.inj (kept.symm.trans computed)
  refine ⟨computed, (fills shapes_declaredOnce.acyclic (not_float_widens_int apart)).mpr ?_⟩
  exact .dictionary (by decide) (by decide +kernel)

/-- `Int` with `Float` below it, as classes. -/
def floatBelowInt : Hierarchy :=
  let declared := do
    let h ← Hierarchy.empty.declareClass "Int" none
    h.declareClass "Float" (some "Int")
  declared.getD .empty

theorem floatBelowInt_declaredOnce : floatBelowInt.DeclaredOnce := by
  have number := @Hierarchy.DeclaredOnce.declareClass .empty _ "Int" none .empty (by decide) rfl
  exact @Hierarchy.DeclaredOnce.declareClass _ _ "Float" (some "Int") number (by decide) rfl

/-- A tuple with a hole does not take a `Float` for its `Int`, and still becomes a tuple with a
`Float`.  It does so even where a `Float` is a class below `Int` and the tuple takes it. -/
theorem storing_widens :
    (Hierarchy.Acyclic Hierarchy.empty.base? ∧
      compatible .empty (tuple [list int, float]) (tuple [list hole, int]) = none ∧
      storeAt .empty (list (tuple [list hole, int])) int (tuple [list int, float]) =
        .ok (list (tuple [list int, float]))) ∧
    (Hierarchy.Acyclic floatBelowInt.base? ∧
      compatible floatBelowInt (tuple [list int, float]) (tuple [list hole, int]) =
        some (tuple [list int, int]) ∧
      storeAt floatBelowInt (list (tuple [list hole, int])) int (tuple [list int, float]) =
        .ok (list (tuple [list int, float]))) ∧
    ¬(list (tuple [list hole, int])).FillsTo (list (tuple [list int, float])) := by
  refine ⟨⟨Hierarchy.DeclaredOnce.empty.acyclic, ?_, ?_⟩,
    ⟨floatBelowInt_declaredOnce.acyclic, ?_, ?_⟩, ?_⟩
  · decide +kernel
  · decide +kernel
  · decide +kernel
  · decide +kernel
  · decide

end Translate

end TreeTyper
