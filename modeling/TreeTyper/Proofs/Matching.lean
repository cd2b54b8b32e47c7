import TreeTyper.Proofs.Law.Basic

/-!
# What a match finds

A receiver is refined by a method when the arguments filled holes of its type,
and by a value that is stored when its slots take the join.
-/

namespace TreeTyper

variable {h : Hierarchy}

/-- The bindings that a match starts with. -/
def Bindings.start (receiver : Option Ty) : Bindings :=
  (receiver.map Bindings.ofReceiver).getD Bindings.empty

theorem matchSignature_cases {signature : ApiSignature} {name : String} {receiver : Option Ty}
    {args : List Ty} {found : SignatureMatch}
    (matched : matchSignature h signature name receiver args = .ok found) :
    args.length = (signature.params.forCount args.length).length ∧
    ∃ b, matchArguments h name (.start receiver) 0 (signature.params.forCount args.length) args =
        .ok b ∧
      found.ret = signature.ret.substitute b ∧
      ∀ ty, found.refined = some ty ↔ ∃ old, receiver = some old ∧ old.hasHoles ∧
        ty = old.fill (b.receiverShape old) ∧ ty ≠ old := by
  unfold matchSignature at matched
  extract_lets params start result at matched
  split at matched
  · cases matched
  next lengths =>
  dsimp only [result] at matched
  cases run : matchArguments h name start 0 params args with
  | error cause =>
    rw [run] at matched
    cases matched
  | ok b =>
    rw [run] at matched
    cases matched
    -- what remains is the receiver: refined if it has holes and filling them changes it
    refine ⟨Decidable.not_not.mp lengths, b, run, rfl, fun ty => ?_⟩
    rw [Option.bind_eq_some_iff]
    refine exists_congr fun old => and_congr_right fun _ => ?_
    split
    · next filled =>
      rw [Option.some.injEq, eq_comm]
      exact ⟨fun same => ⟨filled.1, same, same ▸ filled.2⟩, fun all => all.2.1⟩
    · next unfilled =>
      simp only [reduceCtorEq, false_iff]
      rintro ⟨holes, rfl, differs⟩
      exact unfilled ⟨holes, differs⟩

namespace Translate

/-- A slot that is known throughout stays. -/
theorem eq_of_store {slot value t : Ty} (full : slot.hasHoles = false)
    (kept : store h slot value = some t) : t = slot := by
  rw [store, if_neg (by simp [full])] at kept
  obtain ⟨_, -, rfl⟩ := Option.map_eq_some_iff.mp kept
  rfl

/-- A container before and after a value is stored at an index: what `R` says of each slot, of what
is stored in it and of the slot after that.  The index of a list or an array is an `Int`, that of a
dictionary is stored as a key. -/
inductive EachSlot (R : Ty → Ty → Ty → Prop) (index value : Ty) : Ty → Ty → Prop
  | list {elem elem' : Ty} : index = .int → R elem value elem' →
      EachSlot R index value (.list elem) (.list elem')
  | array {elem elem' : Ty} (n : Nat) : index = .int → R elem value elem' →
      EachSlot R index value (.array elem n) (.array elem' n)
  | dictionary {key key' slot slot' : Ty} : R key index key' → R slot value slot' →
      EachSlot R index value (.dictionary key slot) (.dictionary key' slot')

/-- Storing is storing in each slot of a container. -/
theorem storeAt_eq_ok_iff {sequence index value t : Ty} : storeAt h sequence index value = .ok t ↔
    EachSlot (fun slot taken slot' => store h slot taken = some slot') index value sequence t := by
  unfold storeAt
  extract_lets stored
  -- each form stores into one slot, and puts the result back in its place
  have slot : ∀ {old t : Ty} {f : Ty → Ty}, (stored old).map f = .ok t ↔
      ∃ new, store h old value = some new ∧ f new = t := by
    intro old t f
    dsimp only [stored]
    cases store h old value <;> simp [Except.map]
  constructor
  · intro kept
    split at kept
    · split at kept
      · cases kept
      · next isInt =>
        obtain ⟨new, found, rfl⟩ := slot.mp kept
        exact .list (Ty.isAtom_iff.mp (by simpa using isInt)) found
    · split at kept
      · cases kept
      · next isInt =>
        obtain ⟨new, found, rfl⟩ := slot.mp kept
        exact .array _ (Ty.isAtom_iff.mp (by simpa using isInt)) found
    · split at kept
      · cases kept
      · next key' foundKey =>
        obtain ⟨new, found, rfl⟩ := slot.mp kept
        exact .dictionary foundKey found
    · cases kept
    · split at kept
      · cases kept
      · cases kept
  · intro each
    cases each with
    | list isInt found =>
      dsimp only
      rw [isInt]
      exact slot.mpr ⟨_, found, rfl⟩
    | array n isInt found =>
      dsimp only
      rw [isInt]
      exact slot.mpr ⟨_, found, rfl⟩
    | dictionary foundKey found =>
      dsimp only
      rw [foundKey]
      exact slot.mpr ⟨_, found, rfl⟩

/-- The type of an atom never changes. -/
theorem Refinement.not_atom {old ty : Ty} {evidence : List Ty}
    (refines : Refinement h old evidence ty) (name : String) : old ≠ .atom name := by
  rintro rfl
  cases refines with
  | matched found refined =>
    obtain ⟨-, b, -, -, filled⟩ := matchSignature_cases found
    obtain ⟨old, same, holes, -, -⟩ := (filled _).mp refined
    cases same
    cases holes
  | stored kept => cases storeAt_eq_ok_iff.mp kept

end Translate

end TreeTyper
