import TreeTyper.Proofs.Widening

/-!
# Attributes widen

The attributes of a class keep their places: new ones come last, and a new type of
an attribute goes to its first entry.  An attribute that a class sees stays that
of its owner, since a class takes a new attribute only if it sees none of the name.

    h.attribute? c name = some (owner, a) →
      ∃ a', (h.registerAttribute …).attribute? c name = some (owner, a')       (owner_register)
-/

namespace TreeTyper

/-- An attribute keeps its name and what is public; its type widens. -/
structure Attribute.Widens (h : Hierarchy) (old new : Attribute) : Prop where
  name : new.name = old.name
  type : old.ty.Widens h new.ty
  isPublic : old.isPublic → new.isPublic

/-- The attributes of a class widen in their places, and new ones come last. -/
def AttributesWiden (h : Hierarchy) (old new : List Attribute) : Prop :=
  ∃ kept more, new = kept ++ more ∧ List.Forall₂ (Attribute.Widens h) old kept

variable {h : Hierarchy} {old new : List Attribute} {name : String} {a : Attribute} {ty : Ty}
  {isPublic : Bool}

theorem Attribute.Widens.refl (a : Attribute) : a.Widens h a := ⟨rfl, .refl _, id⟩

namespace AttributesWiden

theorem refl (as : List Attribute) : AttributesWiden h as as :=
  ⟨as, [], by simp, List.forall₂_same.mpr fun a _ => .refl a⟩

theorem append (widen : AttributesWiden h old new) (more : List Attribute) :
    AttributesWiden h old (new ++ more) := by
  obtain ⟨kept, more', rfl, widens⟩ := widen
  exact ⟨kept, more' ++ more, by simp, widens⟩

/-- The first entry of a name widens. -/
theorem find? (widen : AttributesWiden h old new) (found : old.find? (·.name == name) = some a) :
    ∃ b, new.find? (·.name == name) = some b ∧ a.Widens h b := by
  obtain ⟨kept, more, rfl, widens⟩ := widen
  induction widens with
  | nil => cases found
  | @cons first first' rest rest' widens _ ih =>
    rw [List.cons_append, List.find?_cons] at *
    rw [widens.name]
    cases same : first.name == name with
    | true =>
      rw [same] at found
      cases found
      exact ⟨first', rfl, widens⟩
    | false =>
      rw [same] at found
      exact ih found

/-- The first entry of a name takes a type to which it widens. -/
theorem updateIn (widen : AttributesWiden h old new)
    (widens : ∀ a, old.find? (·.name == name) = some a → a.ty.Widens h ty) :
    AttributesWiden h old (Hierarchy.updateIn name ty isPublic new) := by
  obtain ⟨kept, more, rfl, all⟩ := widen
  induction all with
  | nil => exact ⟨[], _, rfl, .nil⟩
  | @cons first first' rest rest' one _ ih =>
    rw [List.cons_append, Hierarchy.updateIn, one.name]
    rw [List.find?_cons] at widens
    by_cases same : first.name = name
    · rw [if_pos same]
      rw [beq_iff_eq.mpr same] at widens
      refine ⟨_ :: rest', more, rfl, .cons ⟨rfl, widens first rfl, fun isPublic => ?_⟩ ‹_›⟩
      exact Bool.or_eq_true_iff.mpr (.inl (one.isPublic isPublic))
    · rw [if_neg same]
      rw [beq_eq_false_iff_ne.mpr same] at widens
      obtain ⟨kept, more', split, widens⟩ := ih widens
      exact ⟨first' :: kept, more', by rw [split]; rfl, .cons one widens⟩

end AttributesWiden

namespace Hierarchy

/-! ## The attributes of a class -/

theorem ownAttributes_updateAttribute (h : Hierarchy) (owner name : String) (ty : Ty)
    (makePublic : Bool) (c : String) :
    (h.updateAttribute owner name ty makePublic).ownAttributes c =
      if c = owner then updateIn name ty makePublic (h.ownAttributes c) else h.ownAttributes c := by
  unfold updateAttribute ownAttributes
  dsimp only
  rw [Table.find?_modify]
  split
  · next same =>
    rw [same]
    cases h.classes.find? owner <;> rfl
  · rfl

/-- A class gets a new attribute last, and no other class changes. -/
theorem ownAttributes_register_cases (h : Hierarchy) (className : String) (entry : Attribute)
    (c : String) :
    (h.registerAttribute className entry).ownAttributes c = h.ownAttributes c ∨
      c = className ∧
        (h.registerAttribute className entry).ownAttributes c = h.ownAttributes c ++ [entry] := by
  unfold registerAttribute ownAttributes
  dsimp only
  rw [Table.find?_modify]
  split
  · next same =>
    rw [same]
    cases h.classes.find? className with
    | none => exact .inl rfl
    | some info => exact .inr ⟨rfl, rfl⟩
  · exact .inl rfl

theorem ownAttributes_registerAttribute (h : Hierarchy) (className : String) (entry : Attribute)
    (c : String) :
    ∃ more, (h.registerAttribute className entry).ownAttributes c = h.ownAttributes c ++ more ∧
      ∀ a ∈ more, a = entry ∧ c = className := by
  rcases ownAttributes_register_cases h className entry c with same | ⟨here, grown⟩
  · exact ⟨[], by simp [same], by simp⟩
  · exact ⟨[entry], grown, by simp [here]⟩

/-! ## Owners -/

/-- A class has an attribute of a name of its own. -/
def owns (h : Hierarchy) (c name : String) : Bool :=
  ((h.ownAttributes c).find? (·.name == name)).isSome

theorem attribute?_eq_some_iff {c name owner : String} {a : Attribute} :
    h.attribute? c name = some (owner, a) ↔
      (∃ before after, h.ancestors c = before ++ owner :: after ∧
        ∀ other ∈ before, ¬h.owns other name) ∧
      (h.ownAttributes owner).find? (·.name == name) = some a := by
  unfold attribute? owns
  rw [List.findSome?_eq_some_iff]
  constructor
  · rintro ⟨before, owner', after, split, found, none⟩
    obtain ⟨a', found, same⟩ := Option.map_eq_some_iff.mp found
    cases same
    exact ⟨⟨before, after, split, fun other hother => by simpa using none other hother⟩, found⟩
  · rintro ⟨⟨before, after, split, none⟩, found⟩
    exact ⟨before, owner, after, split, by rw [found]; rfl, fun other hother => by
      simpa using none other hother⟩

theorem isSome_find?_updateIn (name : String) (ty : Ty) (makePublic : Bool) (as : List Attribute)
    (other : String) : ((updateIn name ty makePublic as).find? (·.name == other)).isSome =
      (as.find? (·.name == other)).isSome := by
  induction as with
  | nil => rfl
  | cons first rest ih =>
    rw [updateIn]
    split
    · rw [List.find?_cons, List.find?_cons]
      cases first.name == other <;> rfl
    · rw [List.find?_cons, List.find?_cons]
      cases first.name == other with
      | true => rfl
      | false => exact ih

theorem owns_updateAttribute (h : Hierarchy) (owner name : String) (ty : Ty) (makePublic : Bool)
    (c other : String) : (h.updateAttribute owner name ty makePublic).owns c other =
      h.owns c other := by
  rw [owns, owns, ownAttributes_updateAttribute]
  split
  · exact isSome_find?_updateIn ..
  · rfl

variable {c className owner other : String}

/-- A new type of an attribute changes no owner. -/
theorem owner_update (found : h.attribute? c other = some (owner, a)) (owner' name : String)
    (ty : Ty) (makePublic : Bool) :
    ∃ a', (h.updateAttribute owner' name ty makePublic).attribute? c other = some (owner, a') := by
  obtain ⟨⟨before, after, split, none⟩, found⟩ := attribute?_eq_some_iff.mp found
  have same := (SameShape.updateAttribute h owner' name ty makePublic).ancestors_eq c
  have owns : (h.updateAttribute owner' name ty makePublic).owns owner other := by
    rw [owns_updateAttribute, Hierarchy.owns, found]
    rfl
  obtain ⟨a', found'⟩ := Option.isSome_iff_exists.mp owns
  refine ⟨a', attribute?_eq_some_iff.mpr ⟨⟨before, after, same.trans split, fun x hx => ?_⟩, found'⟩⟩
  rw [owns_updateAttribute]
  exact none x hx

/-- A class that sees no attribute of a name can get one, and nobody who sees one loses it. -/
theorem owner_register {entry : Attribute}
    (missing : h.attribute? className entry.name = none)
    (found : h.attribute? c other = some (owner, a)) :
    ∃ a', (h.registerAttribute className entry).attribute? c other = some (owner, a') := by
  obtain ⟨⟨before, after, split, none⟩, found⟩ := attribute?_eq_some_iff.mp found
  have same := (SameShape.registerAttribute h className entry).ancestors_eq c
  refine ⟨a, attribute?_eq_some_iff.mpr ⟨⟨before, after, same.trans split, fun x hx owned => ?_⟩, ?_⟩⟩
  · obtain ⟨more, grown, isNew⟩ := ownAttributes_registerAttribute h className entry x
    rw [owns, grown, List.find?_append, Option.isSome_or, Bool.or_eq_true] at owned
    refine owned.elim (none x hx) fun owned => ?_
    obtain ⟨b, taken⟩ := Option.isSome_iff_exists.mp owned
    obtain ⟨rfl, rfl⟩ := isNew b (List.mem_of_find?_eq_some taken)
    have named : b.name = other := by simpa using List.find?_some taken
    -- the class comes before the owner, so it sees the attribute too
    obtain ⟨before₁, before₂, rfl⟩ := List.append_of_mem hx
    rw [List.append_assoc, List.cons_append] at split
    have seen : owner ∈ h.ancestors x := by
      refine mem_ancestors_iff.mpr (leads_of_chain_eq split ?_)
      simp
    rw [attribute?, List.findSome?_eq_none_iff] at missing
    have absent := missing owner seen
    rw [named, found] at absent
    cases absent
  · obtain ⟨more, grown, -⟩ := ownAttributes_registerAttribute h className entry owner
    rw [grown, List.find?_append, found]
    rfl

end Hierarchy

end TreeTyper
