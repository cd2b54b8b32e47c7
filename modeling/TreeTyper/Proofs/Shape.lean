import TreeTyper.Typing.Compatible

/-!
# The shape of a hierarchy

The bases, subclasses and methods of the classes are fixed before the first
statement is translated; what changes after that are the attributes.  Two
hierarchies of one shape have the same ancestors, so the same types are
compatible and join to the same type.

    SameShape h h' → compatible h' a b = compatible h a b        (SameShape.compatible_eq)
    SameShape h h' → unify h' a b = unify h a b                  (SameShape.unify_eq)
-/

namespace TreeTyper

/-- A class without its attributes. -/
def ClassInfo.shape (c : ClassInfo) : ClassInfo := { c with attributes := [] }

namespace Hierarchy

/-- Hierarchies that differ in attributes at most. -/
structure SameShape (h h' : Hierarchy) : Prop where
  classes : ∀ c, (h'.classes.find? c).map ClassInfo.shape = (h.classes.find? c).map ClassInfo.shape
  size : h'.classes.size = h.classes.size
  exceptions : h'.exceptions = h.exceptions

namespace SameShape

theorem refl (h : Hierarchy) : SameShape h h := ⟨fun _ => rfl, rfl, rfl⟩

variable {h h' h'' : Hierarchy}

theorem trans (a : SameShape h h') (b : SameShape h' h'') : SameShape h h'' :=
  ⟨fun c => (b.classes c).trans (a.classes c), b.size.trans a.size,
    b.exceptions.trans a.exceptions⟩

theorem symm (same : SameShape h h') : SameShape h' h :=
  ⟨fun c => (same.classes c).symm, same.size.symm, same.exceptions.symm⟩

/-- A change of one class that keeps all but its attributes keeps the shape. -/
theorem modify (h : Hierarchy) (c : String) {f : ClassInfo → ClassInfo}
    (keeps : ∀ info, (f info).shape = info.shape) :
    SameShape h { h with classes := h.classes.modify c f } := by
  refine ⟨fun d => ?_, Table.size_modify .., rfl⟩
  rw [Table.find?_modify]
  split
  · next same =>
    rw [same, Option.map_map]
    congr 1
    exact funext keeps
  · rfl

theorem updateAttribute (h : Hierarchy) (owner name : String) (ty : Ty) (makePublic : Bool) :
    SameShape h (h.updateAttribute owner name ty makePublic) :=
  modify h owner fun _ => rfl

theorem registerAttribute (h : Hierarchy) (className : String) (entry : Attribute) :
    SameShape h (h.registerAttribute className entry) :=
  modify h className fun _ => rfl

/-! ## What the shape determines -/

variable (same : SameShape h h')

include same

theorem view {α : Type} {f : ClassInfo → α} (keeps : ∀ info, f info.shape = f info)
    (c : String) : (h'.classes.find? c).map f = (h.classes.find? c).map f := by
  have factors : f = f ∘ ClassInfo.shape := funext fun info => (keeps info).symm
  rw [factors, ← Option.map_map, ← Option.map_map, same.classes c]

theorem view_bind {α : Type} {f : ClassInfo → Option α} (keeps : ∀ info, f info.shape = f info)
    (c : String) : (h'.classes.find? c).bind f = (h.classes.find? c).bind f := by
  have factors : ∀ o : Option ClassInfo, o.bind f = (o.map f).bind id := fun o => by
    rw [Option.bind_map]
    rfl
  rw [factors, factors, same.view keeps c]

theorem isClass_eq (c : String) : h'.isClass c = h.isClass c := by
  have mapped := congrArg Option.isSome (same.classes c)
  rwa [Option.isSome_map, Option.isSome_map] at mapped

theorem isException_eq (c : String) : h'.isException c = h.isException c := by
  rw [isException, isException, isCustomException, isCustomException, same.exceptions]

theorem base?_eq : h'.base? = h.base? :=
  funext fun c => same.view_bind (fun _ => rfl) c

theorem method?_eq (c name : String) : h'.method? c name = h.method? c name :=
  same.view_bind (fun _ => rfl) c

theorem methods_eq (c : String) : h'.methods c = h.methods c := by
  simp only [methods]
  rw [same.view fun _ => rfl]

theorem ownMethods_eq (c : String) : h'.ownMethods c = h.ownMethods c := by
  simp only [ownMethods]
  rw [same.view fun _ => rfl]

theorem ancestors_eq (c : String) : h'.ancestors c = h.ancestors c := by
  rw [ancestors, ancestors, same.base?_eq, same.size]

theorem isSubclass_eq (a b : String) : h'.isSubclass a b = h.isSubclass a b := by
  rw [isSubclass, isSubclass, same.ancestors_eq]

theorem commonAncestor_eq (a b : String) : h'.commonAncestor a b = h.commonAncestor a b := by
  have isClass : h'.isClass = h.isClass := funext same.isClass_eq
  simp only [commonAncestor, same.ancestors_eq, same.isSubclass_eq, isClass]

theorem compatibleAtoms_eq (a b : String) : compatibleAtoms h' a b = compatibleAtoms h a b := by
  simp only [compatibleAtoms, same.isClass_eq, same.isSubclass_eq]

theorem unifyAtoms_eq (a b : String) : unifyAtoms h' a b = unifyAtoms h a b := by
  simp only [unifyAtoms, same.isClass_eq, same.commonAncestor_eq]

theorem compatible_eq (a b : Ty) : compatible h' a b = compatible h a b := by
  refine compatible.induct (fun a b => compatible h' a b = compatible h a b)
    (fun as bs => compatibleAll h' as bs = compatibleAll h as bs)
    ?_ ?_ ?_ ?_ ?_ ?_ ?_ ?_ ?_ ?_ ?_ ?_ ?_ ?_ ?_ ?_ ?_ ?_ a b
  all_goals
    intros
    simp_all [compatible, compatibleAll, same.compatibleAtoms_eq]

theorem unify_eq (a b : Ty) : unify h' a b = unify h a b := by
  refine unify.induct (fun a b => unify h' a b = unify h a b)
    (fun as bs => unifyAll h' as bs = unifyAll h as bs)
    ?_ ?_ ?_ ?_ ?_ ?_ ?_ ?_ ?_ ?_ ?_ ?_ ?_ ?_ ?_ a b
  all_goals
    intros
    simp_all [unify, unifyAll, same.unifyAtoms_eq, same.compatible_eq]

end SameShape

end Hierarchy

end TreeTyper
