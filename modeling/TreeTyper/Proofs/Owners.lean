import TreeTyper.Api.Standard
import TreeTyper.Proofs.Attributes
import TreeTyper.Proofs.Reachable
import TreeTyper.Tree.Build

/-!
# Owners of attributes

A class takes an attribute of its own only while it sees none of that name.  So the
classes of a chain take one from below upward: whoever takes it later stands above
all that took it before, and what a class sees stays with its owner.  A class does
not look below itself, and there the chain can have an owner already.

    Later api o s s' → s.hierarchy.owners c name <+: s'.hierarchy.owners c name
-/

namespace TreeTyper

namespace Hierarchy

/-! ## Owners along a chain -/

/-- The classes from `c` upward that have an attribute of a name of their own, the nearest first. -/
def owners (h : Hierarchy) (c name : String) : List String := (h.ancestors c).filter (h.owns · name)

/-- No class has two attributes of one name. -/
def AttributesDistinct (h : Hierarchy) : Prop := ∀ c, ((h.ownAttributes c).map (·.name)).Nodup

variable {h h' h'' : Hierarchy} {c b name top : String}

theorem owns_iff_mem : h.owns c name ↔ name ∈ (h.ownAttributes c).map (·.name) := by
  unfold owns
  simp

theorem attribute?_eq_none_iff :
    h.attribute? c name = none ↔ ∀ up ∈ h.ancestors c, h.owns up name = false := by
  unfold attribute? owns
  simp

theorem mem_owners_iff : b ∈ h.owners c name ↔ b ∈ h.ancestors c ∧ h.owns b name := List.mem_filter

/-- A class sees the attribute of the nearest owner. -/
theorem map_attribute? (h : Hierarchy) (c name : String) :
    (h.attribute? c name).map (·.1) = (h.owners c name).head? := by
  unfold attribute? owners owns
  rw [List.head?_filter]
  induction h.ancestors c with
  | nil => rfl
  | cons first rest ih =>
    rw [List.findSome?_cons, List.find?_cons]
    cases (h.ownAttributes first).find? (·.name == name) with
    | none => exact ih
    | some a => rfl

/-- If a chain has one owner, the classes up to it see its entry. -/
theorem attribute?_of_single {a : Attribute} (single : h.owners c name = [top])
    (held : (h.ownAttributes top).find? (·.name == name) = some a) (below : b ∈ h.ancestors c)
    (sees : top ∈ h.ancestors b) : h.attribute? b name = some (top, a) := by
  have owned : h.owns top name := (mem_owners_iff.mp (single ▸ List.mem_singleton_self top)).2
  have nearest := map_attribute? h b name
  have known : top ∈ h.owners b name := mem_owners_iff.mpr ⟨sees, owned⟩
  obtain ⟨owner, others, split⟩ := List.exists_cons_of_ne_nil (List.ne_nil_of_mem known)
  rw [split, List.head?_cons] at nearest
  obtain ⟨⟨owner', a'⟩, found, rfl⟩ := Option.map_eq_some_iff.mp nearest
  obtain ⟨onChain, owns⟩ := mem_owners_iff.mp (split ▸ List.mem_cons_self)
  have alone : owner' ∈ h.owners c name := mem_owners_iff.mpr
    ⟨mem_ancestors_iff.mpr ((mem_ancestors_iff.mp below).trans (mem_ancestors_iff.mp onChain)), owns⟩
  rw [single, List.mem_singleton] at alone
  subst alone
  rw [(attribute?_eq_some_iff.mp found).2] at held
  cases held
  exact found

/-- Where names are distinct, the first entry of a name is the only one. -/
theorem filter_of_distinct {as : List Attribute} {a : Attribute}
    (distinct : (as.map (·.name)).Nodup) (found : as.find? (·.name == name) = some a) :
    as.filter (·.name == name) = [a] := by
  induction as with
  | nil => cases found
  | cons first rest ih =>
    obtain ⟨apart, distinct⟩ := List.nodup_cons.mp distinct
    rw [List.find?_cons] at found
    rw [List.filter_cons]
    cases same : first.name == name with
    | true =>
      rw [same] at found
      cases found
      have others : ∀ b ∈ rest, ¬(b.name == name) = true := fun b hb named =>
        apart (List.mem_map.mpr ⟨b, hb, (beq_iff_eq.mp named).trans (beq_iff_eq.mp same).symm⟩)
      rw [if_pos rfl, List.filter_eq_nil_iff.mpr others]
    | false =>
      rw [same] at found
      exact ih distinct found

/-! ## Growth -/

/-- Classes take attributes from below upward, and each of them once. -/
structure OwnersGrow (h h' : Hierarchy) : Prop where
  shape : h.SameShape h'
  order : ∀ c name, h.owners c name <+: h'.owners c name
  distinct : h.AttributesDistinct → h'.AttributesDistinct

namespace OwnersGrow

theorem refl (h : Hierarchy) : OwnersGrow h h := ⟨.refl h, fun _ _ => List.prefix_refl _, id⟩

theorem trans (a : OwnersGrow h h') (b : OwnersGrow h' h'') : OwnersGrow h h'' :=
  ⟨a.shape.trans b.shape, fun c name => (a.order c name).trans (b.order c name),
    b.distinct ∘ a.distinct⟩

theorem of_eq (same : h' = h) : OwnersGrow h h' := same ▸ .refl h

/-- If one class of a chain has taken an attribute, it stays the only one exactly as long as no
class above it takes one too. -/
theorem single_iff (grow : OwnersGrow h h') (single : h.owners c name = [top]) :
    h'.owners c name = [top] ↔
      ∀ up ∈ h.ancestors top, up ≠ top → h'.owns up name = false := by
  obtain ⟨onChain, owned⟩ := mem_owners_iff.mp (single ▸ List.mem_singleton_self top)
  have ancestors := grow.shape.ancestors_eq c
  constructor
  · intro still up above differs
    by_contra takes
    have known : up ∈ h'.owners c name := by
      refine mem_owners_iff.mpr ⟨?_, by simpa using takes⟩
      rw [ancestors]
      exact mem_ancestors_iff.mpr ((mem_ancestors_iff.mp onChain).trans (mem_ancestors_iff.mp above))
    rw [still, List.mem_singleton] at known
    exact differs known
  · intro free
    obtain ⟨more, grown⟩ := grow.order c name
    rw [single, List.singleton_append] at grown
    rw [← grown]
    rw [owners, ancestors] at grown
    obtain ⟨before, after, split, -, -, rest⟩ := List.filter_eq_cons_iff.mp grown.symm
    -- who comes after the owner on the chain is above it, and it comes only once
    have later : ∀ up ∈ after, h'.owns up name = false := by
      intro up hup
      refine free up (mem_ancestors_iff.mpr (leads_of_chain_eq split hup)) ?_
      rintro rfl
      have again : [up].Sublist after := List.singleton_sublist.mpr hup
      have twice := ((again.cons_cons up).trans (List.sublist_append_right before _)).filter
        (h.owns · name)
      rw [← split, ← owners, single] at twice
      exact absurd twice.length_le (by simp [owned])
    rw [← rest, List.filter_eq_nil_iff.mpr fun up hup => by simp [later up hup]]

end OwnersGrow

theorem map_name_updateIn (name : String) (ty : Ty) (makePublic : Bool) (as : List Attribute) :
    (updateIn name ty makePublic as).map (·.name) = as.map (·.name) := by
  induction as with
  | nil => rfl
  | cons first rest ih =>
    rw [updateIn]
    split
    · rfl
    · rw [List.map_cons, ih, List.map_cons]

/-- A new type of an attribute changes no owner. -/
theorem ownersGrow_updateAttribute (h : Hierarchy) (owner name : String) (ty : Ty)
    (makePublic : Bool) : OwnersGrow h (h.updateAttribute owner name ty makePublic) where
  shape := .updateAttribute ..
  order c other := by
    rw [owners, owners, (SameShape.updateAttribute ..).ancestors_eq]
    simp only [owns_updateAttribute, List.prefix_refl]
  distinct distinct c := by
    rw [ownAttributes_updateAttribute]
    split
    · rw [map_name_updateIn]
      exact distinct c
    · exact distinct c

/-- Who takes an attribute sees none, so nobody on the way up from there has one. -/
theorem ownersGrow_registerAttribute {className : String} {entry : Attribute}
    (missing : h.attribute? className entry.name = none) :
    OwnersGrow h (h.registerAttribute className entry) := by
  have free := attribute?_eq_none_iff.mp missing
  -- one class owns one attribute more
  have owns_eq : ∀ x other, x ≠ className ∨ other ≠ entry.name →
      (h.registerAttribute className entry).owns x other = h.owns x other := by
    intro x other apart
    obtain ⟨more, grown, isNew⟩ := ownAttributes_registerAttribute h className entry x
    rw [Bool.eq_iff_iff, owns_iff_mem, owns_iff_mem, grown, List.map_append, List.mem_append]
    refine or_iff_left fun known => ?_
    obtain ⟨a, listed, named⟩ := List.mem_map.mp known
    obtain ⟨rfl, here⟩ := isNew a listed
    exact apart.elim (fun elsewhere => elsewhere here) fun differs => differs named.symm
  refine ⟨.registerAttribute .., fun c other => ?_, fun distinct c => ?_⟩
  · rw [owners, owners, (SameShape.registerAttribute ..).ancestors_eq]
    -- if the class is on the chain of `c`, then it is the last owner there: none is above it
    by_cases onChain : className ∈ h.ancestors c ∧ other = entry.name
    · obtain ⟨onChain, rfl⟩ := onChain
      obtain ⟨before, after, split, absent⟩ := List.eq_append_cons_of_mem onChain
      have below : ∀ x ∈ before, (h.registerAttribute className entry).owns x entry.name =
          h.owns x entry.name := fun x hx => owns_eq x _ (.inl fun same => absent (same ▸ hx))
      have above : ∀ x ∈ className :: after, ¬h.owns x entry.name = true := by
        intro x hx
        have known : x ∈ h.ancestors className := by
          rcases List.mem_cons.mp hx with rfl | hx
          · exact mem_ancestors_iff.mpr .refl
          · exact mem_ancestors_iff.mpr (leads_of_chain_eq split hx)
        simp [free x known]
      rw [split, List.filter_append, List.filter_append, List.filter_eq_nil_iff.mpr above,
        List.append_nil, List.filter_congr below]
      exact List.prefix_append ..
    · have same : ∀ x ∈ h.ancestors c,
          (h.registerAttribute className entry).owns x other = h.owns x other := by
        intro x hx
        refine owns_eq x other ?_
        by_contra both
        rw [not_or, not_ne_iff, not_ne_iff] at both
        exact onChain ⟨both.1 ▸ hx, both.2⟩
      exact (List.filter_congr same).symm ▸ List.prefix_refl _
  · rcases ownAttributes_register_cases h className entry c with same | ⟨rfl, grown⟩
    · rw [same]
      exact distinct c
    · have absent : entry.name ∉ (h.ownAttributes c).map (·.name) := by
        rw [← owns_iff_mem, free c (mem_ancestors_iff.mpr .refl)]
        exact Bool.false_ne_true
      rw [grown, List.map_append, List.nodup_append]
      refine ⟨distinct c, by simp, ?_⟩
      rintro x hx _ hy rfl
      obtain rfl : x = entry.name := List.mem_singleton.mp hy
      exact absent hx

end Hierarchy

namespace Translate

open Typed

/-! ## Runs -/

theorem ownersGrow_refined (s : State) (σ : Site) (node : Expr) (ty : Ty) :
    s.hierarchy.OwnersGrow (s.refined σ node ty).hierarchy := by
  have viaAttribute : ∀ className name,
      s.hierarchy.OwnersGrow (s.withAttribute className name ty).hierarchy := by
    intro className name
    unfold State.withAttribute
    split
    · exact Hierarchy.ownersGrow_updateAttribute ..
    · exact .refl _
  unfold State.refined
  split
  · exact .refl _
  · split
    · exact viaAttribute ..
    · exact .refl _
  · exact viaAttribute ..
  · exact .refl _

/-- Whatever runs, the classes of a chain take their attributes from below upward. -/
def ownersLaw (setting : Setting) : Law setting where
  Rel _ _ s s' := s.hierarchy.OwnersGrow s'.hierarchy
  Call s s' := s.hierarchy.OwnersGrow s'.hierarchy
  rel_refl _ _ _ := .refl _
  rel_trans := .trans
  depend _ _ _ := ⟨trivial, .refl _⟩
  retype _ _ _ _ _ := ⟨trivial, ownersGrow_refined .., trivial⟩
  closeScope _ _ _ rel _ := ⟨trivial, rel⟩
  declare _ _ _ _ _ _ := ⟨trivial, .refl _⟩
  join _ _ _ _ _ _ _ := ⟨trivial, .refl _⟩
  joinAttribute _ _ _ _ _ _ := ⟨trivial, Hierarchy.ownersGrow_updateAttribute .., trivial⟩
  register _ _ _ missing := ⟨trivial, Hierarchy.ownersGrow_registerAttribute missing⟩
  merge _ _ _ _ _ _ _ := ⟨trivial, .refl _, trivial⟩
  answer _ _ _ _ _ _ := ⟨trivial, .refl _, trivial⟩
  leave _ _ _ _ _ _ _ rel _ _ := ⟨trivial, rel, trivial⟩

/-- From one moment of a run to a later one.  In between constructs are translated, assignments to
attributes are completed whose parts were translated before, and so are calls that give their
receiver a new type; all else, such as the begin and the end of bodies, leaves the classes alone. -/
inductive Later (api : ApiTables) (o : Outline) (s : State) : State → Prop
  | refl : Later api o s s
  | construct {s' s'' n ctx} : Later api o s s' →
      Advances (o.translator api n) (fun _ _ => True) (fun _ => True) ctx s' s'' →
      Later api o s s''
  | assigns {s' s'' n pos object throughThis attr assigned ty} : Later api o s s' →
      (attributeAfter (o.translator api n) pos object throughThis attr assigned).run s' =
        (.ok ty, s'') → Later api o s s''
  | refines {s' s'' ctx node ty node'} : Later api o s s' →
      (refine ctx node ty).run s' = (.ok node', s'') → Later api o s s''
  | other {s' s''} : Later api o s s' → s''.hierarchy = s'.hierarchy → Later api o s s''

variable {api : ApiTables} {o : Outline} {s s' : State}

/-- A state that a run can reach is later than the outline. -/
theorem Reachable.later {n : Nat} {σ : Site} {start : State}
    (reachable : Reachable api o start (fun _ _ => True) (fun _ => True) n σ s) :
    Later api o start s := by
  induction reachable with
  | start => exact .refl
  | advance _ advances ih => exact .construct ih advances
  | scope _ _ _ ih => exact .other ih rfl
  | enter _ _ _ ih => exact .other ih rfl

theorem attributeAfter_ownersGrow (t : Translator) (pos : Pos) (object : Expr) (throughThis : Bool)
    (attr : String) (assigned : Ty) (s : State) :
    Runs (attributeAfter t pos object throughThis attr assigned) s
      (fun _ s' => s.hierarchy.OwnersGrow s'.hierarchy) fun _ _ => True := by
  unfold attributeAfter
  refine Runs.get (Runs.walk_bind (fun _ => ?_) fun _ => trivial)
  split
  · refine Runs.walk_bind (fun _ => ?_) fun _ => trivial
    split
    · exact Runs.failAt trivial
    · exact Runs.modify_bind (Runs.pure (Hierarchy.ownersGrow_updateAttribute ..))
  next missing =>
  split
  · exact Runs.modify_bind (Runs.pure (Hierarchy.ownersGrow_registerAttribute missing))
  · exact Runs.failAt trivial

theorem Later.ownersGrow (later : Later api o s s') : s.hierarchy.OwnersGrow s'.hierarchy := by
  induction later with
  | refl => exact .refl _
  | @construct s' _ n ctx _ advances ih =>
    have isOpen : (ownersLaw (o.setting api)).Open (fun _ _ => True) fun _ => True :=
      ⟨fun _ _ => trivial, fun _ _ _ => trivial, fun _ _ _ => trivial, fun _ => trivial, id⟩
    have anywhere : (ownersLaw (o.setting api)).At n ctx.site s' := ⟨trivial, trivial⟩
    exact ih.trans (anywhere.advance isOpen advances).2.rel
  | assigns _ run ih => exact ih.trans ((attributeAfter_ownersGrow ..).of_ok run)
  | refines _ run ih =>
    obtain ⟨-, rfl⟩ := (Law.refine_runs ..).of_ok run
    exact ih.trans (ownersGrow_refined ..)
  | other _ same ih => exact ih.trans (.of_eq same)

/-- An assignment to an attribute that a class sees is checked against its owner's entry. -/
theorem attributeAfter_checked (t : Translator) (pos : Pos) {object : Expr} (throughThis : Bool)
    {attr owner : String} {entry : Attribute} (assigned : Ty)
    (found : s.hierarchy.attribute? object.type.head attr = some (owner, entry)) :
    Runs (attributeAfter t pos object throughThis attr assigned) s
      (fun ty s' => unify s.hierarchy entry.ty assigned = some ty ∧
        s' = s.withHierarchy (s.hierarchy.updateAttribute owner attr ty (!throughThis)))
      fun stop s' => s' = s ∧
        if unifyEnds s.hierarchy entry.ty assigned then
          unify s.hierarchy entry.ty assigned = none ∧
            stop = .failure (.attributeType object.type.head attr entry.ty assigned) (some pos)
        else stop = .fault .endlessWalk := by
  have seen : s.hierarchy.attributeEnds object.type.head attr := by
    rw [Hierarchy.attributeEnds, found]
    rfl
  unfold attributeAfter
  refine Runs.get (Runs.walk_bind (fun _ => ?_) fun endless => absurd seen endless)
  rw [found]
  dsimp only
  refine Runs.walk_bind (fun ends => ?_) fun endless => ⟨rfl, (if_neg endless).mpr rfl⟩
  split
  · next apart => exact Runs.failAt ⟨rfl, (if_pos ends).mpr ⟨apart, rfl⟩⟩
  · next ty joined => exact Runs.modify_bind (Runs.pure ⟨joined, rfl⟩)

/-- Who owns an attribute at two moments of a run, of which `s'` is the later. -/
structure KeepsOwners (s s' : State) : Prop where
  /-- No class has two entries of a name. -/
  distinct : s'.hierarchy.AttributesDistinct
  /-- Who becomes an owner stands above all owners of a chain. -/
  order : ∀ c name, s.hierarchy.owners c name <+: s'.hierarchy.owners c name
  /-- What a class sees stays with its owner. -/
  sees : ∀ c name owner a, s.hierarchy.attribute? c name = some (owner, a) →
    ∃ a', s'.hierarchy.attribute? c name = some (owner, a')
  /-- A chain has one owner exactly as long as no class above that takes the attribute too. -/
  single : ∀ c name top, s.hierarchy.owners c name = [top] →
    (s'.hierarchy.owners c name = [top] ↔
      ∀ up ∈ s.hierarchy.ancestors top, up ≠ top → s'.hierarchy.owns up name = false)
  /-- Then every assignment through a class of the chain is checked against its entry. -/
  checked : ∀ c name top, s'.hierarchy.owners c name = [top] →
    ∃ a, (s'.hierarchy.ownAttributes top).filter (·.name == name) = [a] ∧
      ∀ t pos object throughThis assigned, object.type.head ∈ s'.hierarchy.ancestors c →
        top ∈ s'.hierarchy.ancestors object.type.head →
        Runs (attributeAfter t pos object throughThis name assigned) s'
          (fun ty s'' => unify s'.hierarchy a.ty assigned = some ty ∧
            s'' = s'.withHierarchy (s'.hierarchy.updateAttribute top name ty (!throughThis)))
          fun stop s'' => s'' = s' ∧
            if unifyEnds s'.hierarchy a.ty assigned then
              unify s'.hierarchy a.ty assigned = none ∧
                stop = .failure (.attributeType object.type.head name a.ty assigned) (some pos)
            else stop = .fault .endlessWalk

end Translate

/-! ## Top theorem -/

open Translate in
/-- Whatever order the bodies of the classes of a chain are translated in, the classes take an
attribute from below upward, each of them once; a class that has taken it first is the only owner
that those below it ever see. -/
theorem attribute_owners_ordered {api : ApiTables} {m : Tree.Module} {o : Outline} {start s s' : State}
    (outlined : (outline api m).run .empty = (.ok o, start)) (reached : Later api o start s)
    (later : Later api o s s') : KeepsOwners s s' := by
  have untouched := ((outline_runs m).of_ok outlined).untouched .empty
  have before := reached.ownersGrow
  have grow := later.ownersGrow
  have none : start.hierarchy.AttributesDistinct := fun c => by
    rw [untouched.ownAttributes_eq]
    exact .nil
  have distinct := grow.distinct (before.distinct none)
  refine ⟨distinct, grow.order, fun c name owner a found => ?_, fun c name top => grow.single_iff,
    fun c name top single => ?_⟩
  · have nearest := Hierarchy.map_attribute? s.hierarchy c name
    obtain ⟨more, grown⟩ := grow.order c name
    have nearest' := Hierarchy.map_attribute? s'.hierarchy c name
    rw [found, Option.map_some] at nearest
    rw [← grown, List.head?_append, ← nearest] at nearest'
    obtain ⟨⟨owner', a'⟩, found', rfl⟩ := Option.map_eq_some_iff.mp nearest'
    exact ⟨a', found'⟩
  · have owned := (Hierarchy.mem_owners_iff.mp (single ▸ List.mem_singleton_self top)).2
    obtain ⟨a, held⟩ := Option.isSome_iff_exists.mp owned
    refine ⟨a, Hierarchy.filter_of_distinct (distinct top) held, ?_⟩
    intro t pos object throughThis assigned below sees
    exact attributeAfter_checked t pos throughThis assigned
      (Hierarchy.attribute?_of_single single held below sees)

open Tree.Build in
/-- A class whose constructor assigns an attribute, and one below it that assigns it again. -/
def labelling : Tree.Module :=
  ⟨[classDef "Shape" none
      [define "__init__" ["self"] [assign (attr (name "self") "label") (string "shape")]],
    classDef "Square" (some "Shape")
      [define "rename" ["self", "label"] [assign (attr (name "self") "label") (name "label")]]]⟩

open Translate Tree.Build in
/-- Whether `Shape` takes the attribute, and keeps it when a method of `Square` assigns it. -/
def ownerKept : Bool :=
  passes (outline ApiTables.standard labelling) .empty fun o start =>
    let t := o.translator ApiTables.standard (start.definitions.size + 1)
    passes (stmt t (assign (name "q") (call (name "Square") [])) .ofModule) start fun _ s =>
      passes (stmt t (exprStmt (method (name "q") "rename" [string "unit"])) .ofModule) s
        fun _ s' => decide (s.hierarchy.owners "Square" "label" = ["Shape"] ∧
          s'.hierarchy.owners "Square" "label" = ["Shape"])

open Translate Tree.Build in
set_option maxRecDepth 100000 in
theorem attribute_owners_ordered_labelling : ∃ o start s s',
    (outline ApiTables.standard labelling).run .empty = (.ok o, start) ∧
    Later ApiTables.standard o start s ∧ Later ApiTables.standard o s s' ∧ KeepsOwners s s' ∧
    s.hierarchy.owners "Square" "label" = ["Shape"] ∧
    s'.hierarchy.owners "Square" "label" = ["Shape"] := by
  have checked : ownerKept = true := by
    decide +kernel
  obtain ⟨o, start, outlined, checked⟩ := exists_of_passes checked
  obtain ⟨node, s, makes, checked⟩ := exists_of_passes checked
  obtain ⟨node', s', renames, owned⟩ := exists_of_passes checked
  have reached : Later ApiTables.standard o start s :=
    .construct .refl (.stmt _ node (fun _ _ => trivial) makes)
  have later : Later ApiTables.standard o s s' :=
    .construct .refl (.stmt _ node' (fun _ _ => trivial) renames)
  exact ⟨o, start, s, s', outlined, reached, later,
    attribute_owners_ordered outlined reached later, of_decide_eq_true owned⟩

open Tree.Build in
/-- A class with a method that assigns an attribute, and one below it whose constructor does. -/
def crossing : Tree.Module :=
  ⟨[classDef "Base" none
      [define "fill" ["self"] [assign (attr (name "self") "n") (string "s")]],
    classDef "Child" (some "Base")
      [define "__init__" ["self"] [assign (attr (name "self") "n") (int 1)]],
    assign (name "c") (call (name "Child") [])]⟩

open Translate Tree.Build in
/-- Whether both classes take the attribute, with different types, once an object is made. -/
def ownedTwice : Bool :=
  passes (outline ApiTables.standard crossing) .empty fun o start =>
    passes (stmt (o.translator ApiTables.standard (start.definitions.size + 1))
      (assign (name "c") (call (name "Child") [])) .ofModule) start fun _ s => decide <|
        s.hierarchy.attribute? "Child" "n" = some ("Child", ⟨"n", .int, false⟩) ∧
        s.hierarchy.attribute? "Base" "n" = some ("Base", ⟨"n", .string, false⟩) ∧
        s.hierarchy.owners "Child" "n" = ["Child", "Base"] ∧
        (translate ApiTables.standard crossing).isOk

open Translate Tree.Build in
set_option maxRecDepth 100000 in
/-- A class does not look below itself: the constructor of `Child` takes the attribute first, then a
method of `Base` does, and one object has an integer and a string of one name. -/
theorem chain_owned_twice : ∃ o start s,
    (outline ApiTables.standard crossing).run .empty = (.ok o, start) ∧
    Reachable ApiTables.standard o start (fun _ _ => True) (fun _ => True)
      (start.definitions.size + 1) .ofModule s ∧
    s.hierarchy.attribute? "Child" "n" = some ("Child", ⟨"n", .int, false⟩) ∧
    s.hierarchy.attribute? "Base" "n" = some ("Base", ⟨"n", .string, false⟩) ∧
    s.hierarchy.owners "Child" "n" = ["Child", "Base"] ∧
    (translate ApiTables.standard crossing).isOk := by
  have checked : ownedTwice = true := by
    decide +kernel
  obtain ⟨o, start, outlined, checked⟩ := exists_of_passes checked
  obtain ⟨node, s, makes, owned⟩ := exists_of_passes checked
  have advances : Advances (o.translator ApiTables.standard (start.definitions.size + 1))
      (fun _ _ => True) (fun _ => True) .ofModule start s := .stmt _ node (fun _ _ => trivial) makes
  exact ⟨o, start, s, outlined, .advance .start advances, of_decide_eq_true owned⟩

end TreeTyper
