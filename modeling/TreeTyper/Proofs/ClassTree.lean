import TreeTyper.Proofs.Joins
import TreeTyper.Proofs.Owners
import TreeTyper.Proofs.Walk

/-!
# Classes form a tree

A hierarchy is built by declarations, and if every class is declared once and after
its base, it stays a tree: no walk along the bases is without an end, to inherit is
a partial order, and of two classes that have a common ancestor there is a least one,
whichever of them the search begins with.

    InOrder [] ds → the declarations succeed and make a tree        (declarations_form_tree)

The classes above one class are a chain, so what is nearest on it is least among
what satisfies the same condition: that is why a search which stops at the first hit
finds least common ancestors and nearest owners.

    h.commonAncestor a b = some c ↔ h.LeastCommon a b c             (commonAncestor_eq_some_iff)
    h.attribute? c name = some (owner, a) ↔ owner is least above c  (attribute?_eq_some_iff_nearest)
-/

namespace TreeTyper.Hierarchy

variable {h h' : Hierarchy} {a b c e name owner : String} {base : Option String}
  {links : List (String × Option String)}

/-! ## Declarations -/

/-- What can be declared, and what becomes of the attributes. -/
inductive Declaration
  | newClass (name : String) (base : Option String)
  | method (className name : String) (arity : Nat)
  | newAttribute (className : String) (entry : Attribute)
  | retype (owner name : String) (ty : Ty) (makePublic : Bool)
  | exception (name base : String)

/-- The hierarchy after a declaration; fails if the class that is meant is not declared. -/
def declare (h : Hierarchy × Cells) : Declaration → Option (Hierarchy × Cells)
  | .newClass name base => (h.1.declareClass name base).map (·, h.2)
  | .method className name arity =>
    (h.1.declareMethod h.2 className name arity).map fun (declared, cells, _) => (declared, cells)
  | .newAttribute className entry => some (h.1.registerAttribute className entry, h.2)
  | .retype owner name ty makePublic => some (h.1.updateAttribute owner name ty makePublic, h.2)
  | .exception name base => some (h.1.declareException name base, h.2)

/-- The class of a declaration with its base. -/
def Declaration.link : Declaration → List (String × Option String)
  | .newClass name base => [(name, base)]
  | _ => []

/-- The classes that are declared, each with its base, in the order of their declarations. -/
def classLinks (ds : List Declaration) : List (String × Option String) := ds.flatMap (·.link)

/-- A class is new, and the base or the class that is meant is known. -/
def Declaration.Permitted (known : List String) : Declaration → Prop
  | .newClass name base => name ∉ known ∧ ∀ b ∈ base, b ∈ known
  | .method className .. => className ∈ known
  | _ => True

instance (known : List String) : (d : Declaration) → Decidable (d.Permitted known)
  | .newClass name base => inferInstanceAs (Decidable (name ∉ known ∧ ∀ b ∈ base, b ∈ known))
  | .method className .. => inferInstanceAs (Decidable (className ∈ known))
  | .newAttribute .. => inferInstanceAs (Decidable True)
  | .retype .. => inferInstanceAs (Decidable True)
  | .exception .. => inferInstanceAs (Decidable True)

/-- Each class is declared once, and each base before it is used. -/
def InOrder (known : List String) : List Declaration → Prop
  | [] => True
  | d :: rest => d.Permitted known ∧ InOrder (known ++ d.link.map (·.1)) rest

instance decidableInOrder (known : List String) :
    (ds : List Declaration) → Decidable (InOrder known ds)
  | [] => inferInstanceAs (Decidable True)
  | d :: rest =>
    have := decidableInOrder (known ++ d.link.map (·.1)) rest
    inferInstanceAs (Decidable (d.Permitted known ∧ InOrder (known ++ d.link.map (·.1)) rest))

/-! ## Subclasses -/

theorem subclasses_withClass (h : Hierarchy) (name : String) (info : ClassInfo) (c : String) :
    (h.withClass name info).subclasses c =
      if c = name then info.subclasses else h.subclasses c := by
  unfold subclasses withClass
  rw [Table.find?_insert]
  split <;> rfl

/-- A new class has no subclasses and comes last among those of its base. -/
theorem subclasses_declareClass (declared : h.declareClass name base = some h')
    (apart : base ≠ some name) (c : String) :
    h'.subclasses c =
      if c = name then [] else if base = some c then h.subclasses c ++ [name]
      else h.subclasses c := by
  obtain ⟨h₁, methods, rfl, ⟨rfl, rfl, -⟩ | ⟨b, info, rfl, found, -, rfl⟩⟩ :=
    declareClass_cases declared
  · rw [subclasses_withClass]
    rfl
  · rw [subclasses_withClass, subclasses_withClass]
    by_cases isBase : c = b
    · subst isBase
      have listed : h.subclasses c = info.subclasses := by
        rw [subclasses, found]
        rfl
      simp [listed]
    · simp [isBase, Ne.symm isBase]

theorem subclasses_declareMethod {cells cells' : Cells} {className method : String} {arity : Nat}
    {cell : CellId} (declared : h.declareMethod cells className method arity =
      some (h', cells', cell)) (c : String) : h'.subclasses c = h.subclasses c := by
  obtain ⟨info, found, rfl, -⟩ := declareMethod_cases declared
  rw [subclasses_withClass]
  split
  · next same =>
    rw [same, subclasses, found]
    rfl
  · rfl

theorem SameShape.subclasses_eq (same : SameShape h h') (c : String) :
    h'.subclasses c = h.subclasses c := by
  rw [subclasses, subclasses, same.view fun _ => rfl]

/-! ## What the declarations make -/

/-- The classes of a hierarchy are those of some declarations. -/
structure Declares (h : Hierarchy) (links : List (String × Option String)) : Prop where
  once : h.DeclaredOnce
  isClass : ∀ {c}, h.isClass c ↔ c ∈ links.map (·.1)
  distinct : (links.map (·.1)).Nodup
  base : ∀ {c base}, (c, base) ∈ links → h.base? c = base
  subclasses : ∀ c, h.subclasses c = (links.filter (·.2 = some c)).map (·.1)

namespace Declares

theorem empty : Declares .empty [] where
  once := .empty
  isClass := by simp [Hierarchy.empty, Hierarchy.isClass, Table.contains]
  distinct := .nil
  base known := nomatch known
  subclasses _ := rfl

theorem declareClass (declares : Declares h links) (fresh : name ∉ links.map (·.1))
    (declared : h.declareClass name base = some h') : Declares h' (links ++ [(name, base)]) := by
  have unknown : ¬h.isClass name := fun isClass => fresh (declares.isClass.mp isClass)
  have once := declares.once.declareClass unknown declared
  have apart : base ≠ some name := by
    rintro rfl
    obtain ⟨info, found, -⟩ := Option.bind_eq_some_iff.mp declared
    exact unknown (by rw [Hierarchy.isClass, Table.contains, found]; rfl)
  constructor
  · exact once
  · intro c
    rw [isClass_declareClass_iff declared, declares.isClass]
    simp [or_comm]
  · rw [List.map_append]
    exact declares.distinct.append (List.nodup_singleton _) (by simpa using fresh)
  · intro c b known
    rw [base?_declareClass declared]
    rcases List.mem_append.mp known with before | new
    · have differs : c ≠ name := by
        rintro rfl
        exact fresh (List.mem_map_of_mem before)
      rw [if_neg differs]
      exact declares.base before
    · cases List.mem_singleton.mp new
      exact if_pos rfl
  · intro c
    rw [subclasses_declareClass declared apart, List.filter_append, List.map_append,
      declares.subclasses]
    by_cases here : c = name
    · subst here
      -- a class that had the new one as its base would have been declared before its base
      have none : links.filter (·.2 = some c) = [] := by
        refine List.filter_eq_nil_iff.mpr fun link known isBase => unknown ?_
        have above := declares.base known
        rw [of_decide_eq_true isBase] at above
        exact declares.once.basesDeclared _ _ above
      simp [none, apart]
    · by_cases isBase : base = some c
      · simp [here, isBase]
      · simp [here, isBase]

theorem congr (declares : Declares h links) (once : h'.DeclaredOnce) (same : SameBases h h')
    (lists : ∀ c, h'.subclasses c = h.subclasses c) : Declares h' links where
  once := once
  isClass := by rw [same.isClass]; exact declares.isClass
  distinct := declares.distinct
  base known := by rw [same.base?]; exact declares.base known
  subclasses c := (lists c).trans (declares.subclasses c)

theorem sameShape (declares : Declares h links) (once : h'.DeclaredOnce) (same : SameShape h h') :
    Declares h' links :=
  declares.congr once same.sameBases same.subclasses_eq

theorem append_nil (declares : Declares h links) : Declares h (links ++ []) := by
  rwa [List.append_nil]

theorem exists_info (declares : Declares h links) (known : c ∈ links.map (·.1)) :
    ∃ info, h.classes.find? c = some info :=
  Option.isSome_iff_exists.mp (declares.isClass.mpr known)

/-- A permitted declaration succeeds. -/
theorem declare (declares : Declares h links) (cells : Cells) {d : Declaration}
    (permitted : d.Permitted (links.map (·.1))) :
    ∃ h' cells', Hierarchy.declare (h, cells) d = some (h', cells') ∧
      Declares h' (links ++ d.link) := by
  cases d with
  | newClass name base =>
    obtain ⟨fresh, known⟩ := permitted
    obtain ⟨h', declared⟩ : ∃ h', h.declareClass name base = some h' := by
      cases base with
      | none => exact ⟨_, rfl⟩
      | some b =>
        obtain ⟨info, found⟩ := declares.exists_info (known b rfl)
        rw [Hierarchy.declareClass, found]
        exact ⟨_, rfl⟩
    refine ⟨h', cells, ?_, declares.declareClass fresh declared⟩
    rw [Hierarchy.declare, declared]
    rfl
  -- none of the others adds a class: the links stay as they are
  | method className name arity =>
    obtain ⟨info, found⟩ := declares.exists_info permitted
    obtain ⟨⟨h', cells', cell⟩, declared⟩ :
        ∃ r, h.declareMethod cells className name arity = some r := by
      rw [declareMethod, found]
      exact ⟨_, rfl⟩
    refine ⟨h', cells', ?_, ?_⟩
    · rw [Hierarchy.declare, declared]
      rfl
    · exact (declares.congr (declares.once.declareMethod declared) (.declareMethod declared)
        (subclasses_declareMethod declared)).append_nil
  | newAttribute className entry =>
    refine ⟨_, cells, rfl, ?_⟩
    exact (declares.sameShape declares.once.registerAttribute (.registerAttribute ..)).append_nil
  | retype owner name ty makePublic =>
    refine ⟨_, cells, rfl, ?_⟩
    exact (declares.sameShape declares.once.updateAttribute (.updateAttribute ..)).append_nil
  | exception name base =>
    refine ⟨_, cells, rfl, append_nil ?_⟩
    exact ⟨declares.once.declareException, declares.isClass, declares.distinct, declares.base,
      declares.subclasses⟩

theorem declareAll (declares : Declares h links) (cells : Cells) {ds : List Declaration}
    (order : InOrder (links.map (·.1)) ds) :
    ∃ h' cells', ds.foldlM Hierarchy.declare (h, cells) = some (h', cells') ∧
      Declares h' (links ++ classLinks ds) := by
  induction ds generalizing h cells links with
  | nil => exact ⟨h, cells, rfl, by rwa [classLinks, List.flatMap_nil, List.append_nil]⟩
  | cons d rest ih =>
    obtain ⟨permitted, order⟩ := order
    obtain ⟨h₁, cells₁, first, declares₁⟩ := declares.declare cells permitted
    rw [← List.map_append] at order
    obtain ⟨h', cells', others, declares'⟩ := ih declares₁ cells₁ order
    refine ⟨h', cells', ?_, ?_⟩
    · rw [List.foldlM_cons, first]
      exact others
    · rw [classLinks, List.flatMap_cons, ← List.append_assoc]
      exact declares'

end Declares

/-! ## Walks along the bases -/

theorem walk_ancestors (acyclic : Acyclic h.base?) (c : String) :
    Walk h.base? c (h.ancestors c) := by
  refine acyclic.induction (motive := fun c => Walk h.base? c (h.ancestors c)) (fun c ih => ?_) c
  rw [acyclic.ancestors_eq]
  cases above : h.base? c with
  | none => exact .last above
  | some b => exact .step above (ih b above)

theorem walk_iff (acyclic : Acyclic h.base?) {path : List String} :
    Walk h.base? c path ↔ path = h.ancestors c := by
  constructor
  · exact fun walk => walk.unique (walk_ancestors acyclic c)
  · rintro rfl
    exact walk_ancestors acyclic c

theorem isSubclass_refl (h : Hierarchy) (a : String) : h.isSubclass a a := isSubclass_iff.mpr .refl

theorem isSubclass_antisymm (acyclic : Acyclic h.base?) (ab : h.isSubclass a b)
    (ba : h.isSubclass b a) : a = b :=
  acyclic.leads_antisymm (isSubclass_iff.mp ab) (isSubclass_iff.mp ba)

/-- Only a class is below a class. -/
theorem isClass_of_isSubclass (below : h.isSubclass a c) (isClass : h.isClass c) : h.isClass a := by
  rcases Relation.ReflTransGen.cases_head (isSubclass_iff.mp below) with rfl | ⟨up, above, -⟩
  · exact isClass
  · by_contra unknown
    rw [base?_of_not_isClass unknown] at above
    cases above

/-! ## Common ancestors -/

/-- A class above two others, and below every other one above both. -/
structure LeastCommon (h : Hierarchy) (a b c : String) : Prop where
  isClass : h.isClass c
  left : h.isSubclass a c
  right : h.isSubclass b c
  least : ∀ e, h.isSubclass a e → h.isSubclass b e → h.isSubclass c e

theorem leastCommon_of_commonAncestor (found : h.commonAncestor a b = some c) :
    h.LeastCommon a b c := by
  obtain ⟨nearest, isClass⟩ := Option.filter_eq_some_iff.mp found
  exact ⟨isClass, decide_eq_true (List.mem_of_find?_eq_some nearest),
    List.find?_some (p := fun c => h.isSubclass b c) nearest,
    fun e => isSubclass_of_commonAncestor found⟩

/-- Where there is a common ancestor the search finds one. -/
theorem exists_commonAncestor_of (bases : h.BasesDeclared) (isClass : h.isClass e)
    (above : h.isSubclass a e) (above' : h.isSubclass b e) : ∃ c, h.commonAncestor a b = some c :=
  exists_commonAncestor bases (isClass_of_isSubclass above isClass) above above'

theorem commonAncestor_eq_some_iff (bases : h.BasesDeclared) (acyclic : Acyclic h.base?) :
    h.commonAncestor a b = some c ↔ h.LeastCommon a b c := by
  refine ⟨leastCommon_of_commonAncestor, fun least => ?_⟩
  obtain ⟨c', found⟩ := exists_commonAncestor_of bases least.isClass least.left least.right
  have least' := leastCommon_of_commonAncestor found
  have same : c' = c := isSubclass_antisymm acyclic
    (least'.least c least.left least.right) (least.least c' least'.left least'.right)
  rw [found, same]

theorem LeastCommon.symm (least : h.LeastCommon a b c) : h.LeastCommon b a c :=
  ⟨least.isClass, least.right, least.left, fun e above above' => least.least e above' above⟩

theorem commonAncestor_comm (bases : h.BasesDeclared) (acyclic : Acyclic h.base?) (a b : String) :
    h.commonAncestor a b = h.commonAncestor b a := by
  refine Option.ext fun c => ?_
  rw [commonAncestor_eq_some_iff bases acyclic, commonAncestor_eq_some_iff bases acyclic]
  exact ⟨LeastCommon.symm, LeastCommon.symm⟩

/-! ## Owners -/

/-- An owner of an attribute above a class, and below every other owner above it. -/
structure NearestOwner (h : Hierarchy) (c name owner : String) : Prop where
  above : h.isSubclass c owner
  owns : h.owns owner name
  nearest : ∀ e, h.isSubclass c e → h.owns e name → h.isSubclass owner e

theorem nearestOwner_of_attribute? {entry : Attribute}
    (found : h.attribute? c name = some (owner, entry)) :
    h.NearestOwner c name owner ∧ (h.ownAttributes owner).find? (·.name == name) = some entry := by
  obtain ⟨⟨before, after, walk, others⟩, own⟩ := attribute?_eq_some_iff.mp found
  refine ⟨⟨?_, ?_, fun e above owned => ?_⟩, own⟩
  · exact decide_eq_true (by simp [walk])
  · rw [owns, own]
    rfl
  · have listed : e ∈ before ++ owner :: after := walk ▸ of_decide_eq_true above
    rcases List.mem_append.mp listed with passed | later
    · exact absurd owned (others e passed)
    · rcases List.mem_cons.mp later with rfl | later
      · exact isSubclass_refl h e
      · exact isSubclass_iff.mpr (leads_of_chain_eq walk later)

theorem attribute?_eq_some_iff_nearest (acyclic : Acyclic h.base?) {entry : Attribute} :
    h.attribute? c name = some (owner, entry) ↔
      h.NearestOwner c name owner ∧
        (h.ownAttributes owner).find? (·.name == name) = some entry := by
  refine ⟨nearestOwner_of_attribute?, fun ⟨nearest, own⟩ => ?_⟩
  cases found : h.attribute? c name with
  | none =>
    have none := attribute?_eq_none_iff.mp found owner (of_decide_eq_true nearest.above)
    rw [nearest.owns] at none
    cases none
  | some held =>
    obtain ⟨owner', entry'⟩ := held
    obtain ⟨nearest', own'⟩ := nearestOwner_of_attribute? found
    have same : owner' = owner := isSubclass_antisymm acyclic
      (nearest'.nearest owner nearest.above nearest.owns)
      (nearest.nearest owner' nearest'.above nearest'.owns)
    subst same
    rw [own] at own'
    cases own'
    rfl

theorem isSome_attribute?_iff :
    (h.attribute? c name).isSome ↔ ∃ owner, h.isSubclass c owner ∧ h.owns owner name := by
  rw [← not_iff_not, Option.not_isSome_iff_eq_none, attribute?_eq_none_iff]
  simp [isSubclass]

/-! ## A tree of classes -/

/-- The declared classes as a tree, in which a base is above the classes that have it. -/
structure IsTree (h : Hierarchy) (links : List (String × Option String)) : Prop where
  isClass : ∀ {c}, h.isClass c ↔ c ∈ links.map (·.1)
  base : ∀ {c base}, (c, base) ∈ links → h.base? c = base
  /-- The walk along the bases ends, and `ancestors` lists what it passes. -/
  walk : ∀ {c path}, Walk h.base? c path ↔ path = h.ancestors c
  isSubclass : ∀ {a b}, h.isSubclass a b ↔ b ∈ h.ancestors a
  refl : ∀ a, h.isSubclass a a
  antisymm : ∀ {a b}, h.isSubclass a b → h.isSubclass b a → a = b
  trans : ∀ {a b c}, h.isSubclass a b → h.isSubclass b c → h.isSubclass a c
  commonAncestor : ∀ {a b c}, h.commonAncestor a b = some c ↔ h.LeastCommon a b c
  isSome_commonAncestor : ∀ {a b}, (h.commonAncestor a b).isSome ↔
    ∃ e, h.isClass e ∧ h.isSubclass a e ∧ h.isSubclass b e
  comm : ∀ a b, h.commonAncestor a b = h.commonAncestor b a
  /-- The subclasses of a class are in the order of their declarations. -/
  subclasses : ∀ c, h.subclasses c = (links.filter (·.2 = some c)).map (·.1)
  nodup : ∀ c, (h.subclasses c).Nodup
  mem_subclasses : ∀ {a c}, a ∈ h.subclasses c ↔ h.base? a = some c
  nearestOwner : ∀ {c name owner entry}, h.attribute? c name = some (owner, entry) ↔
    h.NearestOwner c name owner ∧ (h.ownAttributes owner).find? (·.name == name) = some entry
  isSome_attribute : ∀ {c name}, (h.attribute? c name).isSome ↔
    ∃ owner, h.isSubclass c owner ∧ h.owns owner name

theorem Declares.nodup_subclasses (declares : Declares h links) (c : String) :
    (h.subclasses c).Nodup := by
  rw [declares.subclasses]
  exact declares.distinct.sublist (List.filter_sublist.map _)

theorem Declares.mem_subclasses (declares : Declares h links) :
    a ∈ h.subclasses c ↔ h.base? a = some c := by
  rw [declares.subclasses, List.mem_map]
  constructor
  · rintro ⟨link, known, rfl⟩
    obtain ⟨known, isBase⟩ := List.mem_filter.mp known
    rw [declares.base known, of_decide_eq_true isBase]
  · intro above
    have isClass : h.isClass a := by
      by_contra unknown
      rw [base?_of_not_isClass unknown] at above
      cases above
    obtain ⟨link, known, rfl⟩ := List.mem_map.mp (declares.isClass.mp isClass)
    rw [declares.base known] at above
    exact ⟨link, List.mem_filter.mpr ⟨known, decide_eq_true above⟩, rfl⟩

theorem Declares.isTree (declares : Declares h links) : h.IsTree links := by
  have bases := declares.once.basesDeclared
  have acyclic := declares.once.acyclic
  exact {
    isClass := declares.isClass
    base := declares.base
    walk := walk_iff acyclic
    isSubclass := decide_eq_true_iff
    refl := isSubclass_refl h
    antisymm := isSubclass_antisymm acyclic
    trans := isSubclass_trans
    commonAncestor := commonAncestor_eq_some_iff bases acyclic
    isSome_commonAncestor := by
      intro a b
      rw [Option.isSome_iff_exists]
      constructor
      · rintro ⟨c, found⟩
        have least := leastCommon_of_commonAncestor found
        exact ⟨c, least.isClass, least.left, least.right⟩
      · rintro ⟨e, isClass, above, above'⟩
        exact exists_commonAncestor_of bases isClass above above'
    comm := commonAncestor_comm bases acyclic
    subclasses := declares.subclasses
    nodup := declares.nodup_subclasses
    mem_subclasses := declares.mem_subclasses
    nearestOwner := attribute?_eq_some_iff_nearest acyclic
    isSome_attribute := isSome_attribute?_iff }

end TreeTyper.Hierarchy

namespace TreeTyper

open Hierarchy

/-! ## Top theorem -/

/-- Classes that are declared once and after their bases are declared, and are a tree. -/
theorem declarations_form_tree (ds : List Declaration) (order : InOrder [] ds) :
    ∃ h cells, ds.foldlM declare (.empty, .empty) = some (h, cells) ∧ h.IsTree (classLinks ds) := by
  obtain ⟨h, cells, declared, declares⟩ := Declares.empty.declareAll .empty order
  exact ⟨h, cells, declared, declares.isTree⟩

/-- Two branches of different length below `Shape`, and a class of its own. -/
def branches : List Declaration :=
  [.newClass "Shape" none, .method "Shape" "area" 0, .newClass "Square" (some "Shape"),
    .newAttribute "Shape" ⟨"label", .string, false⟩, .newClass "Circle" (some "Shape"),
    .newClass "Tile" (some "Square"), .exception "Torn" "Exception",
    .newAttribute "Square" ⟨"label", .int, true⟩, .newClass "Ink" none]

def branchesAnswer : Bool :=
  match branches.foldlM declare (.empty, .empty) with
  | some (h, _) => decide <|
    h.commonAncestor "Tile" "Circle" = some "Shape" ∧ h.commonAncestor "Tile" "Ink" = none ∧
    h.subclasses "Shape" = ["Square", "Circle"] ∧
    h.attribute? "Tile" "label" = some ("Square", ⟨"label", .int, true⟩) ∧
    h.attribute? "Circle" "label" = some ("Shape", ⟨"label", .string, false⟩)
  | none => false

theorem declarations_form_tree_branches :
    InOrder [] branches ∧ ∃ h cells,
      branches.foldlM declare (.empty, .empty) = some (h, cells) ∧ h.IsTree (classLinks branches) ∧
      h.commonAncestor "Tile" "Circle" = some "Shape" ∧ h.commonAncestor "Tile" "Ink" = none ∧
      h.subclasses "Shape" = ["Square", "Circle"] ∧
      h.attribute? "Tile" "label" = some ("Square", ⟨"label", .int, true⟩) ∧
      h.attribute? "Circle" "label" = some ("Shape", ⟨"label", .string, false⟩) := by
  have order : InOrder [] branches := by decide +kernel
  have checked : branchesAnswer = true := by decide +kernel
  obtain ⟨h, cells, declared, tree⟩ := declarations_form_tree branches order
  rw [branchesAnswer, declared] at checked
  exact ⟨order, h, cells, declared, tree, of_decide_eq_true checked⟩

end TreeTyper
