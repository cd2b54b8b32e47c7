import TreeTyper.Proofs.Dictionary

/-!
# What the elements of a literal have in common

A list and a set ask each element against the type found so far, a dictionary joins its
keys and its values, a tuple asks the type found so far against each element.  The type
found is widened and filled on the way, and whatever was taken early still fits at the
end, for each of the three brings two types to one that both widen to.

    (listNode ctx ds).run s = (.ok ⟨.list nodes, .list e⟩, s') ↔
      (runAll ctx ds).run s = (.ok nodes, s') ∧ elementType? h (types nodes) = some e
                                                                        (listNode_eq_ok_iff)
    elementType? h ts = some e → ∀ t ∈ ts, t.Widens h e                   (widens_elementType)

So a list of `2.5` and `1` is a list of floats, where `1` and `2.5` make no list: a tuple
has it the other way round.
-/

namespace TreeTyper

open Ty

variable {h h' : Hierarchy} {e : Ty} {ts : List Ty}

/-! ## Types of elements -/

/-- The type of the elements of a list or a set, each asked against those before it. -/
def elementType? (h : Hierarchy) (ts : List Ty) : Option Ty :=
  ts.foldlM (fun acc t => compatible h t acc) .hole

/-- The type of the elements of an array, if a tuple of these types is one. -/
def arrayType? (h : Hierarchy) (ts : List Ty) : Option Ty :=
  (ts.foldlM (compatible h) .hole).filter fun e => !ts.isEmpty && !e.hasHoles

theorem arrayType?_sameShape (shape : h.SameShape h') : arrayType? h' ts = arrayType? h ts := by
  have same : compatible h' = compatible h := by
    funext a b
    exact shape.compatible_eq a b
  rw [arrayType?, arrayType?, same]

section Fits

variable (apart : h.NumbersApart) (plain : ∀ t ∈ ts, t.isPlain)
include apart plain

theorem widens_elementType (found : elementType? h ts = some e) : ∀ t ∈ ts, t.Widens h e :=
  (bringsAbove_compatible.symm.fold apart rfl plain found).2

theorem widens_joinAll (found : joinAll h ts = some e) : ∀ t ∈ ts, t.Widens h e :=
  (bringsAbove_unify.fold apart rfl plain found).2

theorem widens_arrayType (found : arrayType? h ts = some e) : ∀ t ∈ ts, t.Widens h e := by
  obtain ⟨shared, -⟩ := Option.filter_eq_some_iff.mp found
  exact (bringsAbove_compatible.fold apart rfl plain shared).2

end Fits

namespace Translate

open Typed

variable {ctx : Context} {s s' : State} {node : Expr} {nodes : List Expr} {pairs : List Pair}

/-! ## Elements -/

theorem runAll_keepsShape {ds : List Deferred} (keeps : ∀ d ∈ ds, d.KeepsShape)
    (run : (runAll ctx ds).run s = (.ok nodes, s')) : s.hierarchy.SameShape s'.hierarchy := by
  induction ds generalizing s nodes with
  | nil =>
    cases run
    exact .refl _
  | cons d ds ih =>
    rw [List.forall_mem_cons] at keeps
    obtain ⟨node, s₁, first, run⟩ := Runs.of_bind_ok run
    obtain ⟨rest, s₂, others, run⟩ := Runs.of_bind_ok run
    cases run
    exact ((keeps.1 ctx s).of_ok first).trans (ih keeps.2 others)

/-- The elements of a container are translated one after the other, and the tables that their types
are asked against do not change on the way. -/
theorem elementNodes_eq_ok_iff {ds : List Deferred} {container : String} {acc : Ty}
    (ends : h.ClassesEnd) (keeps : ∀ d ∈ ds, d.KeepsShape) (shape : h.SameShape s.hierarchy) :
    (elementNodes ctx container acc ds).run s = (.ok (nodes, e), s') ↔
      (runAll ctx ds).run s = (.ok nodes, s') ∧
        (types nodes).foldlM (fun acc t => compatible h t acc) acc = some e := by
  induction ds generalizing s nodes acc with
  | nil =>
    constructor
    · intro run
      cases run
      exact ⟨rfl, rfl⟩
    · rintro ⟨run, found⟩
      cases run
      cases found
      rfl
  | cons d ds ih =>
    rw [List.forall_mem_cons] at keeps
    constructor
    · intro run
      obtain ⟨node, s₁, first, run⟩ := Runs.of_bind_ok run
      -- the check uses the hierarchy after the element, which has the same shape
      have shape₁ := shape.trans ((keeps.1 ctx s).of_ok first)
      rw [run_get_bind, Runs.run_walk_bind_iff] at run
      obtain ⟨-, run⟩ := run
      split at run
      · cases run
      next acc' fits =>
      obtain ⟨⟨rest, last⟩, s₂, others, run⟩ := Runs.of_bind_ok run
      cases run
      obtain ⟨others, found⟩ := (ih keeps.2 shape₁).mp others
      rw [shape₁.compatible_eq] at fits
      refine ⟨?_, ?_⟩
      · rw [runAll, Runs.run_bind_ok first, Runs.run_bind_ok others]
        rfl
      · rw [types, List.map_cons, List.foldlM_cons, fits]
        exact found
    · rintro ⟨run, found⟩
      obtain ⟨node, s₁, first, run⟩ := Runs.of_bind_ok run
      obtain ⟨rest, s₂, others, run⟩ := Runs.of_bind_ok run
      cases run
      have shape₁ := shape.trans ((keeps.1 ctx s).of_ok first)
      rw [types, List.map_cons, List.foldlM_cons] at found
      obtain ⟨acc', fits, found⟩ := Option.bind_eq_some_iff.mp found
      rw [← shape₁.compatible_eq] at fits
      have later := (ih keeps.2 shape₁).mpr ⟨others, found⟩
      have ends₁ := ends.sameShape shape₁
      rw [elementNodes, Runs.run_bind_ok first, run_get_bind,
        Runs.walk_bind_of_ends (ends₁.compatibleEnds ..)]
      simp only [fits]
      rw [Runs.run_bind_ok later]
      rfl

theorem entryNodes_of_pairNodes {ds : List (Deferred × Deferred)} {key value k v : Ty}
    (run : (pairNodes ctx key value ds).run s = (.ok (pairs, k, v), s')) :
    (entryNodes ctx ds).run s = (.ok pairs, s') := by
  induction ds generalizing s key value pairs with
  | nil =>
    cases run
    rfl
  | cons d ds ih =>
    obtain ⟨kd, vd⟩ := d
    obtain ⟨keyNode, s₁, first, run⟩ := Runs.of_bind_ok run
    obtain ⟨valueNode, s₂, second, run⟩ := Runs.of_bind_ok run
    rw [run_get_bind, Runs.run_walk_bind_iff] at run
    replace run := run.2
    split at run
    · cases run
    rw [Runs.run_walk_bind_iff] at run
    replace run := run.2
    split at run
    · cases run
    obtain ⟨⟨rest, last⟩, s₃, others, run⟩ := Runs.of_bind_ok run
    cases run
    rw [entryNodes, Runs.run_bind_ok first, Runs.run_bind_ok second, Runs.run_bind_ok (ih others)]
    rfl

theorem pairNodes_eq_ok_iff {ds : List (Deferred × Deferred)} {k v : Ty} (ends : h.ClassesEnd)
    (keeps : ∀ d ∈ ds, d.1.KeepsShape ∧ d.2.KeepsShape) (shape : h.SameShape s.hierarchy) :
    (pairNodes ctx .hole .hole ds).run s = (.ok (pairs, k, v), s') ↔
      (entryNodes ctx ds).run s = (.ok pairs, s') ∧
        joinAll h (keyTypes pairs) = some k ∧ joinAll h (valueTypes pairs) = some v := by
  have joined : (entryNodes ctx ds).run s = (.ok pairs, s') →
      ((pairNodes ctx .hole .hole ds).run s).1.toOption =
        (joinAll h (keyTypes pairs)).bind fun k =>
          (joinAll h (valueTypes pairs)).map fun v => (pairs, k, v) :=
    pairNodes_toOption ends keeps shape
  constructor
  · intro run
    have entries := entryNodes_of_pairNodes run
    have found := joined entries
    rw [run] at found
    obtain ⟨k', keys, found⟩ := Option.bind_eq_some_iff.mp found.symm
    obtain ⟨v', values, same⟩ := Option.map_eq_some_iff.mp found
    cases same
    exact ⟨entries, keys, values⟩
  · rintro ⟨entries, keys, values⟩
    have found := joined entries
    rw [keys, values] at found
    -- `found` is about the result alone: the state is the one in which the entries end
    rcases ends : (pairNodes ctx .hole .hole ds).run s with ⟨result, s''⟩
    rw [ends] at found
    cases result with
    | error stop => cases found
    | ok given =>
      obtain rfl : given = (pairs, k, v) := Option.some.inj found
      have entries' := entryNodes_of_pairNodes ends
      rw [entries] at entries'
      cases entries'
      rfl

/-! ## Literals -/

section Literals

variable {ds : List Deferred} (ends : s.hierarchy.ClassesEnd) (keeps : ∀ d ∈ ds, d.KeepsShape)
include ends keeps

/-- Lists and sets differ in the node that is made of the elements and their type. -/
theorem bind_elementNodes_eq_ok_iff (container : String) (make : List Expr → Ty → Expr) :
    (elementNodes ctx container .hole ds >>= fun (nodes, e) => pure (make nodes e)).run s =
        (.ok node, s') ↔
      ∃ nodes e, (runAll ctx ds).run s = (.ok nodes, s') ∧
        elementType? s.hierarchy (types nodes) = some e ∧ node = make nodes e := by
  constructor
  · intro run
    obtain ⟨⟨nodes, e⟩, s₁, elements, run⟩ := Runs.of_bind_ok run
    cases run
    obtain ⟨elements, found⟩ := (elementNodes_eq_ok_iff ends keeps (.refl _)).mp elements
    exact ⟨nodes, e, elements, found, rfl⟩
  · rintro ⟨nodes, e, elements, found, rfl⟩
    have gathered : (elementNodes ctx container .hole ds).run s = (.ok (nodes, e), s') :=
      (elementNodes_eq_ok_iff ends keeps (.refl _)).mpr ⟨elements, found⟩
    rw [Runs.run_bind_ok gathered]
    rfl

theorem listNode_eq_ok_iff : (listNode ctx ds).run s = (.ok node, s') ↔
    ∃ nodes e, (runAll ctx ds).run s = (.ok nodes, s') ∧
      elementType? s.hierarchy (types nodes) = some e ∧ node = ⟨.list nodes, .list e⟩ :=
  bind_elementNodes_eq_ok_iff ends keeps "list" fun nodes e => ⟨.list nodes, .list e⟩

theorem setNode_eq_ok_iff : (setNode ctx ds).run s = (.ok node, s') ↔
    ∃ nodes e, (runAll ctx ds).run s = (.ok nodes, s') ∧
      elementType? s.hierarchy (types nodes) = some e ∧ node = ⟨.set nodes, .set e⟩ :=
  bind_elementNodes_eq_ok_iff ends keeps "set" fun nodes e => ⟨.set nodes, .set e⟩

end Literals

theorem dictNode_eq_ok_iff {keys values : List Deferred} (ends : s.hierarchy.ClassesEnd)
    (keeps : ∀ d ∈ keys.zip values, d.1.KeepsShape ∧ d.2.KeepsShape) :
    (dictNode ctx keys values).run s = (.ok node, s') ↔
      ∃ pairs k v, (entryNodes ctx (keys.zip values)).run s = (.ok pairs, s') ∧
        joinAll s.hierarchy (keyTypes pairs) = some k ∧
        joinAll s.hierarchy (valueTypes pairs) = some v ∧
        node = ⟨.dictionary pairs, .dictionary k v⟩ := by
  constructor
  · intro run
    obtain ⟨⟨pairs, k, v⟩, s₁, entries, run⟩ := Runs.of_bind_ok run
    cases run
    obtain ⟨entries, keyed, valued⟩ := (pairNodes_eq_ok_iff ends keeps (.refl _)).mp entries
    exact ⟨pairs, k, v, entries, keyed, valued, rfl⟩
  · rintro ⟨pairs, k, v, entries, keyed, valued, rfl⟩
    have joined := (pairNodes_eq_ok_iff ends keeps (.refl _)).mpr ⟨entries, keyed, valued⟩
    rw [dictNode, Runs.run_bind_ok joined]
    rfl

theorem sharedType_eq_foldlM (acc : Ty) : sharedType h acc ts = ts.foldlM (compatible h) acc := by
  induction ts generalizing acc with
  | nil => rfl
  | cons t ts ih =>
    rw [sharedType, List.foldlM_cons]
    exact congrArg _ (funext ih)

/-- What a tuple literal becomes. -/
def IsTuple (h : Hierarchy) (nodes : List Expr) (node : Expr) : Prop :=
  (∃ e, arrayType? h (types nodes) = some e ∧ node = ⟨.array nodes, .array e nodes.length⟩) ∨
    arrayType? h (types nodes) = none ∧ node = ⟨.tuple nodes, .tuple (types nodes)⟩

theorem isTuple_iff : IsTuple h nodes node ↔ node = tupleOf h nodes := by
  have empty : (types nodes).isEmpty = nodes.isEmpty := by
    cases nodes <;> rfl
  unfold IsTuple tupleOf arrayType?
  rw [sharedType_eq_foldlM, empty]
  cases (types nodes).foldlM (compatible h) .hole with
  | none => simp
  | some e =>
    cases other : nodes.isEmpty || e.hasHoles with
    | true =>
      have refused : (!nodes.isEmpty && !e.hasHoles) = false := by
        rw [← Bool.not_or, other]
        rfl
      simp [other, Option.filter_some, refused]
    | false =>
      have taken : (!nodes.isEmpty && !e.hasHoles) = true := by
        rw [← Bool.not_or, other]
        rfl
      simp [other, Option.filter_some, taken]

theorem tupleNode_eq_ok_iff {ds : List Deferred} (ends : s.hierarchy.ClassesEnd)
    (keeps : ∀ d ∈ ds, d.KeepsShape) :
    (tupleNode ctx ds).run s = (.ok node, s') ↔
      ∃ nodes, (runAll ctx ds).run s = (.ok nodes, s') ∧ IsTuple s.hierarchy nodes node := by
  have afterwards : ∀ {nodes s₁}, (runAll ctx ds).run s = (.ok nodes, s₁) →
      (IsTuple s.hierarchy nodes node ↔ node = tupleOf s₁.hierarchy nodes) := by
    intro nodes s₁ elements
    rw [← isTuple_iff, IsTuple, IsTuple, arrayType?_sameShape (runAll_keepsShape keeps elements)]
  constructor
  · intro run
    obtain ⟨nodes, s₁, elements, run⟩ := Runs.of_bind_ok run
    rw [run_get_bind, Runs.run_walk_bind_iff] at run
    cases run.2
    exact ⟨nodes, elements, (afterwards elements).mpr rfl⟩
  · rintro ⟨nodes, elements, isTuple⟩
    have ends' := ends.sameShape (runAll_keepsShape keeps elements)
    rw [(afterwards elements).mp isTuple, tupleNode, Runs.run_bind_ok elements, run_get_bind,
      Runs.walk_bind_of_ends (ends'.sharedTypeEnds ..)]
    rfl

end Translate

/-! ## Top theorem -/

open Typed Translate in
/-- When the literals of the four containers are accepted, and as what.  Where classes are declared
once and none has the name of a number, each of the types that were brought together is usable as
the type that was found, as it is. -/
theorem literals_homogeneous {setting : Setting} {n : Nat} {ctx : Context} {s : State}
    (once : s.hierarchy.DeclaredOnce) (noInt : ¬s.hierarchy.isClass intName)
    (noFloat : ¬s.hierarchy.isClass floatName) :
    let t : Translator := ⟨setting, inferAt setting n⟩
    (∀ pos elts node s', (expr t ⟨.list elts, pos⟩ ctx).run s = (.ok node, s') ↔
      ∃ nodes e, (runAll ctx (exprs t elts)).run s = (.ok nodes, s') ∧
        elementType? s.hierarchy (types nodes) = some e ∧ node = ⟨.list nodes, .list e⟩) ∧
    (∀ pos elts node s', (expr t ⟨.set elts, pos⟩ ctx).run s = (.ok node, s') ↔
      ∃ nodes e, (runAll ctx (exprs t elts)).run s = (.ok nodes, s') ∧
        elementType? s.hierarchy (types nodes) = some e ∧ node = ⟨.set nodes, .set e⟩) ∧
    (∀ pos keys values node s', (expr t ⟨.dict keys values, pos⟩ ctx).run s = (.ok node, s') ↔
      ∃ pairs k v,
        (entryNodes ctx ((exprs t keys).zip (exprs t values))).run s = (.ok pairs, s') ∧
        joinAll s.hierarchy (keyTypes pairs) = some k ∧
        joinAll s.hierarchy (valueTypes pairs) = some v ∧
        node = ⟨.dictionary pairs, .dictionary k v⟩) ∧
    (∀ pos elts node s', (expr t ⟨.tuple elts, pos⟩ ctx).run s = (.ok node, s') ↔
      ∃ nodes, (runAll ctx (exprs t elts)).run s = (.ok nodes, s') ∧
        ((∃ e, arrayType? s.hierarchy (types nodes) = some e ∧
            node = ⟨.array nodes, .array e nodes.length⟩) ∨
          arrayType? s.hierarchy (types nodes) = none ∧
            node = ⟨.tuple nodes, .tuple (types nodes)⟩)) ∧
    ∀ ts e, (∀ t ∈ ts, t.describesValue) →
      elementType? s.hierarchy ts = some e ∨ joinAll s.hierarchy ts = some e ∨
        arrayType? s.hierarchy ts = some e →
      ∀ t ∈ ts, compatible s.hierarchy t e = some e := by
  intro t
  have apart := once.numbersApart noInt noFloat
  have ends := once.acyclic.classesEnd
  have keeps : ∀ es, ∀ d ∈ exprs t es, d.KeepsShape := fun es => exprs_keepShape setting n es
  have keepsBoth : ∀ es es', ∀ d ∈ (exprs t es).zip (exprs t es'),
      d.1.KeepsShape ∧ d.2.KeepsShape := fun es es' d hd =>
    ⟨keeps es d.1 (List.of_mem_zip hd).1, keeps es' d.2 (List.of_mem_zip hd).2⟩
  refine ⟨?_, ?_, ?_, ?_, ?_⟩
  · intro pos elts node s'
    rw [expr, Runs.run_located_iff, exprKind]
    exact listNode_eq_ok_iff ends (keeps elts)
  · intro pos elts node s'
    rw [expr, Runs.run_located_iff, exprKind]
    exact setNode_eq_ok_iff ends (keeps elts)
  · intro pos keys values node s'
    rw [expr, Runs.run_located_iff, exprKind]
    exact dictNode_eq_ok_iff ends (keepsBoth keys values)
  · intro pos elts node s'
    rw [expr, Runs.run_located_iff, exprKind]
    exact tupleNode_eq_ok_iff ends (keeps elts)
  · intro ts e values found
    have plain : ∀ t ∈ ts, t.isPlain := fun t ht => isPlain_of_describesValue (values t ht)
    rcases found with found | found | found
    · exact widens_elementType apart plain found
    · exact widens_joinAll apart plain found
    · exact widens_arrayType apart plain found

namespace Translate

/-- The types of some elements in the gallery. -/
def galleryElements (elts : List Tree.Expr) : Option (List Ty) :=
  ((runAll .ofModule (exprs bare elts)).run gallery).1.toOption.map Typed.types

theorem exists_elements {elts : List Tree.Expr} (found : galleryElements elts = some ts) :
    ∃ nodes s', (runAll .ofModule (exprs bare elts)).run gallery = (.ok nodes, s') ∧
      Typed.types nodes = ts := by
  unfold galleryElements at found
  rcases ends : (runAll .ofModule (exprs bare elts)).run gallery with ⟨result, s'⟩
  rw [ends] at found
  cases result with
  | ok nodes => exact ⟨nodes, s', rfl, Option.some.inj found⟩
  | error stop => cases found

end Translate

open Tree.Build in
/-- `Shape()` and `Square()`. -/
def shapeThenSquare : List Tree.Expr := [call (name "Shape") [], call (name "Square") []]

open Translate in
set_option maxRecDepth 100000 in
/-- `[Shape(), Square()]` is a list of shapes, `(Square(), Shape())` an array of two shapes, and
`(Shape(), Square())` stays a tuple. -/
theorem literals_homogeneous_shapes :
    shapes.DeclaredOnce ∧ ¬shapes.isClass intName ∧ ¬shapes.isClass floatName ∧
    (∃ nodes s', (expr bare ⟨.list shapeThenSquare, ⟨1, 0⟩⟩ .ofModule).run gallery =
      (.ok ⟨.list nodes, .list (atom "Shape")⟩, s')) ∧
    (∃ nodes s', (expr bare ⟨.tuple shapeThenSquare.reverse, ⟨1, 0⟩⟩ .ofModule).run gallery =
      (.ok ⟨.array nodes, .array (atom "Shape") nodes.length⟩, s')) ∧
    (∃ nodes s', (expr bare ⟨.tuple shapeThenSquare, ⟨1, 0⟩⟩ .ofModule).run gallery =
      (.ok ⟨.tuple nodes, .tuple (Typed.types nodes)⟩, s')) ∧
    compatible shapes (atom "Square") (atom "Shape") = some (atom "Shape") := by
  have noInt : ¬shapes.isClass intName := by
    decide
  have noFloat : ¬shapes.isClass floatName := by
    decide
  have listed : elementType? shapes [atom "Shape", atom "Square"] = some (atom "Shape") := by
    decide +kernel
  have shared : arrayType? shapes [atom "Square", atom "Shape"] = some (atom "Shape") := by
    decide +kernel
  have mixed : arrayType? shapes [atom "Shape", atom "Square"] = none := by
    decide +kernel
  have typed : galleryElements shapeThenSquare = some [atom "Shape", atom "Square"] := by
    decide +kernel
  have typed' : galleryElements shapeThenSquare.reverse = some [atom "Square", atom "Shape"] := by
    decide +kernel
  obtain ⟨nodes, s₁, forth, types⟩ := exists_elements typed
  obtain ⟨nodes', s₂, back, types'⟩ := exists_elements typed'
  obtain ⟨lists, -, -, tuples, fits⟩ :=
    @literals_homogeneous bare.setting 0 .ofModule gallery shapes_declaredOnce noInt noFloat
  refine ⟨shapes_declaredOnce, noInt, noFloat, ⟨nodes, s₁, ?_⟩, ⟨nodes', s₂, ?_⟩,
    ⟨nodes, s₁, ?_⟩, ?_⟩
  · exact (lists _ _ _ _).mpr ⟨nodes, atom "Shape", forth, types ▸ listed, rfl⟩
  · exact (tuples _ _ _ _).mpr ⟨nodes', back, .inl ⟨atom "Shape", types' ▸ shared, rfl⟩⟩
  · exact (tuples _ _ _ _).mpr ⟨nodes, forth, .inr ⟨types ▸ mixed, rfl⟩⟩
  · exact fits [atom "Shape", atom "Square"] _ (by decide) (.inl listed) _ (by decide)

end TreeTyper
