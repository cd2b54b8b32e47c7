import TreeTyper.Proofs.Fitting
import TreeTyper.Proofs.Placeholders

/-!
# Compatibility is a partial order

Where the classes of a module are declared once, each after its base, no way up
comes back to where it began; two types that widen to each other are the same.

    h.DeclaredOnce → Acyclic h.base?                                   (DeclaredOnce.acyclic)
    a.Widens h b → b.Widens h a → a = b                                (Widens.antisymm)

The hierarchies of a module whose classes have different names are of this kind, from
its outline on.
-/

namespace TreeTyper

namespace Hierarchy

variable {h h' : Hierarchy} {a b : String}

/-! ## Classes that are declared once -/

/-- The hierarchies that declarations build if no class is declared again.  The base of a class is
declared before it, or the declaration fails. -/
inductive DeclaredOnce : Hierarchy → Prop
  | empty : DeclaredOnce .empty
  | declareClass {h h' name base} : DeclaredOnce h → ¬h.isClass name →
      h.declareClass name base = some h' → DeclaredOnce h'
  | declareMethod {h h' cells cells' className method arity cell} : DeclaredOnce h →
      h.declareMethod cells className method arity = some (h', cells', cell) → DeclaredOnce h'
  | registerAttribute {h className entry} : DeclaredOnce h →
      DeclaredOnce (h.registerAttribute className entry)
  | updateAttribute {h owner name ty makePublic} : DeclaredOnce h →
      DeclaredOnce (h.updateAttribute owner name ty makePublic)
  | declareException {h name base} : DeclaredOnce h → DeclaredOnce (h.declareException name base)

theorem SameBases.declareMethod {cells cells' : Cells} {className method : String} {arity : Nat}
    {cell : CellId} (declared : h.declareMethod cells className method arity =
      some (h', cells', cell)) : SameBases h h' := by
  obtain ⟨info, found, rfl, -⟩ := declareMethod_cases declared
  exact .withClass _ found rfl

theorem SameShape.sameBases (same : SameShape h h') : SameBases h h' :=
  ⟨same.base?_eq, funext same.isClass_eq, same.exceptions, Nat.le_of_eq same.size.symm⟩

namespace DeclaredOnce

theorem basesDeclared (once : h.DeclaredOnce) : h.BasesDeclared := by
  induction once with
  | empty =>
    intro a b above
    cases above
  | declareClass _ _ declared ih => exact ih.declareClass declared
  | declareMethod _ declared ih => exact ih.sameBases (.declareMethod declared)
  | registerAttribute _ ih => exact ih.sameBases (SameShape.registerAttribute ..).sameBases
  | updateAttribute _ ih => exact ih.sameBases (SameShape.updateAttribute ..).sameBases
  | declareException _ ih => exact ih

/-- A new class stands below others only, so no way leads up to it. -/
theorem acyclic (once : h.DeclaredOnce) : Acyclic h.base? := by
  induction once with
  | empty =>
    intro a up above
    cases above
  | @declareClass h h' name base once fresh declared ih =>
    have link := base?_declareClass declared
    refine (ih.redirect_iff fun x differs => (link x).trans (if_neg differs)).mpr ?_
    intro up above leads
    rw [link, if_pos rfl] at above
    have isBase : h.isClass up := by
      obtain ⟨_, _, -, ⟨none, -⟩ | ⟨b, info, some, found, -⟩⟩ := declareClass_cases declared
      · rw [none] at above
        cases above
      · rw [some] at above
        cases above
        rw [isClass, Table.contains, found]
        rfl
    exact fresh (once.basesDeclared.isClass isBase (isSubclass_iff.mpr leads))
  | declareMethod _ declared ih =>
    rw [(SameBases.declareMethod declared).base?]
    exact ih
  | registerAttribute _ ih =>
    rw [(SameShape.registerAttribute ..).base?_eq]
    exact ih
  | updateAttribute _ ih =>
    rw [(SameShape.updateAttribute ..).base?_eq]
    exact ih
  | declareException _ ih => exact ih

theorem numbersApart (once : h.DeclaredOnce) (int : ¬h.isClass Ty.intName)
    (float : ¬h.isClass Ty.floatName) : h.NumbersApart :=
  ⟨once.basesDeclared, int, float⟩

end DeclaredOnce

theorem Acyclic.leads_antisymm {next : String → Option String} (acyclic : Acyclic next)
    (ab : Leads next a b) (ba : Leads next b a) : a = b := by
  rcases Relation.ReflTransGen.cases_head ab with same | ⟨up, above, rest⟩
  · exact same
  · exact absurd (rest.trans ba) (acyclic a up above)

end Hierarchy

/-! ## Modules -/

namespace Translate

variable {o o' : Outline} {s s' : State}

theorem Members.declaredOnce {className : String} {body : List Tree.Stmt}
    (members : Members className s body s') (once : s.hierarchy.DeclaredOnce) :
    s'.hierarchy.DeclaredOnce := by
  induction members with
  | nil => exact once
  | pass _ ih => exact ih once
  | method _ _ declared _ ih => exact ih (once.declareMethod declared)

theorem Outlines.declaredOnce {stmt : Tree.Stmt} (run : Outlines o s stmt o' s')
    (once : s.hierarchy.DeclaredOnce)
    (fresh : ∀ c, stmt.className? = some c → ¬s.hierarchy.isClass c) :
    s'.hierarchy.DeclaredOnce := by
  cases run with
  | @classDef s' d pos hierarchy _ _ _ declared members =>
    exact members.declaredOnce (once.declareClass (fresh d.name rfl) declared)
  | exception => exact once.declareException
  | _ => exact once

/-- A pass that declares no class again, and none that is declared before it. -/
theorem OutlinesAll.declaredOnce {stmts : List Tree.Stmt} (run : OutlinesAll o s stmts o' s')
    (once : s.hierarchy.DeclaredOnce) (distinct : (stmts.filterMap Tree.Stmt.className?).Nodup)
    (fresh : ∀ c ∈ stmts.filterMap Tree.Stmt.className?,
      ¬(s.hierarchy.isClass c ∨ s.hierarchy.isCustomException c)) :
    s'.hierarchy.DeclaredOnce := by
  induction run with
  | nil => exact once
  | @cons o s stmt o₁ s₁ rest o' s' first _ ih =>
    have later := (List.sublist_cons_self stmt rest).filterMap Tree.Stmt.className?
    refine ih (first.declaredOnce once fun c named isClass => fresh c ?_ (.inl isClass)) ?_
      fun c hc known => ?_
    · exact List.mem_filterMap.mpr ⟨stmt, List.mem_cons_self, named⟩
    · exact distinct.sublist later
    · rcases first.isClass known with before | named
      · exact fresh c (later.subset hc) before
      · rw [List.filterMap_cons_some named] at distinct
        exact (List.nodup_cons.mp distinct).1 hc

/-- The classes of a module are declared once if their names are different. -/
theorem outline_declaredOnce {api : ApiTables} {m : Tree.Module} {o : Outline} {start : State}
    (distinct : m.classNames.Nodup) (outlined : (outline api m).run .empty = (.ok o, start)) :
    start.hierarchy.DeclaredOnce := by
  refine ((outlineFrom_runs m.body).of_ok outlined).declaredOnce .empty distinct fun c _ known => ?_
  simp [State.empty, Hierarchy.empty, Hierarchy.isClass, Hierarchy.isCustomException,
    Table.contains] at known

end Translate

/-! ## Two types that widen to each other -/

namespace Ty

variable {h : Hierarchy}

theorem widens_hole_iff {t : Ty} : t.Widens h hole ↔ t = hole := by
  unfold Widens
  rw [compatible_hole_right, Option.some.injEq]

/-- A `Float` is not usable as an `Int` where no class has the name of a number. -/
theorem not_float_widens_int (apart : h.NumbersApart) : ¬float.Widens h int := by
  intro widens
  obtain ⟨_, same, accepted⟩ := atom_widens_iff.mp widens
  cases same
  rw [compatibleAtoms_iff] at accepted
  rcases accepted with same | ⟨same, -⟩ | ⟨isClass, -⟩
  · exact absurd same (by decide)
  · exact absurd same (by decide)
  · exact apart.float isClass

/-- An atom that is usable as another one is `Int` and the other `Float`, or both are classes of
which the second is above the first. -/
theorem atom_eq_of_widens (directed : ¬float.Widens h int) (acyclic : Hierarchy.Acyclic h.base?)
    {a b : String} (ab : (atom a).Widens h (atom b)) (ba : (atom b).Widens h (atom a)) : a = b := by
  obtain ⟨_, same, first⟩ := atom_widens_iff.mp ab
  obtain ⟨_, same', second⟩ := atom_widens_iff.mp ba
  cases same
  cases same'
  rcases first with first | first
  · exact first
  rcases second with second | second
  · exact second.symm
  rw [compatibleAtoms_iff] at first second
  rcases first with ⟨rfl, rfl⟩ | ⟨-, above⟩
  · exact absurd ba directed
  · rcases second with ⟨rfl, rfl⟩ | ⟨-, below⟩
    · exact absurd ab directed
    · exact acyclic.leads_antisymm (Hierarchy.isSubclass_iff.mp above)
        (Hierarchy.isSubclass_iff.mp below)

mutual

theorem Widens.antisymm (directed : ¬float.Widens h int) (acyclic : Hierarchy.Acyclic h.base?) :
    ∀ {a b : Ty}, a.Widens h b → b.Widens h a → a = b
  | hole, _, _, ba => (widens_hole_iff.mp ba).symm
  | atom a, _, ab, ba => by
    obtain ⟨b, rfl, -⟩ := atom_widens_iff.mp ab
    rw [atom_eq_of_widens directed acyclic ab ba]
  | list a, _, ab, ba => by
    obtain ⟨b, rfl, first⟩ := list_widens_iff.mp ab
    obtain ⟨_, same, second⟩ := list_widens_iff.mp ba
    cases same
    rw [Widens.antisymm directed acyclic first second]
  | set a, _, ab, ba => by
    obtain ⟨b, rfl, first⟩ := set_widens_iff.mp ab
    obtain ⟨_, same, second⟩ := set_widens_iff.mp ba
    cases same
    rw [Widens.antisymm directed acyclic first second]
  | array a n, _, ab, ba => by
    obtain ⟨b, rfl, first⟩ := array_widens_iff.mp ab
    obtain ⟨_, same, second⟩ := array_widens_iff.mp ba
    cases same
    rw [Widens.antisymm directed acyclic first second]
  | dictionary k v, _, ab, ba => by
    obtain ⟨k', v', rfl, keys, values⟩ := dictionary_widens_iff.mp ab
    obtain ⟨_, _, same, keys', values'⟩ := dictionary_widens_iff.mp ba
    cases same
    rw [Widens.antisymm directed acyclic keys keys',
      Widens.antisymm directed acyclic values values']
  | tuple as, _, ab, ba => by
    obtain ⟨bs, rfl, first⟩ := tuple_widens_iff.mp ab
    obtain ⟨_, same, second⟩ := tuple_widens_iff.mp ba
    cases same
    rw [forall₂_widens_antisymm directed acyclic first second]
  | function ps r, _, ab, ba => by
    obtain ⟨ps', r', rfl, params, rets⟩ := function_widens_iff.mp ab
    obtain ⟨_, _, same, params', rets'⟩ := function_widens_iff.mp ba
    cases same
    rw [forall₂_widens_antisymm directed acyclic params params',
      Widens.antisymm directed acyclic rets rets']
  | any, _, ab, _ => (any_widens_iff.mp ab).symm
  | number, _, ab, _ => (number_widens_iff.mp ab).symm
  | placeholder _, _, ab, _ => (placeholder_widens_iff.mp ab).symm

theorem forall₂_widens_antisymm (directed : ¬float.Widens h int)
    (acyclic : Hierarchy.Acyclic h.base?) : ∀ {as bs : List Ty},
    List.Forall₂ (Widens h) as bs → List.Forall₂ (Widens h) bs as → as = bs
  | [], _, .nil, .nil => rfl
  | _ :: _, _, .cons ab abs, .cons ba bas => by
    rw [Widens.antisymm directed acyclic ab ba, forall₂_widens_antisymm directed acyclic abs bas]

end

mutual

theorem isPlain_of_describesValue : ∀ {t : Ty}, t.describesValue → t.isPlain
  | atom _, _ => rfl
  | hole, _ => rfl
  | any, impossible => by cases impossible
  | number, impossible => by cases impossible
  | placeholder _, impossible => by cases impossible
  | list t, value => isPlain_of_describesValue (t := t) value
  | set t, value => isPlain_of_describesValue (t := t) value
  | array t _, value => isPlain_of_describesValue (t := t) value
  | dictionary k v, value => by
    obtain ⟨key, value⟩ := Bool.and_eq_true_iff.mp value
    exact Bool.and_eq_true_iff.mpr ⟨isPlain_of_describesValue key, isPlain_of_describesValue value⟩
  | tuple _, values => allPlain_of_describeValues values
  | function ps r, value => by
    obtain ⟨params, ret⟩ := Bool.and_eq_true_iff.mp value
    exact Bool.and_eq_true_iff.mpr
      ⟨allPlain_of_describeValues params, isPlain_of_describesValue ret⟩

theorem allPlain_of_describeValues : ∀ {ts : List Ty},
    allDrawnFrom (fun _ => true) (fun _ => false) ts → allPlain ts
  | [], _ => rfl
  | t :: ts, values => by
    obtain ⟨value, values⟩ := Bool.and_eq_true_iff.mp values
    exact Bool.and_eq_true_iff.mpr
      ⟨isPlain_of_describesValue value, allPlain_of_describeValues values⟩

end

theorem hole_widens_of_describesValue {t : Ty} (value : t.describesValue) : hole.Widens h t := by
  refine hole_widens_iff.mpr ⟨?_, ?_⟩
  · rintro rfl
    cases value
  · rintro rfl
    cases value

end Ty

/-! ## The order -/

open Ty in
/-- Compatibility orders the types, whatever they hold; the hole is below every type of a value. -/
theorem compatible_partial_order {h : Hierarchy} (once : h.DeclaredOnce)
    (noInt : ¬h.isClass intName) (noFloat : ¬h.isClass floatName) :
    (∀ a, compatible h a a = some a) ∧
    (∀ a b, compatible h a b = some b → compatible h b a = some a → a = b) ∧
    (∀ a b c, compatible h a b = some b → compatible h b c = some c → compatible h a c = some c) ∧
    ∀ a, a.describesValue → compatible h hole a = some a := by
  have apart := once.numbersApart noInt noFloat
  refine ⟨Widens.refl, fun a b => ?_, fun a b c => ?_, fun a => hole_widens_of_describesValue⟩
  · exact Widens.antisymm (not_float_widens_int apart) once.acyclic
  · exact Widens.trans apart

/-- `Shape` with `Square` and `Circle` below it. -/
def shapes : Hierarchy :=
  let declared := do
    let h ← Hierarchy.empty.declareClass "Shape" none
    let h ← h.declareClass "Square" (some "Shape")
    h.declareClass "Circle" (some "Shape")
  declared.getD .empty

theorem shapes_declaredOnce : shapes.DeclaredOnce := by
  have shape := @Hierarchy.DeclaredOnce.declareClass .empty _ "Shape" none .empty (by decide) rfl
  have square := @Hierarchy.DeclaredOnce.declareClass _ _ "Square" (some "Shape") shape
    (by decide) rfl
  exact @Hierarchy.DeclaredOnce.declareClass _ _ "Circle" (some "Shape") square (by decide) rfl

open Ty in
theorem compatible_partial_order_shapes :
    shapes.DeclaredOnce ∧ ¬shapes.isClass intName ∧ ¬shapes.isClass floatName ∧
    (∀ t, compatible shapes (list (atom "Square")) t = some t →
      compatible shapes t (list (atom "Square")) = some (list (atom "Square")) →
      list (atom "Square") = t) ∧
    compatible shapes (tuple [hole, int]) (tuple [atom "Shape", float]) =
      some (tuple [atom "Shape", float]) ∧
    compatible shapes hole (function [hole] (atom "Circle")) =
      some (function [hole] (atom "Circle")) := by
  have noInt : ¬shapes.isClass intName := by
    decide
  have noFloat : ¬shapes.isClass floatName := by
    decide
  obtain ⟨-, antisymm, trans, least⟩ :=
    compatible_partial_order shapes_declaredOnce noInt noFloat
  refine ⟨shapes_declaredOnce, noInt, noFloat, antisymm _, ?_, least _ rfl⟩
  exact trans _ (tuple [atom "Square", int]) _ (by decide +kernel) (by decide +kernel)

end TreeTyper
