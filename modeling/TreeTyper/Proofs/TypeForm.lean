import TreeTyper.Proofs.Placeholders
import TreeTyper.Ty.Json

/-!
# The JSON form of a type determines the type

Seven constructors become arrays, told apart by their heads; a function has the types
of its parameters and its result in one array, the result last.  What the form does
not tell is whether a name was that of an atom, of `any`, of `number` or of a
placeholder: two types have one form if they are the same with atoms in these places.

    a.json = b.json ↔ a.asAtoms = b.asAtoms                        (json_eq_iff)
    a.describesValue → a.asAtoms = a                               (asAtoms_of_describesValue)
-/

namespace TreeTyper

namespace Ty

/-! ## Names as atoms -/

mutual

/-- The type with an atom in place of everything else that is a name. -/
def asAtoms : Ty → Ty
  | any => atom "Any"
  | number => atom "Number"
  | placeholder p => atom p.name
  | atom name => atom name
  | hole => hole
  | list t => list (asAtoms t)
  | set t => set (asAtoms t)
  | array t n => array (asAtoms t) n
  | dictionary k v => dictionary (asAtoms k) (asAtoms v)
  | tuple ts => tuple (allAsAtoms ts)
  | function ps r => function (allAsAtoms ps) (asAtoms r)

def allAsAtoms : List Ty → List Ty
  | [] => []
  | t :: ts => asAtoms t :: allAsAtoms ts

end

mutual

theorem asAtoms_of_describesValue : ∀ {t : Ty}, t.describesValue → t.asAtoms = t
  | atom _, _ => rfl
  | hole, _ => rfl
  | any, impossible => by cases impossible
  | number, impossible => by cases impossible
  | placeholder _, impossible => by cases impossible
  | list t, value => congrArg list (asAtoms_of_describesValue (t := t) value)
  | set t, value => congrArg set (asAtoms_of_describesValue (t := t) value)
  | array t n, value => congrArg (array · n) (asAtoms_of_describesValue (t := t) value)
  | dictionary k v, value => by
    obtain ⟨key, value⟩ := Bool.and_eq_true_iff.mp value
    rw [asAtoms, asAtoms_of_describesValue key, asAtoms_of_describesValue value]
  | tuple _, values => congrArg tuple (allAsAtoms_of_describeValues values)
  | function ps r, value => by
    obtain ⟨params, ret⟩ := Bool.and_eq_true_iff.mp value
    rw [asAtoms, allAsAtoms_of_describeValues params, asAtoms_of_describesValue ret]

theorem allAsAtoms_of_describeValues : ∀ {ts : List Ty},
    allDrawnFrom (fun _ => true) (fun _ => false) ts → allAsAtoms ts = ts
  | [], _ => rfl
  | t :: ts, values => by
    obtain ⟨value, values⟩ := Bool.and_eq_true_iff.mp values
    rw [allAsAtoms, asAtoms_of_describesValue value, allAsAtoms_of_describeValues values]

end

/-! ## Equal forms -/

mutual

theorem json_asAtoms : ∀ t : Ty, t.asAtoms.json = t.json
  | any => rfl
  | number => rfl
  | placeholder _ => rfl
  | atom _ => rfl
  | hole => rfl
  | list t => by rw [asAtoms, json, json, json_asAtoms t]
  | set t => by rw [asAtoms, json, json, json_asAtoms t]
  | array t _ => by rw [asAtoms, json, json, json_asAtoms t]
  | dictionary k v => by rw [asAtoms, json, json, json_asAtoms k, json_asAtoms v]
  | tuple ts => by rw [asAtoms, json, json, jsonAll_allAsAtoms ts]
  | function ps r => by rw [asAtoms, json, json, jsonAll_allAsAtoms ps, json_asAtoms r]

theorem jsonAll_allAsAtoms : ∀ ts : List Ty, jsonAll (allAsAtoms ts) = jsonAll ts
  | [] => rfl
  | t :: ts => by rw [allAsAtoms, jsonAll, jsonAll, json_asAtoms t, jsonAll_allAsAtoms ts]

end

theorem asAtoms_of_json_str {t : Ty} {name : String} (form : t.json = .str name) :
    t.asAtoms = atom name := by
  cases t <;> simp_all [json, asAtoms]

mutual

/-- The head tells the constructor, and the items of the array are the forms of the parameters. -/
theorem asAtoms_eq_of_json_eq : ∀ {a b : Ty}, a.json = b.json → a.asAtoms = b.asAtoms
  -- four forms are written as a string, and all become the atom of that string
  | any, _, same => (asAtoms_of_json_str same.symm).symm
  | number, _, same => (asAtoms_of_json_str same.symm).symm
  | placeholder _, _, same => (asAtoms_of_json_str same.symm).symm
  | atom _, _, same => (asAtoms_of_json_str same.symm).symm
  | hole, b, same => by
    cases b with
    | hole => rfl
    | _ => simp [json] at same
  | list a, b, same => by
    cases b with
    | list b =>
      have elem : a.json = b.json := by simpa [json] using same
      rw [asAtoms, asAtoms, asAtoms_eq_of_json_eq elem]
    | _ => simp [json] at same
  | set a, b, same => by
    cases b with
    | set b =>
      have elem : a.json = b.json := by simpa [json] using same
      rw [asAtoms, asAtoms, asAtoms_eq_of_json_eq elem]
    | _ => simp [json] at same
  | array a n, b, same => by
    cases b with
    | array b m =>
      obtain ⟨elem, length⟩ : a.json = b.json ∧ (n : Int) = m := by simpa [json] using same
      rw [asAtoms, asAtoms, asAtoms_eq_of_json_eq elem, Int.ofNat.inj length]
    | _ => simp [json] at same
  | dictionary k v, b, same => by
    cases b with
    | dictionary k' v' =>
      obtain ⟨key, value⟩ : k.json = k'.json ∧ v.json = v'.json := by simpa [json] using same
      rw [asAtoms, asAtoms, asAtoms_eq_of_json_eq key, asAtoms_eq_of_json_eq value]
    | _ => simp [json] at same
  | tuple as, b, same => by
    cases b with
    | tuple bs =>
      have elems : jsonAll as = jsonAll bs := by simpa [json] using same
      rw [asAtoms, asAtoms, allAsAtoms_eq_of_jsonAll_eq elems]
    | _ => simp [json] at same
  | function ps r, b, same => by
    cases b with
    | function ps' r' =>
      -- the result is written after the parameters, as the last item
      have items : jsonAll ps ++ [r.json] = jsonAll ps' ++ [r'.json] := by
        simpa only [json, List.cons_append, Json.arr.injEq, List.cons.injEq, true_and] using same
      obtain ⟨params, ret⟩ := List.append_inj' items rfl
      rw [asAtoms, asAtoms, allAsAtoms_eq_of_jsonAll_eq params,
        asAtoms_eq_of_json_eq (List.cons.inj ret).1]
    | _ => simp [json] at same

theorem allAsAtoms_eq_of_jsonAll_eq : ∀ {as bs : List Ty}, jsonAll as = jsonAll bs →
    allAsAtoms as = allAsAtoms bs
  | [], [], _ => rfl
  | [], _ :: _, same => by cases same
  | _ :: _, [], same => by cases same
  | a :: as, b :: bs, same => by
    obtain ⟨first, rest⟩ := List.cons.inj same
    rw [allAsAtoms, allAsAtoms, asAtoms_eq_of_json_eq first, allAsAtoms_eq_of_jsonAll_eq rest]

end

/-- Two types have one form exactly if they are the same but for what their names stand for. -/
theorem json_eq_iff (a b : Ty) : a.json = b.json ↔ a.asAtoms = b.asAtoms := by
  refine ⟨asAtoms_eq_of_json_eq, fun same => ?_⟩
  rw [← json_asAtoms a, same, json_asAtoms]

end Ty

/-! ## Top theorem -/

open Ty

/-- Types of values with one form are the same. -/
theorem json_determines_type {a b : Ty} (valueA : a.describesValue) (valueB : b.describesValue)
    (same : a.json = b.json) : a = b := by
  have asAtoms := (json_eq_iff a b).mp same
  rwa [asAtoms_of_describesValue valueA, asAtoms_of_describesValue valueB] at asAtoms

/-- A function without parameters, and in its result a function, an array and an empty tuple. -/
def nested : Ty := function [] (tuple [function [int] hole, array (list string) 2, tuple []])

/-- The same type, the parts of its tuple put together. -/
def joined : Ty :=
  function [] (tuple ([function [int] hole] ++ [array (list string) 2] ++ [tuple []]))

theorem json_determines_type_nested :
    nested.describesValue ∧ joined.describesValue ∧
    nested.json = .arr [.str "Function", .arr [.str "Tuple",
      .arr [.str "Function", .str "Int", .null],
      .arr [.str "Array", .arr [.str "List", .str "String"], .int 2], .arr [.str "Tuple"]]] ∧
    joined.json = nested.json ∧ joined = nested := by
  have valueNested : nested.describesValue := by decide
  have valueJoined : joined.describesValue := by decide
  exact ⟨valueNested, valueJoined, rfl, rfl, json_determines_type valueJoined valueNested rfl⟩

/-- A class that is called `Any` has the form of `any`, which describes no value. -/
example : (atom "Any").json = any.json := rfl

end TreeTyper
