import TreeTyper.Proofs.Consistency
import TreeTyper.Proofs.Widening

/-!
# Checking and filling agree

Compatibility is asked where a value is used, filling where a type is kept.  What
compatibility gives is the expected type filled from the type of the value; and it
gives that exactly if the value is usable as the filled type as it is.  So a slot that
is known throughout never changes.

    b.isPlain → (compatible h a b = some c ↔ c = b.fill a ∧ a.Widens h c)   (compatible_iff_fill)

For `any` and `number` this fails: they accept a type and give it back, and filling
leaves them as they are.
-/

namespace TreeTyper

variable {h : Hierarchy}

open Ty

/-- What compatibility gives is the target, filled from the source. -/
theorem compatible_eq_fill {a b c : Ty} (plain : b.isPlain) (found : compatible h a b = some c) :
    c = b.fill a := by
  revert plain
  refine compatible_induction (P := fun a b c => b.isPlain → c = b.fill a)
    (Q := fun as bs cs => Ty.allPlain bs → bs.length = as.length ∧ cs = fillAll bs as)
    ?_ ?_ ?_ ?_ ?_ ?_ ?_ ?_ ?_ ?_ ?_ ?_ ?_ ?_ found
  · exact fun t _ => (FillsTo.refl t).symm
  -- `Any` and `Number` are not plain
  · exact fun t plain => nomatch plain
  · exact fun t _ plain => nomatch plain
  · exact fun t _ _ _ => (fill_hole_right t).symm
  · exact fun t _ => (fill_hole t).symm
  -- of two atoms the second one is the result
  · intro a b c atoms _
    rw [eq_of_compatibleAtoms atoms]
    rfl
  · exact fun a b c ih plain => congrArg list (ih plain)
  · exact fun a b c ih plain => congrArg set (ih plain)
  · exact fun a b c n ih plain => congrArg (array · n) (ih plain)
  · intro k k' k'' v v' v'' ihKey ihValue plain
    obtain ⟨plainKey, plainValue⟩ := Bool.and_eq_true_iff.mp plain
    exact congrArg₂ dictionary (ihKey plainKey) (ihValue plainValue)
  · intro as bs cs ih plain
    obtain ⟨lengths, filled⟩ := ih plain
    rw [fill, if_pos lengths, filled]
  · intro ps ps' ps'' r r' r'' ihParams ihRet plain
    obtain ⟨plainParams, plainRet⟩ := Bool.and_eq_true_iff.mp plain
    obtain ⟨lengths, filled⟩ := ihParams plainParams
    rw [fill, if_pos lengths, filled, ihRet plainRet]
  · exact fun _ => ⟨rfl, rfl⟩
  · intro a b c as bs cs ih ihAll plain
    obtain ⟨plainFirst, plainRest⟩ := Bool.and_eq_true_iff.mp plain
    obtain ⟨lengths, filled⟩ := ihAll plainRest
    exact ⟨congrArg (· + 1) lengths, congrArg₂ List.cons (ih plainFirst) filled⟩

mutual

/-- A value that is usable as the filled type is accepted by the type that was filled. -/
theorem compatible_of_widens_fill : ∀ {a b : Ty}, a.Widens h (b.fill a) →
    compatible h a b = some (b.fill a)
  | a, .hole, _ => by rw [fill_hole, compatible_hole_right]
  | a, .list b, widens => by
    cases a with
    | list a =>
      obtain ⟨_, same, inner⟩ := list_widens_iff.mp widens
      cases same
      rw [compatible_list, compatible_of_widens_fill inner]
      rfl
    -- an argument of another form leaves the list as it is: `widens` is the equation itself
    | _ => exact widens
  | a, .set b, widens => by
    cases a with
    | set a =>
      obtain ⟨_, same, inner⟩ := set_widens_iff.mp widens
      cases same
      rw [compatible_set, compatible_of_widens_fill inner]
      rfl
    | _ => exact widens
  | a, .array b n, widens => by
    cases a with
    | array a m =>
      obtain ⟨_, same, inner⟩ := array_widens_iff.mp widens
      cases same
      rw [compatible_array, if_pos rfl, compatible_of_widens_fill inner]
      rfl
    | _ => exact widens
  | a, .dictionary k v, widens => by
    cases a with
    | dictionary k' v' =>
      obtain ⟨_, _, same, keys, values⟩ := dictionary_widens_iff.mp widens
      cases same
      rw [compatible_dictionary, compatible_of_widens_fill keys, compatible_of_widens_fill values]
      rfl
    | _ => exact widens
  | a, .tuple bs, widens => by
    cases a with
    | tuple as =>
      rw [fill] at widens ⊢
      split at widens
      · next lengths =>
        obtain ⟨_, same, all⟩ := tuple_widens_iff.mp widens
        cases same
        rw [if_pos lengths, compatible_tuple, compatibleAll_of_widens_fillAll lengths all]
        rfl
      · next lengths =>
        rw [if_neg lengths]
        exact widens
    | _ => exact widens
  | a, .function ps r, widens => by
    cases a with
    | function ps' r' =>
      rw [fill] at widens ⊢
      split at widens
      · next lengths =>
        obtain ⟨_, _, same, params, ret⟩ := function_widens_iff.mp widens
        cases same
        rw [if_pos lengths, compatible_function, compatibleAll_of_widens_fillAll lengths params,
          compatible_of_widens_fill ret]
        rfl
      · next lengths =>
        rw [if_neg lengths]
        exact widens
    | _ => exact widens
  | a, .atom _, widens
  | a, .any, widens
  | a, .number, widens
  | a, .placeholder _, widens => by
    rw [fill_of_not_hasHoles _ a rfl] at widens ⊢
    exact widens

theorem compatibleAll_of_widens_fillAll : ∀ {as bs : List Ty}, bs.length = as.length →
    List.Forall₂ (Widens h) as (fillAll bs as) → compatibleAll h as bs = some (fillAll bs as)
  | [], [], _, _ => compatibleAll_self []
  | _ :: _, _ :: _, lengths, .cons first rest => by
    rw [compatibleAll_cons, compatible_of_widens_fill first,
      compatibleAll_of_widens_fillAll (Nat.succ.inj lengths) rest]
    rfl

end

theorem compatible_iff_fill {a b c : Ty} (plain : b.isPlain) :
    compatible h a b = some c ↔ c = b.fill a ∧ a.Widens h c := by
  constructor
  · exact fun found => ⟨compatible_eq_fill plain found, (fillsTo_compatible plain found).2⟩
  · rintro ⟨rfl, widens⟩
    exact compatible_of_widens_fill widens

theorem matchParamsFrom_eq_fillAll {name : String} {i : Nat} {params args found : List Ty}
    (plain : allPlain params) (lengths : params.length = args.length)
    (matched : matchParamsFrom h name i params args = .ok found) : found = fillAll params args := by
  induction params generalizing args found i with
  | nil =>
    cases args with
    | nil =>
      cases matched
      rfl
    | cons arg args => cases lengths
  | cons param params ih =>
    cases args with
    | nil => cases lengths
    | cons arg args =>
      obtain ⟨plainParam, plainParams⟩ := Bool.and_eq_true_iff.mp plain
      obtain ⟨t, ts, rfl, first, rest⟩ := matchParamsFrom_cons matched
      rw [fillAll, ih plainParams (Nat.succ.inj lengths) rest]
      rcases first with ⟨rfl, rfl⟩ | found
      · rw [fill_hole]
      · rw [compatible_eq_fill plainParam found]

/-! ## Top theorem -/

/-- What compatibility gives is the target filled from the source, and it gives that exactly if the
source widens to the filled target.  So a target without holes never changes, and a call leaves the
parameters of a definition filled from its arguments. -/
theorem compatible_is_filling (h : Hierarchy) {b : Ty} (plain : b.isPlain) :
    (∀ a c, compatible h a b = some c → c = b.fill a) ∧
    (∀ a, (compatible h a b).isSome ↔ a.Widens h (b.fill a)) ∧
    (b.hasHoles = false → ∀ a c, compatible h a b = some c → c = b) ∧
    ∀ name params args found, allPlain params → matchParams h params args name = .ok found →
      found = fillAll params args := by
  refine ⟨fun a c => compatible_eq_fill plain, fun a => ?_, fun full a c found => ?_,
    fun name params args found plainAll matched => ?_⟩
  · rw [Option.isSome_iff_exists]
    constructor
    · rintro ⟨c, found⟩
      obtain ⟨rfl, widens⟩ := (compatible_iff_fill plain).mp found
      exact widens
    · exact fun widens => ⟨_, compatible_of_widens_fill widens⟩
  · rw [compatible_eq_fill plain found, fill_of_not_hasHoles b a full]
  · unfold matchParams at matched
    split at matched
    · cases matched
    · next lengths => exact matchParamsFrom_eq_fillAll plainAll (not_not.mp lengths) matched

/-- A table of rows of which two places are not known yet. -/
def openTable : Ty := dictionary string (tuple [hole, float, list hole])

/-- A table under unknown keys, with an `Int` where the open one has a `Float`. -/
def keylessTable : Ty := dictionary hole (tuple [int, int, list string])

/-- The open table takes what is known of the other one and keeps its `Float`. -/
theorem compatible_is_filling_tables : openTable.isPlain ∧
    compatible .empty keylessTable openTable =
      some (dictionary string (tuple [int, float, list string])) ∧
    openTable.fill keylessTable = dictionary string (tuple [int, float, list string]) ∧
    keylessTable.Widens .empty (openTable.fill keylessTable) := by
  have plain : openTable.isPlain := by
    decide
  have found : compatible .empty keylessTable openTable =
      some (dictionary string (tuple [int, float, list string])) := by
    decide +kernel
  obtain ⟨filled, accepts, -⟩ := compatible_is_filling .empty plain
  refine ⟨plain, found, (filled _ _ found).symm, (accepts _).mp ?_⟩
  rw [found]
  rfl

end TreeTyper
