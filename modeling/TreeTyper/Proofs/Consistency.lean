import TreeTyper.Proofs.Filling

/-!
# Types that fill each other

A type refines another one if it is that type with some holes replaced by types.
Filling never fails: a slot that is known stays, whatever the evidence says.  So
nobody is told that two types disagree, but filling each from the other then gives
two results.  They are the same type exactly if some type refines both, and then it
is the least one.  Returns and the operators on lists and sets ask for this.

    a.RefinedBy (a.fill b)                                              (fillsTo_fill)
    a.fill b = b.fill a ↔ ∃ c, a.RefinedBy c ∧ b.RefinedBy c            (fill_comm_iff)
    mergeReturn name a b = .ok c ↔ IsMerge a b c                        (mergeReturn_iff)
-/

namespace TreeTyper

namespace Ty

/-! ## Refinement -/

/-- The second type is the first one with some holes replaced by types. -/
inductive RefinedBy : Ty → Ty → Prop
  | hole (t : Ty) : RefinedBy hole t
  | atom (name : String) : RefinedBy (atom name) (atom name)
  | any : RefinedBy any any
  | number : RefinedBy number number
  | placeholder (p : Placeholder) : RefinedBy (placeholder p) (placeholder p)
  | list {a b : Ty} : RefinedBy a b → RefinedBy (list a) (list b)
  | set {a b : Ty} : RefinedBy a b → RefinedBy (set a) (set b)
  | array {a b : Ty} (n : Nat) : RefinedBy a b → RefinedBy (array a n) (array b n)
  | dictionary {k k' v v' : Ty} : RefinedBy k k' → RefinedBy v v' →
      RefinedBy (dictionary k v) (dictionary k' v')
  | tuple {as bs : List Ty} : List.Forall₂ RefinedBy as bs → RefinedBy (tuple as) (tuple bs)
  | function {ps ps' : List Ty} {r r' : Ty} : List.Forall₂ RefinedBy ps ps' → RefinedBy r r' →
      RefinedBy (function ps r) (function ps' r')

mutual

/-- A type refines another one if the holes of that one are filled from it. -/
theorem refinedBy_iff_fillsTo : ∀ {a b : Ty}, a.RefinedBy b ↔ a.FillsTo b
  | .hole, b => ⟨fun _ => hole_fillsTo b, fun _ => .hole b⟩
  | .list a, b => by
    rw [list_fillsTo_iff]
    constructor
    · intro refines
      cases refines with
      | list inner => exact ⟨_, rfl, refinedBy_iff_fillsTo.mp inner⟩
    · rintro ⟨b, rfl, inner⟩
      exact .list (refinedBy_iff_fillsTo.mpr inner)
  | .set a, b => by
    rw [set_fillsTo_iff]
    constructor
    · intro refines
      cases refines with
      | set inner => exact ⟨_, rfl, refinedBy_iff_fillsTo.mp inner⟩
    · rintro ⟨b, rfl, inner⟩
      exact .set (refinedBy_iff_fillsTo.mpr inner)
  | .array a n, b => by
    rw [array_fillsTo_iff]
    constructor
    · intro refines
      cases refines with
      | array _ inner => exact ⟨_, rfl, refinedBy_iff_fillsTo.mp inner⟩
    · rintro ⟨b, rfl, inner⟩
      exact .array n (refinedBy_iff_fillsTo.mpr inner)
  | .dictionary k v, b => by
    rw [dictionary_fillsTo_iff]
    constructor
    · intro refines
      cases refines with
      | dictionary keys values =>
        exact ⟨_, _, rfl, refinedBy_iff_fillsTo.mp keys, refinedBy_iff_fillsTo.mp values⟩
    · rintro ⟨k', v', rfl, keys, values⟩
      exact .dictionary (refinedBy_iff_fillsTo.mpr keys) (refinedBy_iff_fillsTo.mpr values)
  | .tuple as, b => by
    rw [tuple_fillsTo_iff]
    constructor
    · intro refines
      cases refines with
      | tuple all => exact ⟨_, rfl, forall₂_refinedBy_iff.mp all⟩
    · rintro ⟨bs, rfl, all⟩
      exact .tuple (forall₂_refinedBy_iff.mpr all)
  | .function ps r, b => by
    rw [function_fillsTo_iff]
    constructor
    · intro refines
      cases refines with
      | function params ret =>
        exact ⟨_, _, rfl, forall₂_refinedBy_iff.mp params, refinedBy_iff_fillsTo.mp ret⟩
    · rintro ⟨ps', r', rfl, params, ret⟩
      exact .function (forall₂_refinedBy_iff.mpr params) (refinedBy_iff_fillsTo.mpr ret)
  -- without holes both relations are equality
  | .atom name, b => by
    rw [fillsTo_iff_of_not_hasHoles rfl]
    exact ⟨fun | .atom _ => rfl, fun same => same ▸ .atom name⟩
  | .any, b => by
    rw [fillsTo_iff_of_not_hasHoles rfl]
    exact ⟨fun | .any => rfl, fun same => same ▸ .any⟩
  | .number, b => by
    rw [fillsTo_iff_of_not_hasHoles rfl]
    exact ⟨fun | .number => rfl, fun same => same ▸ .number⟩
  | .placeholder p, b => by
    rw [fillsTo_iff_of_not_hasHoles rfl]
    exact ⟨fun | .placeholder _ => rfl, fun same => same ▸ .placeholder p⟩

theorem forall₂_refinedBy_iff : ∀ {as bs : List Ty},
    List.Forall₂ RefinedBy as bs ↔ List.Forall₂ FillsTo as bs
  | [], bs => by simp
  | a :: as, [] => by simp
  | a :: as, b :: bs => by
    rw [List.forall₂_cons, List.forall₂_cons, refinedBy_iff_fillsTo, forall₂_refinedBy_iff]

end

/-! ## Below a type -/

@[simp] theorem fill_hole_right (t : Ty) : t.fill hole = t := by
  cases t <;> simp [fill]

theorem fillsTo_list_iff {t c : Ty} :
    t.FillsTo (list c) ↔ t = hole ∨ ∃ a, t = list a ∧ a.FillsTo c := by
  unfold FillsTo
  cases t <;> simp [fill]

theorem fillsTo_set_iff {t c : Ty} :
    t.FillsTo (set c) ↔ t = hole ∨ ∃ a, t = set a ∧ a.FillsTo c := by
  unfold FillsTo
  cases t <;> simp [fill]

theorem fillsTo_array_iff {t c : Ty} {n : Nat} :
    t.FillsTo (array c n) ↔ t = hole ∨ ∃ a, t = array a n ∧ a.FillsTo c := by
  unfold FillsTo
  cases t <;> simp [fill, and_comm]

theorem fillsTo_dictionary_iff {t k v : Ty} : t.FillsTo (dictionary k v) ↔
    t = hole ∨ ∃ k' v', t = dictionary k' v' ∧ k'.FillsTo k ∧ v'.FillsTo v := by
  unfold FillsTo
  cases t <;> simp [fill]

theorem fillsTo_tuple_iff {t : Ty} {cs : List Ty} : t.FillsTo (tuple cs) ↔
    t = hole ∨ ∃ as, t = tuple as ∧ List.Forall₂ FillsTo as cs := by
  cases t with
  | tuple as => simp [tuple_fillsTo_iff]
  | _ => simp [FillsTo, fill]

theorem fillsTo_function_iff {t r : Ty} {ps : List Ty} : t.FillsTo (function ps r) ↔
    t = hole ∨ ∃ ps' r', t = function ps' r' ∧ List.Forall₂ FillsTo ps' ps ∧ r'.FillsTo r := by
  cases t with
  | function ps' r' => simp [function_fillsTo_iff]
  | _ => simp [FillsTo, fill]

/-! ## Filling each other -/

mutual

/-- Two types that some type refines fill each other to one type, which is refined by that one. -/
theorem fill_comm_of_fillsTo : ∀ {a b c : Ty}, a.FillsTo c → b.FillsTo c →
    a.fill b = b.fill a ∧ (a.fill b).FillsTo c
  | .hole, b, _, _, second => by
    rw [fill_hole, fill_hole_right]
    exact ⟨rfl, second⟩
  -- both fill to `c`, so the second one is a hole or has the form of the first
  | .list a, _, _, first, second => by
    obtain ⟨c, rfl, firstElem⟩ := list_fillsTo_iff.mp first
    rcases fillsTo_list_iff.mp second with rfl | ⟨b, rfl, secondElem⟩
    · rw [fill_hole, fill_hole_right]
      exact ⟨rfl, first⟩
    · obtain ⟨comm, fills⟩ := fill_comm_of_fillsTo firstElem secondElem
      exact ⟨congrArg list comm, list_fillsTo_iff.mpr ⟨c, rfl, fills⟩⟩
  | .set a, _, _, first, second => by
    obtain ⟨c, rfl, firstElem⟩ := set_fillsTo_iff.mp first
    rcases fillsTo_set_iff.mp second with rfl | ⟨b, rfl, secondElem⟩
    · rw [fill_hole, fill_hole_right]
      exact ⟨rfl, first⟩
    · obtain ⟨comm, fills⟩ := fill_comm_of_fillsTo firstElem secondElem
      exact ⟨congrArg set comm, set_fillsTo_iff.mpr ⟨c, rfl, fills⟩⟩
  | .array a n, _, _, first, second => by
    obtain ⟨c, rfl, firstElem⟩ := array_fillsTo_iff.mp first
    rcases fillsTo_array_iff.mp second with rfl | ⟨b, rfl, secondElem⟩
    · rw [fill_hole, fill_hole_right]
      exact ⟨rfl, first⟩
    · obtain ⟨comm, fills⟩ := fill_comm_of_fillsTo firstElem secondElem
      exact ⟨congrArg (array · n) comm, array_fillsTo_iff.mpr ⟨c, rfl, fills⟩⟩
  | .dictionary k v, _, _, first, second => by
    obtain ⟨ck, cv, rfl, firstKey, firstValue⟩ := dictionary_fillsTo_iff.mp first
    rcases fillsTo_dictionary_iff.mp second with rfl | ⟨k', v', rfl, secondKey, secondValue⟩
    · rw [fill_hole, fill_hole_right]
      exact ⟨rfl, first⟩
    · obtain ⟨commKey, fillsKey⟩ := fill_comm_of_fillsTo firstKey secondKey
      obtain ⟨commValue, fillsValue⟩ := fill_comm_of_fillsTo firstValue secondValue
      exact ⟨congrArg₂ dictionary commKey commValue,
        dictionary_fillsTo_iff.mpr ⟨ck, cv, rfl, fillsKey, fillsValue⟩⟩
  | .tuple as, _, _, first, second => by
    obtain ⟨cs, rfl, firstAll⟩ := tuple_fillsTo_iff.mp first
    rcases fillsTo_tuple_iff.mp second with rfl | ⟨bs, rfl, secondAll⟩
    · rw [fill_hole, fill_hole_right]
      exact ⟨rfl, first⟩
    · obtain ⟨comm, fills⟩ := fillAll_comm_of_fillsTo firstAll secondAll
      have lengths : as.length = bs.length := firstAll.length_eq.trans secondAll.length_eq.symm
      rw [fill, fill, if_pos lengths, if_pos lengths.symm]
      exact ⟨congrArg tuple comm, tuple_fillsTo_iff.mpr ⟨cs, rfl, fills⟩⟩
  | .function ps r, _, _, first, second => by
    obtain ⟨cs, c, rfl, firstParams, firstRet⟩ := function_fillsTo_iff.mp first
    rcases fillsTo_function_iff.mp second with rfl | ⟨ps', r', rfl, secondParams, secondRet⟩
    · rw [fill_hole, fill_hole_right]
      exact ⟨rfl, first⟩
    · obtain ⟨commParams, fillsParams⟩ := fillAll_comm_of_fillsTo firstParams secondParams
      obtain ⟨commRet, fillsRet⟩ := fill_comm_of_fillsTo firstRet secondRet
      have lengths : ps.length = ps'.length :=
        firstParams.length_eq.trans secondParams.length_eq.symm
      rw [fill, fill, if_pos lengths, if_pos lengths.symm]
      exact ⟨congrArg₂ function commParams commRet,
        function_fillsTo_iff.mpr ⟨cs, c, rfl, fillsParams, fillsRet⟩⟩
  | .atom _, b, _, first, second
  | .any, b, _, first, second
  | .number, b, _, first, second
  | .placeholder _, b, _, first, second => by
    obtain rfl := (fillsTo_iff_of_not_hasHoles rfl).mp first
    rw [fill_of_not_hasHoles _ b rfl]
    exact ⟨second.symm, .refl _⟩

theorem fillAll_comm_of_fillsTo : ∀ {as bs cs : List Ty}, List.Forall₂ FillsTo as cs →
    List.Forall₂ FillsTo bs cs → fillAll as bs = fillAll bs as ∧
      List.Forall₂ FillsTo (fillAll as bs) cs
  | [], _, _, .nil, .nil => ⟨rfl, .nil⟩
  | _ :: _, _, _, .cons first firstAll, .cons second secondAll => by
    obtain ⟨comm, fills⟩ := fill_comm_of_fillsTo first second
    obtain ⟨commAll, fillsAll⟩ := fillAll_comm_of_fillsTo firstAll secondAll
    exact ⟨congrArg₂ List.cons comm commAll, .cons fills fillsAll⟩

end

/-- Two types fill each other to one type exactly if some type has the holes of both filled. -/
theorem fill_comm_iff {a b : Ty} : a.fill b = b.fill a ↔ ∃ c, a.FillsTo c ∧ b.FillsTo c := by
  refine ⟨fun comm => ⟨a.fill b, fillsTo_fill a b, ?_⟩, ?_⟩
  · rw [comm]
    exact fillsTo_fill b a
  · rintro ⟨c, first, second⟩
    exact (fill_comm_of_fillsTo first second).1

theorem FillsTo.antisymm {a b : Ty} (ab : a.FillsTo b) (ba : b.FillsTo a) : a = b := by
  obtain ⟨comm, -⟩ := fill_comm_of_fillsTo ab (.refl b)
  exact ba.symm.trans (comm.symm.trans ab)

/-! ## Least refinements -/

/-- The third type is the least one that refines the other two. -/
structure IsMerge (a b c : Ty) : Prop where
  left : a.RefinedBy c
  right : b.RefinedBy c
  least : ∀ d, a.RefinedBy d → b.RefinedBy d → c.RefinedBy d

/-- The least refinement of two types is what they fill each other to. -/
theorem isMerge_iff {a b c : Ty} : IsMerge a b c ↔ a.fill b = b.fill a ∧ c = a.fill b := by
  constructor
  · rintro ⟨left, right, least⟩
    rw [refinedBy_iff_fillsTo] at left right
    obtain ⟨comm, fills⟩ := fill_comm_of_fillsTo left right
    have below : c.RefinedBy (a.fill b) := by
      refine least _ (refinedBy_iff_fillsTo.mpr (fillsTo_fill a b)) ?_
      rw [comm]
      exact refinedBy_iff_fillsTo.mpr (fillsTo_fill b a)
    exact ⟨comm, (refinedBy_iff_fillsTo.mp below).antisymm fills⟩
  · rintro ⟨comm, rfl⟩
    refine ⟨refinedBy_iff_fillsTo.mpr (fillsTo_fill a b), ?_, fun d first second => ?_⟩
    · rw [comm]
      exact refinedBy_iff_fillsTo.mpr (fillsTo_fill b a)
    · rw [refinedBy_iff_fillsTo] at *
      exact (fill_comm_of_fillsTo first second).2

/-- The operators on two containers of one head give their least refinement. -/
theorem merged?_eq_some_iff {headName : String} {a b c : Ty} :
    merged? headName a b = some c ↔ a.head = headName ∧ b.head = headName ∧ IsMerge a b c := by
  rw [isMerge_iff]
  unfold merged?
  split
  · next same => simp [same, eq_comm]
  · next differ =>
    simp only [reduceCtorEq, false_iff]
    exact fun same => differ ⟨same.1, same.2.1, same.2.2.1⟩

end Ty

open Ty

namespace Translate

/-- A return is accepted exactly if its type and the return type so far have a refinement in
common, and leaves the least one. -/
theorem mergeReturn_iff {name : String} {current found merged : Ty} :
    mergeReturn name current found = .ok merged ↔ IsMerge current found merged := by
  rw [isMerge_iff]
  unfold mergeReturn
  split
  · next disagree => simp [disagree.2]
  · next agree =>
    have comm : current.fill found = found.fill current := by
      by_contra differ
      refine agree ⟨?_, differ⟩
      rintro rfl
      rw [fill_hole, fill_hole_right] at differ
      exact differ rfl
    simp [comm, eq_comm]

end Translate

/-! ## Top theorem -/

/-- Filling only refines.  Filling each of two types from the other gives one type exactly if some
type refines both, and that type is then the least one.  This is what a return asks of the returns
before it, and what the operators ask of two sets or two lists. -/
theorem mutual_filling_merges (a b : Ty) :
    a.RefinedBy (a.fill b) ∧
    (a.fill b = b.fill a ↔ ∃ c, a.RefinedBy c ∧ b.RefinedBy c) ∧
    (∀ c, a.fill b = b.fill a ∧ c = a.fill b ↔ IsMerge a b c) ∧
    (∀ name c, Translate.mergeReturn name a b = .ok c ↔ IsMerge a b c) ∧
    (∀ op ∈ ["-", "|", "&", "^"], ∀ c,
      binaryResult? op (.set a) (.set b) = some c ↔ IsMerge (.set a) (.set b) c) ∧
    ∀ c, binaryResult? "+" (.list a) (.list b) = some c ↔ IsMerge (.list a) (.list b) c := by
  refine ⟨refinedBy_iff_fillsTo.mpr (fillsTo_fill a b), ?_, fun c => isMerge_iff.symm,
    fun name c => Translate.mergeReturn_iff, fun op listed c => ?_, fun c => ?_⟩
  · simp only [refinedBy_iff_fillsTo, fill_comm_iff]
  · have joins : merged? "Set" (.set a) (.set b) = some c ↔ IsMerge (.set a) (.set b) c := by
      simp [merged?_eq_some_iff, head]
    rw [← joins]
    simp only [List.mem_cons, List.not_mem_nil, or_false] at listed
    rcases listed with rfl | rfl | rfl | rfl <;> rfl
  · have joins : merged? "List" (.list a) (.list b) = some c ↔ IsMerge (.list a) (.list b) c := by
      simp [merged?_eq_some_iff, head]
    rw [← joins]
    rfl

end TreeTyper
