import Mathlib.Data.List.Forall2
import TreeTyper.Proofs.Plain
import TreeTyper.Translate.Stmt

/-!
# Types whose holes are filled

`a.FillsTo b` says that `b` is `a` with some of its holes filled.  What a call or a
return writes to a signature is a filling of what was there, and whatever fitted
before still fits:

    mergeReturn name a b = .ok c → a.FillsTo c ∧ b.FillsTo c               (fillsTo_mergeReturn)
    compatible h a b = some c → b.FillsTo c ∧ compatible h a c = some c    (fillsTo_compatible)
    compatible h a b = some b → b.FillsTo c → compatible h a c = some c    (compatible_fillsTo)
-/

namespace TreeTyper

namespace Ty

/-- The second type is the first one with some holes filled. -/
def FillsTo (a b : Ty) : Prop := a.fill b = b

instance (a b : Ty) : Decidable (a.FillsTo b) := inferInstanceAs (Decidable (a.fill b = b))

/-! ## Constructor by constructor -/

theorem hole_fillsTo (b : Ty) : hole.FillsTo b := fill_hole b

theorem list_fillsTo_iff {a t : Ty} : (list a).FillsTo t ↔ ∃ b, t = list b ∧ a.FillsTo b := by
  unfold FillsTo
  cases t <;> simp [fill]

theorem set_fillsTo_iff {a t : Ty} : (set a).FillsTo t ↔ ∃ b, t = set b ∧ a.FillsTo b := by
  unfold FillsTo
  cases t <;> simp [fill]

theorem array_fillsTo_iff {a t : Ty} {n : Nat} :
    (array a n).FillsTo t ↔ ∃ b, t = array b n ∧ a.FillsTo b := by
  unfold FillsTo
  cases t <;> simp [fill, and_comm, eq_comm]

theorem dictionary_fillsTo_iff {k v t : Ty} :
    (dictionary k v).FillsTo t ↔ ∃ k' v', t = dictionary k' v' ∧ k.FillsTo k' ∧ v.FillsTo v' := by
  unfold FillsTo
  cases t <;> simp [fill]

/-- Types that are filled place by place. -/
theorem forall₂_fillsTo_iff {as bs : List Ty} :
    List.Forall₂ FillsTo as bs ↔ as.length = bs.length ∧ fillAll as bs = bs := by
  induction as generalizing bs with
  | nil => cases bs <;> simp [fillAll]
  | cons a as ih =>
    cases bs with
    | nil => simp
    | cons b bs =>
      rw [List.forall₂_cons, ih]
      simp only [List.length_cons, Nat.add_right_cancel_iff, fillAll, List.cons.injEq, FillsTo]
      tauto

theorem tuple_fillsTo_iff {as : List Ty} {t : Ty} :
    (tuple as).FillsTo t ↔ ∃ bs, t = tuple bs ∧ List.Forall₂ FillsTo as bs := by
  cases t with
  | tuple bs =>
    by_cases lengths : as.length = bs.length
    · simp [FillsTo, fill, forall₂_fillsTo_iff, lengths]
    · have differ : as ≠ bs := fun same => lengths (congrArg List.length same)
      simp [FillsTo, fill, forall₂_fillsTo_iff, lengths, differ]
  | _ => simp [FillsTo, fill]

theorem function_fillsTo_iff {ps : List Ty} {r t : Ty} :
    (function ps r).FillsTo t ↔
      ∃ ps' r', t = function ps' r' ∧ List.Forall₂ FillsTo ps ps' ∧ r.FillsTo r' := by
  cases t with
  | function ps' r' =>
    by_cases lengths : ps.length = ps'.length
    · simp [FillsTo, fill, forall₂_fillsTo_iff, lengths]
    · have differ : ps ≠ ps' := fun same => lengths (congrArg List.length same)
      simp [FillsTo, fill, forall₂_fillsTo_iff, lengths, differ]
  | _ => simp [FillsTo, fill]

/-- A type without holes is filled by itself alone. -/
theorem fillsTo_iff_of_not_hasHoles {a b : Ty} (full : a.hasHoles = false) : a.FillsTo b ↔ b = a := by
  rw [FillsTo, fill_of_not_hasHoles a b full, eq_comm]

/-! ## An order -/

mutual

theorem FillsTo.refl : ∀ t : Ty, t.FillsTo t
  | hole => hole_fillsTo hole
  | list a => list_fillsTo_iff.mpr ⟨a, rfl, .refl a⟩
  | set a => set_fillsTo_iff.mpr ⟨a, rfl, .refl a⟩
  | array a _ => array_fillsTo_iff.mpr ⟨a, rfl, .refl a⟩
  | dictionary k v => dictionary_fillsTo_iff.mpr ⟨k, v, rfl, .refl k, .refl v⟩
  | tuple ts => tuple_fillsTo_iff.mpr ⟨ts, rfl, forall₂_fillsTo_refl ts⟩
  | function ps r => function_fillsTo_iff.mpr ⟨ps, r, rfl, forall₂_fillsTo_refl ps, .refl r⟩
  | atom _ | any | number | placeholder _ => rfl

theorem forall₂_fillsTo_refl : ∀ ts : List Ty, List.Forall₂ FillsTo ts ts
  | [] => .nil
  | t :: ts => .cons (.refl t) (forall₂_fillsTo_refl ts)

end

mutual

theorem FillsTo.trans : ∀ {a b c : Ty}, a.FillsTo b → b.FillsTo c → a.FillsTo c
  | hole, _, c, _, _ => hole_fillsTo c
  | list a, _, _, ab, bc => by
    obtain ⟨b, rfl, first⟩ := list_fillsTo_iff.mp ab
    obtain ⟨c, rfl, second⟩ := list_fillsTo_iff.mp bc
    exact list_fillsTo_iff.mpr ⟨c, rfl, FillsTo.trans first second⟩
  | set a, _, _, ab, bc => by
    obtain ⟨b, rfl, first⟩ := set_fillsTo_iff.mp ab
    obtain ⟨c, rfl, second⟩ := set_fillsTo_iff.mp bc
    exact set_fillsTo_iff.mpr ⟨c, rfl, FillsTo.trans first second⟩
  | array a n, _, _, ab, bc => by
    obtain ⟨b, rfl, first⟩ := array_fillsTo_iff.mp ab
    obtain ⟨c, rfl, second⟩ := array_fillsTo_iff.mp bc
    exact array_fillsTo_iff.mpr ⟨c, rfl, FillsTo.trans first second⟩
  | dictionary k v, _, _, ab, bc => by
    obtain ⟨k', v', rfl, keys, values⟩ := dictionary_fillsTo_iff.mp ab
    obtain ⟨k'', v'', rfl, keys', values'⟩ := dictionary_fillsTo_iff.mp bc
    exact dictionary_fillsTo_iff.mpr
      ⟨k'', v'', rfl, FillsTo.trans keys keys', FillsTo.trans values values'⟩
  | tuple as, _, _, ab, bc => by
    obtain ⟨bs, rfl, first⟩ := tuple_fillsTo_iff.mp ab
    obtain ⟨cs, rfl, second⟩ := tuple_fillsTo_iff.mp bc
    exact tuple_fillsTo_iff.mpr ⟨cs, rfl, forall₂_fillsTo_trans first second⟩
  | function ps r, _, _, ab, bc => by
    obtain ⟨ps', r', rfl, params, rets⟩ := function_fillsTo_iff.mp ab
    obtain ⟨ps'', r'', rfl, params', rets'⟩ := function_fillsTo_iff.mp bc
    exact function_fillsTo_iff.mpr
      ⟨ps'', r'', rfl, forall₂_fillsTo_trans params params', FillsTo.trans rets rets'⟩
  | atom _, _, _, ab, bc => by rwa [(fillsTo_iff_of_not_hasHoles rfl).mp ab] at bc
  | any, _, _, ab, bc => by rwa [(fillsTo_iff_of_not_hasHoles rfl).mp ab] at bc
  | number, _, _, ab, bc => by rwa [(fillsTo_iff_of_not_hasHoles rfl).mp ab] at bc
  | placeholder _, _, _, ab, bc => by rwa [(fillsTo_iff_of_not_hasHoles rfl).mp ab] at bc

theorem forall₂_fillsTo_trans : ∀ {as bs cs : List Ty}, List.Forall₂ FillsTo as bs →
    List.Forall₂ FillsTo bs cs → List.Forall₂ FillsTo as cs
  | [], _, _, .nil, .nil => .nil
  | _ :: _, _, _, .cons ab abs, .cons bc bcs =>
    .cons (FillsTo.trans ab bc) (forall₂_fillsTo_trans abs bcs)

end

theorem FillsTo.eq {a b : Ty} (fills : a.FillsTo b) (full : a.hasHoles = false) : b = a :=
  (fillsTo_iff_of_not_hasHoles full).mp fills

theorem FillsTo.ne_hole {a b : Ty} (fills : a.FillsTo b) (known : a ≠ hole) : b ≠ hole := by
  rintro rfl
  cases a with
  | hole => exact known rfl
  | list _ => simp [list_fillsTo_iff] at fills
  | set _ => simp [set_fillsTo_iff] at fills
  | array _ _ => simp [array_fillsTo_iff] at fills
  | dictionary _ _ => simp [dictionary_fillsTo_iff] at fills
  | tuple _ => simp [tuple_fillsTo_iff] at fills
  | function _ _ => simp [function_fillsTo_iff] at fills
  | _ => cases fills

mutual

/-- Evidence only fills holes. -/
theorem fillsTo_fill : ∀ t e : Ty, t.FillsTo (t.fill e)
  | hole, e => hole_fillsTo _
  | list a, e => by
    cases e <;> simp only [fill] <;> try exact .refl _
    exact list_fillsTo_iff.mpr ⟨_, rfl, fillsTo_fill a _⟩
  | set a, e => by
    cases e <;> simp only [fill] <;> try exact .refl _
    exact set_fillsTo_iff.mpr ⟨_, rfl, fillsTo_fill a _⟩
  | array a n, e => by
    cases e <;> simp only [fill] <;> try exact .refl _
    exact array_fillsTo_iff.mpr ⟨_, rfl, fillsTo_fill a _⟩
  | dictionary k v, e => by
    cases e <;> simp only [fill] <;> try exact .refl _
    exact dictionary_fillsTo_iff.mpr ⟨_, _, rfl, fillsTo_fill k _, fillsTo_fill v _⟩
  | tuple as, e => by
    cases e <;> simp only [fill] <;> try exact .refl _
    split
    · next lengths => exact tuple_fillsTo_iff.mpr ⟨_, rfl, forall₂_fillsTo_fill as _ lengths⟩
    · exact .refl _
  | function ps r, e => by
    cases e <;> simp only [fill] <;> try exact .refl _
    split
    · next lengths =>
      exact function_fillsTo_iff.mpr
        ⟨_, _, rfl, forall₂_fillsTo_fill ps _ lengths, fillsTo_fill r _⟩
    · exact .refl _
  | atom _, e => by cases e <;> rfl
  | any, e => by cases e <;> rfl
  | number, e => by cases e <;> rfl
  | placeholder _, e => by cases e <;> rfl

theorem forall₂_fillsTo_fill : ∀ ts es : List Ty, ts.length = es.length →
    List.Forall₂ FillsTo ts (fillAll ts es)
  | [], [], _ => .nil
  | t :: ts, e :: es, lengths =>
    .cons (fillsTo_fill t e) (forall₂_fillsTo_fill ts es (Nat.succ.inj lengths))

end

end Ty

open Ty (FillsTo)

variable {h : Hierarchy}

/-! ## Compatibility -/

theorem eq_of_compatibleAtoms {a b : String} {c : Ty} (found : compatibleAtoms h a b = some c) :
    c = .atom b := by
  unfold compatibleAtoms at found
  split at found
  · next names =>
    cases found
    rw [names.2]
    rfl
  split at found
  · cases found
    rfl
  · cases found

/-- Where a value of a type was accepted, one of the same type is accepted again. -/
theorem fillsTo_compatible {a b c : Ty} (plain : b.isPlain) (found : compatible h a b = some c) :
    b.FillsTo c ∧ compatible h a c = some c := by
  revert plain
  refine compatible_induction
    (P := fun a b c => b.isPlain → b.FillsTo c ∧ compatible h a c = some c)
    (Q := fun as bs cs => Ty.allPlain bs →
      List.Forall₂ FillsTo bs cs ∧ compatibleAll h as cs = some cs)
    ?_ ?_ ?_ ?_ ?_ ?_ ?_ ?_ ?_ ?_ ?_ ?_ ?_ ?_ found
  · exact fun t _ => ⟨.refl t, compatible_self h t⟩
  -- `Any` and `Number` are not plain
  · exact fun t plain => nomatch plain
  · exact fun t _ plain => nomatch plain
  · exact fun t notAny notNumber _ => ⟨.refl t, compatible_hole_left notAny notNumber⟩
  · exact fun t _ => ⟨Ty.hole_fillsTo t, compatible_self h t⟩
  · intro a b c atoms _
    obtain rfl := eq_of_compatibleAtoms atoms
    refine ⟨.refl _, ?_⟩
    rw [compatible_atom, atoms, ite_self]
  · intro a b c ih plain
    obtain ⟨fills, again⟩ := ih plain
    exact ⟨Ty.list_fillsTo_iff.mpr ⟨c, rfl, fills⟩, by rw [compatible_list, again]; rfl⟩
  · intro a b c ih plain
    obtain ⟨fills, again⟩ := ih plain
    exact ⟨Ty.set_fillsTo_iff.mpr ⟨c, rfl, fills⟩, by rw [compatible_set, again]; rfl⟩
  · intro a b c n ih plain
    obtain ⟨fills, again⟩ := ih plain
    refine ⟨Ty.array_fillsTo_iff.mpr ⟨c, rfl, fills⟩, ?_⟩
    rw [compatible_array, if_pos rfl, again]
    rfl
  · intro k k' k'' v v' v'' ihKey ihValue plain
    obtain ⟨plainKey, plainValue⟩ := Bool.and_eq_true_iff.mp plain
    obtain ⟨fillsKey, againKey⟩ := ihKey plainKey
    obtain ⟨fillsValue, againValue⟩ := ihValue plainValue
    refine ⟨Ty.dictionary_fillsTo_iff.mpr ⟨k'', v'', rfl, fillsKey, fillsValue⟩, ?_⟩
    rw [compatible_dictionary, againKey, againValue]
    rfl
  · intro as bs cs ih plain
    obtain ⟨fills, again⟩ := ih plain
    exact ⟨Ty.tuple_fillsTo_iff.mpr ⟨cs, rfl, fills⟩, by rw [compatible_tuple, again]; rfl⟩
  · intro ps ps' ps'' r r' r'' ihParams ihRet plain
    obtain ⟨plainParams, plainRet⟩ := Bool.and_eq_true_iff.mp plain
    obtain ⟨fillsParams, againParams⟩ := ihParams plainParams
    obtain ⟨fillsRet, againRet⟩ := ihRet plainRet
    refine ⟨Ty.function_fillsTo_iff.mpr ⟨ps'', r'', rfl, fillsParams, fillsRet⟩, ?_⟩
    rw [compatible_function, againParams, againRet]
    rfl
  · exact fun _ => ⟨.nil, by rw [compatibleAll]⟩
  · intro a b c as bs cs ih ihAll plain
    obtain ⟨plainFirst, plainRest⟩ := Bool.and_eq_true_iff.mp plain
    obtain ⟨fills, again⟩ := ih plainFirst
    obtain ⟨fillsAll, againAll⟩ := ihAll plainRest
    exact ⟨.cons fills fillsAll, by rw [compatibleAll_cons, again, againAll]; rfl⟩

mutual

/-- A type is accepted where some of its holes are filled. -/
theorem compatible_of_fillsTo : ∀ {a b : Ty}, a.FillsTo b → b.isPlain → compatible h a b = some b
  | .hole, b, _, plain =>
    compatible_hole_left (fun any => by simp [any, Ty.isPlain] at plain)
      fun number => by simp [number, Ty.isPlain] at plain
  | .list a, _, fills, plain => by
    obtain ⟨b, rfl, inner⟩ := Ty.list_fillsTo_iff.mp fills
    rw [compatible_list, compatible_of_fillsTo inner plain]
    rfl
  | .set a, _, fills, plain => by
    obtain ⟨b, rfl, inner⟩ := Ty.set_fillsTo_iff.mp fills
    rw [compatible_set, compatible_of_fillsTo inner plain]
    rfl
  | .array a n, _, fills, plain => by
    obtain ⟨b, rfl, inner⟩ := Ty.array_fillsTo_iff.mp fills
    rw [compatible_array, if_pos rfl, compatible_of_fillsTo inner plain]
    rfl
  | .dictionary k v, _, fills, plain => by
    obtain ⟨k', v', rfl, innerKey, innerValue⟩ := Ty.dictionary_fillsTo_iff.mp fills
    obtain ⟨plainKey, plainValue⟩ := Bool.and_eq_true_iff.mp plain
    rw [compatible_dictionary, compatible_of_fillsTo innerKey plainKey,
      compatible_of_fillsTo innerValue plainValue]
    rfl
  | .tuple as, _, fills, plain => by
    obtain ⟨bs, rfl, inner⟩ := Ty.tuple_fillsTo_iff.mp fills
    rw [compatible_tuple, compatibleAll_of_fillsTo inner plain]
    rfl
  | .function ps r, _, fills, plain => by
    obtain ⟨ps', r', rfl, innerParams, innerRet⟩ := Ty.function_fillsTo_iff.mp fills
    obtain ⟨plainParams, plainRet⟩ := Bool.and_eq_true_iff.mp plain
    rw [compatible_function, compatibleAll_of_fillsTo innerParams plainParams,
      compatible_of_fillsTo innerRet plainRet]
    rfl
  | .atom _, _, fills, _ => by
    rw [(Ty.fillsTo_iff_of_not_hasHoles rfl).mp fills, compatible_self]
  | .any, _, fills, _ => by
    rw [(Ty.fillsTo_iff_of_not_hasHoles rfl).mp fills, compatible_self]
  | .number, _, fills, _ => by
    rw [(Ty.fillsTo_iff_of_not_hasHoles rfl).mp fills, compatible_self]
  | .placeholder _, _, fills, _ => by
    rw [(Ty.fillsTo_iff_of_not_hasHoles rfl).mp fills, compatible_self]

theorem compatibleAll_of_fillsTo : ∀ {as bs : List Ty}, List.Forall₂ FillsTo as bs →
    Ty.allPlain bs → compatibleAll h as bs = some bs
  | [], _, .nil, _ => by rw [compatibleAll]
  | _ :: _, _, .cons fills fillsAll, plain => by
    obtain ⟨plainFirst, plainRest⟩ := Bool.and_eq_true_iff.mp plain
    rw [compatibleAll_cons, compatible_of_fillsTo fills plainFirst,
      compatibleAll_of_fillsTo fillsAll plainRest]
    rfl

end

/-- A value that was accepted is accepted after further holes were filled. -/
theorem compatible_fillsTo {a b c : Ty} (accepted : compatible h a b = some b)
    (fills : b.FillsTo c) (plain : c.isPlain) : compatible h a c = some c := by
  -- the induction needs the result as a variable of its own, equal to the expected type
  have general : ∀ c, b = b → b.FillsTo c → c.isPlain → compatible h a c = some c := by
    refine compatible_induction
      (P := fun a b d => ∀ c, d = b → b.FillsTo c → c.isPlain → compatible h a c = some c)
      (Q := fun as bs ds => ∀ cs, ds = bs → List.Forall₂ FillsTo bs cs → Ty.allPlain cs →
        compatibleAll h as cs = some cs)
      ?_ ?_ ?_ ?_ ?_ ?_ ?_ ?_ ?_ ?_ ?_ ?_ ?_ ?_ accepted
    · exact fun t c _ fills plain => compatible_of_fillsTo fills plain
    · exact fun t c same fills plain => compatible_of_fillsTo (same ▸ fills) plain
    · exact fun t _ c same fills plain => compatible_of_fillsTo (same ▸ fills) plain
    · exact fun t _ _ c _ _ plain => compatible_of_fillsTo (Ty.hole_fillsTo c) plain
    · exact fun t c same fills plain => compatible_of_fillsTo (same ▸ fills) plain
    · intro a b d atoms c same fills _
      rw [(Ty.fillsTo_iff_of_not_hasHoles rfl).mp fills, compatible_atom, atoms, same, ite_self]
    · intro a b d ih c same fills plain
      obtain ⟨c, rfl, inner⟩ := Ty.list_fillsTo_iff.mp fills
      rw [compatible_list, ih c (Ty.list.inj same) inner plain]
      rfl
    · intro a b d ih c same fills plain
      obtain ⟨c, rfl, inner⟩ := Ty.set_fillsTo_iff.mp fills
      rw [compatible_set, ih c (Ty.set.inj same) inner plain]
      rfl
    · intro a b d n ih c same fills plain
      obtain ⟨c, rfl, inner⟩ := Ty.array_fillsTo_iff.mp fills
      rw [compatible_array, if_pos rfl, ih c (Ty.array.inj same).1 inner plain]
      rfl
    · intro k k' k'' v v' v'' ihKey ihValue c same fills plain
      obtain ⟨key, value, rfl, innerKey, innerValue⟩ := Ty.dictionary_fillsTo_iff.mp fills
      obtain ⟨sameKey, sameValue⟩ := Ty.dictionary.inj same
      obtain ⟨plainKey, plainValue⟩ := Bool.and_eq_true_iff.mp plain
      rw [compatible_dictionary, ihKey key sameKey innerKey plainKey,
        ihValue value sameValue innerValue plainValue]
      rfl
    · intro as bs ds ih c same fills plain
      obtain ⟨cs, rfl, inner⟩ := Ty.tuple_fillsTo_iff.mp fills
      rw [compatible_tuple, ih cs (Ty.tuple.inj same) inner plain]
      rfl
    · intro ps ps' ps'' r r' r'' ihParams ihRet c same fills plain
      obtain ⟨params, ret, rfl, innerParams, innerRet⟩ := Ty.function_fillsTo_iff.mp fills
      obtain ⟨sameParams, sameRet⟩ := Ty.function.inj same
      obtain ⟨plainParams, plainRet⟩ := Bool.and_eq_true_iff.mp plain
      rw [compatible_function, ihParams params sameParams innerParams plainParams,
        ihRet ret sameRet innerRet plainRet]
      rfl
    · intro cs _ fills _
      cases fills
      rw [compatibleAll]
    · intro a b d as bs ds ih ihAll cs same fills plain
      obtain ⟨c, cs, inner, innerAll, rfl⟩ := List.forall₂_cons_left_iff.mp fills
      obtain ⟨sameFirst, sameRest⟩ := List.cons.inj same
      obtain ⟨plainFirst, plainRest⟩ := Bool.and_eq_true_iff.mp plain
      rw [compatibleAll_cons, ih c sameFirst inner plainFirst, ihAll cs sameRest innerAll plainRest]
      rfl
  exact general c rfl fills plain

/-! ## Signatures -/

/-- The arguments of a call are accepted by some parameters as they are. -/
def Accepts (h : Hierarchy) (args params : List Ty) : Prop :=
  List.Forall₂ (fun arg param => compatible h arg param = some param) args params

theorem Accepts.fillsTo {args params params' : List Ty} (accepts : Accepts h args params)
    (fills : List.Forall₂ FillsTo params params') (plain : Ty.allPlain params') :
    Accepts h args params' := by
  induction accepts generalizing params' with
  | nil =>
    cases fills
    exact .nil
  | cons accepted _ ih =>
    obtain ⟨p, ps, inner, innerAll, rfl⟩ := List.forall₂_cons_left_iff.mp fills
    obtain ⟨plainFirst, plainRest⟩ := Bool.and_eq_true_iff.mp plain
    exact .cons (compatible_fillsTo accepted inner plainFirst) (ih innerAll plainRest)

theorem matchParamsFrom_cons {name : String} {i : Nat} {param arg : Ty}
    {params args found : List Ty}
    (matched : matchParamsFrom h name i (param :: params) (arg :: args) = .ok found) :
    ∃ t ts, found = t :: ts ∧ (param = .hole ∧ t = arg ∨ compatible h arg param = some t) ∧
      matchParamsFrom h name (i + 1) params args = .ok ts := by
  unfold matchParamsFrom at matched
  extract_lets others at matched
  have rest : ∀ {t}, others t = .ok found →
      ∃ ts, found = t :: ts ∧ matchParamsFrom h name (i + 1) params args = .ok ts := by
    intro t matched
    dsimp only [others] at matched
    cases rest : matchParamsFrom h name (i + 1) params args with
    | error cause =>
      rw [rest] at matched
      cases matched
    | ok ts =>
      rw [rest] at matched
      cases matched
      exact ⟨ts, rfl, rfl⟩
  split at matched
  · next unknown =>
    obtain ⟨ts, same, rest⟩ := rest matched
    exact ⟨arg, ts, same, .inl ⟨unknown, rfl⟩, rest⟩
  · unfold expectCompatible at matched
    split at matched
    · next t accepted =>
      obtain ⟨ts, same, rest⟩ := rest matched
      exact ⟨t, ts, same, .inr accepted, rest⟩
    · cases matched

theorem matchParamsFrom_ok {name : String} {i : Nat} {params args found : List Ty}
    (lengths : params.length = args.length) (plain : Ty.allPlain params)
    (matched : matchParamsFrom h name i params args = .ok found) :
    List.Forall₂ FillsTo params found ∧ Accepts h args found ∧
      (Ty.allPlain args → Ty.allPlain found) := by
  induction params generalizing args found i with
  | nil =>
    cases args with
    | nil =>
      cases matched
      exact ⟨.nil, .nil, id⟩
    | cons arg args => cases lengths
  | cons param params ih =>
    cases args with
    | nil => cases lengths
    | cons arg args =>
      obtain ⟨plainParam, plainParams⟩ := Bool.and_eq_true_iff.mp plain
      obtain ⟨t, ts, rfl, first, rest⟩ := matchParamsFrom_cons matched
      obtain ⟨fillsAll, acceptedAll, plainAll⟩ := ih (Nat.succ.inj lengths) plainParams rest
      have one : param.FillsTo t ∧ compatible h arg t = some t ∧ (arg.isPlain → t.isPlain) := by
        rcases first with ⟨rfl, rfl⟩ | found
        · exact ⟨Ty.hole_fillsTo t, compatible_self h t, id⟩
        · obtain ⟨fills, accepted⟩ := fillsTo_compatible plainParam found
          exact ⟨fills, accepted, fun plainArg => isPlain_compatible plainArg plainParam found⟩
      obtain ⟨fills, accepted, plainT⟩ := one
      refine ⟨.cons fills fillsAll, .cons accepted acceptedAll, fun plainArgs => ?_⟩
      obtain ⟨plainArg, plainArgs⟩ := Bool.and_eq_true_iff.mp plainArgs
      exact Bool.and_eq_true_iff.mpr ⟨plainT plainArg, plainAll plainArgs⟩

/-- What a call leaves of the parameters: they are filled, and accept the arguments. -/
theorem matchParams_ok {name : String} {params args found : List Ty} (plain : Ty.allPlain params)
    (matched : matchParams h params args name = .ok found) :
    List.Forall₂ FillsTo params found ∧ Accepts h args found ∧
      (Ty.allPlain args → Ty.allPlain found) := by
  unfold matchParams at matched
  split at matched
  · cases matched
  · next lengths => exact matchParamsFrom_ok (not_not.mp lengths) plain matched

namespace Translate

/-- A return fills the return type, and fits it. -/
theorem fillsTo_mergeReturn {name : String} {current found merged : Ty}
    (merges : mergeReturn name current found = .ok merged) :
    current.FillsTo merged ∧ found.FillsTo merged := by
  unfold mergeReturn at merges
  split at merges
  · cases merges
  next agree =>
  cases merges
  refine ⟨Ty.fillsTo_fill current found, ?_⟩
  by_cases unknown : current = .hole
  · rw [unknown, Ty.fill_hole]
    exact .refl found
  · have same : current.fill found = found.fill current := by
      by_contra differ
      exact agree ⟨unknown, differ⟩
    rw [same]
    exact Ty.fillsTo_fill found current

end Translate

end TreeTyper
