import TreeTyper.Proofs.Checking
import TreeTyper.Proofs.Order

/-!
# What a match binds

The placeholders of a signature are bound while the arguments are read from left to
right.  A binding only has holes filled, so an argument that was read for a placeholder
passes under the final bindings as well.  One that was read for a type around a
placeholder leaves no trace in the bindings: where the placeholder had a hole, a later
argument can fill the hole with something else.

    matchArgument h name b i param arg = .ok b' →
      b.GrowsTo b' ∧ b'.Passes h arg param                              (matchArgument_ok)
    b.Knows params → (matchArguments h name b i params args = .ok final ↔
      final = b ∧ List.Forall₂ (b.Passes h) args params)                (matchArguments_known)

Signatures whose placeholders come before the types around them have final bindings
under which all arguments pass; all signatures of the standard tables are of this kind.
-/

namespace TreeTyper

variable {h : Hierarchy}

namespace Ty

mutual

/-- Whether a placeholder occurs at any depth. -/
def mentions (p : Placeholder) : Ty → Bool
  | placeholder q => p = q
  | list t => mentions p t
  | set t => mentions p t
  | array t _ => mentions p t
  | dictionary k v => mentions p k || mentions p v
  | tuple ts => anyMentions p ts
  | function ps r => anyMentions p ps || mentions p r
  | atom _ | hole | any | number => false

def anyMentions (p : Placeholder) : List Ty → Bool
  | [] => false
  | t :: ts => mentions p t || anyMentions p ts

end

/-- Whether a type is a placeholder itself. -/
def isBare : Ty → Bool
  | placeholder _ => true
  | _ => false

/-- Whether a parameter may stand before another one: that one is not a placeholder which occurs
inside the first. -/
def mayPrecede (param later : Ty) : Bool :=
  match later with
  | placeholder p => param.isBare || !param.mentions p
  | _ => true

/-! ## What is accepted, by the form of the target -/

section Accepted

variable {a : Ty}

theorem isSome_compatible_placeholder_iff {p : Placeholder} :
    (compatible h a (placeholder p)).isSome ↔ a = hole ∨ a = placeholder p := by
  cases a with
  | hole => simp [compatible]
  | placeholder q =>
    by_cases same : q = p
    · simp [same]
    · simp [compatible, same]
  | _ => simp [compatible]

theorem isSome_compatible_list_iff {t : Ty} : (compatible h a (list t)).isSome ↔
    a = hole ∨ ∃ s, a = list s ∧ (compatible h s t).isSome := by
  cases a with
  | list s => simp [compatible_list]
  | _ => simp [compatible]

theorem isSome_compatible_set_iff {t : Ty} : (compatible h a (set t)).isSome ↔
    a = hole ∨ ∃ s, a = set s ∧ (compatible h s t).isSome := by
  cases a with
  | set s => simp [compatible_set]
  | _ => simp [compatible]

theorem isSome_compatible_array_iff {t : Ty} {n : Nat} : (compatible h a (array t n)).isSome ↔
    a = hole ∨ ∃ s, a = array s n ∧ (compatible h s t).isSome := by
  cases a with
  | array s m =>
    by_cases same : m = n
    · simp [compatible_array, same]
    · simp [compatible_array, same]
  | _ => simp [compatible]

theorem isSome_compatible_dictionary_iff {k v : Ty} : (compatible h a (dictionary k v)).isSome ↔
    a = hole ∨ ∃ s t, a = dictionary s t ∧ (compatible h s k).isSome ∧
      (compatible h t v).isSome := by
  cases a with
  | dictionary s t => simp [compatible_dictionary, isSome_bind_map]
  | _ => simp [compatible]

theorem isSome_compatible_tuple_iff {ts : List Ty} : (compatible h a (tuple ts)).isSome ↔
    a = hole ∨ ∃ ss, a = tuple ss ∧ (compatibleAll h ss ts).isSome := by
  cases a with
  | tuple ss => simp [compatible_tuple]
  | _ => simp [compatible]

theorem isSome_compatible_function_iff {ps : List Ty} {r : Ty} :
    (compatible h a (function ps r)).isSome ↔ a = hole ∨ ∃ ss s, a = function ss s ∧
      (compatibleAll h ss ps).isSome ∧ (compatible h s r).isSome := by
  cases a with
  | function ss s => simp [compatible_function, isSome_bind_map]
  | _ => simp [compatible]

end Accepted

end Ty

open Ty

namespace Bindings

/-- What the first binds, the second binds to a type with more holes filled. -/
def GrowsTo (b b' : Bindings) : Prop :=
  ∀ p t, b.get? p = some t → ∃ t', b'.get? p = some t' ∧ t.FillsTo t'

/-- The second binds as the first does what the first binds of the placeholders of a type. -/
def AgreesOn (b b' : Bindings) (t : Ty) : Prop :=
  ∀ p u, t.mentions p → b.get? p = some u → b'.get? p = some u

/-- An argument is accepted by a parameter under the bindings. -/
def Passes (h : Hierarchy) (b : Bindings) (arg param : Ty) : Prop :=
  (compatible h arg (param.substitute b)).isSome

instance (h : Hierarchy) (b : Bindings) (arg param : Ty) : Decidable (b.Passes h arg param) :=
  inferInstanceAs (Decidable (_ = true))

/-- Every placeholder among some parameters is bound to a type without holes. -/
def Knows (b : Bindings) (params : List Ty) : Prop :=
  ∀ p, .placeholder p ∈ params → ∃ t, b.get? p = some t ∧ t.hasHoles = false

theorem GrowsTo.refl (b : Bindings) : b.GrowsTo b := fun _ t bound => ⟨t, bound, .refl t⟩

theorem GrowsTo.trans {b₁ b₂ b₃ : Bindings} (first : b₁.GrowsTo b₂) (rest : b₂.GrowsTo b₃) :
    b₁.GrowsTo b₃ := by
  intro p t bound
  obtain ⟨u, bound', fills⟩ := first p t bound
  obtain ⟨v, bound'', fills'⟩ := rest p u bound'
  exact ⟨v, bound'', fills.trans fills'⟩

/-- A receiver has its holes filled from bindings that grew from its own. -/
theorem GrowsTo.fillsTo_receiverShape {t : Ty} {b : Bindings} (grows : (ofReceiver t).GrowsTo b) :
    t.FillsTo (b.receiverShape t) := by
  have slot : ∀ p u, (ofReceiver t).get? p = some u → u.FillsTo ((b.get? p).getD .hole) := by
    intro p u bound
    obtain ⟨u', bound', fills⟩ := grows p u bound
    rwa [bound']
  cases t with
  | list t => exact list_fillsTo_iff.mpr ⟨_, rfl, slot .element t rfl⟩
  | set t => exact set_fillsTo_iff.mpr ⟨_, rfl, slot .element t rfl⟩
  | array t n => exact array_fillsTo_iff.mpr ⟨_, rfl, slot .element t rfl⟩
  | dictionary k v =>
    exact dictionary_fillsTo_iff.mpr ⟨_, _, rfl, slot .key k rfl, slot .value v rfl⟩
  | _ => exact .refl _

end Bindings

open Bindings

/-! ## Passing under later bindings -/

mutual

/-- An argument still passes when the placeholders of the parameter are bound as before.  What was
not bound then has met a hole. -/
theorem passes_of_agreesOn {b b' : Bindings} (plain : b'.AllTypes fun t => t.isPlain) :
    ∀ (param : Ty) {arg : Ty}, arg.describesValue → b.AgreesOn b' param → b.Passes h arg param →
      b'.Passes h arg param
  | .placeholder p, arg, value, agrees, passes => by
    unfold Passes at *
    rw [substitute] at passes ⊢
    cases found : b.get? p with
    | some u =>
      rw [agrees p u (by simp [mentions]) found]
      rwa [found] at passes
    | none =>
      rw [found] at passes
      -- free under `b`: the argument is a hole, for the placeholder itself describes no value
      rcases isSome_compatible_placeholder_iff.mp passes with rfl | rfl
      · cases found' : b'.get? p with
        | none => exact isSome_compatible_placeholder_iff.mpr (.inl rfl)
        | some t => exact Option.isSome_of_eq_some ((hole_fillsTo t).widens (plain p t found'))
      · cases value
  -- a composite parameter takes a hole, or an argument of its own form part by part
  | .list t, arg, value, agrees, passes => by
    rcases isSome_compatible_list_iff.mp passes with rfl | ⟨s, rfl, inner⟩
    · exact isSome_compatible_list_iff.mpr (.inl rfl)
    · exact isSome_compatible_list_iff.mpr
        (.inr ⟨s, rfl, passes_of_agreesOn plain t value agrees inner⟩)
  | .set t, arg, value, agrees, passes => by
    rcases isSome_compatible_set_iff.mp passes with rfl | ⟨s, rfl, inner⟩
    · exact isSome_compatible_set_iff.mpr (.inl rfl)
    · exact isSome_compatible_set_iff.mpr
        (.inr ⟨s, rfl, passes_of_agreesOn plain t value agrees inner⟩)
  | .array t n, arg, value, agrees, passes => by
    rcases isSome_compatible_array_iff.mp passes with rfl | ⟨s, rfl, inner⟩
    · exact isSome_compatible_array_iff.mpr (.inl rfl)
    · exact isSome_compatible_array_iff.mpr
        (.inr ⟨s, rfl, passes_of_agreesOn plain t value agrees inner⟩)
  | .dictionary k v, arg, value, agrees, passes => by
    rcases isSome_compatible_dictionary_iff.mp passes with rfl | ⟨s, t, rfl, keys, values⟩
    · exact isSome_compatible_dictionary_iff.mpr (.inl rfl)
    · obtain ⟨valueKey, valueSlot⟩ := Bool.and_eq_true_iff.mp value
      refine isSome_compatible_dictionary_iff.mpr (.inr ⟨s, t, rfl, ?_, ?_⟩)
      · exact passes_of_agreesOn plain k valueKey
          (fun p u inside => agrees p u (by simp [mentions, inside])) keys
      · exact passes_of_agreesOn plain v valueSlot
          (fun p u inside => agrees p u (by simp [mentions, inside])) values
  | .tuple ts, arg, value, agrees, passes => by
    rcases isSome_compatible_tuple_iff.mp passes with rfl | ⟨ss, rfl, all⟩
    · exact isSome_compatible_tuple_iff.mpr (.inl rfl)
    · exact isSome_compatible_tuple_iff.mpr
        (.inr ⟨ss, rfl, passesAll_of_agreesOn plain ts value agrees all⟩)
  | .function ps r, arg, value, agrees, passes => by
    rcases isSome_compatible_function_iff.mp passes with rfl | ⟨ss, s, rfl, all, ret⟩
    · exact isSome_compatible_function_iff.mpr (.inl rfl)
    · obtain ⟨valueParams, valueRet⟩ := Bool.and_eq_true_iff.mp value
      refine isSome_compatible_function_iff.mpr (.inr ⟨ss, s, rfl, ?_, ?_⟩)
      · exact passesAll_of_agreesOn plain ps valueParams
          (fun p u inside => agrees p u (by simp [mentions, inside])) all
      · exact passes_of_agreesOn plain r valueRet
          (fun p u inside => agrees p u (by simp [mentions, inside])) ret
  | .atom _, _, _, _, passes
  | .hole, _, _, _, passes
  | .any, _, _, _, passes
  | .number, _, _, _, passes => passes

theorem passesAll_of_agreesOn {b b' : Bindings} (plain : b'.AllTypes fun t => t.isPlain) :
    ∀ (params : List Ty) {args : List Ty},
    allDrawnFrom (fun _ => true) (fun _ => false) args →
    (∀ p u, anyMentions p params → b.get? p = some u → b'.get? p = some u) →
    (compatibleAll h args (substituteAll b params)).isSome →
    (compatibleAll h args (substituteAll b' params)).isSome
  | [], _, _, _, passes => passes
  | _ :: _, [], _, _, passes => by simp [substituteAll, compatibleAll] at passes
  | param :: params, arg :: args, values, agrees, passes => by
    obtain ⟨value, values⟩ := Bool.and_eq_true_iff.mp values
    rw [substituteAll, compatibleAll_cons, isSome_bind_map, Bool.and_eq_true] at passes ⊢
    refine ⟨?_, ?_⟩
    · exact passes_of_agreesOn plain param value
        (fun p u inside => agrees p u (by simp [anyMentions, inside])) passes.1
    · exact passesAll_of_agreesOn plain params values
        (fun p u inside => agrees p u (by simp [anyMentions, inside])) passes.2

end

/-! ## One argument -/

section Step

variable {name : String} {b b' : Bindings} {i : Nat} {param arg : Ty}

/-- A type around placeholders binds nothing. -/
theorem matchArgument_around (around : param.isBare = false) :
    matchArgument h name b i param arg = .ok b' ↔ b' = b ∧ b.Passes h arg param := by
  unfold matchArgument Passes
  split
  · cases around
  · dsimp only
    cases compatible h arg (param.substitute b) with
    | none => simp
    | some t => simp [eq_comm]

/-- A placeholder is bound to what it was bound to, with holes filled, and the argument is usable as
that. -/
theorem matchArgument_placeholder {p : Placeholder} (plain : b.AllTypes fun t => t.isPlain)
    (matched : matchArgument h name b i (.placeholder p) arg = .ok b') :
    (∃ t, b'.get? p = some t ∧ arg.Widens h t ∧ ∀ u, b.get? p = some u → u.FillsTo t) ∧
      ∀ q, q ≠ p → b'.get? q = b.get? q := by
  have binds : ∀ t, arg.Widens h t → (∀ u, b.get? p = some u → u.FillsTo t) →
      (∃ t', (b.bind p t).get? p = some t' ∧ arg.Widens h t' ∧
        ∀ u, b.get? p = some u → u.FillsTo t') ∧
        ∀ q, q ≠ p → (b.bind p t).get? q = b.get? q :=
    fun t widens fills => ⟨⟨t, get?_bind_self b p t, widens, fills⟩,
      fun q other => get?_bind_of_ne other b t⟩
  unfold matchArgument at matched
  dsimp only at matched
  split at matched
  · next found =>
    cases matched
    -- nothing bound before: the type of the argument becomes the binding
    refine binds arg (.refl arg) fun u bound => ?_
    rw [found] at bound
    cases bound
  · next found =>
    cases matched
    -- a hole bound before, which every type fills
    refine binds arg (.refl arg) fun u bound => ?_
    rw [found] at bound
    cases bound
    exact hole_fillsTo arg
  · next bound _ found =>
    -- a type bound before: it stays, with its holes filled from the argument
    unfold expectCompatible at matched
    split at matched
    · next merged accepted =>
      obtain ⟨fills, widens⟩ := fillsTo_compatible (plain p bound found) accepted
      have kept : ∀ u, b.get? p = some u → u.FillsTo merged := by
        intro u bound'
        rw [found] at bound'
        cases bound'
        exact fills
      cases matched
      split
      · rw [show bound.fill merged = merged from fills]
        exact binds merged widens kept
      · next full =>
        obtain rfl := fills.eq (Bool.not_eq_true _ ▸ full)
        exact ⟨⟨_, found, widens, kept⟩, fun _ _ => rfl⟩
    · cases matched

theorem matchArgument_ok (plain : b.AllTypes fun t => t.isPlain)
    (matched : matchArgument h name b i param arg = .ok b') :
    b.GrowsTo b' ∧ b'.Passes h arg param := by
  cases bare : param.isBare with
  | false =>
    obtain ⟨rfl, passes⟩ := (matchArgument_around bare).mp matched
    exact ⟨.refl _, passes⟩
  | true =>
    cases param with
    | placeholder p =>
      obtain ⟨⟨t, bound, widens, fills⟩, others⟩ := matchArgument_placeholder plain matched
      refine ⟨fun q u before => ?_, ?_⟩
      · by_cases same : q = p
        · subst same
          exact ⟨t, bound, fills u before⟩
        · exact ⟨u, by rw [others q same, before], .refl u⟩
      · unfold Passes
        rw [substitute, bound]
        exact Option.isSome_of_eq_some widens
    | _ => cases bare

/-- A placeholder that is known is not bound again. -/
theorem matchArgument_known (known : b.Knows [param]) :
    matchArgument h name b i param arg = .ok b' ↔ b' = b ∧ b.Passes h arg param := by
  cases bare : param.isBare with
  | false => exact matchArgument_around bare
  | true =>
    cases param with
    | placeholder p =>
      obtain ⟨t, bound, full⟩ := known p List.mem_cons_self
      have notHole : t ≠ hole := by
        rintro rfl
        cases full
      rw [Passes, substitute, bound, matchArgument, bound]
      simp only [expectCompatible, full, Option.getD_some]
      cases compatible h arg t with
      | none => exact ⟨(nomatch ·), (nomatch ·.2)⟩
      | some merged =>
        change Except.ok b = Except.ok b' ↔ b' = b ∧ _
        simp [eq_comm]
    | _ => cases bare

/-- What an argument is under the bindings right after it was read, and under the final ones. -/
structure Turn (h : Hierarchy) (b final : Bindings) (arg param : Ty) : Prop where
  grows : b.GrowsTo final
  passes : b.Passes h arg param
  later : param.isBare ∨ b.AgreesOn final param → final.Passes h arg param

/-- An argument that was read for a placeholder is usable as what the placeholder grows to. -/
theorem turn_of_growsTo {final : Bindings} (plain : b.AllTypes fun t => t.isPlain)
    (plainFinal : final.AllTypes fun t => t.isPlain) (value : arg.describesValue)
    (first : matchArgument h name b i param arg = .ok b') (grows : b'.GrowsTo final) :
    Turn h b' final arg param := by
  obtain ⟨-, passes⟩ := matchArgument_ok plain first
  refine ⟨grows, passes, ?_⟩
  rintro (bare | agrees)
  · cases param with
    | placeholder p =>
      obtain ⟨⟨t, bound, widens, -⟩, -⟩ := matchArgument_placeholder plain first
      obtain ⟨t', bound', fills⟩ := grows p t bound
      unfold Passes
      rw [substitute, bound']
      exact Option.isSome_of_eq_some (compatible_fillsTo widens fills (plainFinal p t' bound'))
    | _ => cases bare
  · exact passes_of_agreesOn plainFinal _ value agrees passes

end Step

/-! ## All arguments -/

section Run

variable {name : String} {i : Nat} {params args : List Ty} {b final : Bindings}

theorem matchArguments_cons {param arg : Ty}
    (matched : matchArguments h name b i (param :: params) (arg :: args) = .ok final) :
    ∃ b', matchArgument h name b i param arg = .ok b' ∧
      matchArguments h name b' (i + 1) params args = .ok final := by
  unfold matchArguments at matched
  cases first : matchArgument h name b i param arg with
  | error cause =>
    rw [first] at matched
    cases matched
  | ok b' =>
    rw [first] at matched
    exact ⟨b', rfl, matched⟩

/-- Where all placeholders are known, matching asks what passes and binds nothing. -/
theorem matchArguments_known (known : b.Knows params) (lengths : args.length = params.length) :
    matchArguments h name b i params args = .ok final ↔
      final = b ∧ List.Forall₂ (b.Passes h) args params := by
  induction params generalizing i args with
  | nil =>
    obtain rfl := List.length_eq_zero_iff.mp lengths
    simp [matchArguments, eq_comm]
  | cons param params ih =>
    cases args with
    | nil => cases lengths
    | cons arg args =>
      have first : b.Knows [param] := fun p one =>
        known p (List.mem_singleton.mp one ▸ List.mem_cons_self)
      have later : b.Knows params := fun p listed => known p (List.mem_cons_of_mem _ listed)
      have rest {i : Nat} := ih (i := i) later (Nat.succ.inj lengths)
      constructor
      · intro matched
        obtain ⟨b', matchedFirst, matchedRest⟩ := matchArguments_cons matched
        obtain ⟨rfl, passes⟩ := (matchArgument_known first).mp matchedFirst
        obtain ⟨same, all⟩ := rest.mp matchedRest
        exact ⟨same, .cons passes all⟩
      · rintro ⟨rfl, all⟩
        obtain ⟨passes, all⟩ := List.forall₂_cons.mp all
        rw [matchArguments, (matchArgument_known first).mpr ⟨rfl, passes⟩]
        exact rest.mpr ⟨rfl, all⟩

/-- Induction along the arguments of a match that ends with some bindings. -/
theorem matchArguments_induction {P : Bindings → Nat → List Ty → List Ty → Prop}
    (stop : ∀ i params args, params = [] ∨ args = [] → P final i params args)
    (next : ∀ b b' i param arg params args, (b.AllTypes fun t => t.isPlain) →
      (b'.AllTypes fun t => t.isPlain) → arg.describesValue → (∀ t ∈ args, t.describesValue) →
      matchArgument h name b i param arg = .ok b' →
      matchArguments h name b' (i + 1) params args = .ok final →
      P b' (i + 1) params args → P b i (param :: params) (arg :: args))
    (plain : b.AllTypes fun t => t.isPlain) (values : ∀ t ∈ args, t.describesValue)
    (matched : matchArguments h name b i params args = .ok final) : P b i params args := by
  induction params generalizing b i args with
  | nil =>
    cases matched
    exact stop i [] args (.inl rfl)
  | cons param params ih =>
    cases args with
    | nil =>
      cases matched
      exact stop i _ [] (.inr rfl)
    | cons arg args =>
      obtain ⟨value, values⟩ := List.forall_mem_cons.mp values
      obtain ⟨b', first, rest⟩ := matchArguments_cons matched
      obtain ⟨plain', -⟩ :=
        hereditary_isPlain.matchArgument plain (isPlain_of_describesValue value) first
      exact next b b' i param arg params args plain plain' value values first rest
        (ih plain' values rest)

variable (plain : b.AllTypes fun t => t.isPlain) (values : ∀ t ∈ args, t.describesValue)
  (matched : matchArguments h name b i params args = .ok final)
include plain values matched

theorem isPlain_matchArguments : final.AllTypes fun t => t.isPlain :=
  (hereditary_isPlain.matchArguments plain (fun t ht => isPlain_of_describesValue (values t ht))
    matched).1

theorem growsTo_matchArguments : b.GrowsTo final := by
  refine matchArguments_induction (P := fun b _ _ _ => b.GrowsTo final) ?_ ?_ plain values matched
  · exact fun _ _ _ _ => .refl final
  · intro b b' i param arg params args plain _ _ _ first _ grows
    exact (matchArgument_ok plain first).1.trans grows

/-- A placeholder that is no parameter is bound to what it was bound to. -/
theorem get?_matchArguments {p : Placeholder} (absent : .placeholder p ∉ params) :
    final.get? p = b.get? p := by
  revert absent
  refine matchArguments_induction
    (P := fun b _ params _ => .placeholder p ∉ params → final.get? p = b.get? p)
    ?_ ?_ plain values matched
  · exact fun _ _ _ _ _ => rfl
  · intro b b' i param arg params args plain _ _ _ first _ ih absent
    obtain ⟨other, absent⟩ := not_or.mp (mt List.mem_cons.mpr absent)
    rw [ih absent]
    cases param with
    | placeholder q =>
      exact (matchArgument_placeholder plain first).2 p fun same => other (same ▸ rfl)
    | _ => rw [((matchArgument_around rfl).mp first).1]

theorem turn_of_matchArguments {k : Nat} {param arg : Ty} (paramAt : params[k]? = some param)
    (argAt : args[k]? = some arg) :
    ∃ mid, matchArguments h name b i (params.take (k + 1)) (args.take (k + 1)) = .ok mid ∧
      Turn h mid final arg param := by
  have plainFinal := isPlain_matchArguments plain values matched
  revert k
  refine matchArguments_induction
    (P := fun b i params args => ∀ {k}, params[k]? = some param → args[k]? = some arg →
      ∃ mid, matchArguments h name b i (params.take (k + 1)) (args.take (k + 1)) = .ok mid ∧
        Turn h mid final arg param) ?_ ?_ plain values matched
  · rintro i params args (rfl | rfl) k paramAt argAt
    · cases paramAt
    · cases argAt
  · intro b b' i param arg params args plain plain' value values first rest ih k paramAt argAt
    rw [List.take_succ_cons, List.take_succ_cons, matchArguments, first]
    cases k with
    | zero =>
      cases paramAt
      cases argAt
      exact ⟨b', rfl, turn_of_growsTo plain plainFinal value first
        (growsTo_matchArguments plain' values rest)⟩
    | succ k => exact ih paramAt argAt

/-- Where no parameter is a placeholder that occurs inside an earlier one, all arguments pass. -/
theorem forall₂_passes_of_mayPrecede (lengths : args.length = params.length)
    (ordered : params.Pairwise fun param later => param.mayPrecede later) :
    List.Forall₂ (final.Passes h) args params := by
  have plainFinal := isPlain_matchArguments plain values matched
  revert lengths ordered
  refine matchArguments_induction
    (P := fun _ _ params args => args.length = params.length →
      params.Pairwise (fun param later => param.mayPrecede later) →
      List.Forall₂ (final.Passes h) args params) ?_ ?_ plain values matched
  · rintro i params args (rfl | rfl) lengths _
    · rw [List.length_eq_zero_iff.mp lengths]
      exact .nil
    · rw [List.length_eq_zero_iff.mp lengths.symm]
      exact .nil
  · intro b b' i param arg params args plain plain' value values first rest ih lengths ordered
    obtain ⟨precedes, ordered⟩ := List.pairwise_cons.mp ordered
    have turn := turn_of_growsTo plain plainFinal value first
      (growsTo_matchArguments plain' values rest)
    refine .cons (turn.later ?_) (ih (Nat.succ.inj lengths) ordered)
    cases bare : param.isBare with
    | true => exact .inl rfl
    | false =>
      refine .inr fun p u inside bound => ?_
      have absent : .placeholder p ∉ params := by
        intro later
        have precedes := precedes _ later
        rw [mayPrecede, bare, inside] at precedes
        cases precedes
      rw [get?_matchArguments plain' values rest absent, bound]

end Run

/-! ## Signatures -/

/-- No parameter is a placeholder that occurs inside an earlier one. -/
def ApiParams.PlaceholdersFirst (params : ApiParams) : Prop :=
  params.toList.Pairwise fun param later => param.mayPrecede later

instance (params : ApiParams) : Decidable params.PlaceholdersFirst :=
  inferInstanceAs (Decidable (List.Pairwise _ _))

theorem ApiParams.PlaceholdersFirst.forCount {params : ApiParams}
    (first : params.PlaceholdersFirst) (count : Nat) :
    (params.forCount count).Pairwise fun param later => param.mayPrecede later := by
  cases params with
  | fixed params => exact first
  | repeated param =>
    refine List.pairwise_replicate.mpr (.inr ?_)
    cases param <;> rfl

set_option maxRecDepth 100000 in
theorem ApiTables.placeholdersFirst_standard {owner message : String} {signature : ApiSignature}
    (found : ApiTables.standard.signature? owner message = some signature) :
    signature.params.PlaceholdersFirst := by
  have all : ∀ cell ∈ Overrides.cells ApiTables.standard.signatures,
      cell.2.2.params.PlaceholdersFirst := by
    decide +kernel
  exact all _ (ApiTables.mem_cells_of_lookup found)

/-- The final bindings of a match: the return type is declared over them, and the receiver has its
holes filled from them and is reported if that changed it. -/
structure Bindings.Settles (b : Bindings) (s : ApiSignature) (receiver : Option Ty)
    (found : SignatureMatch) : Prop where
  ret : found.ret = s.ret.substitute b
  fills : ∀ t ∈ receiver, t.FillsTo (b.receiverShape t)
  refined : ∀ r, found.refined = some r ↔ ∃ t ∈ receiver, r = b.receiverShape t ∧ r ≠ t

section Signature

variable {s : ApiSignature} {name : String} {receiver : Option Ty} {args : List Ty}
  {found : SignatureMatch}

theorem matchSignature_settles (plain : ∀ t ∈ receiver, t.isPlain)
    (values : ∀ t ∈ args, t.describesValue)
    (matched : matchSignature h s name receiver args = .ok found) :
    args.length = (s.params.forCount args.length).length ∧
    ∃ final, matchArguments h name (.start receiver) 0 (s.params.forCount args.length) args =
      .ok final ∧ final.Settles s receiver found := by
  obtain ⟨lengths, final, run, ret, refined⟩ := matchSignature_cases matched
  have fills : ∀ t ∈ receiver, t.FillsTo (final.receiverShape t) := by
    rintro t rfl
    exact (growsTo_matchArguments (allTypes_start hereditary_isPlain plain) values
      run).fillsTo_receiverShape
  refine ⟨lengths, final, run, ret, fills, fun r => (refined r).trans ?_⟩
  refine exists_congr fun t => and_congr_right fun known => ?_
  have filled : t.fill (final.receiverShape t) = final.receiverShape t := fills t known
  rw [filled]
  constructor
  · exact fun all => all.2
  · rintro ⟨rfl, differs⟩
    refine ⟨?_, rfl, differs⟩
    by_contra full
    exact differs ((fills t known).eq (Bool.not_eq_true _ ▸ full))

theorem exists_matchSignature_iff
    (known : (start receiver).Knows (s.params.forCount args.length)) :
    (∃ found, matchSignature h s name receiver args = .ok found) ↔
      args.length = (s.params.forCount args.length).length ∧
        List.Forall₂ ((start receiver).Passes h) args (s.params.forCount args.length) := by
  constructor
  · rintro ⟨found, matched⟩
    obtain ⟨lengths, final, run, -⟩ := matchSignature_cases matched
    exact ⟨lengths, ((matchArguments_known known lengths).mp run).2⟩
  · rintro ⟨lengths, passes⟩
    unfold matchSignature
    extract_lets params first result
    have run : matchArguments h name first 0 params args = .ok first :=
      (matchArguments_known known lengths).mpr ⟨rfl, passes⟩
    rw [if_neg (not_not.mpr lengths)]
    dsimp only [result]
    rw [run]
    exact ⟨_, rfl⟩

/-- A match has final bindings over which the return type is declared and from which the receiver
has its holes filled.  Each argument passes under the bindings that it was read in, and under the
final ones if it was read for a placeholder or if what its parameter mentions stayed.  All
arguments pass under the final bindings where placeholders come first, as they do in the standard
tables.  Where the receiver knows all placeholders, a match succeeds exactly if all arguments pass
under what the receiver binds. -/
theorem match_under_final_bindings (valueReceiver : ∀ t ∈ receiver, t.describesValue)
    (values : ∀ t ∈ args, t.describesValue) :
    (∀ found, matchSignature h s name receiver args = .ok found →
      ∃ final,
        matchArguments h name (.start receiver) 0 (s.params.forCount args.length) args =
          .ok final ∧
        final.Settles s receiver found ∧
        args.length = (s.params.forCount args.length).length ∧
        (∀ k param arg, (s.params.forCount args.length)[k]? = some param → args[k]? = some arg →
          ∃ b, matchArguments h name (.start receiver) 0
              ((s.params.forCount args.length).take (k + 1)) (args.take (k + 1)) = .ok b ∧
            Turn h b final arg param) ∧
        (s.params.PlaceholdersFirst →
          List.Forall₂ (final.Passes h) args (s.params.forCount args.length)) ∧
        ∀ owner message, ApiTables.standard.signature? owner message = some s →
          List.Forall₂ (final.Passes h) args (s.params.forCount args.length)) ∧
    ((start receiver).Knows (s.params.forCount args.length) →
      ((∃ found, matchSignature h s name receiver args = .ok found) ↔
        args.length = (s.params.forCount args.length).length ∧
          List.Forall₂ ((start receiver).Passes h) args (s.params.forCount args.length))) := by
  refine ⟨fun found matched => ?_, exists_matchSignature_iff⟩
  have plain : ∀ t ∈ receiver, t.isPlain :=
    fun t ht => isPlain_of_describesValue (valueReceiver t ht)
  have plainStart := allTypes_start hereditary_isPlain plain
  obtain ⟨lengths, final, run, settles⟩ := matchSignature_settles plain values matched
  -- with the placeholders first, no later argument changes what an earlier one is checked against
  have ordered (first : s.params.PlaceholdersFirst) :
      List.Forall₂ (final.Passes h) args (s.params.forCount args.length) :=
    forall₂_passes_of_mayPrecede plainStart values run lengths (first.forCount args.length)
  refine ⟨final, run, settles, lengths, fun k param arg => ?_, ordered,
    fun owner message listed => ?_⟩
  · exact turn_of_matchArguments plainStart values run
  · exact ordered (ApiTables.placeholdersFirst_standard listed)

end Signature

/-- Takes a key, and two values for it, and gives back pairs. -/
def putBoth : ApiSignature :=
  ⟨.fixed [.placeholder .key, .placeholder .value, .placeholder .value],
    .list (.tuple [.placeholder .key, .placeholder .value])⟩

/-- A dictionary of pairs with a shape, of which the keys are not known yet. -/
def unkeyedPairs : Ty := dictionary hole (tuple [hole, atom "Shape"])

/-- A key, a pair with an unknown place and one that has an `Int` there. -/
def keyAndPairs : List Ty := [string, tuple [hole, atom "Square"], tuple [int, atom "Shape"]]

/-- The values that are put in the dictionary fill each other's holes. -/
theorem match_under_final_bindings_shapes :
    (∀ t ∈ some unkeyedPairs, t.describesValue) ∧ (∀ t ∈ keyAndPairs, t.describesValue) ∧
    matchSignature shapes putBoth "put_both" (some unkeyedPairs) keyAndPairs =
      .ok ⟨list (tuple [string, tuple [int, atom "Shape"]]),
        some (dictionary string (tuple [int, atom "Shape"]))⟩ ∧
    ∃ final : Bindings, List.Forall₂ (final.Passes shapes) keyAndPairs
      [.placeholder .key, .placeholder .value, .placeholder .value] := by
  have valueReceiver : ∀ t ∈ some unkeyedPairs, t.describesValue := by
    decide
  have values : ∀ t ∈ keyAndPairs, t.describesValue := by
    decide
  have matched : matchSignature shapes putBoth "put_both" (some unkeyedPairs) keyAndPairs =
      .ok ⟨list (tuple [string, tuple [int, atom "Shape"]]),
        some (dictionary string (tuple [int, atom "Shape"]))⟩ := by
    decide +kernel
  obtain ⟨after, -⟩ := match_under_final_bindings valueReceiver values
  obtain ⟨final, -, -, -, -, ordered, -⟩ := after _ matched
  exact ⟨valueReceiver, values, matched, final, ordered (by decide)⟩

/-- Takes a list of elements, and one more element. -/
def putAll : ApiSignature :=
  ⟨.fixed [.list (.placeholder .element), .placeholder .element], .void⟩

/-- A list of unknown elements takes a list of `Int` and a `String`, and is a list of `String` then:
the first argument passes under no bindings that the match has. -/
theorem bound_behind_its_use :
    ApiSignature.parse ["List[@t]", "@t", "Void"] = .ok putAll ∧
    Hierarchy.Acyclic Hierarchy.empty.base? ∧
    matchSignature .empty putAll "put_all" (some (list hole)) [list int, string] =
      .ok ⟨.void, some (list string)⟩ ∧
    ∀ final : Bindings, final.Settles putAll (some (list hole)) ⟨.void, some (list string)⟩ →
      ¬List.Forall₂ (final.Passes .empty) [list int, string]
        [.list (.placeholder .element), .placeholder .element] := by
  refine ⟨by decide +kernel, Hierarchy.DeclaredOnce.empty.acyclic, by decide +kernel, ?_⟩
  intro final settles passes
  obtain ⟨t, known, refined, -⟩ := (settles.refined (list string)).mp rfl
  cases known
  have bound : string = final.element.getD hole := Ty.list.inj refined
  cases found : final.element with
  | none =>
    rw [found] at bound
    cases bound
  | some u =>
    rw [found] at bound
    obtain rfl : string = u := bound
    have first := (List.forall₂_cons.mp passes).1
    simp only [Passes, substitute, get?, found] at first
    exact absurd first (by decide +kernel)

end TreeTyper
