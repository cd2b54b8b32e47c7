import TreeTyper.Proofs.Compatible
import TreeTyper.Typing.Call
import TreeTyper.Typing.Operator

/-!
# Properties that constructors pass on

A property of types is hereditary if a parametric type has it exactly if all its
parameters have it, and holes and the builtin atoms have it.  Whatever is computed
from types with such a property has it, too: a hole that is filled, a type that
another one is brought to, the result of an operator.  A join can be a class above
both types, so the classes need the property for it.

    V a, V b → V (a.fill b)                                    (Hereditary.fill)
    V a, V b → compatible h a b = some c → V c                 (Hereditary.compatible)
    V a, V b → unify h a b = some c → V c                      (Hereditary.unify)
-/

namespace TreeTyper

namespace Ty

/-- The atoms that are no names of a module. -/
def builtinNames : List String :=
  [intName, floatName, stringName, booleanName, voidName, regexpName, regexpMatchName]

structure Hereditary (V : Ty → Prop) : Prop where
  hole : V .hole
  builtin : ∀ name ∈ builtinNames, V (.atom name)
  list : ∀ {t}, V (.list t) ↔ V t
  set : ∀ {t}, V (.set t) ↔ V t
  array : ∀ {t n}, V (.array t n) ↔ V t
  dictionary : ∀ {k v}, V (.dictionary k v) ↔ V k ∧ V v
  tuple : ∀ {ts}, V (.tuple ts) ↔ ∀ t ∈ ts, V t
  function : ∀ {ps r}, V (.function ps r) ↔ (∀ p ∈ ps, V p) ∧ V r

end Ty

/-- All classes have a property, taken as types. -/
def Hierarchy.ClassesHave (V : Ty → Prop) (h : Hierarchy) : Prop :=
  ∀ name, h.isClass name → V (.atom name)

namespace Ty.Hereditary

variable {V : Ty → Prop}

/-! ## Filling -/

mutual

theorem fill (H : Hereditary V) : ∀ {t e : Ty}, V t → V e → V (t.fill e)
  | .hole, e, _, he => by rwa [fill_hole]
  | .list a, e, ha, he => by
    -- a type of another form fills nothing in a list
    cases e <;> simp only [Ty.fill] <;> try exact ha
    exact H.list.mpr (fill H (H.list.mp ha) (H.list.mp he))
  | .set a, e, ha, he => by
    cases e <;> simp only [Ty.fill] <;> try exact ha
    exact H.set.mpr (fill H (H.set.mp ha) (H.set.mp he))
  | .array a n, e, ha, he => by
    cases e <;> simp only [Ty.fill] <;> try exact ha
    exact H.array.mpr (fill H (H.array.mp ha) (H.array.mp he))
  | .dictionary k v, e, ha, he => by
    cases e <;> simp only [Ty.fill] <;> try exact ha
    obtain ⟨hk, hv⟩ := H.dictionary.mp ha
    obtain ⟨hk', hv'⟩ := H.dictionary.mp he
    exact H.dictionary.mpr ⟨fill H hk hk', fill H hv hv'⟩
  | .tuple as, e, ha, he => by
    cases e <;> simp only [Ty.fill] <;> try exact ha
    split
    · exact H.tuple.mpr (fillAll H (H.tuple.mp ha) (H.tuple.mp he))
    · exact ha
  | .function ps r, e, ha, he => by
    cases e <;> simp only [Ty.fill] <;> try exact ha
    split
    · obtain ⟨hps, hr⟩ := H.function.mp ha
      obtain ⟨hps', hr'⟩ := H.function.mp he
      exact H.function.mpr ⟨fillAll H hps hps', fill H hr hr'⟩
    · exact ha
  | .atom _, e, ha, _ => by cases e <;> exact ha
  | .placeholder _, e, ha, _ => by cases e <;> exact ha
  | .any, e, ha, _ => by cases e <;> exact ha
  | .number, e, ha, _ => by cases e <;> exact ha

theorem fillAll (H : Hereditary V) : ∀ {ts es : List Ty}, (∀ t ∈ ts, V t) → (∀ e ∈ es, V e) →
    ∀ t ∈ Ty.fillAll ts es, V t
  | [], es, _, _ => by cases es <;> simp [Ty.fillAll]
  | t :: ts, [], _, _ => by simp [Ty.fillAll]
  | t :: ts, e :: es, hts, hes => by
    rw [List.forall_mem_cons] at hts hes
    rw [Ty.fillAll, List.forall_mem_cons]
    exact ⟨fill H hts.1 hes.1, fillAll H hts.2 hes.2⟩

end

variable (H : Hereditary V)

include H

/-! ## Values -/

theorem int : V .int := H.builtin _ (by decide)

theorem float : V .float := H.builtin _ (by decide)

theorem string : V .string := H.builtin _ (by decide)

theorem boolean : V .boolean := H.builtin _ (by decide)

theorem void : V .void := H.builtin _ (by decide)

theorem regexp : V (.atom regexpName) := H.builtin _ (by decide)

theorem element {t elem : Ty} (ht : V t) (iterates : t.element? = some elem) : V elem := by
  cases t with
  | list t =>
    cases iterates
    exact H.list.mp ht
  | set t =>
    cases iterates
    exact H.set.mp ht
  | array t n =>
    cases iterates
    exact H.array.mp ht
  | dictionary k v =>
    cases iterates
    exact (H.dictionary.mp ht).1
  | atom name =>
    rw [element?] at iterates
    split at iterates
    · cases iterates
      exact H.string
    · cases iterates
  | _ => cases iterates

/-! ## Compatibility and joins -/

section Joins

variable {h : Hierarchy} {a b c : Ty}

theorem compatibleAtoms {a b : String} (hb : V (.atom b))
    (found : compatibleAtoms h a b = some c) : V c := by
  unfold TreeTyper.compatibleAtoms at found
  split at found
  · cases found
    exact H.float
  split at found
  · cases found
    exact hb
  · cases found

theorem compatible (ha : V a) (hb : V b) (found : compatible h a b = some c) : V c := by
  revert ha hb
  refine compatible_induction (P := fun a b c => V a → V b → V c)
    (Q := fun as bs cs => (∀ a ∈ as, V a) → (∀ b ∈ bs, V b) → ∀ c ∈ cs, V c)
    ?_ ?_ ?_ ?_ ?_ ?_ ?_ ?_ ?_ ?_ ?_ ?_ ?_ ?_ found
  · exact fun t ht _ => ht
  · exact fun t ht _ => ht
  · exact fun t _ ht _ => ht
  · exact fun t _ _ _ ht => ht
  · exact fun t ht _ => ht
  · exact fun a b c found _ hb => H.compatibleAtoms hb found
  · exact fun a b c ih ha hb => H.list.mpr (ih (H.list.mp ha) (H.list.mp hb))
  · exact fun a b c ih ha hb => H.set.mpr (ih (H.set.mp ha) (H.set.mp hb))
  · exact fun a b c n ih ha hb => H.array.mpr (ih (H.array.mp ha) (H.array.mp hb))
  · intro k k' k'' v v' v'' ihKey ihValue ha hb
    obtain ⟨hk, hv⟩ := H.dictionary.mp ha
    obtain ⟨hk', hv'⟩ := H.dictionary.mp hb
    exact H.dictionary.mpr ⟨ihKey hk hk', ihValue hv hv'⟩
  · exact fun as bs cs ih ha hb => H.tuple.mpr (ih (H.tuple.mp ha) (H.tuple.mp hb))
  · intro ps ps' ps'' r r' r'' ihParams ihRet ha hb
    obtain ⟨hps, hr⟩ := H.function.mp ha
    obtain ⟨hps', hr'⟩ := H.function.mp hb
    exact H.function.mpr ⟨ihParams hps hps', ihRet hr hr'⟩
  · exact fun _ _ => by simp
  · intro a b c as bs cs ih ihAll ha hb
    rw [List.forall_mem_cons] at ha hb ⊢
    exact ⟨ih ha.1 hb.1, ihAll ha.2 hb.2⟩

variable (classes : h.ClassesHave V)

include classes

theorem unifyAtoms {a b : String} (found : unifyAtoms h a b = some c) : V c := by
  unfold TreeTyper.unifyAtoms at found
  split at found
  · cases found
    exact H.float
  split at found
  · obtain ⟨name, above, rfl⟩ := Option.map_eq_some_iff.mp found
    exact classes name (Option.filter_eq_some_iff.mp above).2
  · cases found

theorem unify (ha : V a) (hb : V b) (found : unify h a b = some c) : V c := by
  revert ha hb
  refine unify_induction (P := fun a b c => V a → V b → V c)
    (Q := fun as bs cs => (∀ a ∈ as, V a) → (∀ b ∈ bs, V b) → ∀ c ∈ cs, V c)
    ?_ ?_ ?_ ?_ ?_ ?_ ?_ ?_ ?_ ?_ ?_ ?_ ?_ found
  · exact fun t ht _ => ht
  · exact fun t _ ht => ht
  · exact fun t ht _ => ht
  · exact fun a b c _ found _ _ => H.unifyAtoms classes found
  · exact fun a b c ih ha hb => H.list.mpr (ih (H.list.mp ha) (H.list.mp hb))
  · exact fun a b c ih ha hb => H.set.mpr (ih (H.set.mp ha) (H.set.mp hb))
  · exact fun a b c n ih ha hb => H.array.mpr (ih (H.array.mp ha) (H.array.mp hb))
  · intro k k' k'' v v' v'' ihKey ihValue ha hb
    obtain ⟨hk, hv⟩ := H.dictionary.mp ha
    obtain ⟨hk', hv'⟩ := H.dictionary.mp hb
    exact H.dictionary.mpr ⟨ihKey hk hk', ihValue hv hv'⟩
  · exact fun as bs cs ih ha hb => H.tuple.mpr (ih (H.tuple.mp ha) (H.tuple.mp hb))
  · exact fun a b c found ha hb => H.compatible ha hb found
  · exact fun a b c found ha hb => H.compatible hb ha found
  · exact fun _ _ => by simp
  · intro a b c as bs cs ih ihAll ha hb
    rw [List.forall_mem_cons] at ha hb ⊢
    exact ⟨ih ha.1 hb.1, ihAll ha.2 hb.2⟩

end Joins

/-! ## Operators -/

section Operators

variable {op : String} {left right t : Ty}

theorem arithmetic (found : arithmetic? left right = some t) : V t := by
  unfold arithmetic? at found
  split at found
  · cases found
    exact H.int
  split at found
  · cases found
    exact H.float
  · cases found

theorem remainder (found : remainder? left right = some t) : V t := by
  unfold remainder? at found
  split at found
  · cases found
    exact H.int
  split at found
  · cases found
    exact H.string
  split at found
  · split at found
    · cases found
      exact H.string
    · cases found
  · cases found

variable (hl : V left) (hr : V right)

include hl hr

theorem merged {headName : String} (found : merged? headName left right = some t) : V t := by
  unfold merged? at found
  split at found
  · cases found
    exact H.fill hl hr
  · cases found

omit H in
theorem repeated (found : repeated? left right = some t) : V t := by
  unfold repeated? at found
  split at found
  · cases found
    exact hr
  split at found
  · cases found
    exact hl
  · cases found

theorem concatenated (found : concatenated? left right = some t) : V t := by
  unfold concatenated? at found
  split at found
  · cases found
    exact H.string
  · exact H.merged hl hr found

theorem binaryResult (found : binaryResult? op left right = some t) : V t := by
  have orElse : ∀ {other : Option Ty}, (arithmetic? left right).or other = some t →
      (other = some t → V t) → V t := fun found next =>
    (Option.or_eq_some_iff.mp found).elim H.arithmetic fun found => next found.2
  unfold binaryResult? at found
  split at found
  · exact orElse found (H.concatenated hl hr)
  · exact orElse found (H.merged hl hr)
  · exact orElse found (repeated hl hr)
  · exact H.arithmetic found
  · exact H.arithmetic found
  · exact H.remainder found
  · exact H.merged hl hr found
  · exact H.merged hl hr found
  · exact H.merged hl hr found
  · cases found

end Operators

end Ty.Hereditary

/-! ## The least property -/

namespace Hierarchy

/-- The types that the classes and the builtin types build: those with every hereditary property
that all classes have. -/
def Builds (h : Hierarchy) (t : Ty) : Prop :=
  ∀ V : Ty → Prop, Ty.Hereditary V → h.ClassesHave V → V t

variable {h h' : Hierarchy}

theorem hereditary_builds (h : Hierarchy) : Ty.Hereditary h.Builds where
  hole _ H _ := H.hole
  builtin name listed _ H _ := H.builtin name listed
  list := forall₃_congr fun _ H _ => H.list
  set := forall₃_congr fun _ H _ => H.set
  array := forall₃_congr fun _ H _ => H.array
  dictionary := by
    intro k v
    refine ⟨fun built => ⟨fun V H hc => ?_, fun V H hc => ?_⟩, fun built V H hc => ?_⟩
    · exact (H.dictionary.mp (built V H hc)).1
    · exact (H.dictionary.mp (built V H hc)).2
    · exact H.dictionary.mpr ⟨built.1 V H hc, built.2 V H hc⟩
  tuple := by
    intro ts
    refine ⟨fun built t ht V H hc => ?_, fun built V H hc => ?_⟩
    · exact H.tuple.mp (built V H hc) t ht
    · exact H.tuple.mpr fun t ht => built t ht V H hc
  function := by
    intro ps r
    refine ⟨fun built => ⟨fun p hp V H hc => ?_, fun V H hc => ?_⟩, fun built V H hc => ?_⟩
    · exact (H.function.mp (built V H hc)).1 p hp
    · exact (H.function.mp (built V H hc)).2
    · exact H.function.mpr ⟨fun p hp => built.1 p hp V H hc, built.2 V H hc⟩

theorem classesHave_builds (h : Hierarchy) : h.ClassesHave h.Builds :=
  fun name isClass _ _ classes => classes name isClass

theorem Builds.mono {t : Ty} (built : h.Builds t) (more : ∀ name, h.isClass name → h'.isClass name) :
    h'.Builds t :=
  fun V H classes => built V H fun name isClass => classes name (more name isClass)

end Hierarchy

end TreeTyper
