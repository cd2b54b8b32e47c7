import TreeTyper.Proofs.Hereditary

/-!
# Types of values

`any` and `number` stand in the signatures of the standard tables and describe no
value.  A type without them is plain; being plain is hereditary.

    a, b plain → compatible h a b = some c → c plain        (isPlain_compatible)
    a, b plain → unify h a b = some c → c plain             (isPlain_unify)
-/

namespace TreeTyper

namespace Ty

mutual

/-- Whether neither `any` nor `number` occurs. -/
def isPlain : Ty → Bool
  | any => false
  | number => false
  | list t => isPlain t
  | set t => isPlain t
  | array t _ => isPlain t
  | dictionary k v => isPlain k && isPlain v
  | tuple ts => allPlain ts
  | function ps r => allPlain ps && isPlain r
  | atom _ | hole | placeholder _ => true

def allPlain : List Ty → Bool
  | [] => true
  | t :: ts => isPlain t && allPlain ts

end

theorem allPlain_iff {ts : List Ty} : allPlain ts = true ↔ ∀ t ∈ ts, t.isPlain = true := by
  induction ts with
  | nil => simp [allPlain]
  | cons t ts ih => simp [allPlain, ih]

theorem hereditary_isPlain : Hereditary fun t => t.isPlain where
  hole := rfl
  builtin _ _ := rfl
  list := Iff.rfl
  set := Iff.rfl
  array := Iff.rfl
  dictionary := Bool.and_eq_true_iff
  tuple := allPlain_iff
  function := Bool.and_eq_true_iff.trans (and_congr_left' allPlain_iff)

theorem isPlain_element {t elem : Ty} (plain : t.isPlain) (iterates : t.element? = some elem) :
    elem.isPlain :=
  hereditary_isPlain.element plain iterates

end Ty

variable {h : Hierarchy} {a b c : Ty}

theorem classesHave_isPlain (h : Hierarchy) : h.ClassesHave fun t => t.isPlain := fun _ _ => rfl

theorem isPlain_compatible (ha : a.isPlain) (hb : b.isPlain) (found : compatible h a b = some c) :
    c.isPlain :=
  Ty.hereditary_isPlain.compatible ha hb found

theorem isPlain_unify (ha : a.isPlain) (hb : b.isPlain) (found : unify h a b = some c) :
    c.isPlain :=
  Ty.hereditary_isPlain.unify (classesHave_isPlain h) ha hb found

end TreeTyper
