import TreeTyper.Ty.Basic

/-!
# Filling holes and binding placeholders

`fill t evidence` fills the holes of `t` from the slots of `evidence` in the
same place.  A slot that is known stays, also where the evidence disagrees; the
evidence counts only below constructors, arities and parameter counts that
match (the length of an array does not matter).

`Bindings` are the values of the placeholders in one check of a signature, and
`substitute` puts them in; an unbound placeholder stays.

    fill hole e = e                                  (fill_hole)
    hasHoles t = false → fill t e = t                (fill_of_not_hasHoles)
-/

namespace TreeTyper

namespace Ty

/-! ## Filling -/

mutual

def fill : Ty → Ty → Ty
  | hole, e => e
  | list a, list b => list (fill a b)
  | set a, set b => set (fill a b)
  | array a n, array b _ => array (fill a b) n
  | dictionary k v, dictionary k' v' => dictionary (fill k k') (fill v v')
  | tuple as, tuple bs => if as.length = bs.length then tuple (fillAll as bs) else tuple as
  | function ps r, function ps' r' =>
    if ps.length = ps'.length then function (fillAll ps ps') (fill r r') else function ps r
  | t, _ => t

def fillAll : List Ty → List Ty → List Ty
  | a :: as, b :: bs => fill a b :: fillAll as bs
  | _, _ => []

end

end Ty

/-! ## Placeholders -/

/-- What the placeholders of a signature stand for. -/
structure Bindings where
  element : Option Ty
  key : Option Ty
  value : Option Ty
  deriving DecidableEq, Repr, Inhabited

namespace Bindings

def empty : Bindings := ⟨none, none, none⟩

/-- The bindings given by a receiver's own type. -/
def ofReceiver : Ty → Bindings
  | .list t => ⟨some t, none, none⟩
  | .set t => ⟨some t, none, none⟩
  | .array t _ => ⟨some t, none, none⟩
  | .dictionary k v => ⟨none, some k, some v⟩
  | _ => empty

def get? (b : Bindings) : Placeholder → Option Ty
  | .element => b.element
  | .key => b.key
  | .value => b.value

def bind (b : Bindings) (p : Placeholder) (t : Ty) : Bindings :=
  match p with
  | .element => { b with element := some t }
  | .key => { b with key := some t }
  | .value => { b with value := some t }

def isEmpty (b : Bindings) : Bool := b.element.isNone && b.key.isNone && b.value.isNone

/-- The constructor of a receiver over the bindings, with holes for unbound placeholders. -/
def receiverShape (b : Bindings) : Ty → Ty
  | .list _ => .list (b.element.getD .hole)
  | .set _ => .set (b.element.getD .hole)
  | .array _ n => .array (b.element.getD .hole) n
  | .dictionary _ _ => .dictionary (b.key.getD .hole) (b.value.getD .hole)
  | t => t

@[simp] theorem get?_bind_self (b : Bindings) (p : Placeholder) (t : Ty) :
    (b.bind p t).get? p = some t := by
  cases p <;> rfl

theorem get?_bind_of_ne {p q : Placeholder} (h : q ≠ p) (b : Bindings) (t : Ty) :
    (b.bind p t).get? q = b.get? q := by
  cases p <;> cases q <;> first | rfl | exact absurd rfl h

end Bindings

namespace Ty

mutual

/-- Puts the bindings in place of the placeholders. -/
def substitute (b : Bindings) : Ty → Ty
  | placeholder p => (b.get? p).getD (placeholder p)
  | list t => list (substitute b t)
  | set t => set (substitute b t)
  | array t n => array (substitute b t) n
  | dictionary k v => dictionary (substitute b k) (substitute b v)
  | tuple ts => tuple (substituteAll b ts)
  | function ps r => function (substituteAll b ps) (substitute b r)
  | t => t

def substituteAll (b : Bindings) : List Ty → List Ty
  | [] => []
  | t :: ts => substitute b t :: substituteAll b ts

end

/-! ## Lemmas -/

@[simp] theorem fill_hole (e : Ty) : fill hole e = e := by simp [fill]

mutual

theorem fill_of_not_hasHoles : ∀ (t e : Ty), t.hasHoles = false → fill t e = t
  | hole, _, h => by simp [hasHoles] at h
  | list a, e, h => by
    cases e <;> simp_all [fill, hasHoles, fill_of_not_hasHoles a]
  | set a, e, h => by
    cases e <;> simp_all [fill, hasHoles, fill_of_not_hasHoles a]
  | array a _, e, h => by
    cases e <;> simp_all [fill, hasHoles, fill_of_not_hasHoles a]
  | dictionary k v, e, h => by
    cases e <;> simp_all [fill, hasHoles, fill_of_not_hasHoles k, fill_of_not_hasHoles v]
  | tuple as, e, h => by
    cases e with
    | tuple bs =>
      simp only [fill]
      split
      · rename_i hlen
        rw [fillAll_of_not_anyHoles as bs (by simpa [hasHoles] using h) hlen]
      · rfl
    | _ => simp [fill]
  | function ps r, e, h => by
    cases e with
    | function ps' r' =>
      simp only [hasHoles, Bool.or_eq_false_iff] at h
      simp only [fill]
      split
      · rename_i hlen
        rw [fillAll_of_not_anyHoles ps ps' h.1 hlen, fill_of_not_hasHoles r r' h.2]
      · rfl
    | _ => simp [fill]
  | atom _, e, _ => by cases e <;> simp [fill]
  | any, e, _ => by cases e <;> simp [fill]
  | number, e, _ => by cases e <;> simp [fill]
  | placeholder _, e, _ => by cases e <;> simp [fill]

theorem fillAll_of_not_anyHoles : ∀ (as bs : List Ty), anyHoles as = false →
    as.length = bs.length → fillAll as bs = as
  | [], bs, _, _ => by cases bs <;> simp [fillAll]
  | a :: as, [], _, hlen => by simp at hlen
  | a :: as, b :: bs, h, hlen => by
    simp only [anyHoles, Bool.or_eq_false_iff] at h
    rw [fillAll, fill_of_not_hasHoles a b h.1,
      fillAll_of_not_anyHoles as bs h.2 (by simpa using hlen)]

end

end Ty

end TreeTyper
