import TreeTyper.Hierarchy

/-!
# Compatibility and joins

`compatible h from to` is the type that a value of type `from` takes where `to`
is expected: an `Int` widens to `Float`, a class to an ancestor, and holes on
either side are filled from the other.  `unify h a b` is the least type that
values of both types can take; two classes meet in their nearest common
ancestor.

    compatible h t t = some t           (compatible_self)
    unify h t t = some t                (unify_self)
-/

namespace TreeTyper

/-! ## Algorithm -/

/-- Where an atom may be used as another one. -/
def compatibleAtoms (h : Hierarchy) (source target : String) : Option Ty :=
  if source = Ty.intName ∧ target = Ty.floatName then some .float
  else if h.isClass source && h.isSubclass source target then some (.atom target)
  else none

mutual

def compatible (h : Hierarchy) (source target : Ty) : Option Ty :=
  if source = target then some target
  else
    match source, target with
    | source, .any => some source
    | source, .number => if source.isNumeric then some source else none
    | .hole, target => some target
    | source, .hole => some source
    | .atom s, .atom t => compatibleAtoms h s t
    | .list s, .list t => (compatible h s t).map .list
    | .set s, .set t => (compatible h s t).map .set
    | .array s n, .array t m =>
      if n = m then (compatible h s t).map (.array · n) else none
    | .dictionary sk sv, .dictionary tk tv => do
      let k ← compatible h sk tk
      let v ← compatible h sv tv
      return .dictionary k v
    | .tuple ss, .tuple ts => (compatibleAll h ss ts).map .tuple
    | .function sp sr, .function tp tr => do
      let params ← compatibleAll h sp tp
      let ret ← compatible h sr tr
      return .function params ret
    | _, _ => none

/-- Compatibility in every place of two lists of one length. -/
def compatibleAll (h : Hierarchy) (sources targets : List Ty) : Option (List Ty) :=
  match sources, targets with
  | [], [] => some []
  | s :: ss, t :: ts => do
    let r ← compatible h s t
    let rs ← compatibleAll h ss ts
    return r :: rs
  | _, _ => none

end

/-- The meeting point of two atoms that differ. -/
def unifyAtoms (h : Hierarchy) (a b : String) : Option Ty :=
  if (Ty.atom a).isNumeric && (Ty.atom b).isNumeric then some .float
  else if h.isClass a && h.isClass b then (h.commonAncestor a b).map .atom
  else none

mutual

def unify (h : Hierarchy) (a b : Ty) : Option Ty :=
  if a = b then some a
  else
    match a, b with
    | .hole, t => some t
    | t, .hole => some t
    | .atom x, .atom y => unifyAtoms h x y
    | .list x, .list y => (unify h x y).map .list
    | .set x, .set y => (unify h x y).map .set
    | .array x n, .array y m =>
      if n = m then (unify h x y).map (.array · n)
      else (compatible h a b).or (compatible h b a)
    | .dictionary xk xv, .dictionary yk yv => do
      let k ← unify h xk yk
      let v ← unify h xv yv
      return .dictionary k v
    | .tuple xs, .tuple ys =>
      if xs.length = ys.length then (unifyAll h xs ys).map .tuple
      else (compatible h a b).or (compatible h b a)
    | _, _ => (compatible h a b).or (compatible h b a)

/-- Joins in every place of two lists of one length. -/
def unifyAll (h : Hierarchy) (as bs : List Ty) : Option (List Ty) :=
  match as, bs with
  | [], [] => some []
  | a :: as, b :: bs => do
    let r ← unify h a b
    let rs ← unifyAll h as bs
    return r :: rs
  | _, _ => none

end

/-! ## Walks along the bases -/

def compatibleAtomsEnds (h : Hierarchy) (source target : String) : Bool :=
  (source == Ty.intName && target == Ty.floatName) || !h.isClass source ||
    h.isSubclassEnds source target

mutual

/-- Whether `compatible` answers: all walks along the bases that it takes end. -/
def compatibleEnds (h : Hierarchy) (source target : Ty) : Bool :=
  if source = target then true
  else
    match source, target with
    | .atom s, .atom t => compatibleAtomsEnds h s t
    | .list s, .list t => compatibleEnds h s t
    | .set s, .set t => compatibleEnds h s t
    | .array s n, .array t m => n != m || compatibleEnds h s t
    | .dictionary sk sv, .dictionary tk tv =>
      compatibleEnds h sk tk && ((compatible h sk tk).isNone || compatibleEnds h sv tv)
    | .tuple ss, .tuple ts => ss.length != ts.length || compatibleAllEnds h ss ts
    | .function sp sr, .function tp tr => sp.length != tp.length ||
      (compatibleAllEnds h sp tp && ((compatibleAll h sp tp).isNone || compatibleEnds h sr tr))
    | _, _ => true

def compatibleAllEnds (h : Hierarchy) (sources targets : List Ty) : Bool :=
  match sources, targets with
  | s :: ss, t :: ts =>
    compatibleEnds h s t && ((compatible h s t).isNone || compatibleAllEnds h ss ts)
  | _, _ => true

end

def eitherCompatibleEnds (h : Hierarchy) (a b : Ty) : Bool :=
  compatibleEnds h a b && ((compatible h a b).isSome || compatibleEnds h b a)

def unifyAtomsEnds (h : Hierarchy) (a b : String) : Bool :=
  ((Ty.atom a).isNumeric && (Ty.atom b).isNumeric) || !h.isClass a || !h.isClass b ||
    h.commonAncestorEnds a b

mutual

/-- Whether `unify` answers. -/
def unifyEnds (h : Hierarchy) (a b : Ty) : Bool :=
  if a = b then true
  else
    match a, b with
    | .hole, _ => true
    | _, .hole => true
    | .atom x, .atom y => unifyAtomsEnds h x y
    | .list x, .list y => unifyEnds h x y
    | .set x, .set y => unifyEnds h x y
    | .array x n, .array y m =>
      if n = m then unifyEnds h x y else eitherCompatibleEnds h a b
    | .dictionary xk xv, .dictionary yk yv =>
      unifyEnds h xk yk && ((unify h xk yk).isNone || unifyEnds h xv yv)
    | .tuple xs, .tuple ys =>
      if xs.length = ys.length then unifyAllEnds h xs ys else eitherCompatibleEnds h a b
    | _, _ => eitherCompatibleEnds h a b

def unifyAllEnds (h : Hierarchy) (as bs : List Ty) : Bool :=
  match as, bs with
  | a :: as, b :: bs =>
    unifyEnds h a b && ((unify h a b).isNone || unifyAllEnds h as bs)
  | _, _ => true

end

/-! ## Lemmas -/

@[simp] theorem compatible_self (h : Hierarchy) (t : Ty) : compatible h t t = some t := by
  unfold compatible
  simp

@[simp] theorem unify_self (h : Hierarchy) (t : Ty) : unify h t t = some t := by
  unfold unify
  simp

end TreeTyper
