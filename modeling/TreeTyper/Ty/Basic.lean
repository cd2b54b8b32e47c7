/-!
# Types

A type is an atom (`Int`, `String`, the name of a class), a constructor
applied to parameters, or a hole: a slot that is not inferred yet.  `any`,
`number` and the placeholders occur in signatures of the standard tables only
and describe no value.

`==` and `=` agree, and equality is decidable by a structural test (`beq_iff`).
-/

namespace TreeTyper

/-- A placeholder of a signature, bound from the type of the receiver. -/
inductive Placeholder where
  /-- The elements of a list, set or array. -/
  | element
  /-- The keys of a dictionary. -/
  | key
  /-- The values of a dictionary. -/
  | value
  deriving DecidableEq, Repr

def Placeholder.name : Placeholder → String
  | .element => "@t"
  | .key => "@k"
  | .value => "@v"

inductive Ty where
  | atom (name : String)
  | list (elem : Ty)
  | dictionary (key value : Ty)
  | set (elem : Ty)
  /-- A sequence of fixed length whose elements have one type. -/
  | array (elem : Ty) (length : Nat)
  /-- A sequence of fixed length whose elements have types of their own. -/
  | tuple (elems : List Ty)
  | function (params : List Ty) (ret : Ty)
  /-- A slot that is not inferred yet. -/
  | hole
  /-- Accepts every argument. -/
  | any
  /-- Accepts `Int` and `Float`. -/
  | number
  | placeholder (p : Placeholder)
  deriving Repr, Inhabited

namespace Ty

def intName : String := "Int"
def floatName : String := "Float"
def stringName : String := "String"
def booleanName : String := "Boolean"
def voidName : String := "Void"
def regexpName : String := "Regexp"
def regexpMatchName : String := "RegexpMatch"
def exceptionName : String := "Exception"

def int : Ty := atom intName
def float : Ty := atom floatName
def string : Ty := atom stringName
def boolean : Ty := atom booleanName
def void : Ty := atom voidName

/-! ## Equality -/

mutual

def beq : Ty → Ty → Bool
  | atom a, atom b => a == b
  | list a, list b => beq a b
  | dictionary k v, dictionary k' v' => beq k k' && beq v v'
  | set a, set b => beq a b
  | array a n, array b m => beq a b && n == m
  | tuple as, tuple bs => beqAll as bs
  | function ps r, function ps' r' => beqAll ps ps' && beq r r'
  | hole, hole => true
  | any, any => true
  | number, number => true
  | placeholder p, placeholder q => p == q
  | _, _ => false

def beqAll : List Ty → List Ty → Bool
  | [], [] => true
  | a :: as, b :: bs => beq a b && beqAll as bs
  | _, _ => false

end

mutual

theorem eq_of_beq : ∀ {a b : Ty}, beq a b = true → a = b
  | atom _, b, h => by cases b <;> simp_all [beq]
  | list a, b, h => by
    cases b <;> simp only [beq, Bool.false_eq_true] at h
    rw [eq_of_beq h]
  | dictionary k v, b, h => by
    cases b <;> simp only [beq, Bool.and_eq_true, Bool.false_eq_true] at h
    rw [eq_of_beq h.1, eq_of_beq h.2]
  | set a, b, h => by
    cases b <;> simp only [beq, Bool.false_eq_true] at h
    rw [eq_of_beq h]
  | array a n, b, h => by
    cases b <;> simp only [beq, Bool.and_eq_true, beq_iff_eq, Bool.false_eq_true] at h
    rw [eq_of_beq h.1, h.2]
  | tuple as, b, h => by
    cases b <;> simp only [beq, Bool.false_eq_true] at h
    rw [eq_of_beqAll h]
  | function ps r, b, h => by
    cases b <;> simp only [beq, Bool.and_eq_true, Bool.false_eq_true] at h
    rw [eq_of_beqAll h.1, eq_of_beq h.2]
  | hole, b, h => by cases b <;> simp_all [beq]
  | any, b, h => by cases b <;> simp_all [beq]
  | number, b, h => by cases b <;> simp_all [beq]
  | placeholder _, b, h => by cases b <;> simp_all [beq]

theorem eq_of_beqAll : ∀ {as bs : List Ty}, beqAll as bs = true → as = bs
  | [], bs, h => by cases bs <;> simp_all [beqAll]
  | a :: as, bs, h => by
    cases bs <;> simp only [beqAll, Bool.and_eq_true, Bool.false_eq_true] at h
    rw [eq_of_beq h.1, eq_of_beqAll h.2]

end

mutual

theorem beq_self : ∀ a : Ty, beq a a = true
  | atom _ => by simp [beq]
  | list a => by simp [beq, beq_self a]
  | dictionary k v => by simp [beq, beq_self k, beq_self v]
  | set a => by simp [beq, beq_self a]
  | array a _ => by simp [beq, beq_self a]
  | tuple as => by simp [beq, beqAll_self as]
  | function ps r => by simp [beq, beqAll_self ps, beq_self r]
  | hole => rfl
  | any => rfl
  | number => rfl
  | placeholder _ => by simp [beq]

theorem beqAll_self : ∀ as : List Ty, beqAll as as = true
  | [] => rfl
  | a :: as => by simp [beqAll, beq_self a, beqAll_self as]

end

theorem beq_iff {a b : Ty} : beq a b = true ↔ a = b :=
  ⟨eq_of_beq, fun h => h ▸ beq_self a⟩

instance : DecidableEq Ty := fun a b => decidable_of_iff (beq a b = true) beq_iff

/-! ## Views -/

/-- The constructor of a type, or the name of an atom: the key of the standard tables. -/
def head : Ty → String
  | atom name => name
  | list _ => "List"
  | dictionary _ _ => "Dictionary"
  | set _ => "Set"
  | array _ _ => "Array"
  | tuple _ => "Tuple"
  | function _ _ => "Function"
  | hole => "?"
  | any => "Any"
  | number => "Number"
  | placeholder p => p.name

def isAtom (name : String) : Ty → Bool
  | atom n => n == name
  | _ => false

/-- Whether this is `Int` or `Float`. -/
def isNumeric (t : Ty) : Bool := t.isAtom intName || t.isAtom floatName

mutual

/-- Whether a slot at any depth is not inferred yet. -/
def hasHoles : Ty → Bool
  | hole => true
  | list t => hasHoles t
  | set t => hasHoles t
  | array t _ => hasHoles t
  | dictionary k v => hasHoles k || hasHoles v
  | tuple ts => anyHoles ts
  | function ps r => anyHoles ps || hasHoles r
  | atom _ | any | number | placeholder _ => false

def anyHoles : List Ty → Bool
  | [] => false
  | t :: ts => hasHoles t || anyHoles ts

end

/-- The return slot of a function type. -/
def return? : Ty → Option Ty
  | function _ ret => some ret
  | _ => none

/-- The type of the elements met when iterating over a value of this type. -/
def element? : Ty → Option Ty
  | list t => some t
  | set t => some t
  | array t _ => some t
  | dictionary k _ => some k
  | atom name => if name = stringName then some string else none
  | _ => none

/-- Types with a `length`. -/
def isSized : Ty → Bool
  | list _ | dictionary _ _ | set _ | array _ _ | tuple _ => true
  | t => t.isAtom stringName

theorem isAtom_iff {name : String} {t : Ty} : t.isAtom name = true ↔ t = atom name := by
  cases t <;> simp [isAtom]

theorem anyHoles_eq_any (ts : List Ty) : anyHoles ts = ts.any hasHoles := by
  induction ts with
  | nil => rfl
  | cons t ts ih => simp [anyHoles, ih]

end Ty

end TreeTyper
