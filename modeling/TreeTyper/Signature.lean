import TreeTyper.Ty.Basic

/-!
# Signatures and their cells

The signature of a definition is filled in while calls reach it.  Several
methods of a class hierarchy can have one signature, so signatures are kept in
numbered cells; what is written to a cell is seen by all who know its number.
-/

namespace TreeTyper

structure Signature where
  params : List Ty
  ret : Ty
  deriving DecidableEq, Repr, Inhabited

namespace Signature

/-- A signature with `arity` parameters of which nothing is known. -/
def placeholder (arity : Nat) : Signature := ⟨List.replicate arity .hole, .hole⟩

def toTy (s : Signature) : Ty := .function s.params s.ret

/-- Whether the return slot has been fixed. -/
def hasReturn (s : Signature) : Bool := s.ret ≠ .hole

end Signature

abbrev CellId := Nat

/-- The signature cells, by number. A cell keeps what was written to it, the latest first. -/
structure Cells where
  contents : List (List Signature)
  deriving DecidableEq, Repr

namespace Cells

def empty : Cells := ⟨[]⟩

instance : Inhabited Cells := ⟨empty⟩

/-- All that was written to a cell, the latest first. -/
def written (c : Cells) (id : CellId) : List Signature := c.contents.getD id []

/-- The content of a cell; a cell that was never made holds the signature without parameters. -/
def get (c : Cells) (id : CellId) : Signature := (c.written id).headD (Signature.placeholder 0)

def set (c : Cells) (id : CellId) (s : Signature) : Cells := ⟨c.contents.modify id (s :: ·)⟩

/-- Makes a cell. -/
def alloc (c : Cells) (s : Signature) : Cells × CellId := (⟨c.contents ++ [[s]]⟩, c.contents.length)

/-! ## Lemmas -/

theorem written_set (c : Cells) (id id' : CellId) (s : Signature) :
    (c.set id s).written id' =
      if id' = id ∧ id < c.contents.length then s :: c.written id else c.written id' := by
  simp only [written, set, List.getD_eq_getElem?_getD, List.getElem?_modify]
  by_cases same : id = id'
  · subst same
    by_cases made : id < c.contents.length
    · simp [made]
    · simp [made]
  · simp [same, Ne.symm same]

theorem get_set_self {c : Cells} {id : CellId} (h : id < c.contents.length) (s : Signature) :
    (c.set id s).get id = s := by
  rw [get, written_set, if_pos ⟨rfl, h⟩]
  rfl

theorem get_set_of_ne {id id' : CellId} (h : id' ≠ id) (c : Cells) (s : Signature) :
    (c.set id s).get id' = c.get id' := by
  rw [get, written_set, if_neg fun both => h both.1]
  rfl

theorem get_alloc_self (c : Cells) (s : Signature) : (c.alloc s).1.get (c.alloc s).2 = s := by
  simp [get, written, alloc]

end Cells

end TreeTyper
