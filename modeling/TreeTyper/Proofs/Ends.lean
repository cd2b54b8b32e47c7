import TreeTyper.Proofs.Classes
import TreeTyper.Translate.Container
import TreeTyper.Translate.Exception

/-!
# Walks that end

A walk along the bases ends if, and only if, its bound cuts nothing off.  Where no
walk is cut off, every question that is answered by such walks has an answer: whether
a type goes to another, which type two types join to, whether arguments fit, which
attribute a class sees, which handler catches an exception.

    chainEnds next steps name ↔
      ∀ k, chain next (steps + k) name = chain next steps name        (chainEnds_iff)
    h.ClassesEnd → unifyEnds h a b                                  (ClassesEnd.unifyEnds)
-/

namespace TreeTyper

namespace Hierarchy

theorem chainEnds_iff {next : String → Option String} {steps : Nat} {name : String} :
    chainEnds next steps name ↔ ∀ k, chain next (steps + k) name = chain next steps name := by
  induction steps generalizing name with
  | zero =>
    rw [chainEnds.eq_def]
    cases above : next name with
    | none => exact iff_of_true rfl fun k => by rw [chain_of_none above, chain_of_none above]
    | some up =>
      refine iff_of_false Bool.false_ne_true fun same => ?_
      have once := same 1
      rw [chain, chain, above] at once
      exact List.cons_ne_nil _ _ (List.cons.inj once).2
  | succ steps ih =>
    rw [chainEnds.eq_def]
    cases above : next name with
    | none => exact iff_of_true rfl fun k => by rw [chain_of_none above, chain_of_none above]
    | some up =>
      refine ih.trans (forall_congr' fun k => ?_)
      rw [Nat.add_right_comm, chain, chain, above]
      exact (List.cons_inj_right name).symm

/-- Every walk from a class along the bases ends. -/
def ClassesEnd (h : Hierarchy) : Prop := ∀ name, h.ancestorsEnd name

namespace Complete

variable {h : Hierarchy} (complete : h.Complete)

include complete

theorem classesEnd : h.ClassesEnd := fun name => chainEnds_iff.mpr fun k => (complete name k).1

theorem catchesEnds (handler raised : String) : h.catchesEnds handler raised :=
  Bool.or_eq_true_iff.mpr (.inr (chainEnds_iff.mpr fun k => (complete raised k).2))

theorem caughtEnds (raised : String) (handlers : List String) : h.caughtEnds raised handlers := by
  induction handlers with
  | nil => rfl
  | cons handler rest ih =>
    rw [Hierarchy.caughtEnds, complete.catchesEnds, ih, Bool.or_true, Bool.and_true]

end Complete

namespace ClassesEnd

variable {h : Hierarchy}

theorem sameShape {h' : Hierarchy} (ends : h.ClassesEnd) (same : SameShape h h') : h'.ClassesEnd := by
  intro name
  rw [ancestorsEnd, same.base?_eq, same.size]
  exact ends name

section Names

variable (ends : h.ClassesEnd)

include ends

theorem isSubclassEnds (a b : String) : h.isSubclassEnds a b :=
  Bool.or_eq_true_iff.mpr (.inr (ends a))

theorem commonAncestorEnds (a b : String) : h.commonAncestorEnds a b := by
  rw [Hierarchy.commonAncestorEnds, if_pos (ends b)]
  exact Bool.or_eq_true_iff.mpr (.inr (ends a))

theorem attributeEnds (className name : String) : h.attributeEnds className name :=
  Bool.or_eq_true_iff.mpr (.inr (ends className))

theorem compatibleAtomsEnds (a b : String) : compatibleAtomsEnds h a b :=
  Bool.or_eq_true_iff.mpr (.inr (ends.isSubclassEnds a b))

theorem unifyAtomsEnds (a b : String) : unifyAtomsEnds h a b :=
  Bool.or_eq_true_iff.mpr (.inr (ends.commonAncestorEnds a b))

end Names

/-! ## Types -/

mutual

theorem compatibleEnds (ends : h.ClassesEnd) (a b : Ty) : compatibleEnds h a b := by
  rw [TreeTyper.compatibleEnds.eq_def]
  split
  · rfl
  split
  · exact ends.compatibleAtomsEnds _ _
  · exact compatibleEnds ends _ _
  · exact compatibleEnds ends _ _
  · exact Bool.or_eq_true_iff.mpr (.inr (compatibleEnds ends _ _))
  · rw [compatibleEnds ends, compatibleEnds ends, Bool.or_true, Bool.and_true]
  · exact Bool.or_eq_true_iff.mpr (.inr (compatibleAllEnds ends _ _))
  · rw [compatibleAllEnds ends, compatibleEnds ends, Bool.or_true, Bool.and_true, Bool.or_true]
  · rfl

theorem compatibleAllEnds (ends : h.ClassesEnd) (as bs : List Ty) : compatibleAllEnds h as bs := by
  rw [TreeTyper.compatibleAllEnds.eq_def]
  split
  · rw [compatibleEnds ends, compatibleAllEnds ends, Bool.or_true, Bool.and_true]
  · rfl

end

theorem eitherCompatibleEnds (ends : h.ClassesEnd) (a b : Ty) : eitherCompatibleEnds h a b := by
  rw [TreeTyper.eitherCompatibleEnds, ends.compatibleEnds, ends.compatibleEnds, Bool.or_true,
    Bool.and_true]

mutual

theorem unifyEnds (ends : h.ClassesEnd) (a b : Ty) : unifyEnds h a b := by
  rw [TreeTyper.unifyEnds.eq_def]
  split
  · rfl
  split
  · rfl
  · rfl
  · exact ends.unifyAtomsEnds _ _
  · exact unifyEnds ends _ _
  · exact unifyEnds ends _ _
  · split
    · exact unifyEnds ends _ _
    · exact ends.eitherCompatibleEnds _ _
  · rw [unifyEnds ends, unifyEnds ends, Bool.or_true, Bool.and_true]
  · split
    · exact unifyAllEnds ends _ _
    · exact ends.eitherCompatibleEnds _ _
  · exact ends.eitherCompatibleEnds _ _

theorem unifyAllEnds (ends : h.ClassesEnd) (as bs : List Ty) : unifyAllEnds h as bs := by
  rw [TreeTyper.unifyAllEnds.eq_def]
  split
  · rw [unifyEnds ends, unifyAllEnds ends, Bool.or_true, Bool.and_true]
  · rfl

end

/-! ## Arguments -/

variable (ends : h.ClassesEnd)

include ends

theorem matchArgumentEnds (b : Bindings) (param arg : Ty) : matchArgumentEnds h b param arg := by
  unfold TreeTyper.matchArgumentEnds
  split
  · split
    · rfl
    · rfl
    · exact ends.compatibleEnds _ _
  · exact ends.compatibleEnds _ _

theorem matchArgumentsEnds (name : String) (b : Bindings) (i : Nat) (params args : List Ty) :
    matchArgumentsEnds h name b i params args := by
  fun_induction TreeTyper.matchArgumentsEnds with
  | case1 b i param params arg args ih =>
    rw [ends.matchArgumentEnds, Bool.true_and]
    split
    · exact ih _
    · rfl
  | case2 => rfl

theorem matchSignatureEnds (s : ApiSignature) (name : String) (receiver : Option Ty)
    (args : List Ty) : matchSignatureEnds h s name receiver args :=
  Bool.or_eq_true_iff.mpr (.inr (ends.matchArgumentsEnds ..))

theorem matchParamsFromEnds (params args : List Ty) : matchParamsFromEnds h params args := by
  fun_induction TreeTyper.matchParamsFromEnds with
  | case1 params arg args ih => exact ih
  | case2 param params arg args _ ih => rw [ends.compatibleEnds, ih, Bool.or_true]; rfl
  | case3 => rfl

theorem matchParamsEnds (params args : List Ty) : matchParamsEnds h params args :=
  Bool.or_eq_true_iff.mpr (.inr (ends.matchParamsFromEnds params args))

/-! ## Containers -/

open Translate

theorem indexTypeEnds (sequence index : Ty) : indexTypeEnds h sequence index := by
  unfold Translate.indexTypeEnds
  split
  · exact ends.compatibleEnds _ _
  · rfl

theorem storeEnds (slot value : Ty) : storeEnds h slot value := by
  unfold Translate.storeEnds
  split
  · exact ends.unifyEnds _ _
  · exact ends.compatibleEnds _ _

theorem storeAtEnds (sequence index value : Ty) : storeAtEnds h sequence index value := by
  unfold Translate.storeAtEnds
  split
  · exact Bool.or_eq_true_iff.mpr (.inr (ends.storeEnds _ _))
  · exact Bool.or_eq_true_iff.mpr (.inr (ends.storeEnds _ _))
  · rw [ends.storeEnds, ends.storeEnds, Bool.or_true, Bool.and_true]
  · rfl

theorem sharedTypeEnds (acc : Ty) (ts : List Ty) : sharedTypeEnds h acc ts := by
  induction ts generalizing acc with
  | nil => rfl
  | cons t ts ih =>
    rw [Translate.sharedTypeEnds, ends.compatibleEnds]
    cases compatible h acc t with
    | none => rfl
    | some acc => exact ih acc

end ClassesEnd

end Hierarchy

end TreeTyper
