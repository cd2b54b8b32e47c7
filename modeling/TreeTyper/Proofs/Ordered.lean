import Mathlib.Data.List.Lex
import Mathlib.Data.String.Basic
import Mathlib.Order.RelIso.Basic
import TreeTyper.Proofs.Definitions

/-!
# Tables in key order

`insert` keeps the entries of a table in key order, so each key has one entry: a
table holds what looking up finds, and what was erased is gone.

    t.Ordered → (t.find? k = some v ↔ (k, v) ∈ t.entries)        (Ordered.find?_eq_some_iff)
    t.Ordered → (t.erase k).find? k = none                       (Ordered.find?_erase_self)
-/

namespace TreeTyper

namespace Table

variable {κ α : Type}

theorem eraseIn_sublist [DecidableEq κ] (k : κ) (l : List (κ × α)) :
    (eraseIn k l).Sublist l := by
  induction l with
  | nil => exact .slnil
  | cons p rest ih =>
    obtain ⟨a, w⟩ := p
    rw [eraseIn]
    split
    · exact List.sublist_cons_self ..
    · exact ih.cons_cons _

variable [LT κ]

/-- The keys increase strictly. -/
def Ordered (t : Table κ α) : Prop := t.entries.Pairwise fun p q => p.1 < q.1

theorem ordered_empty : (empty : Table κ α).Ordered := .nil

variable [DecidableEq κ]

theorem Ordered.erase {t : Table κ α} (ordered : t.Ordered) (k : κ) : (t.erase k).Ordered :=
  ordered.sublist (eraseIn_sublist k t.entries)

variable [IsStrictTotalOrder κ (· < ·)]

theorem pairwise_insertIn [DecidableLT κ] {k : κ} {v : α} {l : List (κ × α)}
    (ordered : l.Pairwise fun p q => p.1 < q.1) :
    (insertIn k v l).Pairwise fun p q => p.1 < q.1 := by
  induction l with
  | nil => exact List.pairwise_singleton ..
  | cons p rest ih =>
    obtain ⟨a, w⟩ := p
    obtain ⟨first, others⟩ := List.pairwise_cons.mp ordered
    rw [insertIn]
    split
    · next same =>
      subst same
      exact List.pairwise_cons.mpr ⟨first, others⟩
    split
    · next less =>
      refine List.pairwise_cons.mpr ⟨?_, ordered⟩
      simp only [List.mem_cons, forall_eq_or_imp]
      exact ⟨less, fun q hq => trans_of (· < ·) less (first q hq)⟩
    · next differs notLess =>
      have more : a < k := ((trichotomous_of (· < ·) k a).resolve_left notLess).resolve_left differs
      refine List.pairwise_cons.mpr ⟨fun q hq => ?_, ih others⟩
      rcases eq_or_mem_of_mem_insertIn hq with rfl | hq
      · exact more
      · exact first q hq

theorem Ordered.insert [DecidableLT κ] {t : Table κ α} (ordered : t.Ordered) (k : κ) (v : α) :
    (t.insert k v).Ordered :=
  pairwise_insertIn ordered

/-- A key that comes before all others is not found among them. -/
theorem findIn_eq_none {k : κ} {l : List (κ × α)} (before : ∀ p ∈ l, k < p.1) :
    findIn k l = none := by
  induction l with
  | nil => rfl
  | cons p rest ih =>
    obtain ⟨a, w⟩ := p
    have differs : k ≠ a := fun same => irrefl (r := (· < ·)) a (same ▸ before _ List.mem_cons_self)
    rw [findIn, if_neg differs]
    exact ih fun q hq => before q (List.mem_cons_of_mem _ hq)

omit [DecidableEq κ] in
theorem Ordered.nodup_keys {t : Table κ α} (ordered : t.Ordered) :
    (t.entries.map (·.1)).Nodup := by
  refine List.pairwise_map.mpr (ordered.imp fun less same => ?_)
  rw [same] at less
  exact irrefl _ less

theorem Ordered.find?_eq_some_iff {t : Table κ α} (ordered : t.Ordered) {k : κ} {v : α} :
    t.find? k = some v ↔ (k, v) ∈ t.entries :=
  findIn_eq_some_iff ordered.nodup_keys

theorem Ordered.find?_erase_self {t : Table κ α} (ordered : t.Ordered) (k : κ) :
    (t.erase k).find? k = none := by
  obtain ⟨entries⟩ := t
  change findIn k (eraseIn k entries) = none
  induction entries with
  | nil => rfl
  | cons p rest ih =>
    obtain ⟨a, w⟩ := p
    obtain ⟨first, others⟩ := List.pairwise_cons.mp ordered
    rw [eraseIn]
    split
    · next same => exact findIn_eq_none (same ▸ first)
    · next differs =>
      rw [findIn, if_neg differs]
      exact ih others

end Table

namespace DefKey

theorem path_injective : Function.Injective path := by
  rintro (_ | _) (_ | _) same <;> simp_all [path]

/-- Keys are ordered as the lists of their names. -/
def pathEmbedding : ((· < ·) : DefKey → DefKey → Prop) ↪r
    ((· < ·) : List String → List String → Prop) :=
  ⟨⟨path, path_injective⟩, Iff.rfl⟩

instance : IsStrictTotalOrder DefKey (· < ·) := pathEmbedding.isStrictTotalOrder

end DefKey

namespace Definitions

variable {d d' : Definitions} {key : DefKey} {f : Tree.FunctionDef} {r : Typed.Routine}

theorem ordered_of_begin (ordered : d.states.Ordered) (begins : d.begin? key = some (f, d')) :
    d'.states.Ordered := by
  obtain ⟨-, rfl⟩ := begin?_cases begins
  exact ordered.insert ..

theorem ordered_finish (ordered : d.states.Ordered) (key : DefKey) (r : Typed.Routine) :
    (d.finish key r).states.Ordered :=
  ordered.insert ..

theorem ordered_of_take (ordered : d.states.Ordered)
    (taken : d.takeResolved? key = some (r, d')) : d'.states.Ordered := by
  obtain ⟨-, rfl⟩ := takeResolved?_cases taken
  exact ordered.erase key

/-- A finished routine is what its key stands for. -/
theorem finished_iff (ordered : d.states.Ordered) :
    d.Finished key r ↔ d.states.find? key = some (.resolved r) :=
  ordered.find?_eq_some_iff.symm

end Definitions

end TreeTyper
