import TreeTyper.Api.Standard
import TreeTyper.Proofs.HereditaryNodes

/-!
# The types of nodes are plain

When the signatures of the standard tables return plain types, so do all nodes
that are built over plain parts in tables of plain types.  The default tables are
such tables.

    api.IsPlain → s.IsPlain → Makes api σ s free below called parts e →
      e.type.isPlain                                                        (Makes.isPlain)
-/

namespace TreeTyper

/-! ## Signatures -/

/-- Every signature returns a plain type. -/
def ApiTables.IsPlain (api : ApiTables) : Prop :=
  ∀ owner name signature, api.signature? owner name = some signature → signature.ret.isPlain

theorem ApiTables.isPlain_of_entries {api : ApiTables}
    (plain : ∀ group ∈ api.signatures.entries, ∀ e ∈ group.2.entries, e.2.ret.isPlain) :
    api.IsPlain := by
  intro owner name signature found
  obtain ⟨group, known, listed⟩ := Option.bind_eq_some_iff.mp found
  exact plain _ (Table.mem_of_findIn known) _ (Table.mem_of_findIn listed)

set_option maxRecDepth 100000 in
theorem ApiTables.isPlain_standard : ApiTables.standard.IsPlain :=
  isPlain_of_entries (by decide +kernel)

namespace Ty

mutual

theorem isPlain_substitute {b : Bindings} (bound : b.AllTypes fun t => t.isPlain) :
    ∀ {t : Ty}, t.isPlain → (t.substitute b).isPlain
  | placeholder p, _ => by
    rw [substitute]
    cases found : b.get? p with
    | none => rfl
    | some u => exact bound p u found
  | list t, plain => isPlain_substitute bound (t := t) plain
  | set t, plain => isPlain_substitute bound (t := t) plain
  | array t _, plain => isPlain_substitute bound (t := t) plain
  | dictionary k v, plain => by
    simp only [isPlain, substitute, Bool.and_eq_true] at plain ⊢
    exact ⟨isPlain_substitute bound plain.1, isPlain_substitute bound plain.2⟩
  | tuple ts, plain => @allPlain_substituteAll _ bound ts plain
  | function ps r, plain => by
    simp only [isPlain, substitute, Bool.and_eq_true] at plain ⊢
    exact ⟨allPlain_substituteAll bound plain.1, isPlain_substitute bound plain.2⟩
  | atom _, _ => rfl
  | hole, _ => rfl

theorem allPlain_substituteAll {b : Bindings} (bound : b.AllTypes fun t => t.isPlain) :
    ∀ {ts : List Ty}, allPlain ts → allPlain (substituteAll b ts)
  | [], _ => rfl
  | t :: ts, plain => by
    simp only [allPlain, substituteAll, Bool.and_eq_true] at plain ⊢
    exact ⟨isPlain_substitute bound plain.1, allPlain_substituteAll bound plain.2⟩

end

end Ty

namespace Translate

open Typed

/-- A call of a plain signature gives a plain type. -/
theorem isPlain_matchSignature {h : Hierarchy} {api : ApiTables} {owner message name : String}
    {signature : ApiSignature} {receiver : Option Ty} {args : List Ty} {found : SignatureMatch}
    (plainApi : api.IsPlain) (signed : signatureOf api owner message = .ok signature)
    (plainReceiver : ∀ t ∈ receiver, t.isPlain) (plainArgs : ∀ t ∈ args, t.isPlain)
    (matched : matchSignature h signature name receiver args = .ok found) : found.ret.isPlain := by
  have plainRet := plainApi _ _ _ (signature?_of_signatureOf signed)
  obtain ⟨⟨b, bound, ret, -⟩, -⟩ :=
    Ty.hereditary_isPlain.matchSignature plainReceiver plainArgs matched
  rw [ret]
  exact Ty.isPlain_substitute bound plainRet

theorem isPlain_refinement {h : Hierarchy} {old t : Ty} {evidence : List Ty} (plain : old.isPlain)
    (plainEvidence : ∀ e ∈ evidence, e.isPlain) (refines : Refinement h old evidence t) :
    t.isPlain :=
  hereditary_refinement Ty.hereditary_isPlain (classesHave_isPlain h) plain plainEvidence refines

/-! ## Tables -/

/-- The tables hold plain types only. -/
abbrev State.IsPlain (s : State) : Prop := s.AllTypes fun t => t.isPlain

variable {s : State} {api : ApiTables}

theorem yields_isPlain (plain : api.IsPlain) (h : Hierarchy) : Yields (fun t => t.isPlain) api h where
  classes := classesHave_isPlain h
  exceptions _ _ := rfl
  functions _ signed := isPlain_matchSignature plain signed (by simp)
  methods _ _ signed _ plainReceiver :=
    isPlain_matchSignature plain signed (by simpa using plainReceiver)

/-- Nodes over plain parts are plain. -/
theorem Makes.isPlain {σ : Site} {free : String → Prop} {below : List String → Expr → Prop}
    {called : DefKey → CellId → List Ty → Ty → Prop} {parts : List Expr} {e : Expr}
    (plainApi : api.IsPlain) (plain : s.IsPlain)
    (plainCalls : ∀ {key cell args ret}, called key cell args ret → ret.isPlain)
    (plainParts : ∀ p ∈ parts, p.type.isPlain) (made : Makes api σ s free below called parts e) :
    e.type.isPlain :=
  made.hereditary Ty.hereditary_isPlain plain (yields_isPlain plainApi _) plainCalls plainParts

end Translate

end TreeTyper
