import TreeTyper.Proofs.Closed

/-!
# Which overrides are accepted

A document is a list of mappings, those of functions first, then those of methods, then
those of operators.  A mapping has a target, and may give it a signature.  A document
is complete if what it gives can be read and each target has a signature in the tables
or from some mapping.  But a mapping is judged when its turn comes, by the tables and
the mappings up to it: a complete document is refused if some mapping relies on one
that comes later, and the order is that of the names.

    (o.applyTo api).map (·.signatures) = o.mappings.foldlM Mapping.enter api.signatures
                                                                 (Overrides.signatures_applyTo)
    o is accepted ↔ it is complete and no mapping of it comes too soon    (accepted_iff_complete)
-/

namespace TreeTyper

namespace Overrides

open ApiTables (lookup put lookup_put)

abbrev Signatures := Table String (Table String ApiSignature)

/-! ## Mappings -/

/-- What a mapping asks of the signatures. -/
structure Mapping where
  owner : String
  name : String
  /-- The target as errors write it. -/
  label : String
  signature : Option (List String)
  deriving DecidableEq, Repr

namespace Mapping

def ofFunction : String × String × FunctionOverride → Mapping
  | (space, _, f) =>
    let owner := f.space.getD space
    ⟨owner, f.function, s!"{owner}:{f.function}", f.signature⟩

def ofMethod : String × String × MethodOverride → Mapping
  | (head, _, m) =>
    let owner := m.owner.getD head
    ⟨owner, m.message, s!"{owner}#{m.message}", m.signature⟩

def ofOperator : String × String × String → Mapping
  | (owner, _, message) => ⟨owner, message, s!"{owner}#{message}", none⟩

/-- The signatures after a mapping. -/
def enter (t : Signatures) (m : Mapping) : Except OverrideError Signatures :=
  match m.signature with
  | none =>
    if (lookup t m.owner m.name).isSome then .ok t else .error (.missingSignature m.label)
  | some texts =>
    match ApiSignature.parse texts with
    | .ok s => .ok (put t m.owner m.name s)
    | .error e => .error (.signature m.label e)

/-- The signature that is given, if any, can be read. -/
def Parses (m : Mapping) : Prop :=
  ∀ texts, m.signature = some texts → ∃ s, ApiSignature.parse texts = .ok s

/-- The mapping gives a target its signature. -/
def Gives (m : Mapping) (owner name : String) : Prop :=
  m.signature.isSome ∧ m.owner = owner ∧ m.name = name

end Mapping

instance (m : Mapping) (owner name : String) : Decidable (m.Gives owner name) :=
  inferInstanceAs (Decidable (_ ∧ _ ∧ _))

instance (m : Mapping) : Decidable m.Parses :=
  match given : m.signature with
  | none => isTrue fun texts some => by
    rw [given] at some
    cases some
  | some texts =>
    match parsed : ApiSignature.parse texts with
    | .ok s => isTrue fun texts' some => by
      rw [given] at some
      cases some
      exact ⟨s, parsed⟩
    | .error e => isFalse fun parses => by
      obtain ⟨s, other⟩ := parses texts given
      rw [parsed] at other
      cases other

/-- The mappings of a document in the order in which they are entered. -/
def mappings (o : Overrides) : List Mapping :=
  (cells o.functions).map .ofFunction ++ (cells o.methods).map .ofMethod ++
    (cells o.operators).map .ofOperator

/-- A target has a signature, in a table or from one of some mappings. -/
def Signed (t : Signatures) (ms : List Mapping) (owner name : String) : Prop :=
  (lookup t owner name).isSome ∨ ∃ m ∈ ms, m.Gives owner name

instance (t : Signatures) (ms : List Mapping) (owner name : String) :
    Decidable (Signed t ms owner name) :=
  inferInstanceAs (Decidable (_ ∨ _))

/-- A mapping is accepted after some others. -/
def Accepted (t : Signatures) (before : List Mapping) (m : Mapping) : Prop :=
  m.Parses ∧ Signed t (before ++ [m]) m.owner m.name

/-- Why a mapping is refused after some others. -/
inductive Refused (t : Signatures) (before : List Mapping) (m : Mapping) : OverrideError → Prop
  | unreadable {texts : List String} {e : Ty.ParseError} (given : m.signature = some texts)
      (failed : ApiSignature.parse texts = .error e) : Refused t before m (.signature m.label e)
  | unsigned (parses : m.Parses) (absent : ¬Signed t (before ++ [m]) m.owner m.name) :
      Refused t before m (.missingSignature m.label)

/-- Everything given can be read, and every target has a signature in the end. -/
def Complete (t : Signatures) (ms : List Mapping) : Prop :=
  ∀ m ∈ ms, m.Parses ∧ Signed t ms m.owner m.name

instance (t : Signatures) (ms : List Mapping) : Decidable (Complete t ms) :=
  inferInstanceAs (Decidable (∀ _ ∈ ms, _ ∧ _))

/-- Something holds of every mapping and those before it. -/
def AtEach (P : List Mapping → Mapping → Prop) (ms : List Mapping) : Prop :=
  ∀ before m after, ms = before ++ m :: after → P before m

/-- No mapping relies on a later one. -/
def InTime (t : Signatures) (ms : List Mapping) : Prop :=
  ∀ before m after, ms = before ++ m :: after →
    (∃ later ∈ after, later.Gives m.owner m.name) → Signed t (before ++ [m]) m.owner m.name

/-! ## The signatures on their own -/

variable {api api' : ApiTables} {t t' : Signatures} {m : Mapping} {ms before : List Mapping}
  {o : Overrides} {owner name : String}

theorem signatures_giveSignature (api : ApiTables) (m : Mapping) :
    (giveSignature api m.owner m.name m.label m.signature).map (·.signatures) =
      m.enter api.signatures := by
  obtain ⟨owner, name, label, signature⟩ := m
  unfold giveSignature Mapping.enter ApiTables.signature?
  cases signature with
  | none =>
    dsimp only [bind, Except.bind, pure, Except.pure]
    split
    · rfl
    · rfl
  | some texts =>
    dsimp only
    cases ApiSignature.parse texts with
    | error e => rfl
    | ok s =>
      dsimp only [bind, Except.bind, pure, Except.pure]
      have entered : (lookup (api.addSignature owner name s).signatures owner name).isSome := by
        unfold ApiTables.addSignature
        rw [ApiTables.lookup_put_self]
        rfl
      rw [if_pos entered]
      rfl

/-- What happens to other tables after the signature does not matter to the signatures. -/
theorem signatures_bind {r : Except OverrideError ApiTables} {f : ApiTables → ApiTables}
    (kept : ∀ api, (f api).signatures = api.signatures) :
    (r >>= fun api => pure (f api)).map (·.signatures) = r.map (·.signatures) := by
  cases r with
  | error e => rfl
  | ok api => exact congrArg Except.ok (kept api)

/-- A pass enters the mappings of its cells. -/
theorem signatures_foldlM {α : Type} {step : ApiTables → α → Except OverrideError ApiTables}
    {mapping : α → Mapping}
    (each : ∀ api x, (step api x).map (·.signatures) = (mapping x).enter api.signatures)
    (xs : List α) (api : ApiTables) :
    (xs.foldlM step api).map (·.signatures) =
      (xs.map mapping).foldlM Mapping.enter api.signatures := by
  induction xs generalizing api with
  | nil => rfl
  | cons x xs ih =>
    rw [List.foldlM_cons, List.map_cons, List.foldlM_cons, ← each]
    cases step api x with
    | error e => rfl
    | ok api₁ => exact ih api₁

/-- A pass after another one enters the mappings of both. -/
theorem signatures_append {r : Except OverrideError ApiTables}
    {next : ApiTables → Except OverrideError ApiTables} {first rest : List Mapping}
    (entered : r.map (·.signatures) = first.foldlM Mapping.enter t)
    (later : ∀ api, (next api).map (·.signatures) = rest.foldlM Mapping.enter api.signatures) :
    (r >>= next).map (·.signatures) = (first ++ rest).foldlM Mapping.enter t := by
  rw [List.foldlM_append, ← entered]
  cases r with
  | error e => rfl
  | ok api₁ => exact later api₁

theorem signatures_applyFunction (api : ApiTables) (space name : String) (f : FunctionOverride) :
    (applyFunction api space name f).map (·.signatures) =
      (Mapping.ofFunction (space, name, f)).enter api.signatures := by
  unfold applyFunction
  rw [← signatures_giveSignature]
  exact signatures_bind fun _ => rfl

theorem signatures_applyMethod (api : ApiTables) (head name : String) (m : MethodOverride) :
    (applyMethod api head name m).map (·.signatures) =
      (Mapping.ofMethod (head, name, m)).enter api.signatures := by
  unfold applyMethod
  rw [← signatures_giveSignature]
  exact signatures_bind fun _ => rfl

theorem signatures_applyOperator (api : ApiTables) (owner symbol message : String) :
    (applyOperator api owner symbol message).map (·.signatures) =
      (Mapping.ofOperator (owner, symbol, message)).enter api.signatures := by
  unfold applyOperator
  rw [← signatures_giveSignature]
  exact signatures_bind fun _ => rfl

/-- A document changes the signatures as its mappings do, one after the other. -/
theorem signatures_applyTo (o : Overrides) (api : ApiTables) :
    (o.applyTo api).map (·.signatures) = o.mappings.foldlM Mapping.enter api.signatures := by
  have functions := signatures_foldlM
    (fun api (cell : _ × _ × _) => signatures_applyFunction api cell.1 cell.2.1 cell.2.2)
    (cells o.functions)
  have methods := signatures_foldlM
    (fun api (cell : _ × _ × _) => signatures_applyMethod api cell.1 cell.2.1 cell.2.2)
    (cells o.methods)
  have operators := signatures_foldlM
    (fun api (cell : _ × _ × _) => signatures_applyOperator api cell.1 cell.2.1 cell.2.2)
    (cells o.operators)
  unfold mappings
  rw [List.append_assoc]
  exact signatures_append (functions api) fun api₁ => signatures_append (methods api₁) operators

/-! ## One mapping -/

theorem signed_nil : Signed t [] owner name ↔ (lookup t owner name).isSome := by
  unfold Signed
  simp only [List.not_mem_nil, false_and, exists_false, or_false]

theorem Signed.mono {ms' : List Mapping} (signed : Signed t ms owner name)
    (subset : ∀ m ∈ ms, m ∈ ms') : Signed t ms' owner name :=
  signed.imp_right fun ⟨m, held, gives⟩ => ⟨m, subset m held, gives⟩

theorem Refused.not_accepted {e : OverrideError} (refused : Refused t before m e) :
    ¬Accepted t before m := by
  intro ⟨parses, signed⟩
  cases refused with
  | unreadable given failed =>
    obtain ⟨s, parsed⟩ := parses _ given
    rw [parsed] at failed
    cases failed
  | unsigned _ absent => exact absent signed

/-- The targets with a signature in a table after some mappings. -/
def Entered (t : Signatures) (ms : List Mapping) (t' : Signatures) : Prop :=
  ∀ owner name, (lookup t' owner name).isSome ↔ Signed t ms owner name

/-- What is entered counts as if it had been in the table from the start. -/
theorem Entered.signed_iff (entered : Entered t before t') :
    Signed t' ms owner name ↔ Signed t (before ++ ms) owner name := by
  unfold Signed
  rw [entered owner name, Signed, or_assoc]
  simp only [List.mem_append, or_and_right, exists_or]

theorem enter_cases (t : Signatures) (m : Mapping) :
    (∃ e, m.enter t = .error e ∧ Refused t [] m e) ∨
      ∃ t', m.enter t = .ok t' ∧ Accepted t [] m ∧ Entered t [m] t' := by
  cases given : m.signature with
  | none =>
    have parses : m.Parses := fun texts some => by
      rw [given] at some
      cases some
    -- without a signature of its own, the mapping relies on one that is there
    have signed_iff : ∀ owner name, Signed t [m] owner name ↔ (lookup t owner name).isSome := by
      intro owner name
      simp [Signed, Mapping.Gives, given]
    by_cases found : (lookup t m.owner m.name).isSome
    · refine .inr ⟨t, ?_, ⟨parses, (signed_iff _ _).mpr found⟩, fun o n => (signed_iff o n).symm⟩
      simp only [Mapping.enter, given, if_pos found]
    · refine .inl ⟨.missingSignature m.label, ?_, .unsigned parses fun signed =>
        found ((signed_iff _ _).mp signed)⟩
      simp only [Mapping.enter, given, if_neg found]
  | some texts =>
    cases parsed : ApiSignature.parse texts with
    | error e =>
      refine .inl ⟨.signature m.label e, ?_, .unreadable given parsed⟩
      simp only [Mapping.enter, given, parsed]
    | ok s =>
      have gives : m.Gives m.owner m.name := ⟨by rw [given]; rfl, rfl, rfl⟩
      have parses : m.Parses := fun texts' some => by
        rw [given] at some
        cases some
        exact ⟨s, parsed⟩
      refine .inr ⟨put t m.owner m.name s, ?_, ⟨parses, .inr ⟨m, List.mem_singleton_self m, gives⟩⟩,
        fun o n => ?_⟩
      · simp only [Mapping.enter, given, parsed]
      -- the entry stands under its own key, and all others are as before
      · rw [lookup_put]
        split
        · next same =>
          obtain ⟨rfl, rfl⟩ := same
          exact iff_of_true rfl (.inr ⟨m, List.mem_singleton_self m, gives⟩)
        · next other =>
          refine ⟨.inl, fun signed => signed.resolve_right fun ⟨m', held, _, owned, named⟩ => ?_⟩
          cases List.mem_singleton.mp held
          exact other ⟨owned.symm, named.symm⟩

/-! ## All mappings -/

theorem atEach_nil {P : List Mapping → Mapping → Prop} : AtEach P [] := by
  intro before m after split
  cases before <;> cases split

theorem atEach_cons {P : List Mapping → Mapping → Prop} (head : P [] m)
    (tail : AtEach (fun before => P (m :: before)) ms) : AtEach P (m :: ms) := by
  intro before m' after split
  cases before with
  | nil =>
    cases split
    exact head
  | cons first before =>
    cases split
    exact tail before m' after rfl

/-- Either all mappings are accepted, or the first one that is not says why. -/
theorem enterAll_cases (ms : List Mapping) (t : Signatures) :
    (∃ t', ms.foldlM Mapping.enter t = .ok t' ∧ AtEach (Accepted t) ms ∧ Entered t ms t') ∨
      ∃ e before m after, ms.foldlM Mapping.enter t = .error e ∧ ms = before ++ m :: after ∧
        AtEach (Accepted t) before ∧ Refused t before m e := by
  induction ms generalizing t with
  | nil => exact .inl ⟨t, rfl, atEach_nil, fun _ _ => signed_nil.symm⟩
  | cons m ms ih =>
    rw [List.foldlM_cons]
    rcases enter_cases t m with ⟨e, failed, refused⟩ | ⟨t₁, done, accepted, entered⟩
    · rw [failed]
      exact .inr ⟨e, [], m, ms, rfl, rfl, atEach_nil, refused⟩
    · rw [done]
      have later : ∀ before m', Accepted t₁ before m' → Accepted t (m :: before) m' :=
        fun before m' held => ⟨held.1, entered.signed_iff.mp held.2⟩
      have all : ∀ {ms}, AtEach (Accepted t₁) ms → AtEach (Accepted t) (m :: ms) :=
        fun each => atEach_cons accepted fun before m' after split =>
          later before m' (each before m' after split)
      rcases ih t₁ with ⟨t', rest, each, final⟩ | ⟨e, before, m', after, failed, rfl, each, refused⟩
      · refine .inl ⟨t', rest, all each, fun owner name => ?_⟩
        exact (final owner name).trans entered.signed_iff
      · refine .inr ⟨e, m :: before, m', after, failed, rfl, all each, ?_⟩
        cases refused with
        | unreadable given unread => exact .unreadable given unread
        | unsigned parses absent => exact .unsigned parses (entered.signed_iff.not.mp absent)

/-- Each mapping is accepted in its turn if all are complete and none comes too soon. -/
theorem atEach_accepted_iff : AtEach (Accepted t) ms ↔ Complete t ms ∧ InTime t ms := by
  constructor
  · intro each
    refine ⟨fun m held => ?_, fun before m after split _ => (each before m after split).2⟩
    obtain ⟨before, after, rfl⟩ := List.append_of_mem held
    obtain ⟨parses, signed⟩ := each before m after rfl
    refine ⟨parses, signed.mono fun m' earlier => ?_⟩
    rcases List.mem_append.mp earlier with earlier | self
    · exact List.mem_append_left _ earlier
    · cases List.mem_singleton.mp self
      exact held
  · rintro ⟨complete, inTime⟩ before m after rfl
    obtain ⟨parses, signed⟩ := complete m (List.mem_append_right _ List.mem_cons_self)
    refine ⟨parses, ?_⟩
    rcases signed with found | ⟨giver, held, gives⟩
    · exact .inl found
    rw [List.append_cons] at held
    rcases List.mem_append.mp held with earlier | later
    · exact .inr ⟨giver, earlier, gives⟩
    · exact inTime before m after rfl ⟨giver, later, gives⟩

/-- Completeness does not depend on the order. -/
theorem Complete.perm {ms' : List Mapping} (order : ms.Perm ms') (complete : Complete t ms) :
    Complete t ms' := by
  intro m held
  obtain ⟨parses, signed⟩ := complete m (order.mem_iff.mpr held)
  exact ⟨parses, signed.mono fun _ => order.mem_iff.mp⟩

/-! ## Documents -/

/-- A document is accepted if all its mappings are, and else refused for the first one that is
not. -/
theorem applyTo_cases (o : Overrides) (api : ApiTables) :
    (∃ api', o.applyTo api = .ok api' ∧ AtEach (Accepted api.signatures) o.mappings ∧
        Entered api.signatures o.mappings api'.signatures) ∨
      ∃ e before m after, o.applyTo api = .error e ∧ o.mappings = before ++ m :: after ∧
        AtEach (Accepted api.signatures) before ∧ Refused api.signatures before m e := by
  have signatures := signatures_applyTo o api
  rcases enterAll_cases o.mappings api.signatures with ⟨t', done, each, entered⟩ |
    ⟨e, before, m, after, failed, split, each, refused⟩
  · rw [done] at signatures
    cases applied : o.applyTo api with
    | error e =>
      rw [applied] at signatures
      cases signatures
    | ok api' =>
      rw [applied] at signatures
      cases signatures
      exact .inl ⟨api', rfl, each, entered⟩
  · rw [failed] at signatures
    cases applied : o.applyTo api with
    | error e' =>
      rw [applied] at signatures
      cases signatures
      exact .inr ⟨e, before, m, after, rfl, split, each, refused⟩
    | ok api' =>
      rw [applied] at signatures
      cases signatures

theorem accepted_iff {o : Overrides} {api : ApiTables} :
    (∃ api', o.applyTo api = .ok api') ↔
      Complete api.signatures o.mappings ∧ InTime api.signatures o.mappings := by
  rw [← atEach_accepted_iff]
  constructor
  · rintro ⟨api', applied⟩
    rcases applyTo_cases o api with ⟨_, _, each, _⟩ | ⟨e, _, _, _, failed, _⟩
    · exact each
    · rw [applied] at failed
      cases failed
  · intro each
    rcases applyTo_cases o api with ⟨api', applied, _⟩ | ⟨e, before, m, after, _, split, _, refused⟩
    · exact ⟨api', applied⟩
    · exact absurd (each before m after split) refused.not_accepted

end Overrides

/-! ## Top theorem -/

open Overrides (Complete InTime AtEach Accepted Refused Signed) in
/-- A document is accepted exactly if it is complete and none of its mappings relies on a later
one, the first mapping that is refused decides the error, the targets with a signature are then
those of the tables and of the mappings, and the order of the mappings does not matter as long as
none comes too soon. -/
theorem accepted_iff_complete (api : ApiTables) (o : Overrides) :
    ((∃ api', o.applyTo api = .ok api') ↔
      Complete api.signatures o.mappings ∧ InTime api.signatures o.mappings) ∧
    (∀ e, o.applyTo api = .error e → ∃ before m after, o.mappings = before ++ m :: after ∧
      AtEach (Accepted api.signatures) before ∧ Refused api.signatures before m e) ∧
    (∀ api', o.applyTo api = .ok api' → ∀ owner name,
      (api'.signature? owner name).isSome ↔ Signed api.signatures o.mappings owner name) ∧
    ∀ o' : Overrides, o.mappings.Perm o'.mappings → InTime api.signatures o.mappings →
      InTime api.signatures o'.mappings →
        ((∃ api', o.applyTo api = .ok api') ↔ ∃ api', o'.applyTo api = .ok api') := by
  refine ⟨Overrides.accepted_iff, fun e failed => ?_, fun api' applied => ?_,
    fun o' order inTime inTime' => ?_⟩
  · rcases Overrides.applyTo_cases o api with ⟨_, applied, _⟩ |
      ⟨e', before, m, after, failed', split, each, refused⟩
    · rw [failed] at applied
      cases applied
    · rw [failed] at failed'
      cases failed'
      exact ⟨before, m, after, split, each, refused⟩
  · rcases Overrides.applyTo_cases o api with ⟨api'', applied', _, entered⟩ | ⟨e, _, _, _, failed, _⟩
    · rw [applied] at applied'
      cases applied'
      exact entered
    · rw [applied] at failed
      cases failed
  · rw [Overrides.accepted_iff, Overrides.accepted_iff, and_iff_left inTime, and_iff_left inTime']
    exact ⟨.perm order, .perm order.symm⟩

namespace Overrides

/-- A document with some functions of the namespace `m`. -/
def functionsOfM (functions : List (String × FunctionOverride)) : Overrides :=
  ⟨ApiTables.grouped [("m", functions)], Table.empty, Table.empty⟩

def root : FunctionOverride := ⟨none, "root", none⟩

def signedRoot : FunctionOverride := ⟨none, "root", some ["Int", "Int"]⟩

def signedPower : FunctionOverride := ⟨none, "power", some ["Int", "Int", "Int"]⟩

end Overrides

open Overrides (Complete InTime root signedRoot signedPower functionsOfM)

theorem accepted_iff_complete_roots :
    let o := functionsOfM [("a", signedRoot), ("b", root), ("c", signedPower)]
    let o' := functionsOfM [("a", signedPower), ("b", signedRoot), ("c", root)]
    o.mappings ≠ o'.mappings ∧ Complete ApiTables.empty.signatures o.mappings ∧
      InTime ApiTables.empty.signatures o.mappings ∧ ∃ api', o'.applyTo ApiTables.empty = .ok api' ∧
        (api'.signature? "m" "root").isSome := by
  intro o o'
  have accepted : (o.applyTo ApiTables.empty).isOk = true := by decide +kernel
  have accepted' : (o'.applyTo ApiTables.empty).isOk = true := by decide +kernel
  have order : o.mappings.Perm o'.mappings := by decide +kernel
  obtain ⟨iff, _, _, reordered⟩ := accepted_iff_complete ApiTables.empty o
  obtain ⟨iff', _, signed', _⟩ := accepted_iff_complete ApiTables.empty o'
  obtain ⟨complete, inTime⟩ := iff.mp (exists_of_isOk accepted)
  have inTime' := (iff'.mp (exists_of_isOk accepted')).2
  obtain ⟨api', applied'⟩ := (reordered o' order inTime inTime').mp (exists_of_isOk accepted)
  refine ⟨by decide +kernel, complete, inTime, api', applied', ?_⟩
  exact (signed' api' applied' "m" "root").mpr (by decide +kernel)

/-- A document that is complete is refused, and accepted with its two names the other way round. -/
theorem complete_refused :
    let o := functionsOfM [("a", root), ("b", signedRoot)]
    let renamed := functionsOfM [("a", signedRoot), ("b", root)]
    Complete ApiTables.empty.signatures o.mappings ∧
      o.applyTo ApiTables.empty = .error (.missingSignature "m:root") ∧
      renamed.mappings.Perm o.mappings ∧ (renamed.applyTo ApiTables.empty).isOk := by
  refine ⟨?_, ?_, ?_, ?_⟩ <;> decide +kernel

end TreeTyper
