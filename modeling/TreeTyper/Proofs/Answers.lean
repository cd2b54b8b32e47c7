import TreeTyper.Proofs.Shape
import TreeTyper.Translate.Infer

/-!
# Signatures that are asked for

A signature is looked up for what an entry of the tables becomes, for a slice and for
a file block, and nowhere else: these are the expansions that are reached.  In closed
tables all of them have a signature.  No other check of the translator fails for want
of one.

    api.Closed → Reached api h expansion → api.Signs expansion        (Reached.signs)
-/

namespace TreeTyper

/-! ## Tables -/

/-- The owner and the name under which an expansion has its signature. -/
def Expansion.target? : Expansion → Option (String × String)
  | .call owner name | .method owner name | .swapped owner name => some (owner, name)
  | .length | .regex => none

/-- The owner and the message of a method. -/
def Expansion.method? : Expansion → Option (String × String)
  | .method owner message | .swapped owner message => some (owner, message)
  | _ => none

theorem Expansion.target?_of_method? {e : Expansion} {owner message : String}
    (found : e.method? = some (owner, message)) : e.target? = some (owner, message) := by
  cases e with
  | method _ _ | swapped _ _ => exact found
  | _ => cases found

/-- The messages of slices. -/
def Expansion.slices : List String := ["slice", "slice_from", "slice_to"]

/-- What slices and file blocks become, which are in no entry. -/
def Expansion.builtin : List Expansion :=
  ([Ty.stringName, "List"].flatMap fun owner => slices.map (.method owner ·)) ++
    ["read_file", "write_file"].map (.call "io" ·)

theorem Expansion.slice_mem {owner message : String}
    (sliceable : ¬(owner ≠ Ty.stringName ∧ owner ≠ "List")) (listed : message ∈ slices) :
    .method owner message ∈ builtin := by
  have known : owner ∈ [Ty.stringName, "List"] := by
    by_cases isString : owner = Ty.stringName
    · rw [isString]
      exact List.mem_cons_self
    · rw [Decidable.not_not.mp fun other => sliceable ⟨isString, other⟩]
      exact List.mem_cons_of_mem _ List.mem_cons_self
  exact List.mem_append_left _ (List.mem_flatMap.mpr ⟨owner, known, List.mem_map_of_mem listed⟩)

namespace ApiTables

/-- The tables have the signature of an expansion, if it is one that has a signature. -/
def Signs (api : ApiTables) (expansion : Expansion) : Prop :=
  ∀ owner name, expansion.target? = some (owner, name) → (api.signature? owner name).isSome

/-- Everything that the entries of the tables become has a signature there, and so have slices and
file blocks. -/
structure Closed (api : ApiTables) : Prop where
  functions : ∀ space name entry arity expansion, api.function? space name = some entry →
    entry.select? arity = some expansion → api.Signs expansion
  methods : ∀ head name entry arity expansion, api.method? head name = some entry →
    entry.select? arity = some expansion → api.Signs expansion
  operators : ∀ head symbol message, api.operator? head symbol = some message →
    (api.signature? head message).isSome
  builtin : ∀ expansion ∈ Expansion.builtin, api.Signs expansion

end ApiTables

/-- What is expanded: what an entry for functions becomes, or one for the methods of values that are
no instances of a class, and what slices and file blocks become. -/
inductive Reached (api : ApiTables) (h : Hierarchy) : Expansion → Prop
  | function {space name entry arity expansion} : api.function? space name = some entry →
      entry.select? arity = some expansion → Reached api h expansion
  | method {head name entry arity expansion} : ¬h.isClass head →
      api.method? head name = some entry → entry.select? arity = some expansion →
      Reached api h expansion
  | builtin {expansion} : expansion ∈ Expansion.builtin → Reached api h expansion

namespace Reached

variable {api : ApiTables} {h h' : Hierarchy} {expansion : Expansion}

theorem signs (reached : Reached api h expansion) (closed : api.Closed) : api.Signs expansion := by
  cases reached with
  | function found selected => exact closed.functions _ _ _ _ _ found selected
  | method _ found selected => exact closed.methods _ _ _ _ _ found selected
  | builtin known => exact closed.builtin _ known

theorem sameShape (reached : Reached api h expansion) (same : h.SameShape h') :
    Reached api h' expansion := by
  cases reached with
  | function found selected => exact .function found selected
  | method noClass found selected =>
    rw [← same.isClass_eq] at noClass
    exact .method noClass found selected
  | builtin known => exact .builtin known

end Reached

/-! ## Causes -/

/-- A failure for want of a signature. -/
def Cause.AsksSignature : Cause → Prop
  | .missingSignature _ _ => True
  | _ => False

namespace Translate

/-- A stop for want of a signature. -/
def Stop.AsksSignature : Stop → Prop
  | .failure cause _ => cause.AsksSignature
  | .fault _ => False

theorem Stop.asksSignature_locate {stop : Stop} {pos : Pos} :
    (stop.locate pos).AsksSignature ↔ stop.AsksSignature := by
  cases stop with
  | failure cause location => exact Iff.rfl
  | fault f => exact Iff.rfl

/-- A check that does not fail for want of a signature. -/
def Answers {α : Type} (result : Except Cause α) : Prop :=
  ∀ cause, result = .error cause → ¬cause.AsksSignature

namespace Answers

variable {α β : Type}

theorem ok {a : α} : Answers (.ok a : Except Cause α) := fun _ failed => nomatch failed

theorem error {cause : Cause} (other : ¬cause.AsksSignature) :
    Answers (.error cause : Except Cause α) := by
  intro cause' failed
  cases failed
  exact other

theorem bind {result : Except Cause α} {f : α → Except Cause β} (first : Answers result)
    (next : ∀ a, Answers (f a)) : Answers (result >>= f) := by
  cases result with
  | ok a => exact next a
  | error cause => exact .error (first cause rfl)

theorem map {result : Except Cause α} {f : α → β} (first : Answers result) :
    Answers (result.map f) := by
  cases result with
  | ok a => exact .ok
  | error cause => exact .error (first cause rfl)

end Answers

/-! ## Checks -/

/-- A signature that is there is found. -/
theorem signatureOf_answers {api : ApiTables} {owner name : String}
    (signed : (api.signature? owner name).isSome) : Answers (signatureOf api owner name) := by
  obtain ⟨signature, found⟩ := Option.isSome_iff_exists.mp signed
  rw [signatureOf, found]
  exact .ok

theorem toRegexp_answers (pattern : Typed.Expr) : Answers (toRegexp pattern) := by
  unfold toRegexp
  split
  · exact .ok
  split
  · exact .ok
  split
  · exact .ok
  · exact .error id

theorem receiverFor_answers (owner : String) (receiver : Typed.Expr) :
    Answers (receiverFor owner receiver) := by
  unfold receiverFor
  split
  · exact toRegexp_answers receiver
  · exact .ok

theorem select_answers (entry : ApiEntry) (name : String) (arity : Nat) :
    Answers (select entry name arity) := by
  unfold select
  split
  · exact .ok
  · exact .error id
  · exact .error id

theorem select?_of_select {entry : ApiEntry} {name : String} {arity : Nat} {expansion : Expansion}
    (selected : select entry name arity = .ok expansion) : entry.select? arity = some expansion := by
  unfold select at selected
  split at selected
  · next found =>
    cases selected
    exact found
  · cases selected
  · cases selected

theorem expectCompatible_answers (h : Hierarchy) (source target : Ty) (what : String) :
    Answers (expectCompatible h source target what) := by
  unfold expectCompatible
  split
  · exact .ok
  · exact .error id

theorem matchArgument_answers (h : Hierarchy) (name : String) (b : Bindings) (i : Nat)
    (param arg : Ty) : Answers (matchArgument h name b i param arg) := by
  unfold matchArgument
  split
  · split
    · exact .ok
    · exact .ok
    · exact (expectCompatible_answers _ _ _ _).bind fun _ => .ok
  · dsimp only
    split
    · exact .ok
    · exact .error id

theorem matchArguments_answers (h : Hierarchy) (name : String) (b : Bindings) (i : Nat)
    (params args : List Ty) : Answers (matchArguments h name b i params args) := by
  induction params generalizing b i args with
  | nil => exact .ok
  | cons param params ih =>
    cases args with
    | nil => exact .ok
    | cons arg args => exact (matchArgument_answers _ _ _ _ _ _).bind fun b => ih b (i + 1) args

theorem matchSignature_answers (h : Hierarchy) (signature : ApiSignature) (name : String)
    (receiver : Option Ty) (args : List Ty) :
    Answers (matchSignature h signature name receiver args) := by
  unfold matchSignature
  extract_lets params start result
  have found : Answers (result PUnit.unit) := (matchArguments_answers _ _ _ _ _ _).bind fun _ => .ok
  split
  · exact .error id
  · exact found

theorem matchParamsFrom_answers (h : Hierarchy) (name : String) (i : Nat) (params args : List Ty) :
    Answers (matchParamsFrom h name i params args) := by
  induction params generalizing i args with
  | nil => exact .ok
  | cons param params ih =>
    cases args with
    | nil => exact .ok
    | cons arg args =>
      unfold matchParamsFrom
      extract_lets rest
      have later : ∀ found, Answers (rest found) := fun _ => (ih (i + 1) args).bind fun _ => .ok
      split
      · exact Answers.ok.bind later
      · exact (expectCompatible_answers _ _ _ _).bind later

theorem matchParams_answers (h : Hierarchy) (params args : List Ty) (name : String) :
    Answers (matchParams h params args name) := by
  unfold matchParams
  split
  · exact .error id
  · exact matchParamsFrom_answers _ _ _ _ _

theorem testable_answers (node : Typed.Expr) : Answers (testable node) := by
  unfold testable
  split
  · exact .ok
  split
  · exact .ok
  split
  · exact .ok
  split
  · exact .ok
  · exact .error id

theorem confirmComparable_answers (left right : Ty) : Answers (confirmComparable left right) := by
  unfold confirmComparable
  split
  · split
    · exact .ok
    · exact .error id
  · exact .error id

theorem binary_answers (api : ApiTables) (op : String) (left right : Typed.Expr) :
    Answers (binary api op left right) := by
  unfold binary
  split
  · exact .error id
  split
  · exact .error id
  split
  · exact .ok
  split
  split
  · exact .error id
  · exact .ok

theorem indexType_answers (h : Hierarchy) (sequence index : Ty) (source : Tree.Expr) :
    Answers (indexType h sequence index source) := by
  unfold indexType
  extract_lets atInteger
  have integer : ∀ elem, Answers (atInteger elem) := by
    intro elem
    dsimp only [atInteger]
    split
    · exact .ok
    · exact .error id
  split
  · exact integer _
  · exact integer _
  · split
    · exact .ok
    · exact .error id
  · split
    · exact .error id
    · split
      · exact .ok
      · exact .error id
  · split
    · exact integer _
    · exact .error id

theorem storeAt_answers (h : Hierarchy) (sequence index value : Ty) :
    Answers (storeAt h sequence index value) := by
  unfold storeAt
  extract_lets stored
  have kept : ∀ slot, Answers (stored slot) := by
    intro slot
    dsimp only [stored]
    split
    · exact .ok
    · exact .error id
  split
  · split
    · exact .error id
    · exact (kept _).map
  · split
    · exact .error id
    · exact (kept _).map
  · split
    · exact .error id
    · exact (kept _).map
  · exact .error id
  · split
    · exact .error id
    · exact .error id

theorem mergeReturn_answers (name : String) (current found : Ty) :
    Answers (mergeReturn name current found) := by
  unfold mergeReturn
  split
  · exact .error id
  · exact .ok

end Translate

end TreeTyper
