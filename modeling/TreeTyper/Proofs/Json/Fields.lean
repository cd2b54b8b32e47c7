import Mathlib.Data.List.Nodup
import Mathlib.Data.List.Perm.Basic
import TreeTyper.Tree.Reader

/-!
# Fields of objects in key order

An object is written with its fields in key order.  As long as their names are distinct this only
permutes them, so the reader of a record finds under each declared name what was listed for it.

    (fields.map (·.1)).Nodup → (Table.ofList fields).entries.Perm fields        (entries_perm)
    … → declared? names (Table.ofList fields).entries = declared? names fields  (declared?_ofList)
-/

namespace TreeTyper

namespace Table

variable {κ α : Type}

section Find

variable [DecidableEq κ]

theorem findIn_perm {k : κ} {l l' : List (κ × α)} (distinct : (l'.map (·.1)).Nodup)
    (perm : l.Perm l') : findIn k l = findIn k l' := by
  have distinct' : (l.map (·.1)).Nodup := (perm.map (·.1)).nodup_iff.mpr distinct
  refine Option.ext fun v => ?_
  rw [findIn_eq_some_iff distinct', findIn_eq_some_iff distinct, perm.mem_iff]

end Find

section Insert

variable [DecidableEq κ] [LT κ] [DecidableLT κ]

theorem mem_of_mem_foldl_insert {p : κ × α} {pairs : List (κ × α)} {t : Table κ α}
    (held : p ∈ (pairs.foldl (fun t p => t.insert p.1 p.2) t).entries) :
    p ∈ pairs ∨ p ∈ t.entries := by
  induction pairs generalizing t with
  | nil => exact .inr held
  | cons q rest ih =>
    rcases ih held with listed | held
    · exact .inl (List.mem_cons_of_mem _ listed)
    rcases eq_or_mem_of_mem_insertIn held with rfl | held
    · exact .inl List.mem_cons_self
    · exact .inr held

/-- A table of listed pairs holds no others. -/
theorem mem_of_mem_ofList {p : κ × α} {pairs : List (κ × α)}
    (held : p ∈ (ofList pairs).entries) : p ∈ pairs :=
  (mem_of_mem_foldl_insert held).resolve_right List.not_mem_nil

/-- A new key only adds its entry. -/
theorem insertIn_perm {k : κ} {l : List (κ × α)} (new : k ∉ l.map (·.1)) (v : α) :
    (insertIn k v l).Perm ((k, v) :: l) := by
  induction l with
  | nil => rfl
  | cons p rest ih =>
    obtain ⟨a, w⟩ := p
    have differs : k ≠ a := List.ne_of_not_mem_cons new
    have new := List.not_mem_of_not_mem_cons new
    rw [insertIn, if_neg differs]
    split
    · rfl
    · exact ((ih new).cons _).trans (.swap ..)

theorem foldl_insert_perm {pairs : List (κ × α)} {t : Table κ α}
    (distinct : ((pairs ++ t.entries).map (·.1)).Nodup) :
    (pairs.foldl (fun t p => t.insert p.1 p.2) t).entries.Perm (pairs ++ t.entries) := by
  induction pairs generalizing t with
  | nil => rfl
  | cons p rest ih =>
    obtain ⟨k, v⟩ := p
    have new : k ∉ (rest ++ t.entries).map (·.1) := (List.nodup_cons.mp distinct).1
    rw [List.map_append, List.mem_append, not_or] at new
    have added : (t.insert k v).entries.Perm ((k, v) :: t.entries) := insertIn_perm new.2 v
    have moved : (rest ++ (t.insert k v).entries).Perm ((k, v) :: rest ++ t.entries) :=
      (added.append_left rest).trans List.perm_middle
    exact (ih ((moved.map (·.1)).nodup_iff.mpr distinct)).trans moved

/-- Distinct keys are only put in order. -/
theorem entries_perm {pairs : List (κ × α)} (distinct : (pairs.map (·.1)).Nodup) :
    (ofList pairs).entries.Perm pairs := by
  have whole : pairs ++ (empty : Table κ α).entries = pairs := List.append_nil pairs
  have perm := foldl_insert_perm (whole.symm ▸ distinct)
  rw [whole] at perm
  exact perm

end Insert

end Table

namespace Json

/-! ## Depth -/

theorem depthOfFields_perm {fields fields' : List (String × Json)} (perm : fields.Perm fields') :
    depthOfFields fields = depthOfFields fields' := by
  induction perm with
  | nil => rfl
  | cons field _ ih => rw [depthOfFields, depthOfFields, ih]
  | swap field field' _ => exact Nat.max_left_comm ..
  | trans _ _ first second => exact first.trans second

/-- What is in an array is not as deep as the array. -/
theorem depth_le_of_mem {items : List Json} {n : Nat} (bound : (arr items).depth ≤ n) :
    ∀ j ∈ items, j.depth ≤ n := by
  rw [depth] at bound
  replace bound := Nat.le_of_succ_le bound
  induction items with
  | nil => simp
  | cons j items ih =>
    rw [depthOfAll, Nat.max_le] at bound
    exact List.forall_mem_cons.mpr ⟨bound.1, ih bound.2⟩

/-! ## Objects -/

section Fields

variable {fields : List (String × Json)} (distinct : (fields.map (·.1)).Nodup)

include distinct

/-- The declared fields of an object in key order are those that were listed. -/
theorem declared?_ofList (names : List String) :
    declared? names (Table.ofList fields).entries = declared? names fields := by
  have perm := Table.entries_perm distinct
  have counted : ∀ name, countField (Table.ofList fields).entries name = countField fields name :=
    fun _ => (perm.filter _).length_eq
  have found : field? (Table.ofList fields).entries = field? fields :=
    funext fun _ => Table.findIn_perm distinct perm
  simp only [declared?, counted, found]

theorem record?_object (names : List String) :
    record? names (object fields) = declared? names fields :=
  declared?_ofList distinct names

theorem tagged?_ofList (tag : String) (forms : List String) :
    tagged? tag forms (Table.ofList fields).entries = tagged? tag forms fields := by
  rw [tagged?, tagged?, declared?_ofList distinct]

theorem depth_object : (object fields).depth = depthOfFields fields + 1 := by
  rw [object, depth, depthOfFields_perm (Table.entries_perm distinct)]

end Fields

/-- A field that is listed first and nowhere else. -/
theorem declared?_head {name : String} {v : Json} {fields : List (String × Json)}
    (distinct : (((name, v) :: fields).map (·.1)).Nodup) :
    declared? [name] ((name, v) :: fields) = some [some v] := by
  have new : name ∉ fields.map (·.1) := (List.nodup_cons.mp distinct).1
  have others : countField fields name = 0 := by
    rw [countField, List.length_eq_zero_iff, List.filter_eq_nil_iff]
    intro field listed same
    exact new (List.mem_map.mpr ⟨field, listed, eq_of_beq same⟩)
  have once : countField ((name, v) :: fields) name = 1 := by
    have here : ((name, v).1 == name) = true := beq_self_eq_true name
    rw [countField, List.filter_cons, if_pos here, List.length_cons]
    exact congrArg (· + 1) others
  simp [declared?, once, field?, Table.findIn]

/-! ## Readers -/

/-- A list is read back if each of its elements is. -/
theorem list?_map {α : Type} {read : Json → Option α} {write : α → Json} {as : List α}
    (each : ∀ a ∈ as, read (write a) = some a) : list? read (.arr (as.map write)) = some as := by
  induction as with
  | nil => rfl
  | cons a as ih =>
    obtain ⟨first, others⟩ := List.forall_mem_cons.mp each
    have rest : (as.map write).mapM read = some as := ih others
    rw [list?, List.map_cons, List.mapM_cons, first, rest]
    rfl

/-- A list is read back by a reader of what nests at most `n` deep. -/
theorem list?_of_depth {α : Type} {read : Json → Option α} {write : α → Json} {n : Nat}
    {as : List α} (reads : ∀ a ∈ as, (write a).depth ≤ n → read (write a) = some a)
    (bound : (arr (as.map write)).depth ≤ n) : list? read (.arr (as.map write)) = some as :=
  list?_map fun a listed => reads a listed (depth_le_of_mem bound _ (List.mem_map_of_mem listed))

/-- An optional part is read back if it is read back when it is there, and is then not null. -/
theorem optional_ofOption {α : Type} {read : Json → Option α} {write : α → Json} {o : Option α}
    (each : ∀ a ∈ o, write a ≠ null ∧ read (write a) = some a) :
    optional read (some (ofOption write o)) = some o := by
  cases o with
  | none => rfl
  | some a =>
    obtain ⟨present, back⟩ := each a rfl
    rw [ofOption, optional, back]
    · rfl
    · exact present

theorem list?_str (ss : List String) : list? str? (ofStrings ss) = some ss :=
  list?_map fun _ _ => rfl

theorem optional_str (o : Option String) : optional str? (some (ofOption .str o)) = some o :=
  optional_ofOption (by simp [str?])

end Json

end TreeTyper
