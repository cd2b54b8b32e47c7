import TreeTyper.Proofs.Binding
import TreeTyper.Proofs.Operators

/-!
# Operators and the methods they stand for

The type of an operation is computed from the types of its operands and does not look at
the tables.  Where it is no number, the tables say the same: the receiver's type has a
method for the operator, whose signature takes the other operand and gives back the
type of the operation.

    binaryResult? op left.type right.type = some t → ¬ t.isPrimitive →
      ∃ message, standard.CarriesOut h op message receiver.type argument.type t
                                                              (operators_carried_out)

A method gives back the receiver's own type, while an operation on two containers has the
holes of the receiver filled from the other operand; that is all in which the two differ.
-/

namespace TreeTyper

variable {h : Hierarchy}

open Ty Bindings

/-! ## Signatures that bind nothing -/

/-- A receiver is what it binds, in its own shape. -/
theorem receiverShape_start (t : Ty) : (start (some t)).receiverShape t = t := by
  cases t <;> rfl

/-- If the arguments pass under what the receiver binds, and no placeholder waits for one of them,
the receiver stays as it is and the return type is over its bindings. -/
theorem matchSignature_of_passes {s : ApiSignature} {receiver : Ty} {args : List Ty}
    (known : (start (some receiver)).Knows (s.params.forCount args.length))
    (lengths : args.length = (s.params.forCount args.length).length)
    (passes : List.Forall₂ ((start (some receiver)).Passes h) args (s.params.forCount args.length))
    (name : String) : matchSignature h s name (some receiver) args =
      .ok ⟨s.ret.substitute (start (some receiver)), none⟩ := by
  obtain ⟨⟨ret, refined⟩, matched⟩ : ∃ found, matchSignature h s name (some receiver) args =
      .ok found := (exists_matchSignature_iff known).mpr ⟨lengths, passes⟩
  obtain ⟨-, final, run, rfl, changes⟩ := matchSignature_cases matched
  obtain ⟨rfl, -⟩ := (matchArguments_known known lengths).mp run
  have stays : refined = none := by
    refine Option.eq_none_iff_forall_ne_some.mpr fun t found => ?_
    obtain ⟨_, same, -, filled, differs⟩ := (changes t).mp found
    cases same
    rw [receiverShape_start] at filled
    exact differs (filled.trans (FillsTo.refl receiver))
  rw [matched, stays]

/-! ## Methods for operators -/

namespace ApiTables

/-- A row of the tables: the types with a head have a method for an operator, with one parameter. -/
def HasRow (api : ApiTables) (owner op message : String) (param ret : Ty) : Prop :=
  api.operator? owner op = some message ∧
    api.signature? owner message = some (takes [param] ret)

instance (api : ApiTables) (owner op message : String) (param ret : Ty) :
    Decidable (api.HasRow owner op message param ret) :=
  inferInstanceAs (Decidable (_ ∧ _))

/-- A message carries out an operator: the tables list it, and give it a signature which takes the
argument, leaves the receiver's type alone and gives back the result, up to holes of the
receiver. -/
def CarriesOut (api : ApiTables) (h : Hierarchy) (op message : String)
    (receiver arg result : Ty) : Prop :=
  api.operator? receiver.head op = some message ∧
  ∃ signature ret, api.signature? receiver.head message = some signature ∧
    (∀ name, matchSignature h signature name (some receiver) [arg] = .ok ⟨ret, none⟩) ∧
    ret.fill result = result ∧ (receiver.hasHoles = false → ret = result)

variable {api : ApiTables} {op message : String} {receiver arg param ret result : Ty}

theorem HasRow.carriesOut (row : api.HasRow receiver.head op message param ret)
    (around : param.isBare = false) (passes : (start (some receiver)).Passes h arg param)
    (fills : (ret.substitute (start (some receiver))).FillsTo result)
    (full : receiver.hasHoles = false → ret.substitute (start (some receiver)) = result) :
    api.CarriesOut h op message receiver arg result := by
  obtain ⟨listed, signed⟩ := row
  have known : (start (some receiver)).Knows
      ((takes [param] ret).params.forCount [arg].length) := by
    intro p bare
    rw [← List.mem_singleton.mp bare] at around
    cases around
  have all : List.Forall₂ ((start (some receiver)).Passes h) [arg] [param] := .cons passes .nil
  exact ⟨listed, takes [param] ret, _, signed, matchSignature_of_passes known rfl all, fills, full⟩

/-- The method gives back exactly the result. -/
theorem HasRow.carriesOut_self (row : api.HasRow receiver.head op message param ret)
    (around : param.isBare = false) (passes : (start (some receiver)).Passes h arg param) :
    api.CarriesOut h op message receiver arg (ret.substitute (start (some receiver))) :=
  row.carriesOut around passes (.refl _) fun _ => rfl

/-- The method takes what its receiver is and gives that back.  The other operand is usable as the
receiver, since both fill to the same. -/
theorem HasRow.carriesOut_fill (row : api.HasRow receiver.head op message param param)
    (around : param.isBare = false) (own : param.substitute (start (some receiver)) = receiver)
    (plainReceiver : receiver.isPlain) (plainArg : arg.isPlain)
    (comm : receiver.fill arg = arg.fill receiver) :
    api.CarriesOut h op message receiver arg (receiver.fill arg) := by
  have passes : (start (some receiver)).Passes h arg param := by
    have widens : arg.Widens h (receiver.fill arg) := by
      rw [comm]
      exact (fillsTo_fill arg receiver).widens (hereditary_isPlain.fill plainArg plainReceiver)
    rw [Passes, own, compatible_of_widens_fill widens]
    rfl
  refine row.carriesOut around passes ?_ fun full => ?_
  · rw [own]
    exact fillsTo_fill receiver arg
  · rw [own, fill_of_not_hasHoles receiver arg full]

end ApiTables

open ApiTables

/-! ## The standard tables -/

section Standard

variable {left right t : Ty}

theorem head_eq_list_iff : t.head = "List" ↔ t = .atom "List" ∨ ∃ a, t = .list a := by
  cases t with
  | placeholder p => cases p <;> simp [head, Placeholder.name]
  | _ => simp [head]

theorem head_eq_set_iff : t.head = "Set" ↔ t = .atom "Set" ∨ ∃ a, t = .set a := by
  cases t with
  | placeholder p => cases p <;> simp [head, Placeholder.name]
  | _ => simp [head]

theorem isRepeatable_iff : t.isRepeatable ↔ t = .string ∨ ∃ a, t = .list a := by
  cases t <;> simp [isRepeatable, string, isAtom]

theorem carriesOut_concatenated (plainLeft : left.isPlain) (plainRight : right.isPlain)
    (notNamed : left ≠ .atom "List") (found : concatenated? left right = some t) :
    ∃ message, standard.CarriesOut h "+" message left right t := by
  unfold concatenated? at found
  split at found
  · next strings =>
    cases found
    rw [Bool.and_eq_true, isAtom_iff, isAtom_iff] at strings
    obtain ⟨rfl, rfl⟩ : left = .string ∧ right = .string := strings
    have row : standard.HasRow "String" "+" "concat" .string .string := by
      decide
    have passes : (start (some .string)).Passes h .string .string :=
      Option.isSome_of_eq_some (compatible_self h .string)
    exact ⟨"concat", row.carriesOut_self rfl passes⟩
  · obtain ⟨isList, -, merge⟩ := merged?_eq_some_iff.mp found
    obtain ⟨comm, rfl⟩ := isMerge_iff.mp merge
    obtain ⟨a, rfl⟩ := (head_eq_list_iff.mp isList).resolve_left notNamed
    have row : standard.HasRow "List" "+" "push_many" (.list element) (.list element) := by
      decide
    exact ⟨"push_many", row.carriesOut_fill rfl rfl plainLeft plainRight comm⟩

theorem carriesOut_setOperation {op : String} (isSetOp : op ∈ ["-", "|", "&", "^"])
    (plainLeft : left.isPlain) (plainRight : right.isPlain) (notNamed : left ≠ .atom "Set")
    (found : merged? "Set" left right = some t) :
    ∃ message, standard.CarriesOut h op message left right t := by
  obtain ⟨isSet, -, merge⟩ := merged?_eq_some_iff.mp found
  obtain ⟨comm, rfl⟩ := isMerge_iff.mp merge
  obtain ⟨a, rfl⟩ := (head_eq_set_iff.mp isSet).resolve_left notNamed
  have rows : ∀ op ∈ ["-", "|", "&", "^"],
      ∃ message ∈ ["diff", "union", "intersection", "symmetric_diff"],
        standard.HasRow "Set" op message (.set element) (.set element) := by
    decide
  obtain ⟨message, -, row⟩ := rows op isSetOp
  exact ⟨message, row.carriesOut_fill rfl rfl plainLeft plainRight comm⟩

/-- A list or a string is repeated by its own method, on whichever side it stands. -/
theorem carriesOut_repeat (repeatable : t.isRepeatable) :
    standard.CarriesOut h "*" "repeat" t .int t := by
  have passes : (start (some t)).Passes h .int .int :=
    Option.isSome_of_eq_some (compatible_self h .int)
  rcases isRepeatable_iff.mp repeatable with rfl | ⟨a, rfl⟩
  · have row : standard.HasRow "String" "*" "repeat" .int .string := by
      decide
    exact row.carriesOut_self rfl passes
  · have row : standard.HasRow "List" "*" "repeat" .int (.list element) := by
      decide
    exact row.carriesOut_self rfl passes

theorem carriesOut_format (arg : Ty) :
    standard.CarriesOut h "%" "c_format" .string arg .string := by
  have row : standard.HasRow "String" "%" "c_format" .any .string := by
    decide
  have passes : (start (some .string)).Passes h arg .any := by
    show (compatible h arg .any).isSome
    rw [compatible]
    split <;> rfl
  exact row.carriesOut_self rfl passes

end Standard

namespace Translate

open Typed

/-! ## Operations that are no arithmetic -/

variable {op message : String} {left right receiver arg : Expr} {result : Ty}

/-- The operand whose method carries an operation out, and the other one. -/
def roles (op : String) (left right : Expr) : Expr × Expr :=
  if op = "*" ∧ left.type.isAtom intName then (right, left) else (left, right)

theorem isSupportedOperator_of_binaryResult? {left right : Ty}
    (typed : binaryResult? op left right = some result) : isSupportedOperator op := by
  unfold binaryResult? at typed
  split at typed
  case h_10 => cases typed
  all_goals rfl

/-- The translation of an operation that a method carries out. -/
theorem binary_of_carriesOut {api : ApiTables} {h : Hierarchy}
    (typed : binaryResult? op left.type right.type = some result)
    (notPrimitive : result.isPrimitive = false) (picked : roles op left right = (receiver, arg))
    (method : api.CarriesOut h op message receiver.type (formatArgument op arg).type result) :
    binary api op left right =
      .ok ⟨.standardMethodCall receiver message [formatArgument op arg], result⟩ := by
  rw [roles] at picked
  rw [binary, isSupportedOperator_of_binaryResult? typed, typed]
  dsimp only
  rw [notPrimitive, picked]
  dsimp only
  rw [method.1]
  rfl

theorem carriesOut_repeated {h : Hierarchy}
    (typed : repeated? left.type right.type = some result) :
    standard.CarriesOut h "*" "repeat" (roles "*" left right).1.type
      (formatArgument "*" (roles "*" left right).2).type result := by
  have unwrapped : ∀ e : Expr, formatArgument "*" e = e := by
    intro e
    rw [formatArgument, if_neg]
    rintro ⟨other, -⟩
    exact absurd other (by decide)
  rw [unwrapped, roles]
  unfold repeated? at typed
  split at typed
  · next ok =>
    obtain ⟨isInt, repeatable⟩ := Bool.and_eq_true_iff.mp ok
    cases typed
    rw [if_pos ⟨rfl, isInt⟩, isAtom_iff.mp isInt]
    exact carriesOut_repeat repeatable
  split at typed
  · next notRight ok =>
    obtain ⟨isInt, repeatable⟩ := Bool.and_eq_true_iff.mp ok
    cases typed
    have notInt : ¬left.type.isAtom intName := by
      intro left
      rw [isAtom_iff.mp left] at repeatable
      cases repeatable
    rw [if_neg fun both => notInt both.2, isAtom_iff.mp isInt]
    exact carriesOut_repeat repeatable
  · cases typed

theorem carriesOut_remainder {h : Hierarchy}
    (typed : remainder? left.type right.type = some result)
    (notPrimitive : result.isPrimitive = false) :
    standard.CarriesOut h "%" "c_format" (roles "%" left right).1.type
      (formatArgument "%" (roles "%" left right).2).type result := by
  have inOrder : roles "%" left right = (left, right) := by
    rw [roles, if_neg]
    rintro ⟨other, -⟩
    exact absurd other (by decide)
  rw [inOrder]
  obtain ⟨isString, rfl⟩ : left.type = .string ∧ result = .string := by
    unfold remainder? at typed
    split at typed
    · cases typed
      cases notPrimitive
    split at typed
    · next strings =>
      cases typed
      exact ⟨isAtom_iff.mp (Bool.and_eq_true_iff.mp strings).1, rfl⟩
    split at typed
    · split at typed
      · next strings =>
        cases typed
        exact ⟨isAtom_iff.mp (Bool.and_eq_true_iff.mp strings).1, rfl⟩
      · cases typed
    · cases typed
  rw [isString]
  exact carriesOut_format _

/-- An operation that is no arithmetic is carried out by a method of the operand in that role. -/
theorem exists_carriesOut (h : Hierarchy) (plainLeft : left.type.isPlain)
    (plainRight : right.type.isPlain) (noList : left.type ≠ .atom "List")
    (noSet : left.type ≠ .atom "Set")
    (typed : binaryResult? op left.type right.type = some result)
    (notPrimitive : result.isPrimitive = false) :
    ∃ message, standard.CarriesOut h op message (roles op left right).1.type
      (formatArgument op (roles op left right).2).type result := by
  have noArithmetic : arithmetic? left.type right.type ≠ some result := by
    intro found
    obtain ⟨-, -, rfl⟩ := arithmetic?_cases found
    split at notPrimitive <;> cases notPrimitive
  have orElse : ∀ {other : Option Ty},
      (arithmetic? left.type right.type).or other = some result → other = some result := by
    intro other found
    exact ((Option.or_eq_some_iff.mp found).resolve_left noArithmetic).2
  unfold binaryResult? at typed
  split at typed
  · exact carriesOut_concatenated plainLeft plainRight noList (orElse typed)
  · exact carriesOut_setOperation (by decide) plainLeft plainRight noSet (orElse typed)
  · exact ⟨"repeat", carriesOut_repeated (orElse typed)⟩
  · exact absurd typed noArithmetic
  · exact absurd typed noArithmetic
  · exact ⟨"c_format", carriesOut_remainder typed notPrimitive⟩
  · exact carriesOut_setOperation (by decide) plainLeft plainRight noSet typed
  · exact carriesOut_setOperation (by decide) plainLeft plainRight noSet typed
  · exact carriesOut_setOperation (by decide) plainLeft plainRight noSet typed
  · cases typed

end Translate

open Translate Typed

/-- An operation whose result is no number is translated to a method of one operand that the tables
list for the operator.  Its signature takes the other operand, as it is passed, leaves the type of
the receiver alone, and gives back the type of the operation up to holes of the receiver. -/
theorem operators_carried_out (h : Hierarchy) {op : String} {left right : Expr} {result : Ty}
    (valueLeft : left.type.describesValue) (valueRight : right.type.describesValue)
    (noList : left.type ≠ .atom "List") (noSet : left.type ≠ .atom "Set")
    (typed : binaryResult? op left.type right.type = some result)
    (notInt : result ≠ .int) (notFloat : result ≠ .float) :
    ∃ receiver arg message,
      (receiver, arg) =
        (if op = "*" ∧ left.type = .int then (right, left) else (left, right)) ∧
      ApiTables.standard.CarriesOut h op message receiver.type (formatArgument op arg).type result ∧
      binary ApiTables.standard op left right =
        .ok ⟨.standardMethodCall receiver message [formatArgument op arg], result⟩ := by
  have notPrimitive : result.isPrimitive = false := by
    rw [isPrimitive_eq, Bool.eq_false_iff]
    intro numeric
    exact (isNumeric_iff.mp numeric).elim notInt notFloat
  have pick : roles op left right =
      if op = "*" ∧ left.type = .int then (right, left) else (left, right) := by
    rw [roles]
    simp only [isAtom_iff]
    rfl
  obtain ⟨message, method⟩ := exists_carriesOut h (isPlain_of_describesValue valueLeft)
    (isPlain_of_describesValue valueRight) noList noSet typed notPrimitive
  exact ⟨(roles op left right).1, (roles op left right).2, message, pick, method,
    binary_of_carriesOut typed notPrimitive rfl method⟩

/-- Lists of pairs that know different places of their elements. -/
def halfKnown : Expr := ⟨.list [], .list (.tuple [.list .hole, .atom "Shape"])⟩

def otherHalf : Expr := ⟨.list [], .list (.tuple [.list .int, .hole])⟩

/-- The signature gives back the receiver's own type, with the hole that the operation fills. -/
theorem operators_carried_out_halves :
    halfKnown.type.describesValue ∧ otherHalf.type.describesValue ∧
    binaryResult? "+" halfKnown.type otherHalf.type =
      some (.list (.tuple [.list .int, .atom "Shape"])) ∧
    ∃ receiver arg message,
      ApiTables.standard.CarriesOut shapes "+" message receiver.type (formatArgument "+" arg).type
        (.list (.tuple [.list .int, .atom "Shape"])) ∧
      binary ApiTables.standard "+" halfKnown otherHalf =
        .ok ⟨.standardMethodCall receiver message [formatArgument "+" arg],
          .list (.tuple [.list .int, .atom "Shape"])⟩ := by
  have valueLeft : halfKnown.type.describesValue := by
    decide
  have valueRight : otherHalf.type.describesValue := by
    decide
  have typed : binaryResult? "+" halfKnown.type otherHalf.type =
      some (.list (.tuple [.list .int, .atom "Shape"])) := by
    decide
  obtain ⟨receiver, arg, message, -, method, made⟩ := operators_carried_out shapes valueLeft
    valueRight (by decide) (by decide) typed (by decide) (by decide)
  exact ⟨valueLeft, valueRight, typed, receiver, arg, message, method, made⟩

end TreeTyper
