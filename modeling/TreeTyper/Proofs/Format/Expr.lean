import TreeTyper.Proofs.Json.Fields
import TreeTyper.Tree.Writer

/-!
# Written expressions are read back

Float literals are left out: one that is not finite is written as null, which is not read.

The reader of a node is given a reader of the nodes inside it.  If that one reads back every
expression that nests at most `n` deep, the reader of the node does so one level further up, one
case for each form; the depth of a value is enough levels for all of it.

    ReadsExprs sub n → ReadsExprs (Expr.readWith sub) (n + 1)                      (ReadsExprs.step)
    e.isFloatFree → e.json.depth ≤ levels → Expr.readAt levels e.json = some e     (Expr.readAt_json)

The fields of an object stand in key order.  The reader finds them by name, so the equations below
are about the fields as the writer lists them.
-/

namespace TreeTyper

open Json

/-! ## Leaves -/

theorem Pos.read?_json (p : Pos) : Pos.read? p.json = some p := by
  have word : ∀ w : UInt32, required word32? (some (.int w.toNat)) = some w := by
    intro w
    have fits : w.toNat < UInt32.size := w.toNat_lt
    change (if w.toNat < UInt32.size then some (UInt32.ofNat w.toNat) else none) = some w
    rw [if_pos fits, UInt32.ofNat_toNat]
  rw [Pos.read?, Pos.json, record?_object (by simp)]
  change (required word32? (some (.int p.line.toNat))).bind (fun line =>
    (required word32? (some (.int p.col.toNat))).bind fun col => some (Pos.mk line col)) = _
  rw [word, word]
  rfl

theorem Pos.field?_json (p : Pos) : Pos.field? (some p.json) = some p :=
  p.read?_json

namespace Tree

theorem Arg.read?_json (a : Arg) : Arg.read? a.json = some a := by
  rw [Arg.read?, Arg.json, record?_object (by simp)]
  have declared : declared? ["name", "pos"] [("name", .str a.name), ("pos", a.pos.json)] =
      some [some (.str a.name), some a.pos.json] := rfl
  rw [declared, Option.bind_eq_bind, Option.bind_some]
  change (required str? (some (.str a.name))).bind (fun name =>
    (Pos.field? (some a.pos.json)).bind fun pos => some (Arg.mk name pos)) = _
  rw [Pos.field?_json]
  rfl

theorem Alias.read?_json (a : Alias) : Alias.read? a.json = some a := by
  rw [Alias.read?, Alias.json, record?_object (by simp)]
  change (required str? (some (.str a.name))).bind (fun name =>
    (optional str? (some (ofOption .str a.asname))).bind fun asname =>
      some (Alias.mk name asname)) = _
  rw [optional_str]
  rfl

theorem required_int64? (n : Int64) : required int64? (some (.int n.toInt)) = some n := by
  change (if Int64.minValue.toInt ≤ n.toInt ∧ n.toInt ≤ Int64.maxValue.toInt then
    some (Int64.ofInt n.toInt) else none) = some n
  rw [if_pos ⟨n.minValue_le_toInt, n.toInt_le⟩, Int64.ofInt_toInt]

/-! ## Trees without floats -/

mutual

/-- Whether no float literal stands in the expression. -/
def Expr.isFloatFree : Expr → Bool
  | ⟨kind, _⟩ => kind.isFloatFree

def ExprKind.isFloatFree : ExprKind → Bool
  | .float _ => false
  | .int _ | .str _ | .bool _ | .none | .name _ => true
  | .attr value _ => value.isFloatFree
  | .call func args keywords =>
    func.isFloatFree && (allFloatFree args && keywordsFloatFree keywords)
  | .binOp left _ right => left.isFloatFree && right.isFloatFree
  | .unaryOp _ operand => operand.isFloatFree
  | .boolOp _ values => allFloatFree values
  | .compare left _ comparators => left.isFloatFree && allFloatFree comparators
  | .list elts => allFloatFree elts
  | .tuple elts => allFloatFree elts
  | .set elts => allFloatFree elts
  | .dict keys values => allFloatFree keys && allFloatFree values
  | .subscript value slice => value.isFloatFree && slice.isFloatFree
  | .listComp elt generators => elt.isFloatFree && generatorsFloatFree generators
  | .setComp elt generators => elt.isFloatFree && generatorsFloatFree generators
  | .dictComp key value generators =>
    key.isFloatFree && (value.isFloatFree && generatorsFloatFree generators)
  | .generatorExp elt generators => elt.isFloatFree && generatorsFloatFree generators
  | .lambda args body => args.isFloatFree && body.isFloatFree
  | .ifExp test body orelse => test.isFloatFree && (body.isFloatFree && orelse.isFloatFree)
  | .starred value => value.isFloatFree

def allFloatFree : List Expr → Bool
  | [] => true
  | e :: es => e.isFloatFree && allFloatFree es

def optionFloatFree : Option Expr → Bool
  | some e => e.isFloatFree
  | none => true

def Slice.isFloatFree : Slice → Bool
  | .index value => value.isFloatFree
  | .slice lower upper step =>
    optionFloatFree lower && (optionFloatFree upper && optionFloatFree step)

def Keyword.isFloatFree : Keyword → Bool
  | ⟨_, value⟩ => value.isFloatFree

def keywordsFloatFree : List Keyword → Bool
  | [] => true
  | k :: ks => k.isFloatFree && keywordsFloatFree ks

def Comprehension.isFloatFree : Comprehension → Bool
  | ⟨target, iter, ifs⟩ => target.isFloatFree && (iter.isFloatFree && allFloatFree ifs)

def generatorsFloatFree : List Comprehension → Bool
  | [] => true
  | c :: cs => c.isFloatFree && generatorsFloatFree cs

def Arguments.isFloatFree : Arguments → Bool
  | ⟨_, _, _, kwDefaults, _, defaults⟩ => allFloatFree kwDefaults && allFloatFree defaults

end

theorem allFloatFree_iff {es : List Expr} : allFloatFree es ↔ ∀ e ∈ es, e.isFloatFree := by
  induction es with
  | nil => simp [allFloatFree]
  | cons e es ih => rw [allFloatFree, Bool.and_eq_true, ih, List.forall_mem_cons]

theorem keywordsFloatFree_iff {ks : List Keyword} :
    keywordsFloatFree ks ↔ ∀ k ∈ ks, k.isFloatFree := by
  induction ks with
  | nil => simp [keywordsFloatFree]
  | cons k ks ih => rw [keywordsFloatFree, Bool.and_eq_true, ih, List.forall_mem_cons]

theorem generatorsFloatFree_iff {cs : List Comprehension} :
    generatorsFloatFree cs ↔ ∀ c ∈ cs, c.isFloatFree := by
  induction cs with
  | nil => simp [generatorsFloatFree]
  | cons c cs ih => rw [generatorsFloatFree, Bool.and_eq_true, ih, List.forall_mem_cons]

/-! ## Expressions -/

theorem exprsJson_eq (es : List Expr) : exprsJson es = es.map Expr.json := by
  induction es with
  | nil => rfl
  | cons e es ih => rw [exprsJson, ih, List.map_cons]

theorem optionJson_eq (o : Option Expr) : optionJson o = ofOption Expr.json o := by
  cases o <;> rfl

theorem keywordsJson_eq (ks : List Keyword) : keywordsJson ks = ks.map Keyword.json := by
  induction ks with
  | nil => rfl
  | cons k ks ih => rw [keywordsJson, ih, List.map_cons]

theorem comprehensionsJson_eq (cs : List Comprehension) :
    comprehensionsJson cs = cs.map Comprehension.json := by
  induction cs with
  | nil => rfl
  | cons c cs ih => rw [comprehensionsJson, ih, List.map_cons]

/-- The fields of an expression have distinct names. -/
theorem ExprKind.distinct (kind : ExprKind) (pos : Json) :
    ((("pos", pos) :: kind.fields).map (·.1)).Nodup := by
  cases kind <;> simp [ExprKind.fields, node]

section Expressions

variable {sub : Json → Option Expr} {n : Nat}

/-- A slice is read from the fields that were listed. -/
theorem Slice.readWith_object {fields : List (String × Json)}
    (distinct : (fields.map (·.1)).Nodup) :
    Slice.readWith sub (object fields) = Slice.readWith sub (.obj fields) := by
  simp only [object, Slice.readWith, Slice.ofForm, record?, tagged?_ofList distinct,
    declared?_ofList distinct]

/-- The reader reads back what has no floats and nests at most `n` deep. -/
def ReadsExprs (sub : Json → Option Expr) (n : Nat) : Prop :=
  ∀ e : Expr, e.isFloatFree → e.json.depth ≤ n → sub e.json = some e

namespace ReadsExprs

variable (reads : ReadsExprs sub n)

include reads

theorem list {es : List Expr} (free : allFloatFree es)
    (bound : (arr (exprsJson es)).depth ≤ n) : list? sub (.arr (exprsJson es)) = some es := by
  rw [exprsJson_eq] at bound ⊢
  exact list?_of_depth (fun e listed => reads e (allFloatFree_iff.mp free e listed)) bound

theorem option {o : Option Expr} (free : optionFloatFree o)
    (bound : (optionJson o).depth ≤ n) : optional sub (some (optionJson o)) = some o := by
  rw [optionJson_eq] at bound ⊢
  refine optional_ofOption ?_
  rintro ⟨kind, pos⟩ ⟨rfl⟩
  exact ⟨Json.noConfusion, reads _ free bound⟩

theorem keyword {k : Keyword} (free : k.isFloatFree) (bound : k.json.depth ≤ n) :
    Keyword.readWith sub k.json = some k := by
  obtain ⟨arg, value⟩ := k
  rw [Keyword.json, depth_object (by simp)] at bound
  simp only [depthOfFields] at bound
  rw [Keyword.readWith, Keyword.json, record?_object (by simp)]
  change (optional str? (some (ofOption .str arg))).bind (fun arg =>
    (sub value.json).bind fun value => some (Keyword.mk arg value)) = _
  rw [optional_str, reads value free (by omega)]
  rfl

theorem keywords {ks : List Keyword} (free : keywordsFloatFree ks)
    (bound : (arr (keywordsJson ks)).depth ≤ n) :
    list? (Keyword.readWith sub) (.arr (keywordsJson ks)) = some ks := by
  rw [keywordsJson_eq] at bound ⊢
  exact list?_of_depth (fun k listed => reads.keyword (keywordsFloatFree_iff.mp free k listed)) bound

theorem comprehension {c : Comprehension} (free : c.isFloatFree) (bound : c.json.depth ≤ n) :
    Comprehension.readWith sub c.json = some c := by
  obtain ⟨target, iter, ifs⟩ := c
  simp only [Comprehension.isFloatFree, Bool.and_eq_true] at free
  rw [Comprehension.json, depth_object (by simp)] at bound
  simp only [depthOfFields] at bound
  rw [Comprehension.readWith, Comprehension.json, record?_object (by simp)]
  change (sub target.json).bind (fun target => (sub iter.json).bind fun iter =>
    (list? sub (.arr (exprsJson ifs))).bind fun ifs => some (Comprehension.mk target iter ifs)) = _
  rw [reads target free.1 (by omega), reads iter free.2.1 (by omega),
    reads.list free.2.2 (by omega)]
  rfl

theorem comprehensions {cs : List Comprehension} (free : generatorsFloatFree cs)
    (bound : (arr (comprehensionsJson cs)).depth ≤ n) :
    list? (Comprehension.readWith sub) (.arr (comprehensionsJson cs)) = some cs := by
  rw [comprehensionsJson_eq] at bound ⊢
  exact list?_of_depth
    (fun c listed => reads.comprehension (generatorsFloatFree_iff.mp free c listed)) bound

theorem arguments {a : Arguments} (free : a.isFloatFree) (bound : a.json.depth ≤ n) :
    Arguments.readWith sub a.json = some a := by
  obtain ⟨args, vararg, kwonlyargs, kwDefaults, kwarg, defaults⟩ := a
  simp only [Arguments.isFloatFree, Bool.and_eq_true] at free
  have names : ∀ as : List Arg, list? Arg.read? (.arr (as.map Arg.json)) = some as :=
    fun _ => list?_map fun a _ => a.read?_json
  have name : ∀ o : Option Arg, optional Arg.read? (some (ofOption Arg.json o)) = some o :=
    fun _ => optional_ofOption fun a _ => ⟨Json.noConfusion, a.read?_json⟩
  rw [Arguments.json, depth_object (by simp)] at bound
  replace bound := Nat.le_of_succ_le bound
  simp only [depthOfFields, Nat.max_le] at bound
  obtain ⟨-, -, -, ofKwDefaults, -, ofDefaults, -⟩ := bound
  rw [Arguments.readWith, Arguments.json, record?_object (by simp)]
  change (list? Arg.read? (.arr (args.map Arg.json))).bind (fun args =>
    (optional Arg.read? (some (ofOption Arg.json vararg))).bind fun vararg =>
    (list? Arg.read? (.arr (kwonlyargs.map Arg.json))).bind fun kwonlyargs =>
    (list? sub (.arr (exprsJson kwDefaults))).bind fun kwDefaults =>
    (optional Arg.read? (some (ofOption Arg.json kwarg))).bind fun kwarg =>
    (list? sub (.arr (exprsJson defaults))).bind fun defaults =>
      some (Arguments.mk args vararg kwonlyargs kwDefaults kwarg defaults)) = _
  rw [names, name, names, reads.list free.1 ofKwDefaults, name, reads.list free.2 ofDefaults]
  rfl

theorem slice {s : Slice} (free : s.isFloatFree) (bound : s.json.depth ≤ n) :
    Slice.readWith sub s.json = some s := by
  cases s with simp only [Slice.isFloatFree, Bool.and_eq_true] at free
  | index value =>
    have distinct : ((node "index" [("value", value.json)]).map (·.1)).Nodup := by simp [node]
    rw [Slice.json, depth_object distinct] at bound
    simp only [node, depthOfFields] at bound
    rw [Slice.json, Slice.readWith_object distinct]
    change (sub value.json).bind (fun value => some (Slice.index value)) = _
    rw [reads value free (by omega)]
    rfl
  | slice lower upper step =>
    have distinct : ((node "slice" [("lower", optionJson lower), ("upper", optionJson upper),
      ("step", optionJson step)]).map (·.1)).Nodup := by simp [node]
    rw [Slice.json, depth_object distinct] at bound
    simp only [node, depthOfFields] at bound
    rw [Slice.json, Slice.readWith_object distinct]
    change (optional sub (some (optionJson lower))).bind (fun lower =>
      (optional sub (some (optionJson upper))).bind fun upper =>
      (optional sub (some (optionJson step))).bind fun step =>
        some (Slice.slice lower upper step)) = _
    rw [reads.option free.1 (by omega), reads.option free.2.1 (by omega),
      reads.option free.2.2 (by omega)]
    rfl

end ReadsExprs

/-- An expression is read from the declared fields of its object. -/
theorem ExprKind.readWith_congr {entries fields : List (String × Json)}
    (same : ∀ names, declared? names entries = declared? names fields) :
    ExprKind.readWith sub entries = ExprKind.readWith sub fields := by
  simp only [ExprKind.readWith, tagged?, same]

/-- Every form of an expression is read back from its fields. -/
theorem ReadsExprs.readWith_fields (reads : ReadsExprs sub n) {kind : ExprKind}
    (free : kind.isFloatFree) (bound : depthOfFields kind.fields ≤ n) (pos : Json) :
    ExprKind.readWith sub (("pos", pos) :: kind.fields) = some kind := by
  -- `change` shows the reader of a kind as a chain: each link reads back what was written for it
  cases kind with
    (simp only [ExprKind.fields, node, depthOfFields] at bound
     simp only [ExprKind.isFloatFree, Bool.and_eq_true] at free)
  | int value =>
    change (required int64? (some (.int value.toInt))).bind (fun value =>
      some (ExprKind.int value)) = _
    rw [required_int64?]
    rfl
  | float bits => cases free
  | str value => rfl
  | bool value => rfl
  | none => rfl
  | name id => rfl
  | attr value name =>
    change (sub value.json).bind (fun value => some (ExprKind.attr value name)) = _
    rw [reads value free (by omega)]
    rfl
  | call func args keywords =>
    change (sub func.json).bind (fun func => (list? sub (.arr (exprsJson args))).bind fun args =>
      (list? (Keyword.readWith sub) (.arr (keywordsJson keywords))).bind fun keywords =>
        some (ExprKind.call func args keywords)) = _
    rw [reads func free.1 (by omega), reads.list free.2.1 (by omega), reads.keywords free.2.2 (by omega)]
    rfl
  | binOp left op right =>
    change (sub left.json).bind (fun left => (BinaryOperator.ofName? op.name).bind fun op =>
      (sub right.json).bind fun right => some (ExprKind.binOp left op right)) = _
    rw [reads left free.1 (by omega), BinaryOperator.ofName?_name, reads right free.2 (by omega)]
    rfl
  | unaryOp op operand =>
    change (UnaryOperator.ofName? op.name).bind (fun op =>
      (sub operand.json).bind fun operand => some (ExprKind.unaryOp op operand)) = _
    rw [UnaryOperator.ofName?_name, reads operand free (by omega)]
    rfl
  | boolOp op values =>
    change (BooleanOperator.ofName? op.name).bind (fun op =>
      (list? sub (.arr (exprsJson values))).bind fun values =>
        some (ExprKind.boolOp op values)) = _
    rw [BooleanOperator.ofName?_name, reads.list free (by omega)]
    rfl
  | compare left ops comparators =>
    have signs : list? (named? ComparisonOperator.ofName?) (.arr (ops.map fun op => .str op.name)) =
        some ops := list?_map fun op _ => ComparisonOperator.ofName?_name op
    change (sub left.json).bind (fun left =>
      (list? (named? ComparisonOperator.ofName?) (.arr (ops.map fun op => .str op.name))).bind
        fun ops => (list? sub (.arr (exprsJson comparators))).bind fun comparators =>
          some (ExprKind.compare left ops comparators)) = _
    rw [reads left free.1 (by omega), signs, reads.list free.2 (by omega)]
    rfl
  | list elts =>
    change (list? sub (.arr (exprsJson elts))).bind (fun elts => some (ExprKind.list elts)) = _
    rw [reads.list free (by omega)]
    rfl
  | tuple elts =>
    change (list? sub (.arr (exprsJson elts))).bind (fun elts => some (ExprKind.tuple elts)) = _
    rw [reads.list free (by omega)]
    rfl
  | set elts =>
    change (list? sub (.arr (exprsJson elts))).bind (fun elts => some (ExprKind.set elts)) = _
    rw [reads.list free (by omega)]
    rfl
  | dict keys values =>
    change (list? sub (.arr (exprsJson keys))).bind (fun keys =>
      (list? sub (.arr (exprsJson values))).bind fun values =>
        some (ExprKind.dict keys values)) = _
    rw [reads.list free.1 (by omega), reads.list free.2 (by omega)]
    rfl
  | subscript value slice =>
    change (sub value.json).bind (fun value => (Slice.readWith sub slice.json).bind fun slice =>
      some (ExprKind.subscript value slice)) = _
    rw [reads value free.1 (by omega), reads.slice free.2 (by omega)]
    rfl
  | listComp elt generators =>
    change (sub elt.json).bind (fun elt =>
      (list? (Comprehension.readWith sub) (.arr (comprehensionsJson generators))).bind
        fun generators => some (ExprKind.listComp elt generators)) = _
    rw [reads elt free.1 (by omega), reads.comprehensions free.2 (by omega)]
    rfl
  | setComp elt generators =>
    change (sub elt.json).bind (fun elt =>
      (list? (Comprehension.readWith sub) (.arr (comprehensionsJson generators))).bind
        fun generators => some (ExprKind.setComp elt generators)) = _
    rw [reads elt free.1 (by omega), reads.comprehensions free.2 (by omega)]
    rfl
  | dictComp key value generators =>
    change (sub key.json).bind (fun key => (sub value.json).bind fun value =>
      (list? (Comprehension.readWith sub) (.arr (comprehensionsJson generators))).bind
        fun generators => some (ExprKind.dictComp key value generators)) = _
    rw [reads key free.1 (by omega), reads value free.2.1 (by omega), reads.comprehensions free.2.2 (by omega)]
    rfl
  | generatorExp elt generators =>
    change (sub elt.json).bind (fun elt =>
      (list? (Comprehension.readWith sub) (.arr (comprehensionsJson generators))).bind
        fun generators => some (ExprKind.generatorExp elt generators)) = _
    rw [reads elt free.1 (by omega), reads.comprehensions free.2 (by omega)]
    rfl
  | lambda args body =>
    change (Arguments.readWith sub args.json).bind (fun args => (sub body.json).bind fun body =>
      some (ExprKind.lambda args body)) = _
    rw [reads.arguments free.1 (by omega), reads body free.2 (by omega)]
    rfl
  | ifExp test body orelse =>
    change (sub test.json).bind (fun test => (sub body.json).bind fun body =>
      (sub orelse.json).bind fun orelse => some (ExprKind.ifExp test body orelse)) = _
    rw [reads test free.1 (by omega), reads body free.2.1 (by omega), reads orelse free.2.2 (by omega)]
    rfl
  | starred value =>
    change (sub value.json).bind (fun value => some (ExprKind.starred value)) = _
    rw [reads value free (by omega)]
    rfl

/-- One level of an expression is read back if the levels inside are. -/
theorem ReadsExprs.step (reads : ReadsExprs sub n) : ReadsExprs (Expr.readWith sub) (n + 1) := by
  rintro ⟨kind, pos⟩ free bound
  have distinct := kind.distinct pos.json
  rw [Expr.json, depth_object distinct, depthOfFields] at bound
  rw [Expr.json, object, Expr.readWith, declared?_ofList distinct, declared?_head distinct,
    ExprKind.readWith_congr (declared?_ofList distinct), reads.readWith_fields free (by omega),
    Option.bind_eq_bind, Option.bind_some]
  change (Pos.field? (some pos.json)).bind (fun pos => some (Expr.mk kind pos)) = _
  rw [Pos.field?_json]
  rfl

end Expressions

/-- Expressions without floats that nest at most `levels` deep are read back. -/
theorem Expr.readAt_json (levels : Nat) : ReadsExprs (Expr.readAt levels) levels := by
  induction levels with
  | zero =>
    rintro ⟨kind, pos⟩ free bound
    rw [Expr.json, depth_object (kind.distinct _)] at bound
    omega
  | succ levels ih => exact ih.step

end Tree

end TreeTyper
