import TreeTyper.Proofs.TypeText.Reading
import TreeTyper.Proofs.TypeText.Tokens

/-!
# Types are read back from their text

Not every type has a text: an atom has to be spelled like one, and the length of an array
has to fit 64 bits.  Types that were read are of this kind, and they are read back from
their text but for one shape: a tuple without elements is read from `Tuple` and written
as `Tuple[]`, which is no type.

    parse s = .ok t → (parse t.render = .ok t ↔ t.hasEmptyTuple = false)     (parse_render)
-/

namespace TreeTyper.Ty

mutual

/-- Whether a tuple without elements occurs at any depth. -/
def hasEmptyTuple : Ty → Bool
  | list t => hasEmptyTuple t
  | set t => hasEmptyTuple t
  | array t _ => hasEmptyTuple t
  | dictionary k v => hasEmptyTuple k || hasEmptyTuple v
  | tuple ts => ts.isEmpty || anyEmptyTuple ts
  | function ps r => anyEmptyTuple ps || hasEmptyTuple r
  | atom _ | hole | any | number | placeholder _ => false

def anyEmptyTuple : List Ty → Bool
  | [] => false
  | t :: ts => hasEmptyTuple t || anyEmptyTuple ts

end

theorem anyEmptyTuple_eq_any (ts : List Ty) : anyEmptyTuple ts = ts.any hasEmptyTuple := by
  induction ts with
  | nil => rfl
  | cons t ts ih => rw [anyEmptyTuple, ih, List.any_cons]

theorem renderAll_eq_map (ts : List Ty) : renderAll ts = ts.map render := by
  induction ts with
  | nil => rfl
  | cons t ts ih => rw [renderAll, ih, List.map_cons]

/-! ## Types with a text -/

/-- A type that some text denotes: its atoms are words that begin an atom, and its arrays have
lengths of 64 bits. -/
inductive Spelled : Ty → Prop
  | atom {name : String} : wordRole name = .whole (.atom name) →
      (∀ c ∈ name.toList, isTypeChar c) → Spelled (.atom name)
  | hole : Spelled .hole
  | any : Spelled .any
  | number : Spelled .number
  | placeholder (p : Placeholder) : Spelled (.placeholder p)
  | list {t : Ty} : Spelled t → Spelled (.list t)
  | set {t : Ty} : Spelled t → Spelled (.set t)
  | array {t : Ty} {n : Nat} : Spelled t → n < UInt64.size → Spelled (.array t n)
  | dictionary {k v : Ty} : Spelled k → Spelled v → Spelled (.dictionary k v)
  | tuple {ts : List Ty} : (∀ t ∈ ts, Spelled t) → Spelled (.tuple ts)
  | function {ps : List Ty} {r : Ty} : (∀ p ∈ ps, Spelled p) → Spelled r →
      Spelled (.function ps r)

theorem spelled_of_wordRole {w : String} {t : Ty} (role : wordRole w = .whole t)
    (chars : ∀ c ∈ w.toList, isTypeChar c) : t.Spelled := by
  have role' := role
  unfold wordRole at role'
  split at role'
  case h_13 =>
    split at role'
    · split at role'
      · cases role'
        exact .atom role chars
      · cases role'
    · cases role'
  all_goals
    cases role' <;> constructor

theorem lt_of_length? {w : String} {n : Nat} (read : length? w = some n) : n < UInt64.size := by
  unfold length? at read
  dsimp only at read
  split at read
  · cases read
  split at read
  · next small =>
    cases read
    exact small
  · cases read

theorem spelled_build {head : Head} {ts : List Ty} {t : Ty} (built : head.build ts = .ok t)
    (spelled : ∀ t ∈ ts, t.Spelled) : t.Spelled := by
  unfold Head.build at built
  split at built
  · cases built
    exact .list (spelled _ List.mem_cons_self)
  · cases built
  · cases built
    exact .set (spelled _ List.mem_cons_self)
  · cases built
  · cases built
    exact .dictionary (spelled _ List.mem_cons_self)
      (spelled _ (List.mem_cons_of_mem _ List.mem_cons_self))
  · cases built
  · cases built
    exact .tuple spelled
  · split at built
    · next ret last =>
      cases built
      exact .function (fun p hp => spelled p (List.dropLast_subset _ hp))
        (spelled ret (List.mem_of_getLast? last))
    · cases built

/-- The finished parameters of an unfinished type are spelled. -/
def Frame.Spelled : Frame → Prop
  | .params _ done => ∀ t ∈ done, t.Spelled
  | .arrayElement => True

/-- Words consist of characters of words, as those of a text do. -/
def Token.IsClean : Token → Prop
  | .word w => ∀ c ∈ w.toList, isTypeChar c
  | _ => True

theorem isClean_of_mem_tokens {s : String} : ∀ x ∈ tokens s, x.IsClean := by
  intro x listed
  cases x with
  | word w => exact isTypeChar_of_mem_tokens listed
  | _ => trivial

/-- What is read from clean tokens is spelled. -/
theorem Reading.spelled {found : Option Ty} {tokens : List Token} {stack : List Frame} {t : Ty}
    (reading : Reading found tokens stack t) (clean : ∀ x ∈ tokens, x.IsClean)
    (frames : ∀ f ∈ stack, f.Spelled) (spelled : ∀ u ∈ found, u.Spelled) : t.Spelled := by
  have onlyThat : ∀ {u : Ty}, u.Spelled → ∀ u' ∈ some u, u'.Spelled := by
    rintro u here _ ⟨⟩
    exact here
  -- token by token: what was found and what waits on the stack stays spelled
  induction reading with
  | done => exact spelled _ rfl
  | whole role _ ih =>
    obtain ⟨word, clean⟩ := List.forall_mem_cons.mp clean
    exact ih clean frames (onlyThat (spelled_of_wordRole role word))
  | enter role _ ih =>
    obtain ⟨-, -, clean⟩ := (List.forall_mem_cons.mp clean).imp_right List.forall_mem_cons.mp
    exact ih clean (List.forall_mem_cons.mpr ⟨fun _ => nofun, frames⟩) nofun
  | bare role _ built _ ih =>
    obtain ⟨-, clean⟩ := List.forall_mem_cons.mp clean
    exact ih clean frames (onlyThat (spelled_build built fun _ => nofun))
  | enterArray role _ ih =>
    obtain ⟨-, -, clean⟩ := (List.forall_mem_cons.mp clean).imp_right List.forall_mem_cons.mp
    exact ih clean (List.forall_mem_cons.mpr ⟨trivial, frames⟩) nofun
  | leave built _ ih =>
    obtain ⟨-, clean⟩ := List.forall_mem_cons.mp clean
    obtain ⟨done, frames⟩ := List.forall_mem_cons.mp frames
    have params := List.forall_mem_append.mpr ⟨done, List.forall_mem_singleton.mpr (spelled _ rfl)⟩
    exact ih clean frames (onlyThat (spelled_build built params))
  | next _ ih =>
    obtain ⟨-, clean⟩ := List.forall_mem_cons.mp clean
    obtain ⟨done, frames⟩ := List.forall_mem_cons.mp frames
    have params := List.forall_mem_append.mpr ⟨done, List.forall_mem_singleton.mpr (spelled _ rfl)⟩
    exact ih clean (List.forall_mem_cons.mpr ⟨params, frames⟩) nofun
  | leaveArray length _ ih =>
    have clean : ∀ x ∈ _, Token.IsClean x := fun x listed => clean x
      (List.mem_cons_of_mem _ (List.mem_cons_of_mem _ (List.mem_cons_of_mem _ listed)))
    obtain ⟨-, frames⟩ := List.forall_mem_cons.mp frames
    exact ih clean frames (onlyThat (.array (spelled _ rfl) (lt_of_length? length)))

theorem spelled_of_parse {s : String} {t : Ty} (parsed : parse s = .ok t) : t.Spelled :=
  (reading_of_expect (parse_eq_ok_iff.mp parsed)).spelled isClean_of_mem_tokens nofun nofun

/-! ## Reading what was written -/

/-- The tokens of the text of a type are read as that type, or not at all. -/
def IsReadBack (t : Ty) : Prop :=
  ∀ rest stack, expect (tokens t.render ++ rest) stack =
    if t.hasEmptyTuple then .error .expectedType else resume t rest stack

theorem isReadBack_of_word {t : Ty} (word : tokens t.render = [.word t.render])
    (role : wordRole t.render = .whole t) (flat : t.hasEmptyTuple = false) : t.IsReadBack := by
  intro rest stack
  rw [word, flat]
  exact expect_whole role

/-- Parameters are read up to the first one that has an empty tuple inside. -/
theorem expect_params (head : Head) (rest : List Token) (stack : List Frame) :
    ∀ {ts : List Ty} (done : List Ty), ts ≠ [] → (∀ t ∈ ts, t.IsReadBack) →
    expect (List.intercalate [.comma] (ts.map fun t => tokens t.render) ++ .closeBracket :: rest)
        (.params head done :: stack) =
      if ts.any hasEmptyTuple then .error .expectedType
      else (head.build (done ++ ts)).bind fun u => resume u rest stack
  | [], _, notNil, _ => absurd rfl notNil
  | [t], done, _, back => by
    rw [List.map_singleton, List.intercalate_singleton, back t List.mem_cons_self,
      List.any_cons, List.any_nil, Bool.or_false, resume_close]
  | t :: next :: ts, done, _, back => by
    obtain ⟨first, others⟩ := List.forall_mem_cons.mp back
    have later := expect_params head rest stack (done ++ [t]) (List.cons_ne_nil next ts) others
    rw [List.map_cons, List.append_assoc, List.singleton_append] at later
    rw [List.map_cons, List.map_cons, List.intercalate_cons_cons, List.append_assoc,
      List.append_assoc, first, List.singleton_append, resume_comma, later,
      show (t :: next :: ts).any hasEmptyTuple =
        (t.hasEmptyTuple || (next :: ts).any hasEmptyTuple) from List.any_cons]
    cases t.hasEmptyTuple with
    | true => rfl
    | false => rfl

/-- A head is read with its parameters. -/
theorem isReadBack_applied {t : Ty} {w : String} {head : Head} {ts : List Ty}
    (text : t.render = applied w (ts.map render)) (word : tokens w = [.word w])
    (role : wordRole w = .head head) (built : head.build ts = .ok t) (notNil : ts ≠ [])
    (inside : t.hasEmptyTuple = ts.any hasEmptyTuple) (back : ∀ t ∈ ts, t.IsReadBack) :
    t.IsReadBack := by
  intro rest stack
  have read := expect_params head rest stack [] notNil back
  rw [List.nil_append, built] at read
  rw [text, tokens_applied, word, List.map_map, inside]
  rw [List.singleton_append, List.cons_append, List.cons_append, List.append_assoc,
    expect_head role]
  exact read

theorem length?_toString {n : Nat} (small : n < UInt64.size) : length? (toString n) = some n := by
  have digits : (toString n).toList = Nat.toDigits 10 n := Nat.toList_repr
  have allDigits : (Nat.toDigits 10 n).all Char.isDigit :=
    List.all_eq_true.mpr fun _ => Nat.isDigit_of_mem_toDigits (by decide) (by decide)
  have some : (Nat.toDigits 10 n).isEmpty = false := by
    rw [List.isEmpty_eq_false_iff]
    exact Nat.toDigits_ne_nil
  have value : (Nat.toDigits 10 n).foldl (fun n c => 10 * n + (c.toNat - '0'.toNat)) 0 = n :=
    Nat.ofDigitChars_ten_toDigits
  rw [length?, digits]
  dsimp only
  rw [allDigits, some, value, if_pos small]
  rfl

theorem tokens_toString (n : Nat) : tokens (toString n) = [.word (toString n)] := by
  have digits : (toString n).toList = Nat.toDigits 10 n := Nat.toList_repr
  refine tokens_word (fun c hc => ?_) fun empty => ?_
  · rw [digits] at hc
    exact isTypeChar_of_isDigit (Nat.isDigit_of_mem_toDigits (by decide) (by decide) hc)
  · rw [empty] at digits
    exact Nat.toDigits_ne_nil digits.symm

theorem isReadBack_array {t : Ty} {n : Nat} (back : t.IsReadBack) (small : n < UInt64.size) :
    (array t n).IsReadBack := by
  intro rest stack
  have word : tokens "Array" = [.word "Array"] := by decide
  rw [render, tokens_applied, word, List.map_cons, List.map_singleton, List.intercalate_cons_cons,
    List.intercalate_singleton, tokens_toString, List.singleton_append, List.cons_append,
    List.cons_append, expect_array rfl, List.append_assoc, List.append_assoc,
    List.append_assoc, back, hasEmptyTuple]
  split
  · rfl
  · exact resume_length (length?_toString small)

theorem isReadBack_tuple {ts : List Ty} (back : ∀ t ∈ ts, t.IsReadBack) :
    (tuple ts).IsReadBack := by
  by_cases empty : ts = []
  · intro rest stack
    have text : tokens (tuple ts).render = [.word "Tuple", .openBracket, .closeBracket] := by
      rw [empty]
      decide
    rw [text, empty]
    exact expect_head rfl
  · have text : (tuple ts).render = applied "Tuple" (ts.map render) := by
      rw [render, renderAll_eq_map]
    have inside : (tuple ts).hasEmptyTuple = ts.any hasEmptyTuple := by
      rw [hasEmptyTuple, anyEmptyTuple_eq_any, List.isEmpty_eq_false_iff.mpr empty, Bool.false_or]
    exact isReadBack_applied text (by decide) rfl rfl empty inside back

theorem isReadBack_function {ps : List Ty} {r : Ty} (backParams : ∀ p ∈ ps, p.IsReadBack)
    (backRet : r.IsReadBack) : (function ps r).IsReadBack := by
  have text : (function ps r).render = applied "Function" ((ps ++ [r]).map render) := by
    rw [render, renderAll_eq_map, List.map_append, List.map_singleton]
  have built : Head.function.build (ps ++ [r]) = .ok (function ps r) := by
    rw [Head.build, List.getLast?_concat, List.dropLast_concat]
  have inside : (function ps r).hasEmptyTuple = (ps ++ [r]).any hasEmptyTuple := by
    rw [hasEmptyTuple, anyEmptyTuple_eq_any, List.any_append, List.any_cons, List.any_nil,
      Bool.or_false]
  exact isReadBack_applied text (by decide) rfl built (List.concat_ne_nil r ps) inside
    (List.forall_mem_append.mpr ⟨backParams, List.forall_mem_singleton.mpr backRet⟩)

/-- Every type that has a text is read back from its own, or fails at an empty tuple. -/
theorem Spelled.isReadBack {t : Ty} (spelled : t.Spelled) : t.IsReadBack := by
  induction spelled with
  | @atom name role chars =>
    have notEmpty : name ≠ "" := by
      rintro rfl
      cases role
    exact isReadBack_of_word (tokens_word chars notEmpty) role rfl
  | hole => exact isReadBack_of_word (by decide) rfl rfl
  | any => exact isReadBack_of_word (by decide) rfl rfl
  | number => exact isReadBack_of_word (by decide) rfl rfl
  | placeholder p =>
    cases p <;> exact isReadBack_of_word (by decide) rfl rfl
  | @list t _ ih =>
    have text : (Ty.list t).render = applied "List" ([t].map render) := by
      rw [render, List.map_singleton]
    exact isReadBack_applied text (by decide) rfl rfl (List.cons_ne_nil _ _)
      (Bool.or_false _).symm (List.forall_mem_singleton.mpr ih)
  | @set t _ ih =>
    have text : (Ty.set t).render = applied "Set" ([t].map render) := by
      rw [render, List.map_singleton]
    exact isReadBack_applied text (by decide) rfl rfl (List.cons_ne_nil _ _)
      (Bool.or_false _).symm (List.forall_mem_singleton.mpr ih)
  | array _ small ih => exact isReadBack_array ih small
  | @dictionary k v _ _ ihKey ihValue =>
    have text : (Ty.dictionary k v).render = applied "Dictionary" ([k, v].map render) := by
      rw [render, List.map_cons, List.map_singleton]
    have inside : (Ty.dictionary k v).hasEmptyTuple = [k, v].any hasEmptyTuple := by
      rw [hasEmptyTuple, List.any_cons, List.any_cons, List.any_nil, Bool.or_false]
    exact isReadBack_applied text (by decide) rfl rfl (List.cons_ne_nil _ _) inside
      (List.forall_mem_cons.mpr ⟨ihKey, List.forall_mem_singleton.mpr ihValue⟩)
  | tuple _ ih => exact isReadBack_tuple ih
  | function _ _ ihParams ihRet => exact isReadBack_function ihParams ihRet

theorem parse_render_of_spelled {t : Ty} (spelled : t.Spelled) :
    parse t.render =
      if t.hasEmptyTuple then .error ⟨t.render, .expectedType⟩ else .ok t := by
  have read := spelled.isReadBack [] []
  rw [List.append_nil] at read
  rw [parse, read]
  split
  · rfl
  · rw [resume]
    rfl

/-! ## Top theorem -/

/-- The text of a type as it is written. -/
def normalize (text : String) : Except ParseError String := (parse text).map render

/-- A type that was read from some text is read back from its own text exactly if it has no empty
tuple at any depth; if it has one, the text is refused where a type is missing between the brackets.
So normalizing such a text again changes nothing. -/
theorem parse_render {s : String} {t : Ty} (parsed : parse s = .ok t) :
    (parse t.render = .ok t ↔ t.hasEmptyTuple = false) ∧
    (t.hasEmptyTuple → parse t.render = .error ⟨t.render, .expectedType⟩) ∧
    (t.hasEmptyTuple = false → (normalize s).bind normalize = normalize s) := by
  have back := parse_render_of_spelled (spelled_of_parse parsed)
  refine ⟨⟨fun same => ?_, fun flat => ?_⟩, fun nested => ?_, fun flat => ?_⟩
  · rw [Bool.eq_false_iff]
    intro nested
    rw [back, if_pos nested] at same
    cases same
  · rw [back, flat]
    rfl
  · rw [back, if_pos nested]
  · have again : parse t.render = .ok t := by
      rw [back, flat]
      rfl
    show ((parse s).map render).bind (fun text => (parse text).map render) = (parse s).map render
    rw [parsed]
    show (parse t.render).map render = .ok t.render
    rw [again]
    rfl

/-- A text whose blanks and number are written otherwise, and one with an empty tuple inside. -/
theorem parse_render_shelf :
    parse " Dictionary[Été ,Array[ Function[ ? ], 007 ]] " =
      .ok (dictionary (atom "Été") (array (function [] hole) 7)) ∧
    normalize " Dictionary[Été ,Array[ Function[ ? ], 007 ]] " =
      .ok "Dictionary[Été, Array[Function[?], 7]]" ∧
    parse (dictionary (atom "Été") (array (function [] hole) 7)).render =
      .ok (dictionary (atom "Été") (array (function [] hole) 7)) ∧
    (normalize " Dictionary[Été ,Array[ Function[ ? ], 007 ]] ").bind normalize =
      normalize " Dictionary[Été ,Array[ Function[ ? ], 007 ]] " ∧
    parse "List[Tuple]" = .ok (list (tuple [])) ∧
    parse (list (tuple [])).render ≠ .ok (list (tuple [])) := by
  have shelf : parse " Dictionary[Été ,Array[ Function[ ? ], 007 ]] " =
      .ok (dictionary (atom "Été") (array (function [] hole) 7)) := by
    rfl
  have nested : parse "List[Tuple]" = .ok (list (tuple [])) := by
    rfl
  obtain ⟨back, -, again⟩ := parse_render shelf
  obtain ⟨lost, -, -⟩ := parse_render nested
  refine ⟨shelf, by rfl, back.mpr rfl, again rfl, nested, fun same => ?_⟩
  cases lost.mp same

end TreeTyper.Ty
