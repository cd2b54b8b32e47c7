import TreeTyper.Proofs.Joins
import TreeTyper.Proofs.Law.Frame
import TreeTyper.Proofs.Law.Infer
import TreeTyper.Tree.Build

/-!
# The order of the entries of a dictionary

The types of the keys and of the values of a dictionary literal are the joins of the
types of its entries, one after the other.  No entry changes what joins depend on, so
a literal has the type of every other one whose entries have the same types in some
order, and is refused where that one is.

    dictType? = (joinAll h keys).bind fun k => (joinAll h values).map (.dictionary k)
                                                                        (dictType?_eq)
-/

namespace TreeTyper

variable {h : Hierarchy}

namespace Translate

open Typed

/-- The keys and values of a dictionary literal, translated one after the other. -/
def entryNodes (ctx : Context) : List (Deferred × Deferred) → Run (List Pair)
  | [] => return []
  | (k, v) :: rest => do
    let key ← k.run ctx
    let value ← v.run ctx
    let pairs ← entryNodes ctx rest
    return ⟨key, value⟩ :: pairs

/-- The types of keys and values, entry by entry. -/
def entryTypes (pairs : List Pair) : List (Ty × Ty) := pairs.map fun p => (p.key.type, p.value.type)

def keyTypes (pairs : List Pair) : List Ty := pairs.map (·.key.type)

def valueTypes (pairs : List Pair) : List Ty := pairs.map (·.value.type)

theorem map_fst_entryTypes (pairs : List Pair) : (entryTypes pairs).map Prod.fst = keyTypes pairs :=
  List.map_map

theorem map_snd_entryTypes (pairs : List Pair) :
    (entryTypes pairs).map Prod.snd = valueTypes pairs :=
  List.map_map

/-- A run that keeps the shape of the hierarchy. -/
def Deferred.KeepsShape (d : Deferred) : Prop :=
  ∀ ctx s, Runs (d.run ctx) s (fun _ s' => s.hierarchy.SameShape s'.hierarchy) fun _ _ => True

/-- The law that asks for nothing but the shape of the tables, which no run changes. -/
def shapeFrame (setting : Setting) : FrameLaw setting where

theorem exprs_keepShape (setting : Setting) (n : Nat) (es : List Tree.Expr) :
    ∀ d ∈ exprs ⟨setting, inferAt setting n⟩ es, d.KeepsShape := by
  intro d hd ctx s
  have evaluates := Law.exprs_evaluates (L := (shapeFrame setting).law)
    (Law.inferAt_infers n) es False.elim d hd
  exact Runs.imp (evaluates ctx s ⟨trivial, trivial⟩) (fun _ _ ⟨_, move, _⟩ => move.shape.hierarchy)
    fun _ _ _ => trivial

variable {ctx : Context} {s s' : State} {pairs : List Pair}

theorem toOption_map {α β : Type} {act : Run α} {f : α → β} :
    ((f <$> act).run s).1.toOption = (act.run s).1.toOption.map f := by
  rw [← bind_pure_comp]
  rcases ends : act.run s with ⟨result, s'⟩
  cases result with
  | ok a =>
    rw [Runs.run_bind_ok ends]
    rfl
  | error stop =>
    rw [Runs.run_bind_error ends]
    rfl

theorem toOption_located {α : Type} {act : Run α} {pos : Pos} :
    ((located pos act).run s).1.toOption = (act.run s).1.toOption := by
  rw [located, ExceptT.run_mk]
  rcases act.run s with ⟨_ | _, _⟩ <;> rfl

theorem run_get_bind {α : Type} {f : State → Run α} :
    ((MonadState.get >>= f : Run α)).run s = (f s).run s := rfl

/-- What is found of the pairs of a dictionary, if all its entries can be translated. -/
theorem pairNodes_toOption {ds : List (Deferred × Deferred)} {key value : Ty} (ends : h.ClassesEnd)
    (keeps : ∀ d ∈ ds, d.1.KeepsShape ∧ d.2.KeepsShape) (shape : h.SameShape s.hierarchy)
    (run : (entryNodes ctx ds).run s = (.ok pairs, s')) :
    ((pairNodes ctx key value ds).run s).1.toOption =
      ((keyTypes pairs).foldlM (unify h) key).bind fun k =>
        ((valueTypes pairs).foldlM (unify h) value).map fun v => (pairs, k, v) := by
  induction ds generalizing s key value pairs with
  | nil =>
    cases run
    rfl
  | cons d ds ih =>
    obtain ⟨kd, vd⟩ := d
    obtain ⟨keepsKey, keepsValue⟩ := keeps (kd, vd) List.mem_cons_self
    obtain ⟨keyNode, s₁, first, run⟩ := Runs.of_bind_ok run
    obtain ⟨valueNode, s₂, second, run⟩ := Runs.of_bind_ok run
    obtain ⟨rest, s₃, others, run⟩ := Runs.of_bind_ok run
    cases run
    have shape₂ := (shape.trans ((keepsKey ctx s).of_ok first)).trans
      ((keepsValue ctx s₁).of_ok second)
    have later : ∀ {key value : Ty}, ((pairNodes ctx key value ds).run s₂).1.toOption = _ :=
      ih (fun d hd => keeps d (List.mem_cons_of_mem _ hd)) shape₂ others
    have keys : keyTypes (⟨keyNode, valueNode⟩ :: rest) = keyNode.type :: keyTypes rest := rfl
    have values : valueTypes (⟨keyNode, valueNode⟩ :: rest) = valueNode.type :: valueTypes rest :=
      rfl
    rw [pairNodes, Runs.run_bind_ok first, Runs.run_bind_ok second, keys, values,
      List.foldlM_cons, List.foldlM_cons, ← shape₂.unify_eq, ← shape₂.unify_eq]
    have ends₂ := ends.sameShape shape₂
    rw [run_get_bind, Runs.walk_bind_of_ends (ends₂.unifyEnds ..)]
    cases joinsKey : unify s₂.hierarchy key keyNode.type with
    | none => rfl
    | some key' =>
      dsimp only
      rw [Runs.walk_bind_of_ends (ends₂.unifyEnds ..)]
      cases joinsValue : unify s₂.hierarchy value valueNode.type with
      | none =>
        change none = ((keyTypes rest).foldlM (unify h) key').bind fun _ => none
        cases (keyTypes rest).foldlM (unify h) key' <;> rfl
      | some value' =>
        -- the rest of the literal, with the pair that is before it
        change (((fun found : List Pair × Ty × Ty => (⟨keyNode, valueNode⟩ :: found.1, found.2)) <$>
          pairNodes ctx key' value' ds : Run _).run s₂).1.toOption =
          ((keyTypes rest).foldlM (unify h) key').bind fun k =>
            ((valueTypes rest).foldlM (unify h) value').map fun v =>
              (⟨keyNode, valueNode⟩ :: rest, k, v)
        rw [toOption_map, later]
        cases (keyTypes rest).foldlM (unify h) key' <;>
          cases (valueTypes rest).foldlM (unify h) value' <;> rfl

/-- The type of a dictionary literal, if it is translated. -/
def dictType? (t : Translator) (pos : Pos) (keys values : List Tree.Expr) (ctx : Context)
    (s : State) : Option Ty :=
  ((expr t ⟨.dict keys values, pos⟩ ctx).run s).1.toOption.map (·.type)

/-- All entries of a dictionary literal can be translated, to some pairs. -/
def EntriesGive (t : Translator) (keys values : List Tree.Expr) (ctx : Context) (s : State)
    (pairs : List Pair) : Prop :=
  ∃ s', (entryNodes ctx ((exprs t keys).zip (exprs t values))).run s = (.ok pairs, s')

/-- The keys and values of a literal are joined apart from each other. -/
theorem dictType?_eq {setting : Setting} {n : Nat} {pos : Pos} {keys values : List Tree.Expr}
    (ends : h.ClassesEnd) (shape : h.SameShape s.hierarchy)
    (gives : EntriesGive ⟨setting, inferAt setting n⟩ keys values ctx s pairs) :
    dictType? ⟨setting, inferAt setting n⟩ pos keys values ctx s =
      (joinAll h (keyTypes pairs)).bind fun k =>
        (joinAll h (valueTypes pairs)).map fun v => .dictionary k v := by
  obtain ⟨s', run⟩ := gives
  have keeps : ∀ d ∈ (exprs ⟨setting, inferAt setting n⟩ keys).zip
      (exprs ⟨setting, inferAt setting n⟩ values), d.1.KeepsShape ∧ d.2.KeepsShape := fun d hd =>
    ⟨exprs_keepShape setting n keys d.1 (List.of_mem_zip hd).1,
      exprs_keepShape setting n values d.2 (List.of_mem_zip hd).2⟩
  have found : ((pairNodes ctx .hole .hole _).run s).1.toOption = _ :=
    pairNodes_toOption ends keeps shape run
  rw [dictType?, expr, toOption_located, exprKind]
  change (((fun found : List Pair × Ty × Ty =>
    (⟨.dictionary found.1, .dictionary found.2.1 found.2.2⟩ : Expr)) <$>
      pairNodes ctx .hole .hole _ : Run _).run s).1.toOption.map (·.type) = _
  rw [toOption_map, found, joinAll, joinAll]
  cases (keyTypes pairs).foldlM (unify h) .hole <;>
    cases (valueTypes pairs).foldlM (unify h) .hole <;> rfl

end Translate

/-! ## Top theorem -/

open Ty Translate in
/-- Where classes are declared once and none has the name of a number, `unify` gives the least type
that both types widen to, in both orders; without functions it fails only if there is none.  Hence
the order does not matter in which types without functions are joined, those of the entries of a
dictionary literal among them. -/
theorem unify_is_join {h : Hierarchy} (once : h.DeclaredOnce) (noInt : ¬h.isClass intName)
    (noFloat : ¬h.isClass floatName) :
    (∀ a b c, a.describesValue → b.describesValue → unify h a b = some c →
      a.Widens h c ∧ b.Widens h c ∧ ∀ d, a.Widens h d → b.Widens h d → c.Widens h d) ∧
    (∀ a b, a.describesValue → b.describesValue → unify h a b = unify h b a) ∧
    (∀ a b, a.isFunctionFree → b.isFunctionFree → unify h a b = none →
      ¬∃ d, a.Widens h d ∧ b.Widens h d) ∧
    (∀ ts ts' : List Ty, (∀ t ∈ ts, t.describesValue ∧ t.isFunctionFree) → ts.Perm ts' →
      joinAll h ts = joinAll h ts') ∧
    ∀ setting n pos pos' keys values keys' values' ctx ctx' s s' pairs pairs',
      h.SameShape s.hierarchy → h.SameShape s'.hierarchy →
      EntriesGive ⟨setting, inferAt setting n⟩ keys values ctx s pairs →
      EntriesGive ⟨setting, inferAt setting n⟩ keys' values' ctx' s' pairs' →
      (∀ t ∈ keyTypes pairs ++ valueTypes pairs, t.describesValue ∧ t.isFunctionFree) →
      (entryTypes pairs).Perm (entryTypes pairs') →
      dictType? ⟨setting, inferAt setting n⟩ pos keys values ctx s =
        dictType? ⟨setting, inferAt setting n⟩ pos' keys' values' ctx' s' := by
  have apart := once.numbersApart noInt noFloat
  have reorder : ∀ {ts ts' : List Ty}, (∀ t ∈ ts, t.describesValue ∧ t.isFunctionFree) →
      ts.Perm ts' → joinAll h ts = joinAll h ts' := fun values reordered =>
    joinAll_perm apart once.acyclic (fun t ht => isPlain_of_describesValue (values t ht).1)
      (fun t ht => (values t ht).2) reordered
  refine ⟨fun a b c valueA valueB found => ?_, fun a b valueA valueB => ?_,
    fun a b free _ none => ?_, fun ts ts' => reorder, ?_⟩
  · obtain ⟨left, right, least⟩ := isJoin_unify apart (isPlain_of_describesValue valueA)
      (isPlain_of_describesValue valueB) found
    exact ⟨left, right, least⟩
  · exact unify_comm apart once.acyclic (isPlain_of_describesValue valueA)
      (isPlain_of_describesValue valueB)
  · rintro ⟨d, ad, bd⟩
    obtain ⟨c, found⟩ := exists_unify apart ad bd free
    rw [none] at found
    cases found
  · intro setting n pos pos' keys values keys' values' ctx ctx' s s' pairs pairs' shape shape' gives
      gives' fine reordered
    -- reordered entries have reordered keys and reordered values
    rw [List.forall_mem_append] at fine
    have keysMoved := reordered.map Prod.fst
    have valuesMoved := reordered.map Prod.snd
    rw [map_fst_entryTypes, map_fst_entryTypes] at keysMoved
    rw [map_snd_entryTypes, map_snd_entryTypes] at valuesMoved
    have ends := once.acyclic.classesEnd
    rw [dictType?_eq ends shape gives, dictType?_eq ends shape' gives', reorder fine.1 keysMoved,
      reorder fine.2 valuesMoved]

/-- No name is bound and nothing is defined but the shapes. -/
def gallery : Translate.State := { Translate.State.empty with hierarchy := shapes }

namespace Translate

/-- The setting of a module without imports and constants, with the standard tables. -/
def bare : Translator :=
  let setting : Setting := ⟨ApiTables.standard, [], []⟩
  ⟨setting, inferAt setting 0⟩

/-- The types of the entries of a literal in the gallery. -/
def galleryEntries (keys values : List Tree.Expr) : Option (List (Ty × Ty)) :=
  ((entryNodes .ofModule ((exprs bare keys).zip (exprs bare values))).run gallery).1.toOption.map
    entryTypes

theorem exists_entries {keys values : List Tree.Expr} {ts : List (Ty × Ty)}
    (found : galleryEntries keys values = some ts) :
    ∃ pairs, EntriesGive bare keys values .ofModule gallery pairs ∧ entryTypes pairs = ts := by
  unfold galleryEntries at found
  rcases ends : (entryNodes .ofModule ((exprs bare keys).zip (exprs bare values))).run gallery with
    ⟨result, s'⟩
  rw [ends] at found
  cases result with
  | ok pairs => exact ⟨pairs, ⟨s', ends⟩, Option.some.inj found⟩
  | error stop => cases found

end Translate

open Tree.Build in
/-- `1` and `2.5`. -/
def numerals : List Tree.Expr := [int 1, float 0x4004000000000000]

open Tree.Build in
/-- `Square()` and `Circle()`. -/
def instances : List Tree.Expr := [call (name "Square") [], call (name "Circle") []]

open Ty Translate in
set_option maxRecDepth 100000 in
/-- `{1: Square(), 2.5: Circle()}` has the type of `{2.5: Circle(), 1: Square()}`. -/
theorem unify_is_join_shapes :
    shapes.DeclaredOnce ∧ ¬shapes.isClass intName ∧ ¬shapes.isClass floatName ∧
    (list (atom "Square")).Widens shapes (list (atom "Shape")) ∧
    unify shapes (atom "Circle") (atom "Square") = unify shapes (atom "Square") (atom "Circle") ∧
    (¬∃ d, (set int).Widens shapes d ∧ (set (atom "Shape")).Widens shapes d) ∧
    joinAll shapes [int, hole, float] = joinAll shapes [hole, float, int] ∧
    dictType? bare ⟨1, 0⟩ numerals instances .ofModule gallery =
      some (dictionary float (atom "Shape")) ∧
    dictType? bare ⟨1, 0⟩ numerals.reverse instances.reverse .ofModule gallery =
      dictType? bare ⟨1, 0⟩ numerals instances .ofModule gallery := by
  have noInt : ¬shapes.isClass intName := by
    decide
  have noFloat : ¬shapes.isClass floatName := by
    decide
  obtain ⟨least, comm, complete, folds, literals⟩ :=
    unify_is_join shapes_declaredOnce noInt noFloat
  have meets : unify shapes (list (atom "Square")) (list (atom "Circle")) =
      some (list (atom "Shape")) := by
    decide +kernel
  have apart : unify shapes (set int) (set (atom "Shape")) = none := by
    decide +kernel
  have forth : galleryEntries numerals instances =
      some [(int, atom "Square"), (float, atom "Circle")] := by
    decide +kernel
  have back : galleryEntries numerals.reverse instances.reverse =
      some [(float, atom "Circle"), (int, atom "Square")] := by
    decide +kernel
  have typed : dictType? bare ⟨1, 0⟩ numerals instances .ofModule gallery =
      some (dictionary float (atom "Shape")) := by
    decide +kernel
  obtain ⟨pairs, gives, types⟩ := exists_entries forth
  obtain ⟨pairs', gives', types'⟩ := exists_entries back
  have keys : keyTypes pairs' = [float, int] := by
    rw [← map_fst_entryTypes, types']
    rfl
  have values : valueTypes pairs' = [atom "Circle", atom "Square"] := by
    rw [← map_snd_entryTypes, types']
    rfl
  refine ⟨shapes_declaredOnce, noInt, noFloat, (least _ _ _ rfl rfl meets).1, comm _ _ rfl rfl,
    complete _ _ rfl rfl apart, folds _ _ (by decide) (by decide), typed, ?_⟩
  refine literals _ 0 _ _ _ _ _ _ _ _ _ _ _ _ (.refl _) (.refl _) gives' gives ?_ ?_
  · rw [keys, values]
    decide
  · rw [types, types']
    exact .swap ..

end TreeTyper
