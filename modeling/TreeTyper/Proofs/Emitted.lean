import Mathlib.Data.List.Forall2
import Mathlib.Data.List.Nodup
import TreeTyper.Api.Standard
import TreeTyper.Proofs.Origin
import TreeTyper.Tree.Build

/-!
# What is put out

The definitions of a translated module stand for the definitions of its syntax, one
for one and in order, its constants for the constants, and its main block for the
other statements.  The methods of a class are those written in it, unless a later
class of the same name takes its place.

    translate api m = .ok typed → Emitted (m.body.filter Tree.Stmt.isDefinition) typed.definitions
-/

namespace TreeTyper

namespace Tree

/-- A definition at the top level. -/
def Stmt.isDefinition (s : Stmt) : Bool :=
  match s.kind with
  | .functionDef _ => true
  | .classDef _ => true
  | _ => false

def Stmt.isImport (s : Stmt) : Bool :=
  match s.kind with
  | .importNames _ => true
  | _ => false

def Stmt.functionDef? (s : Stmt) : Option FunctionDef :=
  match s.kind with
  | .functionDef d => some d
  | _ => none

/-- The methods that are written in the body of a class. -/
def ClassDef.methods (d : ClassDef) : List FunctionDef := d.body.filterMap Stmt.functionDef?

end Tree

namespace Translate

open TreeTyper.Tree (memberNames)
open Typed

variable {s s' s'' : State} {o o' : Outline} {className : String} {body stmts : List Tree.Stmt}
  {stmt : Tree.Stmt} {tops added added' : List TopDefinition}

/-- Whether a statement of the top level belongs to the main block. -/
def isMain (stmt : Tree.Stmt) : Bool :=
  !stmt.isDefinition && !stmt.isImport && (constantName? stmt).isNone

/-! ## The outline -/

theorem OutlinesAll.main_eq (run : OutlinesAll o s stmts o' s') :
    o'.main = o.main ++ stmts.filter isMain := by
  induction run with
  | nil => exact (List.append_nil _).symm
  | @cons o s stmt o₁ s₁ rest o' s' first _ ih =>
    rw [ih, List.filter_cons]
    cases first with
    | @main kind pos notFunction notClass notImport notConstant =>
      have kept : isMain ⟨kind, pos⟩ := by
        rw [isMain, notConstant]
        cases kind with
        | functionDef d => exact absurd rfl (notFunction d)
        | classDef d => exact absurd rfl (notClass d)
        | importNames names => exact absurd rfl (notImport names)
        | _ => rfl
      rw [if_pos kept]
      exact List.append_assoc ..
    | constant _ isConstant =>
      rw [if_neg (by simp [isMain, isConstant])]
    | _ => rfl

theorem OutlinesAll.constants_eq (run : OutlinesAll o s stmts o' s') :
    o'.constants.map (·.name) = o.constants.map (·.name) ++ stmts.filterMap constantName? := by
  induction run with
  | nil => exact (List.append_nil _).symm
  | @cons o s stmt o₁ s₁ rest o' s' first _ ih =>
    rw [ih]
    cases first with
    | main _ _ _ notConstant => rw [List.filterMap_cons_none notConstant]; rfl
    | constant _ isConstant => rw [List.filterMap_cons_some isConstant]; simp
    | _ => rfl

/-! ## Tables that later statements leave -/

/-- A definition of the top level enters a key into the tables. -/
def TopDefinition.Enters : TopDefinition → DefKey → Prop
  | .function name _, key => key = .function name
  | .classDef name _ _, key => key.className? = some name
  | .exception .., _ => False

/-- What the definitions of the top level that were added do not enter is left as it was. -/
structure Adds (s s' : State) (added : List TopDefinition) : Prop where
  unresolved : ∀ {key d}, (∀ top ∈ added, ¬top.Enters key) → s.definitions.Unresolved key d →
    s'.definitions.Unresolved key d
  ownMethods : ∀ {c}, c ∉ added.filterMap TopDefinition.className? →
    s'.hierarchy.ownMethods c = s.hierarchy.ownMethods c

theorem Adds.append (first : Adds s s' added) (others : Adds s' s'' added') :
    Adds s s'' (added ++ added') where
  unresolved apart h := others.unresolved (fun top htop => apart top (List.mem_append_right _ htop))
    (first.unresolved (fun top htop => apart top (List.mem_append_left _ htop)) h)
  ownMethods {c} absent := by
    rw [List.filterMap_append, List.mem_append, not_or] at absent
    exact (others.ownMethods absent.2).trans (first.ownMethods absent.1)

theorem unresolved_insert {d : Definitions} {key key' : DefKey} {f f' : Tree.FunctionDef}
    (other : key' ≠ key) :
    Definitions.Unresolved { d with states := d.states.insert key (.unresolved f) } key' f' ↔
      d.Unresolved key' f' := by
  unfold Definitions.Unresolved
  rw [Table.find?_insert_of_ne other]

theorem Members.unresolved_iff (run : Members className s body s') {key : DefKey}
    {d : Tree.FunctionDef} (apart : key ∉ (memberNames body).map (DefKey.method className)) :
    s'.definitions.Unresolved key d ↔ s.definitions.Unresolved key d := by
  induction run with
  | nil => exact Iff.rfl
  | pass _ ih => exact ih apart
  | @method s s' f pos rest hierarchy cells cell _ _ _ _ ih =>
    have names : memberNames (⟨.functionDef f, pos⟩ :: rest) = f.name :: memberNames rest := rfl
    rw [names, List.map_cons, List.mem_cons, not_or] at apart
    exact (ih apart.2).trans (unresolved_insert apart.1)

theorem Members.unresolved (run : Members className s body s') (distinct : (memberNames body).Nodup) :
    ∀ d ∈ body.filterMap Tree.Stmt.functionDef?,
      s'.definitions.Unresolved (.method className d.name) d := by
  induction run with
  | nil => simp
  | pass _ ih => exact ih distinct
  | @method s s' f pos rest hierarchy cells cell _ _ _ others ih =>
    have names : memberNames (⟨.functionDef f, pos⟩ :: rest) = f.name :: memberNames rest := rfl
    rw [names, List.nodup_cons] at distinct
    intro d hd
    rcases List.mem_cons.mp hd with rfl | hd
    · refine (others.unresolved_iff ?_).mpr (Table.find?_insert_self ..)
      intro known
      obtain ⟨name, known, same⟩ := List.mem_map.mp known
      exact distinct.1 ((DefKey.method.inj same).2 ▸ known)
    · exact ih distinct.2 d hd

/-- A class has only methods, in forms that can be translated. -/
theorem Members.forms (run : Members className s body s') :
    ∀ st ∈ body, st.isPass ∨ ∃ d, st.functionDef? = some d ∧ IsMethod d := by
  induction run with
  | nil => simp
  | pass _ ih =>
    intro st hst
    rcases List.mem_cons.mp hst with rfl | hst
    · exact .inl rfl
    · exact ih st hst
  | @method s s' f pos rest hierarchy cells cell isMethod _ _ _ ih =>
    intro st hst
    rcases List.mem_cons.mp hst with rfl | hst
    · exact .inr ⟨f, rfl, isMethod⟩
    · exact ih st hst

theorem map_name_methods (body : List Tree.Stmt) :
    (body.filterMap Tree.Stmt.functionDef?).map (·.name) = memberNames body := by
  induction body with
  | nil => rfl
  | cons st rest ih =>
    obtain ⟨kind, pos⟩ := st
    cases kind with
    | functionDef d => exact congrArg (d.name :: ·) ih
    | _ => exact ih

/-- The tables after a class statement have its methods. -/
structure HoldsClass (s : State) (d : Tree.ClassDef) : Prop where
  ownMethods : s.hierarchy.ownMethods d.name = d.methods.map (·.name)
  distinct : (d.methods.map (·.name)).Nodup
  unresolved : ∀ f ∈ d.methods, s.definitions.Unresolved (.method d.name f.name) f

/-- How the statements of a module are entered into the tables. -/
inductive Declares (s : State) : List Tree.Stmt → List TopDefinition → Prop
  | nil : Declares s [] []
  | other {stmt rest ds} : stmt.isDefinition = false → Declares s rest ds →
      Declares s (stmt :: rest) ds
  | function {d pos rest ds} : unsupportedForm? d = none →
      ((∀ top ∈ ds, ¬top.Enters (.function d.name)) →
        s.definitions.Unresolved (.function d.name) d) →
      Declares s rest ds → Declares s (⟨.functionDef d, pos⟩ :: rest) (.function d.name pos :: ds)
  | classDef {d pos rest ds} : d.decorators = [] → (d.bases = [] ∨ d.baseName?.isSome) →
      (∀ st ∈ d.body, st.isPass ∨ ∃ f, st.functionDef? = some f ∧ IsMethod f) →
      (d.name ∉ ds.filterMap TopDefinition.className? → HoldsClass s d) →
      Declares s rest ds →
      Declares s (⟨.classDef d, pos⟩ :: rest) (.classDef d.name d.baseName? pos :: ds)
  | exception {d pos base rest ds} : d.decorators = [] → d.baseName? = some base →
      Declares s rest ds →
      Declares s (⟨.classDef d, pos⟩ :: rest)
        (.exception d.name (if base = Ty.exceptionName then none else some base) :: ds)

/-! ### One statement -/

theorem adds_function (s : State) (d : Tree.FunctionDef) (pos : Pos) :
    Adds s { s with
      definitions := (s.definitions.declareFunction s.cells d).1
      cells := (s.definitions.declareFunction s.cells d).2.1 } [.function d.name pos] where
  unresolved apart h := (unresolved_insert (apart _ List.mem_cons_self)).mpr h
  ownMethods _ := rfl

theorem adds_classDef {d : Tree.ClassDef} {hierarchy : Hierarchy}
    (declared : s.hierarchy.declareClass d.name d.baseName? = some hierarchy)
    (members : Members d.name { s with hierarchy } d.body s') (pos : Pos) :
    Adds s s' [.classDef d.name d.baseName? pos] where
  unresolved {key f} apart h := by
    refine (members.unresolved_iff fun known => ?_).mpr h
    obtain ⟨name, -, rfl⟩ := List.mem_map.mp known
    exact apart _ List.mem_cons_self rfl
  ownMethods {c} absent := by
    have other : c ≠ d.name := fun same => absent (same ▸ List.mem_cons_self)
    rw [members.ownMethods_eq, if_neg other, List.append_nil]
    exact (ownMethods_declareClass declared c).trans (if_neg other)

theorem Members.holdsClass {d : Tree.ClassDef} {hierarchy : Hierarchy}
    (declared : s.hierarchy.declareClass d.name d.baseName? = some hierarchy)
    (members : Members d.name { s with hierarchy } d.body s') : HoldsClass s' d := by
  have fresh : hierarchy.ownMethods d.name = [] :=
    (ownMethods_declareClass declared d.name).trans (if_pos rfl)
  have ownMethods : s'.hierarchy.ownMethods d.name = memberNames d.body := by
    rw [members.ownMethods_eq, if_pos rfl]
    dsimp only
    rw [fresh, List.nil_append]
  have distinct : (memberNames d.body).Nodup := by
    rw [← ownMethods]
    refine members.nodup ?_
    dsimp only
    rw [fresh]
    exact List.nodup_nil
  have names : d.methods.map (·.name) = memberNames d.body := map_name_methods d.body
  exact ⟨ownMethods.trans names.symm, names ▸ distinct, members.unresolved distinct⟩

theorem HoldsClass.adds {d : Tree.ClassDef} (holds : HoldsClass s d) (adds : Adds s s' added)
    (last : d.name ∉ added.filterMap TopDefinition.className?) : HoldsClass s' d where
  ownMethods := (adds.ownMethods last).trans holds.ownMethods
  distinct := holds.distinct
  unresolved f hf := by
    refine adds.unresolved (fun top htop enters => last ?_) (holds.unresolved f hf)
    refine List.mem_filterMap.mpr ⟨top, htop, ?_⟩
    cases top with
    | function name pos => cases enters
    | classDef name base pos => exact enters.symm
    | exception name base => exact enters.elim

/-! ### All statements -/

theorem OutlinesAll.declares (run : OutlinesAll o s stmts o' s') :
    ∃ added, o'.definitions = o.definitions ++ added ∧ Adds s s' added ∧
      Declares s' stmts added := by
  induction run with
  | nil => exact ⟨[], (List.append_nil _).symm, ⟨fun _ h => h, fun _ => rfl⟩, .nil⟩
  | @cons o s stmt o₁ s₁ rest o' s' first _ ih =>
    obtain ⟨added, definitions, adds, declares⟩ := ih
    have prepend : ∀ top, o₁ = o.addDefinition top →
        o'.definitions = o.definitions ++ top :: added := by
      rintro top rfl
      rw [definitions, Outline.addDefinition, List.append_assoc]
      rfl
    cases first with
    | imports => exact ⟨added, definitions, adds, .other rfl declares⟩
    | constant => exact ⟨added, definitions, ⟨adds.unresolved, adds.ownMethods⟩, .other rfl declares⟩
    | @main kind pos notFunction notClass _ _ =>
      refine ⟨added, definitions, adds, .other ?_ declares⟩
      cases kind with
      | functionDef d => exact absurd rfl (notFunction d)
      | classDef d => exact absurd rfl (notClass d)
      | _ => rfl
    | @function d pos supported =>
      refine ⟨_, prepend _ rfl, (adds_function s d pos).append adds, .function supported ?_ declares⟩
      -- the entry made here stays as long as no later definition has its key
      exact fun last => adds.unresolved last (Table.find?_insert_self ..)
    | @classDef _ d pos hierarchy undecorated based _ declared members =>
      refine ⟨_, prepend _ rfl, (adds_classDef declared members pos).append adds,
        .classDef undecorated based members.forms ?_ declares⟩
      exact (members.holdsClass declared).adds adds
    | @exception d pos base undecorated based =>
      have step : Adds s { s with hierarchy := s.hierarchy.declareException d.name base }
          [.exception d.name (if base = Ty.exceptionName then none else some base)] :=
        ⟨fun _ h => h, fun _ => rfl⟩
      exact ⟨_, prepend _ rfl, step.append adds, .exception undecorated based declares⟩

/-! ## Emission -/

/-- A class is put out with the methods that are written in it, in their order; the one that makes
new instances is its constructor. -/
structure ClassEmitted (d : Tree.ClassDef) (c : ClassDefinition) : Prop where
  methods : List.Forall₂ (fun f r => Renders (.method d.name f.name) f r)
    (d.methods.filter (·.name ≠ Hierarchy.constructorName)) c.methods
  constructor : List.Forall₂ (fun f r => Renders (.method d.name f.name) f r)
    (d.methods.filter (·.name = Hierarchy.constructorName)) c.constructor.toList

/-- The definitions that are put out for some definitions of the syntax, one for each.  What is
written in a class is put out unless a later class has its name. -/
inductive Emitted : List Tree.Stmt → List Definition → Prop
  | nil : Emitted [] []
  | function {d pos r rest ds} : unsupportedForm? d = none → Renders (.function d.name) d r →
      Emitted rest ds → Emitted (⟨.functionDef d, pos⟩ :: rest) (.routine r :: ds)
  | classDef {d pos c rest ds} : d.decorators = [] → (d.bases = [] ∨ d.baseName?.isSome) →
      (∀ st ∈ d.body, st.isPass ∨ ∃ f, st.functionDef? = some f ∧ IsMethod f) →
      c.name = d.name → c.base = d.baseName? →
      ((∀ c', .classDef c' ∈ ds → c'.name ≠ d.name) → ClassEmitted d c) →
      Emitted rest ds → Emitted (⟨.classDef d, pos⟩ :: rest) (.classDef c :: ds)
  | exception {d pos base rest ds} : d.decorators = [] → d.baseName? = some base →
      Emitted rest ds →
      Emitted (⟨.classDef d, pos⟩ :: rest)
        (.exception d.name (if base = Ty.exceptionName then none else some base) :: ds)

theorem Renders.isConstructorRoutine_eq {c f : String} {d : Tree.FunctionDef} {r : Routine}
    (renders : Renders (.method c f) d r) :
    isConstructorRoutine r = decide (f = Hierarchy.constructorName) := by
  rw [isConstructorRoutine, renders.form, routineForm]
  by_cases same : f = Hierarchy.constructorName
  · simp [DefKey.isConstructor, same]
  · simp [DefKey.isConstructor, same]

theorem toList_getLast? {α : Type} {l : List α} (atMostOne : l.length ≤ 1) :
    l.getLast?.toList = l := by
  match l, atMostOne with
  | [], _ => rfl
  | [a], _ => rfl

theorem classEmitted_classOf {h : Hierarchy} {d : Tree.ClassDef} {base : Option String}
    {rs : List Routine} (distinct : (d.methods.map (·.name)).Nodup)
    (renders : List.Forall₂ (fun f r => Renders (.method d.name f.name) f r) d.methods rs) :
    ClassEmitted d (classOf h d.name base rs) := by
  have constructors := List.rel_filter (p := (·.name = Hierarchy.constructorName))
    (q := isConstructorRoutine)
    (fun f r renders => by simp [renders.isConstructorRoutine_eq]) renders
  have methods := List.rel_filter (p := (·.name ≠ Hierarchy.constructorName))
    (q := (!isConstructorRoutine ·))
    (fun f r renders => by simp [renders.isConstructorRoutine_eq]) renders
  have once := List.nodup_iff_count_le_one.mp distinct Hierarchy.constructorName
  rw [List.count, List.countP_map, List.countP_eq_length_filter] at once
  have same : ((· == Hierarchy.constructorName) ∘ fun f : Tree.FunctionDef => f.name) =
      fun f => decide (f.name = Hierarchy.constructorName) := by
    funext f
    rfl
  rw [same, constructors.length_eq] at once
  refine ⟨methods, ?_⟩
  rw [classOf, toList_getLast? once]
  exact constructors

theorem classDef_of_putOut {found : List Definition} (putOut : List.Forall₂ (PutOut s) tops found)
    {c : String} (known : c ∈ tops.filterMap TopDefinition.className?) :
    ∃ c', .classDef c' ∈ found ∧ c'.name = c := by
  obtain ⟨top, listed, named⟩ := List.mem_filterMap.mp known
  obtain ⟨d, emitted, isPutOut⟩ := mem_putOut putOut listed
  cases isPutOut with
  | classDef _ => exact ⟨_, emitted, Option.some.inj named⟩
  | _ => cases named

theorem Declares.emitted {start : State} {found : List Definition}
    (declares : Declares start stmts tops) (stems : Stems start s) (shape : start.SameShape s)
    (putOut : List.Forall₂ (PutOut s) tops found)
    (distinct : ((tops.flatMap (·.keys s.hierarchy)).map (·.1)).Nodup) :
    Emitted (stmts.filter Tree.Stmt.isDefinition) found := by
  -- what was entered last under a key is what its routine was made from
  have renders : ∀ {key d r}, start.definitions.Unresolved key d → s.definitions.Finished key r →
      Renders key d r := by
    intro key d r unresolved finished
    obtain ⟨d', unresolved', renders⟩ := stems.finished finished
    obtain ⟨⟩ := Option.some.inj (unresolved.symm.trans unresolved')
    exact renders
  induction declares generalizing found with
  | nil =>
    cases putOut
    exact .nil
  | other notDefinition _ ih =>
    rw [List.filter_cons_of_neg (by simp [notDefinition])]
    exact ih putOut distinct
  | @function d pos rest ds supported last _ ih =>
    rw [List.flatMap_cons, List.map_append, List.nodup_append] at distinct
    obtain ⟨-, distinct, apart⟩ := distinct
    cases putOut with
    | cons head tail =>
    cases head with
    | function finished =>
    refine .function supported (renders (last fun top htop enters => ?_) finished) (ih tail distinct)
    have later : DefKey.function d.name ∈ (ds.flatMap (·.keys s.hierarchy)).map (·.1) := by
      cases top with
      | function name pos' =>
        refine List.mem_map.mpr ⟨(.function name, pos'), ?_, enters.symm⟩
        exact List.mem_flatMap.mpr ⟨_, htop, List.mem_cons_self⟩
      | classDef name base pos' => cases enters
      | exception name base => exact enters.elim
    exact apart _ List.mem_cons_self _ later rfl
  | @classDef d pos rest ds undecorated based forms holds _ ih =>
    rw [List.flatMap_cons, List.map_append, List.nodup_append] at distinct
    cases putOut with
    | cons head tail =>
    cases head with
    | @classDef _ _ _ rs finished =>
    refine .classDef undecorated based forms rfl rfl (fun last => ?_) (ih tail distinct.2.1)
    have absent : d.name ∉ ds.filterMap TopDefinition.className? := by
      intro known
      obtain ⟨c, listed, named⟩ := classDef_of_putOut tail known
      exact last c listed named
    obtain ⟨ownMethods, distinctNames, unresolved⟩ := holds absent
    rw [shape.hierarchy.ownMethods_eq, ownMethods, List.forall₂_map_left_iff] at finished
    refine classEmitted_classOf distinctNames ?_
    have both := (List.forall₂_and_left _ _).mpr ⟨unresolved, finished⟩
    exact both.imp fun f r ⟨unresolved, finished⟩ => renders unresolved finished
  | exception undecorated based _ ih =>
    cases putOut with
    | cons head tail =>
    cases head
    exact .exception undecorated based (ih tail distinct)

/-- A statement of a block stands for one of the syntax. -/
def StandsFor (st : Tree.Stmt) (node : Stmt) : Prop := st.skeleton = [node.skeleton]

theorem mainBlock_statements (api : ApiTables) (m : Tree.Module) :
    Gives (mainBlock api m) fun found =>
      List.Forall₂ StandsFor (found.1.main.filter (!·.isPass)) found.2 := by
  unfold mainBlock
  refine .skip fun o => .skip fun s => .skip fun _ => ?_
  exact (block_statements _ o.main _).bind fun main same => .pure same

end Translate

/-! ## Top theorem -/

open Translate in
/-- A module that is translated has a definition, a constant or a statement of its main block for
everything that is written at its top level, in order, but for imports and `pass`. -/
theorem everything_emitted (api : ApiTables) (m : Tree.Module) (typed : Typed.Module)
    (translated : translate api m = .ok typed) :
    Emitted (m.body.filter Tree.Stmt.isDefinition) typed.definitions ∧
      typed.constants.map (·.name) = m.body.filterMap constantName? ∧
      List.Forall₂ StandsFor ((m.body.filter isMain).filter (!·.isPass)) typed.main := by
  obtain ⟨s', run⟩ := run_of_translate translated
  have main := (mainBlock_stems api m).and (mainBlock_statements api m .empty)
  obtain ⟨o, s, ⟨⟨start, outlined, stems, shape⟩, statements⟩, constants, taken, putOut⟩ :=
    (typedModule_puts_out main fun _ _ _ _ _ _ => ⟨trivial, trivial⟩).of_ok run
  have outlines := (outline_runs m).of_ok outlined
  obtain ⟨added, definitions, -, declares⟩ := outlines.declares
  obtain rfl : added = o.definitions := definitions.symm
  refine ⟨declares.emitted stems shape putOut (taken.once stems.ordered).2.1, ?_, ?_⟩
  · rw [constants]
    exact outlines.constants_eq
  · have main : o.main = m.body.filter isMain := outlines.main_eq
    rwa [main] at statements

open Tree.Build in
/-- A constant, functions, a class with a constructor, an exception and a main block, mixed. -/
def mixture : Tree.Module :=
  ⟨[assign (name "LIMIT") (int 3),
    define "clamp" ["n"]
      [ifElse (compare (name "n") [(.gt, name "LIMIT")]) [ret (some (name "LIMIT"))] [pass],
        ret (some (name "n"))],
    classDef "Counter" none
      [define "get" ["self"] [ret (some (attr (name "self") "count"))],
        pass,
        define "__init__" ["self", "n"] [assign (attr (name "self") "count") (name "n")]],
    pass,
    classDef "Empty" (some "Exception") [pass],
    assign (name "c") (call (name "Counter") [call (name "clamp") [int 5]]),
    forLoop (tuple [name "i", name "x"]) (call (name "enumerate") [list [int 1]])
      [tryExcept [exprStmt (method (name "c") "get" [])]
        [handler (some "Empty") (some "e") [raise (call (name "Empty") [string "none"])]]]]⟩

theorem everything_emitted_mixture : ∃ typed, translate ApiTables.standard mixture = .ok typed ∧
    Translate.Emitted (mixture.body.filter Tree.Stmt.isDefinition) typed.definitions ∧
      typed.constants.map (·.name) = mixture.body.filterMap Translate.constantName? ∧
      List.Forall₂ Translate.StandsFor
        ((mixture.body.filter Translate.isMain).filter (!·.isPass)) typed.main := by
  have isOk : (translate ApiTables.standard mixture).isOk = true := by
    decide +kernel
  obtain ⟨typed, translated⟩ := exists_of_isOk isOk
  exact ⟨typed, translated, everything_emitted _ mixture typed translated⟩

open Tree.Build in
/-- A class with a method, before another one of the same name. -/
def redeclared : Tree.Module :=
  ⟨[classDef "A" none [define "f" ["self", "x"] [ret (some (name "x"))]], classDef "A" none [pass]]⟩

/-- The methods of a class whose name is declared again are dropped. -/
theorem redeclared_drops_methods : ∃ typed, translate ApiTables.standard redeclared = .ok typed ∧
    (∃ d pos, ⟨.classDef d, pos⟩ ∈ redeclared.body ∧ d.methods ≠ []) ∧ typed.routines = [] := by
  have checked : (translate ApiTables.standard redeclared).toOption.any
      (fun typed => typed.routines.isEmpty) = true := by
    decide +kernel
  obtain ⟨typed, translated, dropped⟩ := exists_of_any checked
  refine ⟨typed, translated, ⟨_, _, List.mem_cons_self, ?_⟩, List.isEmpty_iff.mp dropped⟩
  simp [Tree.ClassDef.methods, Tree.Stmt.functionDef?, Tree.Build.define, Tree.Build.stmt]

open Tree.Build in
/-- A custom exception with a method. -/
def exceptionWithMethod : Tree.Module :=
  ⟨[classDef "E" (some "Exception") [define "f" ["self", "x"] [ret (some (name "x"))]]]⟩

/-- What is written in the body of a custom exception is dropped. -/
theorem exception_drops_methods :
    ∃ typed, translate ApiTables.standard exceptionWithMethod = .ok typed ∧
      (∃ d pos, ⟨.classDef d, pos⟩ ∈ exceptionWithMethod.body ∧ d.methods ≠ []) ∧
      typed.routines = [] := by
  have checked : (translate ApiTables.standard exceptionWithMethod).toOption.any
      (fun typed => typed.routines.isEmpty) = true := by
    decide +kernel
  obtain ⟨typed, translated, dropped⟩ := exists_of_any checked
  refine ⟨typed, translated, ⟨_, _, List.mem_cons_self, ?_⟩, List.isEmpty_iff.mp dropped⟩
  simp [Tree.ClassDef.methods, Tree.Stmt.functionDef?, Tree.Build.define, Tree.Build.stmt]

end TreeTyper
