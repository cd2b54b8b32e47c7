import TreeTyper.Proofs.LoopHeads
import TreeTyper.Proofs.Skeleton

/-!
# The variables of loops

The scope of a loop binds the variables of its head, each of which is new, and is
closed after the loop.  What the body assigns goes to the scope of the body around the
loop, except where the name is that of a variable of the loop: that one is local
already.  So no variable of the loop is visible after it.

    in the scope of the loop a name has the type of the last variable of that name
                                                          (lookup_opened, lastType?)

Nothing compares the variables of one head with each other.  If two of them have one
name, the first one does not have the type of its own node, unless the types agree.
-/

namespace TreeTyper

namespace Translate

open Typed

/-! ## What a loop hides -/

/-- A run leaves the scopes open and keeps what they bind; it binds none of some names in a scope
that is older than a mark. -/
structure Hides (mark : ScopeId) (names : List String) (s s' : State) : Prop where
  links : s'.scopes.links = s.scopes.links
  kept : ∀ {id x}, s.Binds id x → s'.Binds id x
  old : ∀ {id x}, id < mark → x ∈ names → s'.Binds id x → s.Binds id x

variable {mark : ScopeId} {names : List String} {s s' s'' : State} {σ : Site}

namespace Hides

theorem same (scopes : s'.scopes = s.scopes) : Hides mark names s s' where
  links := by rw [scopes]
  kept binds := by rwa [State.Binds, scopes]
  old _ _ binds := by rwa [State.Binds, scopes] at binds

theorem refl (s : State) : Hides mark names s s := same rfl

theorem trans (a : Hides mark names s s') (b : Hides mark names s' s'') :
    Hides mark names s s'' where
  links := b.links.trans a.links
  kept binds := b.kept (a.kept binds)
  old below listed binds := a.old below listed (b.old below listed binds)

/-- A name may be bound in a scope that is not older, one that is not listed anywhere, and each one
where it is bound already. -/
theorem bound {id : ScopeId} {x : String} (ty : Ty)
    (allowed : mark ≤ id ∨ x ∉ names ∨ s.Binds id x) : Hides mark names s (s.bound id x ty) where
  links := Scopes.links_define ..
  kept binds := binds.bound id x ty
  old below listed binds := by
    rcases State.binds_bound binds with known | ⟨rfl, rfl⟩
    · exact known
    · rcases allowed with newer | unlisted | known
      · exact absurd below (Nat.not_lt.mpr newer)
      · exact absurd listed unlisted
      · exact known

theorem closed {parent : ScopeId} {bindings : List (String × Ty)}
    (inside : Hides mark names (s.opened parent bindings) s') :
    Hides mark names s (s'.closed s.scopes.size) := by
  have size : s'.scopes.size = s.scopes.size + 1 := Scopes.size_eq_of_links inside.links
  have le : s.scopes.size ≤ s'.scopes.size := size ▸ Nat.le_succ _
  refine ⟨Scopes.links_discard_child inside.links, fun {id x} binds => ?_,
    fun {id x} below listed binds => ?_⟩
  · have alive := binds.lt_size
    exact (State.binds_closed le).mpr ⟨alive, inside.kept ((State.binds_opened alive).mpr binds)⟩
  · obtain ⟨alive, binds⟩ := (State.binds_closed le).mp binds
    exact (State.binds_opened alive).mp (inside.old below listed binds)

theorem marked (hides : Hides mark names s s') (marked : mark < s.scopes.size) :
    mark < s'.scopes.size := by
  rw [Scopes.size_eq_of_links hides.links]
  exact marked

/-- A listed name that an older scope does not find is not found there afterwards. -/
theorem lookup_eq_none (hides : Hides mark names s s') {id : ScopeId} {x : String}
    (below : id < mark) (listed : x ∈ names) (unseen : s.scopes.lookup id x = none) :
    s'.scopes.lookup id x = none := by
  rw [← Option.not_isSome_iff_eq_none]
  intro found
  have known : (s.scopes.lookup id x).isSome ∨ False :=
    Scopes.isSome_lookup_of (fun i _ => Scopes.parent?_congr hides.links i)
      (fun i le binds => .inl (hides.old (Nat.lt_of_le_of_lt le below) listed binds)) found
  rcases known with known | impossible
  · rw [unseen] at known
    cases known
  · exact impossible

end Hides

/-- A site inside a loop whose scope is the mark: it is in a body that began there, or all names are
bound by the loop on the way outwards. -/
structure InLoop (mark : ScopeId) (names : List String) (σ : Site) (s : State) : Prop where
  alive : σ.scope < s.scopes.size
  place : mark ≤ σ.scope ∧ mark ≤ σ.body ∨
    s.scopes.Within mark σ.scope ∧ ∀ x ∈ names, s.Binds mark x

namespace InLoop

theorem move (inLoop : InLoop mark names σ s) (hides : Hides mark names s s') :
    InLoop mark names σ s' where
  alive := Scopes.size_eq_of_links hides.links ▸ inLoop.alive
  place := inLoop.place.imp_right fun ⟨within, binds⟩ =>
    ⟨within.mono fun id _ parent => (Scopes.parent?_congr hides.links id).trans parent,
      fun x listed => hides.kept (binds x listed)⟩

/-- A listed name has an owner that is not older than the loop, unless the site is in a body that
began there. -/
theorem owner (inLoop : InLoop mark names σ s) {x : String} (listed : x ∈ names) :
    mark ≤ σ.scope ∧ mark ≤ σ.body ∨
      ∃ owner ty, s.scopes.resolve σ.scope x = some (owner, ty) ∧ mark ≤ owner :=
  inLoop.place.imp_right fun ⟨within, binds⟩ => within.owner (binds x listed)

theorem unresolved (inLoop : InLoop mark names σ s) {x : String}
    (free : s.scopes.resolve σ.scope x = none) : mark ≤ σ.scope ∨ x ∉ names := by
  by_cases listed : x ∈ names
  · rcases inLoop.owner listed with newer | ⟨owner, ty, found, -⟩
    · exact .inl newer.1
    · rw [free] at found
      cases found
  · exact .inr listed

theorem undeclared (positive : 0 < mark) (inLoop : InLoop mark names σ s) {x : String}
    (free : s.localOwner? σ x = none) : mark ≤ σ.body ∨ x ∉ names := by
  by_cases listed : x ∈ names
  · rcases inLoop.owner listed with newer | ⟨owner, ty, found, inside⟩
    · exact .inl newer.2
    · have notModule : ¬(owner = Scopes.moduleScope ∧ σ.scope ≠ Scopes.moduleScope) := by
        rintro ⟨rfl, -⟩
        exact absurd inside (Nat.not_le.mpr positive)
      have owned : s.scopes.resolveLocal σ.scope x = some owner := by
        rw [Scopes.resolveLocal, found]
        exact if_neg notModule
      unfold State.localOwner? at free
      rw [owned] at free
      dsimp only at free
      split at free
      · cases free
      · cases free
  · exact .inr listed

theorem opened (inLoop : InLoop mark names σ s) (marked : mark < s.scopes.size)
    (bindings : List (String × Ty)) :
    InLoop mark names (σ.inScope s.scopes.size) (s.opened σ.scope bindings) where
  alive := Nat.lt_succ_self _
  place := by
    refine inLoop.place.imp (fun newer => ⟨Nat.le_of_lt marked, newer.2⟩) fun ⟨within, binds⟩ => ?_
    exact ⟨.up (Scopes.parent?_child_self ..) inLoop.alive
      (within.mono fun _ _ parent => Scopes.parent?_child_of_some parent ..),
      fun x listed => (State.binds_opened marked).mpr (binds x listed)⟩

end InLoop

/-- A variable that takes a new type is bound already, or by a scope that is not older. -/
theorem Hides.refined (inLoop : InLoop mark names σ s) (node : Expr) (ty : Ty) :
    Hides mark names s (s.refined σ node ty) := by
  have viaAttribute : ∀ className name, Hides mark names s (s.withAttribute className name ty) := by
    intro className name
    unfold State.withAttribute
    split
    · exact same rfl
    · exact refl s
  unfold State.refined
  split
  · next name _ =>
    unfold Scopes.assign
    split
    · next owner old resolved =>
      have binds : s.Binds owner name := by
        rw [State.Binds, (Scopes.lookupLocal_of_resolve resolved).1]
        rfl
      exact bound ty (.inr (.inr binds))
    · next free => exact bound ty ((inLoop.unresolved free).imp_right .inl)
  · split
    · exact viaAttribute _ _
    · exact refl s
  · exact viaAttribute _ _
  · exact refl s

/-! ## Runs inside a loop -/

/-- A run inside a loop binds no variable of the loop outside of it. -/
def loopLaw (setting : Setting) (mark : ScopeId) (positive : 0 < mark) (names : List String) :
    Law setting where
  Inv _ s := mark < s.scopes.size
  Here := InLoop mark names
  Rel _ _ := Hides mark names
  Call := Hides mark names
  rel_refl _ _ := .refl
  rel_trans := .trans
  here_rel here hides _ := here.move hides
  depend _ _ marked := ⟨marked, .same rfl⟩
  retype {_ σ s e _ ty} marked here _ _ _ := by
    have hides := Hides.refined here e ty
    exact ⟨hides.marked marked, hides, trivial⟩
  openScope marked here _ _ := ⟨Nat.lt_succ_of_lt marked, here.opened marked _⟩
  closeScope marked _ _ inside _ :=
    ⟨inside.closed.marked marked, inside.closed⟩
  declare {_ σ s id ty} marked here _ _ _ free := by
    have hides : Hides mark names s (s.bound σ.body id ty) :=
      .bound ty ((here.undeclared positive free).imp_right .inl)
    exact ⟨hides.marked marked, hides⟩
  join {_ σ s id owner ty found} marked here _ _ _ owned _ := by
    have hides : Hides mark names s (s.bound owner id found) :=
      .bound found (.inr (.inr (State.binds_of_localOwner? owned)))
    exact ⟨hides.marked marked, hides⟩
  joinAttribute _ _ marked _ _ _ := ⟨marked, .same rfl, trivial⟩
  register _ marked _ _ := ⟨marked, .same rfl⟩
  merge marked _ _ _ _ _ _ := ⟨marked, .same rfl, trivial⟩
  answer marked _ _ _ _ _ := ⟨marked, .same rfl, trivial⟩
  enter {_ s _ _ _ _ _ _} marked _ _ _ := by
    have newest : mark ≤ s.scopes.size := Nat.le_of_lt marked
    exact ⟨Nat.lt_succ_of_lt marked, ⟨Nat.lt_succ_self _, .inl ⟨newest, newest⟩⟩⟩
  leave {_ s key cell _ _ definitions params s' _} marked _ _ _ _ _ _ inside _ _ := by
    have closed : Hides mark names (s.begun key cell definitions params)
      (s'.closed s.scopes.size) := inside.closed
    have whole : Hides mark names s (s'.closed s.scopes.size) :=
      ⟨closed.links, closed.kept, closed.old⟩
    exact ⟨whole.marked marked, ⟨whole.links, whole.kept, whole.old⟩, trivial⟩

/-- What runs in the scope of a loop binds none of its variables outside of it. -/
theorem hides_of_inScope (setting : Setting) (n : Nat) (m : Mode) {ctx : Context} {α : Type}
    {bs : List (String × Ty)} {act : ScopeId → Run α} {a : α}
    (alive : ctx.scope < s.scopes.size)
    (holds : ∀ positive, (loopLaw setting s.scopes.size positive (bs.map (·.1))).At n
        (ctx.site.inScope s.scopes.size) (s.opened ctx.scope bs) →
      (loopLaw setting s.scopes.size positive (bs.map (·.1))).Holds n m
        (ctx.site.inScope s.scopes.size) (s.opened ctx.scope bs) (act s.scopes.size)
        fun _ _ => True)
    (run : (inScope ctx.scope bs act).run s = (.ok a, s')) :
    Hides s.scopes.size (bs.map (·.1)) s s' := by
  have positive : 0 < s.scopes.size := Nat.lt_of_le_of_lt (Nat.zero_le _) alive
  have newest : s.scopes.size < (s.opened ctx.scope bs).scopes.size := Nat.lt_succ_self _
  have binds : ∀ x ∈ bs.map (·.1), (s.opened ctx.scope bs).Binds s.scopes.size x := by
    intro x listed
    obtain ⟨b, held, rfl⟩ := List.mem_map.mp listed
    rw [State.Binds, State.opened, Scopes.lookupLocal_child_self, Table.find?_ofList,
      Option.isSome_map, List.find?_isSome]
    exact ⟨b, List.mem_reverse.mpr held, decide_eq_true rfl⟩
  have inside := holds positive ⟨newest, ⟨newest, .inr ⟨.body, binds⟩⟩⟩
  have closes : Runs (inScope ctx.scope bs act) s
      (fun _ s' => Hides s.scopes.size (bs.map (·.1)) s s') fun _ _ => True :=
    Runs.inScope (Runs.imp inside (fun _ _ ended => ended.2.1.rel.closed) fun _ _ _ => trivial)
  exact closes.of_ok run

/-! ## What a loop introduces -/

/-- The type of the last variable of a name. -/
def lastType? (bs : List Binder) (x : String) : Option Ty :=
  (bs.reverse.find? (·.name = x)).map (·.type)

theorem lastType?_cases {bs : List Binder} {b : Binder} (held : b ∈ bs) :
    ∃ b' ∈ bs, b'.name = b.name ∧ lastType? bs b.name = some b'.type := by
  have found : (bs.reverse.find? (·.name = b.name)).isSome :=
    List.find?_isSome.mpr ⟨b, List.mem_reverse.mpr held, decide_eq_true rfl⟩
  obtain ⟨b', last⟩ := Option.isSome_iff_exists.mp found
  refine ⟨b', List.mem_reverse.mp (List.mem_of_find?_eq_some last), ?_, ?_⟩
  · simpa using List.find?_some last
  · rw [lastType?, last]
    rfl

/-- Every variable has its own type exactly if variables of one name have one type. -/
theorem lastType?_iff {bs : List Binder} : (∀ b ∈ bs, lastType? bs b.name = some b.type) ↔
    ∀ b ∈ bs, ∀ b' ∈ bs, b.name = b'.name → b.type = b'.type := by
  constructor
  · intro own b held b' held' same
    have first := own b held
    rw [same, own b' held'] at first
    exact (Option.some.inj first).symm
  · intro agree b held
    obtain ⟨b', held', same, last⟩ := lastType?_cases held
    rw [last, agree b' held' b held same]

theorem find?_bindings (bs : List Binder) (x : String) :
    (Table.ofList (bindings bs)).find? x = lastType? bs x := by
  rw [Table.find?_ofList, bindings, ← List.map_reverse, List.find?_map, Option.map_map]
  rfl

/-- The type of a name in the scope of a loop, when its body begins. -/
def typeInside? (ctx : Context) (s : State) (bs : List Binder) (x : String) : Option Ty :=
  (s.opened ctx.scope (bindings bs)).scopes.lookup s.scopes.size x

/-- In the scope of a loop its variables hide nothing but each other. -/
theorem typeInside?_eq {ctx : Context} (alive : ctx.scope < s.scopes.size) (bs : List Binder)
    (x : String) :
    typeInside? ctx s bs x = (lastType? bs x).or (s.scopes.lookup ctx.scope x) := by
  rw [typeInside?, State.opened]
  cases last : lastType? bs x with
  | some ty =>
    have bound : (s.scopes.child ctx.scope (bindings bs)).1.lookupLocal s.scopes.size x =
        some ty := by
      rw [Scopes.lookupLocal_child_self, find?_bindings, last]
    rw [Scopes.lookup, Scopes.resolve_of_lookupLocal bound]
    rfl
  | none =>
    have unbound : (Table.ofList (bindings bs)).find? x = none := by
      rw [find?_bindings, last]
    rw [Scopes.lookup, Scopes.resolve_child alive unbound]
    rfl

/-- What the head of a loop introduces when the states before it and before the body are `s` and
`s₁`. -/
structure Introduces (t : Translator) (ctx : Context) (s s₁ : State) (target : Tree.Expr)
    (bs : List Binder) : Prop where
  named : bs.map (·.name) = target.boundNames
  isNew : ∀ b ∈ bs, IsNew t ctx s₁ b.name
  unseen : ∀ b ∈ bs, s.scopes.lookup ctx.scope b.name = none
  types : ∀ x, typeInside? ctx s₁ bs x = (lastType? bs x).or (s₁.scopes.lookup ctx.scope x)
  own : (∀ b ∈ bs, typeInside? ctx s₁ bs b.name = some b.type) ↔
    ∀ b ∈ bs, ∀ b' ∈ bs, b.name = b'.name → b.type = b'.type
  distinct : target.boundNames.Nodup → ∀ b ∈ bs, typeInside? ctx s₁ bs b.name = some b.type

/-- What is visible after a construct with some variables that binds some names. -/
structure Leaves (ctx : Context) (s s' : State) (names : List String) (bs : List Binder) :
    Prop where
  hidden : ∀ b ∈ bs, s'.scopes.lookup ctx.scope b.name = none
  visible : ∀ x, (s.scopes.lookup ctx.scope x).isSome → (s'.scopes.lookup ctx.scope x).isSome
  bound : ∀ id x, s.Binds id x → s'.Binds id x
  owners : ∀ x ∉ names, ¬s.IsFunction x →
    (s'.scopes.resolve ctx.scope x).map (·.1) = (s.scopes.resolve ctx.scope x).map (·.1)

theorem introduces {t : Translator} {ctx : Context} {s₁ : State} {target : Tree.Expr}
    {bs : List Binder} (alive : ctx.scope < s₁.scopes.size)
    (named : bs.map (·.name) = target.boundNames) (isNew : ∀ b ∈ bs, IsNew t ctx s₁ b.name)
    (grows : Grows ctx.body [] s s₁) : Introduces t ctx s s₁ target bs := by
  have inside : ∀ b ∈ bs, typeInside? ctx s₁ bs b.name = lastType? bs b.name := by
    intro b held
    rw [typeInside?_eq alive, (isNew b held).unseen, Option.or_none]
  have own : (∀ b ∈ bs, typeInside? ctx s₁ bs b.name = some b.type) ↔
      ∀ b ∈ bs, ∀ b' ∈ bs, b.name = b'.name → b.type = b'.type := by
    rw [← lastType?_iff]
    exact forall₂_congr fun b held => by rw [inside b held]
  refine ⟨named, isNew, fun b held => ?_, typeInside?_eq alive bs, own, fun distinct => ?_⟩
  · rw [← Option.not_isSome_iff_eq_none]
    intro found
    have after := grows.isSome_lookup_mono found
    rw [(isNew b held).unseen] at after
    cases after
  · refine own.mpr fun b held b' held' same => ?_
    rw [← named] at distinct
    rw [List.inj_on_of_nodup_map distinct held held' same]

theorem leaves {ctx : Context} {names : List String} {bs : List Binder} {s₁ : State}
    (alive : ctx.scope < s₁.scopes.size)
    (isNew : ∀ b ∈ bs, s₁.scopes.lookup ctx.scope b.name = none)
    (hides : Hides s₁.scopes.size ((bindings bs).map (·.1)) s₁ s')
    (grows : Grows ctx.body names s s') : Leaves ctx s s' names bs where
  hidden b held := by
    have listed : b.name ∈ (bindings bs).map (·.1) := by
      rw [bindings, List.map_map]
      exact List.mem_map_of_mem held
    exact hides.lookup_eq_none alive listed (isNew b held)
  visible x found := grows.isSome_lookup_mono found
  bound _ _ binds := grows.kept binds
  owners x unlisted noFunction := by
    refine Scopes.owner_congr (fun id => Scopes.parent?_congr grows.links id) (fun id => ?_) _
    refine Bool.eq_iff_iff.mpr ⟨fun binds => ?_, grows.kept⟩
    rcases grows.new binds with known | ⟨-, listed⟩ | isFunction
    · exact known
    · exact absurd listed unlisted
    · exact absurd isFunction noFunction

/-! ## Accepted loops -/

variable {api : ApiTables} {o : Outline} {n : Nat} {ctx : Context} {target e : Tree.Expr}
  {s₁ : State}

theorem loopHead_grows {head : LoopHead} (alive : s.scopes.isAlive ctx.scope)
    (run : (loopHead (o.translator api n) ctx target ⟨e, expr (o.translator api n) e⟩
      (iterated (o.translator api n) e)).run s = (.ok head, s₁)) :
    Grows ctx.body [] s s₁ ∧ ctx.scope < s₁.scopes.size ∧
      ∀ b ∈ head.binders, IsNew (o.translator api n) ctx s₁ b.name := by
  have infers : (sightLaw (o.setting api)).Infers n (inferAt (o.setting api) n) :=
    Law.inferAt_infers n
  obtain ⟨unchecked, s₂, first, rest⟩ := Runs.of_bind_ok run
  obtain ⟨-, moves, -⟩ := (Law.uncheckedHead_holds (inferAt (o.setting api) n)
    (Law.expr_evaluates infers e False.elim) (Law.iterated_evaluates infers e False.elim)
    (at_sight n ctx.site s)).of_ok first
  obtain ⟨names, none, grows⟩ := moves.rel
  rw [none rfl] at grows
  have alive₂ : ctx.scope < s₂.scopes.size := by
    rw [Scopes.size_eq_of_links grows.links]
    exact of_decide_eq_true alive
  obtain ⟨_, s₃, checked, ends⟩ := Runs.of_bind_ok rest
  obtain ⟨isNew, rfl⟩ := (run_checkLoopVariables_iff (decide_eq_true alive₂)).mp checked
  cases ends
  exact ⟨grows, alive₂, isNew⟩

theorem comprehensionParts_holds {setting : Setting} {L : Law setting} {infer : Infer}
    (infers : L.Infers n infer) (faulty : ¬L.Faultless) (elt : Tree.Expr) (ifs : List Tree.Expr)
    (at_s : L.At n ctx.site s) :
    L.Holds n .expr ctx.site s (comprehensionParts ⟨setting, infer⟩ ctx elt ifs)
      fun _ _ => True := by
  have sound : ∀ {p : Prop}, L.Faultless → p := fun faultless => absurd faultless faulty
  have evaluates : ∀ d ∈ (exprs ⟨setting, infer⟩ ifs).head?, L.Evaluates n d := fun d hd =>
    Law.exprs_evaluates infers ifs sound d (List.mem_of_mem_head? hd)
  unfold comprehensionParts
  refine (Law.testNode_holds evaluates at_s).bind fun test s₁ at₁ _ _ => ?_
  refine (Law.expr_evaluates infers elt sound ctx s₁ at₁).bind fun item s₂ at₂ _ _ => ?_
  exact Law.Holds.pure at₂ trivial

theorem block_hides {bs : List (String × Ty)} {body : List Tree.Stmt} {inside : List Stmt}
    (alive : ctx.scope < s.scopes.size)
    (run : (inScope ctx.scope bs fun scope =>
      block (o.translator api n) body (ctx.inScope scope).looping).run s = (.ok inside, s')) :
    Hides s.scopes.size (bs.map (·.1)) s s' := by
  refine hides_of_inScope (o.setting api) n .stmt alive (fun positive at_s => ?_) run
  exact (Law.block_holds (Law.inferAt_infers n) body (ctx.inScope s.scopes.size).looping _
    ⟨fun _ _ => trivial, fun _ => trivial, False.elim⟩ at_s).imp fun _ _ _ _ _ => trivial

theorem comprehension_hides {bs : List (String × Ty)} {elt : Tree.Expr} {ifs : List Tree.Expr}
    {parts : Option Expr × Expr} (alive : ctx.scope < s.scopes.size)
    (run : (inScope ctx.scope bs fun scope =>
      comprehensionParts (o.translator api n) (ctx.inScope scope) elt ifs).run s =
        (.ok parts, s')) :
    Hides s.scopes.size (bs.map (·.1)) s s' := by
  refine hides_of_inScope (o.setting api) n .expr alive (fun positive at_s => ?_) run
  have at_s : (loopLaw (o.setting api) s.scopes.size positive (bs.map (·.1))).At n
      (ctx.inScope s.scopes.size).site (s.opened ctx.scope bs) := at_s
  exact comprehensionParts_holds (Law.inferAt_infers n) id elt ifs at_s

end Translate

/-! ## Top theorem -/

open Translate Typed in
/-- The variables of an accepted loop or comprehension are those of its target; each is in snake
case, no constant, and visible neither before nor after the loop, and what was visible before still
is.  When the body begins, a variable has the type of the last one of its name, so each has the type
of its own node exactly if variables of one name have one type, and always if the names differ. -/
theorem loop_variables {api : ApiTables} {m : Tree.Module} {o : Outline} {start s : State} {n : Nat}
    {ctx : Context} (outlined : (outline api m).run .empty = (.ok o, start))
    (reachable : Reachable api o start (fun _ _ => True) (fun _ => True) n ctx.site s) :
    let t := o.translator api n
    (∀ target e body orelse pos result s',
      (stmt t ⟨.forLoop target e body orelse, pos⟩ ctx).run s = (.ok result, s') →
      ∃ head s₁ inside, orelse = [] ∧ result = some (head.stmt inside) ∧
        (loopHead t ctx target ⟨e, expr t e⟩ (iterated t e)).run s = (.ok head, s₁) ∧
        (inScope ctx.scope (bindings head.binders) fun scope =>
          block t body (ctx.inScope scope).looping).run s₁ = (.ok inside, s') ∧
        Introduces t ctx s s₁ target head.binders ∧
        Leaves ctx s s' (blockAssigned inside) head.binders) ∧
    ∀ elt generators pos result s',
      (expr t ⟨.listComp elt generators, pos⟩ ctx).run s = (.ok result, s') →
      ∃ target e ifs sequence iterators s₁ test item, generators = [⟨target, e, ifs⟩] ∧
        result = ⟨.iterate sequence iterators test item, .list item.type⟩ ∧
        (loopHead t ctx target ⟨e, expr t e⟩ (iterated t e)).run s =
          (.ok (.iterate sequence iterators), s₁) ∧
        (inScope ctx.scope (bindings iterators.binders) fun scope =>
          comprehensionParts t (ctx.inScope scope) elt ifs).run s₁ = (.ok (test, item), s') ∧
        Introduces t ctx s s₁ target iterators.binders ∧ Leaves ctx s s' [] iterators.binders := by
  intro t
  have alive := (isOpen_of_reachable outlined reachable).scope
  constructor
  · intro target e body orelse pos result s' run
    obtain ⟨names, grows, fits⟩ := (stmt_sees (Law.inferAt_infers n) _ ctx (ctx.site.sight s) s
      (ctx.site.covers_sight s)).of_ok run
    cases orelse with
    | cons st rest =>
      rw [stmt, Runs.run_located_iff] at run
      cases run
    | nil =>
      obtain ⟨head, s₁, inside, first, translated, rfl⟩ := run_forLoop_iff.mp run
      obtain ⟨grows₁, alive₁, isNew⟩ := loopHead_grows alive first
      have hides := block_hides alive₁ translated
      -- a loop assigns what its block assigns
      have assigned : blockAssigned inside = names := by
        rw [← fits.assigned]
        cases head <;> exact (List.append_nil _).symm
      rw [← assigned] at grows
      have named := (loopHead_binds target _ _).of_ok first
      exact ⟨head, s₁, inside, rfl, rfl, first, translated,
        introduces alive₁ named isNew grows₁,
        leaves alive₁ (fun b held => (isNew b held).unseen) hides grows⟩
  · intro elt generators pos result s' run
    obtain ⟨-, moves, -⟩ := (expr_looks (Law.inferAt_infers n) _ ctx s).of_ok run
    obtain ⟨names, none, grows⟩ := moves.rel
    rw [none rfl] at grows
    obtain ⟨target, e, ifs, sequence, iterators, s₁, test, item, rfl, -, first, translated, rfl⟩ :=
      run_listComp_iff.mp run
    obtain ⟨grows₁, alive₁, isNew⟩ := loopHead_grows alive first
    have hides := comprehension_hides alive₁ translated
    have named := (loopHead_binds target _ _).of_ok first
    exact ⟨target, e, ifs, sequence, iterators, s₁, test, item, rfl, rfl, first, translated,
      introduces alive₁ named isNew grows₁,
      leaves alive₁ (fun b held => (isNew b held).unseen) hides grows⟩

open Translate in
/-- The translator of a module without statements. -/
def blank : Translator := Outline.empty.translator .standard (State.empty.definitions.size + 1)

open Tree.Build in
/-- `zip([1], ["a"])` -/
def numberedText : Tree.Expr := call (name "zip") [list [int 1], list [string "a"]]

open Tree.Build in
/-- The target `first, second`. -/
def pairOf (first second : String) : Tree.Expr := tuple [name first, name second]

open Translate Tree.Build in
/-- Translates `for first, second in zip([1], ["a"]): y = first`. -/
def pairLoop (first second : String) : Run (Option Typed.Stmt) :=
  stmt blank (forLoop (pairOf first second) numberedText [assign (name "y") (name first)]) .ofModule

open Translate in
def pairHead (first second : String) : Run LoopHead :=
  loopHead blank .ofModule (pairOf first second) ⟨numberedText, expr blank numberedText⟩
    (iterated blank numberedText)

open Translate in
set_option maxRecDepth 100000 in
theorem loop_variables_pair : ∃ head s₁ result s',
    (pairHead "x" "z").run .empty = (.ok head, s₁) ∧
    (pairLoop "x" "z").run .empty = (.ok result, s') ∧
    head.binders.map (·.name) = ["x", "z"] ∧
    ∀ b ∈ head.binders, typeInside? .ofModule s₁ head.binders b.name = some b.type ∧
      s'.scopes.lookup Scopes.moduleScope b.name = none := by
  have accepted : ((pairLoop "x" "z").run .empty).1.isOk = true := by
    decide +kernel
  obtain ⟨result, s', run⟩ := exists_of_run_isOk accepted
  have reachable : Reachable .standard .empty .empty (fun _ _ => True) (fun _ => True)
      (State.empty.definitions.size + 1) Context.ofModule.site .empty := .start
  have outlined : (outline .standard ⟨[]⟩).run .empty = (.ok .empty, .empty) := rfl
  obtain ⟨head, s₁, _, -, -, first, -, introduced, left⟩ :=
    (loop_variables outlined reachable).1 _ _ _ _ _ _ _ run
  have distinct : (pairOf "x" "z").boundNames.Nodup := by
    decide
  exact ⟨head, s₁, result, s', first, run, introduced.named,
    fun b held => ⟨introduced.distinct distinct b held, left.hidden b held⟩⟩

open Translate in
/-- The variables of the head over pairs, with the types that the names have in the body. -/
def pairTypes (first second : String) : Option (List (Typed.Binder × Option Ty)) :=
  match (pairHead first second).run .empty with
  | (.ok head, s₁) =>
    some (head.binders.map fun b => (b, typeInside? .ofModule s₁ head.binders b.name))
  | _ => none

set_option maxRecDepth 100000 in
/-- `for x, x in zip([1], ["a"])` is accepted with an integer and a string of one name, which is a
string in the body. -/
theorem name_bound_twice :
    ((pairLoop "x" "x").run .empty).1.isOk ∧
    pairTypes "x" "x" = some [(⟨"x", .int⟩, some .string), (⟨"x", .string⟩, some .string)] := by
  refine ⟨?_, ?_⟩ <;> decide +kernel

end TreeTyper
