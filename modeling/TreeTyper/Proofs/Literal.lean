import TreeTyper.Proofs.Code
import TreeTyper.Proofs.Ends
import TreeTyper.Proofs.Hereditary
import TreeTyper.Proofs.Nodes
import TreeTyper.Proofs.Run
import TreeTyper.Translate.Expr

/-!
# Literals

A literal is translated without a look at the tables: the run leaves the state as
it is, reaches no definition, and its result is built of values and containers
alone.

    e.isLiteral → d.IsQuiet sound        for d the run of e         (literal_isQuiet)
-/

namespace TreeTyper

namespace Typed.Expr

/-- The kinds of values and of containers. -/
def IsData (e : Expr) : Prop :=
  match e.kind with
  | .int _ | .float _ | .string _ | .boolean _ | .null => True
  | .list _ | .set _ | .tuple _ | .array _ | .dictionary _ => True
  | _ => False

theorem IsData.binders_eq {e : Expr} (data : e.IsData) : e.binders = [] := by
  obtain ⟨kind, type⟩ := e
  cases kind with
  | iterate => exact data.elim
  | _ => rfl

end Typed.Expr

namespace Translate

open Typed

/-- The result of translating a literal: data of types that builtin types and classes build. -/
structure IsValue (h : Hierarchy) (e : Expr) : Prop where
  data : ∀ x ∈ e.nodes, x.IsData
  built : ∀ x ∈ e.nodes, h.Builds x.type

/-- How a literal is refused: the tables stay as they are, and there is no fault if the code is
`sound`. -/
def Refuses (sound : Prop) (s : State) (stop : Stop) (s' : State) : Prop :=
  s' = s ∧ stop ≠ .fault .depth ∧ (sound → stop.IsFailure)

/-- A run that leaves the tables as they are and gives a value, where walks along the bases end if
the code is `sound`. -/
def Deferred.IsQuiet (sound : Prop) (d : Deferred) : Prop :=
  ∀ ctx s, (sound → s.hierarchy.Complete) →
    Runs (d.run ctx) s (fun e s' => s' = s ∧ IsValue s.hierarchy e) (Refuses sound s)

variable {sound : Prop} {h h' : Hierarchy} {s : State} {ctx : Context}

theorem Refuses.failure {cause : Cause} {location : Option Pos} :
    Refuses sound s (.failure cause location) s :=
  ⟨rfl, Stop.noConfusion, fun _ _ => Stop.noConfusion⟩

theorem Refuses.walk_bind {α : Type} {ends : Bool} {f : Unit → Run α} {post : α → State → Prop}
    (complete : sound → s.hierarchy.Complete) (answers : s.hierarchy.Complete → ends)
    (next : Runs (f ()) s post (Refuses sound s)) :
    Runs (walk ends >>= f) s post (Refuses sound s) :=
  Runs.walk_bind (fun _ => next) fun endless =>
    ⟨rfl, by simp, fun h => absurd (answers (complete h)) endless⟩

theorem Refuses.locate {stop : Stop} {s' : State} (refuses : Refuses sound s stop s') (pos : Pos) :
    Refuses sound s (stop.locate pos) s' := by
  obtain ⟨same, notDepth, expected⟩ := refuses
  cases stop with
  | failure cause location => exact ⟨same, Stop.noConfusion, fun _ _ => Stop.noConfusion⟩
  | fault f => exact ⟨same, notDepth, expected⟩

/-! ## Values -/

theorem IsValue.node {kind : ExprKind} {type : Ty} (known : ∀ c ∈ kind.children, IsValue h c)
    (data : Expr.IsData ⟨kind, type⟩) (built : h.Builds type) : IsValue h ⟨kind, type⟩ :=
  ⟨Expr.forall_nodes.mpr ⟨data, fun c hc => (known c hc).data⟩,
    Expr.forall_nodes.mpr ⟨built, fun c hc => (known c hc).built⟩⟩

theorem IsValue.leaf {kind : ExprKind} {type : Ty} (leaf : kind.children = [])
    (data : Expr.IsData ⟨kind, type⟩) (built : h.Builds type) : IsValue h ⟨kind, type⟩ :=
  .node (by simp [leaf]) data built

theorem IsValue.root {e : Expr} (value : IsValue h e) : h.Builds e.type :=
  value.built e (Expr.mem_nodes_self e)

theorem IsValue.mono {e : Expr} (value : IsValue h e)
    (more : ∀ name, h.isClass name → h'.isClass name) : IsValue h' e :=
  ⟨value.data, fun x hx => (value.built x hx).mono more⟩

theorem IsValue.types {es : List Expr} (values : ∀ e ∈ es, IsValue h e) :
    ∀ t ∈ types es, h.Builds t := by
  intro t ht
  obtain ⟨e, he, rfl⟩ := List.mem_map.mp ht
  exact (values e he).root

/-! ## Elements -/

section Containers

variable (complete : sound → s.hierarchy.Complete)

include complete

theorem runAll_quiet {ds : List Deferred} (quiet : ∀ d ∈ ds, d.IsQuiet sound) :
    Runs (runAll ctx ds) s (fun es s' => s' = s ∧ ∀ e ∈ es, IsValue s.hierarchy e)
      (Refuses sound s) := by
  induction ds with
  | nil => exact Runs.pure ⟨rfl, by simp⟩
  | cons d ds ih =>
    refine (quiet d (by simp) ctx s complete).bind ?_
    rintro e s₁ ⟨same, value⟩
    rw [same]
    refine (ih fun d' hd' => quiet d' (by simp [hd'])).bind ?_
    rintro es s₂ ⟨same', values⟩
    refine Runs.pure ⟨same', ?_⟩
    simp only [List.mem_cons, forall_eq_or_imp]
    exact ⟨value, values⟩

theorem elementNodes_quiet {container : String} {ds : List Deferred}
    (quiet : ∀ d ∈ ds, d.IsQuiet sound) {elem : Ty} (built : s.hierarchy.Builds elem) :
    Runs (elementNodes ctx container elem ds) s
      (fun found s' => s' = s ∧ (∀ e ∈ found.1, IsValue s.hierarchy e) ∧
        s.hierarchy.Builds found.2)
      (Refuses sound s) := by
  induction ds generalizing elem with
  | nil => exact Runs.pure ⟨rfl, by simp, built⟩
  | cons d ds ih =>
    unfold elementNodes
    refine (quiet d (by simp) ctx s complete).bind ?_
    rintro e s₁ ⟨same, value⟩
    rw [same]
    refine Runs.get (Refuses.walk_bind complete (·.classesEnd.compatibleEnds ..) ?_)
    split
    · exact Runs.failAt .failure
    next elem' fits =>
    have built' := s.hierarchy.hereditary_builds.compatible value.root built fits
    refine (ih (fun d' hd' => quiet d' (by simp [hd'])) built').bind ?_
    rintro ⟨es, last⟩ s₂ ⟨same', values, builtLast⟩
    refine Runs.pure ⟨same', ?_, builtLast⟩
    simp only [List.mem_cons, forall_eq_or_imp]
    exact ⟨value, values⟩

theorem pairNodes_quiet {ds : List (Deferred × Deferred)}
    (quiet : ∀ d ∈ ds, d.1.IsQuiet sound ∧ d.2.IsQuiet sound) {key value : Ty}
    (builtKey : s.hierarchy.Builds key) (builtValue : s.hierarchy.Builds value) :
    Runs (Translate.pairNodes ctx key value ds) s
      (fun found s' => s' = s ∧ (∀ e ∈ pairRoots found.1, IsValue s.hierarchy e) ∧
        s.hierarchy.Builds found.2.1 ∧ s.hierarchy.Builds found.2.2)
      (Refuses sound s) := by
  have H := s.hierarchy.hereditary_builds
  have classes := s.hierarchy.classesHave_builds
  induction ds generalizing key value with
  | nil => exact Runs.pure ⟨rfl, by simp [pairRoots], builtKey, builtValue⟩
  | cons d ds ih =>
    obtain ⟨k, v⟩ := d
    have quietFirst := quiet (k, v) (by simp)
    unfold Translate.pairNodes
    -- what is quiet leaves the state as it is, so everything is evaluated in `s`
    refine (quietFirst.1 ctx s complete).bind ?_
    rintro keyNode s₁ ⟨same, knownKey⟩
    rw [same]
    refine (quietFirst.2 ctx s complete).bind ?_
    rintro valueNode s₂ ⟨same', knownValue⟩
    rw [same']
    refine Runs.get (Refuses.walk_bind complete (·.classesEnd.unifyEnds ..) ?_)
    split
    · exact Runs.failAt .failure
    next key' keyJoins =>
    refine Refuses.walk_bind complete (·.classesEnd.unifyEnds ..) ?_
    split
    · exact Runs.failAt .failure
    next value' valueJoins =>
    have builtKey' := H.unify classes builtKey knownKey.root keyJoins
    have builtValue' := H.unify classes builtValue knownValue.root valueJoins
    refine (ih (fun d' hd' => quiet d' (by simp [hd'])) builtKey' builtValue').bind ?_
    rintro ⟨pairs, lastKey, lastValue⟩ s₃ ⟨same'', known, builtLast⟩
    refine Runs.pure ⟨same'', ?_, builtLast⟩
    simp only [pairRoots, List.flatMap_cons, List.cons_append, List.nil_append, List.mem_cons,
      forall_eq_or_imp]
    exact ⟨knownKey, knownValue, known⟩

/-! ## Containers -/

theorem listNode_quiet {ds : List Deferred} (quiet : ∀ d ∈ ds, d.IsQuiet sound) :
    Runs (listNode ctx ds) s (fun e s' => s' = s ∧ IsValue s.hierarchy e)
      (Refuses sound s) := by
  have H := s.hierarchy.hereditary_builds
  unfold listNode
  refine (elementNodes_quiet complete quiet H.hole).bind ?_
  rintro ⟨es, elem⟩ s' ⟨same, values, built⟩
  exact Runs.pure ⟨same, IsValue.node values trivial (H.list.mpr built)⟩

theorem setNode_quiet {ds : List Deferred} (quiet : ∀ d ∈ ds, d.IsQuiet sound) :
    Runs (setNode ctx ds) s (fun e s' => s' = s ∧ IsValue s.hierarchy e)
      (Refuses sound s) := by
  have H := s.hierarchy.hereditary_builds
  unfold setNode
  refine (elementNodes_quiet complete quiet H.hole).bind ?_
  rintro ⟨es, elem⟩ s' ⟨same, values, built⟩
  exact Runs.pure ⟨same, IsValue.node values trivial (H.set.mpr built)⟩

theorem dictNode_quiet {keys values : List Deferred} (quietKeys : ∀ d ∈ keys, d.IsQuiet sound)
    (quietValues : ∀ d ∈ values, d.IsQuiet sound) :
    Runs (dictNode ctx keys values) s (fun e s' => s' = s ∧ IsValue s.hierarchy e)
      (Refuses sound s) := by
  have quiet : ∀ d ∈ keys.zip values, d.1.IsQuiet sound ∧ d.2.IsQuiet sound := fun d hd =>
    ⟨quietKeys d.1 (List.of_mem_zip hd).1, quietValues d.2 (List.of_mem_zip hd).2⟩
  have H := s.hierarchy.hereditary_builds
  unfold dictNode
  refine (pairNodes_quiet complete quiet H.hole H.hole).bind ?_
  rintro ⟨pairs, key, value⟩ s' ⟨same, known, built⟩
  exact Runs.pure ⟨same, IsValue.node known trivial (H.dictionary.mpr built)⟩

omit complete in
theorem hereditary_sharedType {V : Ty → Prop} (H : Ty.Hereditary V) {ts : List Ty} {acc found : Ty}
    (hAcc : V acc) (hts : ∀ t ∈ ts, V t)
    (shared : sharedType h acc ts = some found) : V found := by
  induction ts generalizing acc with
  | nil =>
    cases shared
    exact hAcc
  | cons t ts ih =>
    rw [List.forall_mem_cons] at hts
    obtain ⟨next, fits, shared⟩ := Option.bind_eq_some_iff.mp shared
    exact ih (H.compatible hAcc hts.1 fits) hts.2 shared

theorem tupleNode_quiet {ds : List Deferred} (quiet : ∀ d ∈ ds, d.IsQuiet sound) :
    Runs (tupleNode ctx ds) s (fun e s' => s' = s ∧ IsValue s.hierarchy e)
      (Refuses sound s) := by
  have H := s.hierarchy.hereditary_builds
  unfold tupleNode
  refine (runAll_quiet complete quiet).bind ?_
  rintro es s' ⟨same, values⟩
  rw [same]
  refine Runs.get (Refuses.walk_bind complete (·.classesEnd.sharedTypeEnds ..) (Runs.pure ⟨rfl, ?_⟩))
  have builtAll := IsValue.types values
  have other : IsValue s.hierarchy ⟨.tuple es, .tuple (types es)⟩ :=
    IsValue.node values trivial (H.tuple.mpr builtAll)
  unfold tupleOf
  extract_lets
  split
  · next elem shared =>
    split
    · exact other
    · exact IsValue.node values trivial
        (H.array.mpr (hereditary_sharedType H H.hole builtAll shared))
  · exact other

end Containers

/-! ## Literals -/

theorem unaryNode_quiet {t : Translator} {op : Tree.UnaryOperator}
    {operand : Tree.Expr} (isLiteral : (Tree.ExprKind.unaryOp op operand).isLiteral)
    (faultless : sound → (Tree.ExprKind.unaryOp op operand).faultless) :
    Runs (unaryNode ctx op ⟨operand, expr t operand⟩) s (fun e s' => s' = s ∧ IsValue s.hierarchy e)
      (Refuses sound s) := by
  have H := s.hierarchy.hereditary_builds
  obtain ⟨kind, at_⟩ := operand
  unfold Tree.ExprKind.isLiteral at isLiteral
  split at isLiteral <;> try contradiction
  · next value _ same =>
    cases same
    unfold unaryNode
    dsimp only
    split
    · next least =>
      refine Runs.abort ⟨rfl, by simp, fun h => absurd (faultless h) ?_⟩
      simp [Tree.ExprKind.faultless, Tree.UnaryOperator.overflows, least]
    · exact Runs.pure ⟨rfl, IsValue.leaf rfl trivial H.int⟩
  · next same =>
    cases same
    exact Runs.pure ⟨rfl, IsValue.leaf rfl trivial H.float⟩

mutual

theorem literal_isQuiet (t : Translator) : ∀ e : Tree.Expr, e.isLiteral →
    (sound → e.faultless) → Deferred.IsQuiet sound ⟨e, expr t e⟩
  | ⟨kind, pos⟩, isLiteral, faultless => fun ctx s complete => by
    simp only [expr]
    have quiet := literalKind_quiet t pos kind isLiteral faultless ctx s complete
    exact Runs.located (Runs.imp quiet (fun _ _ h => h) fun _ _ refuses => refuses.locate pos)

theorem literalKind_quiet (t : Translator) (pos : Pos) : ∀ kind : Tree.ExprKind, kind.isLiteral →
    (sound → kind.faultless) → ∀ ctx s, (sound → s.hierarchy.Complete) →
      Runs (exprKind t pos kind ctx) s (fun e s' => s' = s ∧ IsValue s.hierarchy e)
        (Refuses sound s)
  | .int _, _, _ => fun ctx s _ =>
    Runs.pure ⟨rfl, IsValue.leaf rfl trivial s.hierarchy.hereditary_builds.int⟩
  | .float _, _, _ => fun ctx s _ =>
    Runs.pure ⟨rfl, IsValue.leaf rfl trivial s.hierarchy.hereditary_builds.float⟩
  | .str _, _, _ => fun ctx s _ =>
    Runs.pure ⟨rfl, IsValue.leaf rfl trivial s.hierarchy.hereditary_builds.string⟩
  | .bool _, _, _ => fun ctx s _ =>
    Runs.pure ⟨rfl, IsValue.leaf rfl trivial s.hierarchy.hereditary_builds.boolean⟩
  | .none, _, _ => fun ctx s _ =>
    Runs.pure ⟨rfl, IsValue.leaf rfl trivial s.hierarchy.hereditary_builds.void⟩
  | .list elts, isLiteral, faultless => fun ctx s complete => by
    simp only [exprKind]
    exact listNode_quiet complete (literals_quiet t elts isLiteral faultless)
  | .set elts, isLiteral, faultless => fun ctx s complete => by
    simp only [exprKind]
    exact setNode_quiet complete (literals_quiet t elts isLiteral faultless)
  | .tuple elts, isLiteral, faultless => fun ctx s complete => by
    simp only [exprKind]
    exact tupleNode_quiet complete (literals_quiet t elts isLiteral faultless)
  | .dict keys values, isLiteral, faultless => fun ctx s complete => by
    have both := Bool.and_eq_true_iff.mp isLiteral
    have sound := Tree.sound_and faultless
    simp only [exprKind]
    exact dictNode_quiet complete (literals_quiet t keys both.1 sound.1)
      (literals_quiet t values both.2 sound.2)
  | .unaryOp op operand, isLiteral, faultless => fun ctx s _ => by
    simp only [exprKind]
    exact unaryNode_quiet isLiteral faultless

theorem literals_quiet (t : Translator) : ∀ es : List Tree.Expr, Tree.allLiteral es →
    (sound → Tree.allFaultless es) → ∀ d ∈ exprs t es, d.IsQuiet sound
  | [], _, _ => by simp [exprs]
  | e :: es, isLiteral, faultless => by
    have both := Bool.and_eq_true_iff.mp isLiteral
    have sound := Tree.sound_and faultless
    simp only [exprs, List.mem_cons, forall_eq_or_imp]
    exact ⟨literal_isQuiet t e both.1 sound.1, literals_quiet t es both.2 sound.2⟩

end

end Translate

end TreeTyper
