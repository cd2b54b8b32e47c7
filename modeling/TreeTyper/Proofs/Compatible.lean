import TreeTyper.Typing.Compatible

/-!
# Compatibility and joins, constructor by constructor

Both are a recursion on two types at once that first asks whether the types are
equal.  The equations below hold without that question, and the inductions follow
the results.

    compatible h (.list a) (.list b) = (compatible h a b).map .list        (compatible_list)
-/

namespace TreeTyper

variable {h : Hierarchy}

/-! ## Equations -/

theorem compatibleAll_self (ts : List Ty) : compatibleAll h ts ts = some ts := by
  induction ts with
  | nil => simp [compatibleAll]
  | cons t ts ih => simp [compatibleAll, ih]

theorem unifyAll_self (ts : List Ty) : unifyAll h ts ts = some ts := by
  induction ts with
  | nil => simp [unifyAll]
  | cons t ts ih => simp [unifyAll, ih]

theorem compatible_hole_left {t : Ty} (notAny : t ≠ .any) (notNumber : t ≠ .number) :
    compatible h .hole t = some t := by
  cases t <;> first | contradiction | rfl

theorem compatible_hole_right (t : Ty) : compatible h t .hole = some t := by
  cases t <;> rfl

theorem compatible_atom (a b : String) :
    compatible h (.atom a) (.atom b) = if a = b then some (.atom b) else compatibleAtoms h a b := by
  by_cases same : a = b
  · rw [same, compatible_self, if_pos rfl]
  · rw [if_neg same]
    exact if_neg (by simpa using same)

theorem compatible_list (a b : Ty) :
    compatible h (.list a) (.list b) = (compatible h a b).map .list := by
  by_cases same : a = b
  · simp [same]
  · exact if_neg (by simpa using same)

theorem compatible_set (a b : Ty) :
    compatible h (.set a) (.set b) = (compatible h a b).map .set := by
  by_cases same : a = b
  · simp [same]
  · exact if_neg (by simpa using same)

theorem compatible_array (a b : Ty) (n m : Nat) :
    compatible h (.array a n) (.array b m) =
      if n = m then (compatible h a b).map (.array · n) else none := by
  by_cases same : a = b ∧ n = m
  · simp [same]
  · exact if_neg (by simpa using same)

theorem compatible_dictionary (k v k' v' : Ty) :
    compatible h (.dictionary k v) (.dictionary k' v') =
      (compatible h k k').bind fun a => (compatible h v v').map (.dictionary a ·) := by
  by_cases same : k = k' ∧ v = v'
  · simp [same]
  · refine (if_neg (by simpa using same)).trans ?_
    cases compatible h k k' <;> cases compatible h v v' <;> rfl

theorem compatible_tuple (as bs : List Ty) :
    compatible h (.tuple as) (.tuple bs) = (compatibleAll h as bs).map .tuple := by
  by_cases same : as = bs
  · simp [same, compatibleAll_self]
  · exact if_neg (by simpa using same)

theorem compatible_function (ps ps' : List Ty) (r r' : Ty) :
    compatible h (.function ps r) (.function ps' r') =
      (compatibleAll h ps ps').bind fun a => (compatible h r r').map (.function a ·) := by
  by_cases same : ps = ps' ∧ r = r'
  · simp [same, compatibleAll_self]
  · refine (if_neg (by simpa using same)).trans ?_
    cases compatibleAll h ps ps' <;> cases compatible h r r' <;> rfl

theorem compatibleAll_cons (a b : Ty) (as bs : List Ty) :
    compatibleAll h (a :: as) (b :: bs) =
      (compatible h a b).bind fun c => (compatibleAll h as bs).map (c :: ·) := by
  change (compatible h a b >>= fun c => compatibleAll h as bs >>= fun cs => pure (c :: cs)) = _
  cases compatible h a b <;> cases compatibleAll h as bs <;> rfl

theorem unify_hole_left (t : Ty) : unify h .hole t = some t := by
  cases t <;> rfl

theorem unify_hole_right (t : Ty) : unify h t .hole = some t := by
  cases t <;> rfl

theorem unify_atom (a b : String) :
    unify h (.atom a) (.atom b) = if a = b then some (.atom a) else unifyAtoms h a b := by
  by_cases same : a = b
  · rw [same, unify_self, if_pos rfl]
  · rw [if_neg same]
    exact if_neg (by simpa using same)

theorem unify_list (a b : Ty) : unify h (.list a) (.list b) = (unify h a b).map .list := by
  by_cases same : a = b
  · simp [same]
  · exact if_neg (by simpa using same)

theorem unify_set (a b : Ty) : unify h (.set a) (.set b) = (unify h a b).map .set := by
  by_cases same : a = b
  · simp [same]
  · exact if_neg (by simpa using same)

theorem unify_array (a b : Ty) (n m : Nat) :
    unify h (.array a n) (.array b m) =
      if n = m then (unify h a b).map (.array · n) else none := by
  by_cases same : a = b ∧ n = m
  · simp [same]
  · refine (if_neg (by simpa using same)).trans ?_
    by_cases length : n = m
    · rw [if_pos length, if_pos length]
    · have length' : m ≠ n := fun back => length back.symm
      rw [if_neg length, if_neg length, compatible_array, compatible_array, if_neg length,
        if_neg length']
      rfl

theorem unify_dictionary (k v k' v' : Ty) :
    unify h (.dictionary k v) (.dictionary k' v') =
      (unify h k k').bind fun a => (unify h v v').map (.dictionary a ·) := by
  by_cases same : k = k' ∧ v = v'
  · simp [same]
  · refine (if_neg (by simpa using same)).trans ?_
    cases unify h k k' <;> cases unify h v v' <;> rfl

theorem unifyAll_cons (a b : Ty) (as bs : List Ty) :
    unifyAll h (a :: as) (b :: bs) =
      (unify h a b).bind fun c => (unifyAll h as bs).map (c :: ·) := by
  change (unify h a b >>= fun c => unifyAll h as bs >>= fun cs => pure (c :: cs)) = _
  cases unify h a b <;> cases unifyAll h as bs <;> rfl

theorem compatibleAll_length {as bs cs : List Ty} (found : compatibleAll h as bs = some cs) :
    as.length = bs.length := by
  induction as generalizing bs cs with
  | nil => cases bs <;> simp_all [compatibleAll]
  | cons a as ih =>
    cases bs with
    | nil => simp [compatibleAll] at found
    | cons b bs =>
      rw [compatibleAll_cons] at found
      obtain ⟨c, -, found⟩ := Option.bind_eq_some_iff.mp found
      obtain ⟨cs, found, -⟩ := Option.map_eq_some_iff.mp found
      rw [List.length_cons, List.length_cons, ih found]

theorem unifyAll_length {as bs cs : List Ty} (found : unifyAll h as bs = some cs) :
    as.length = bs.length := by
  induction as generalizing bs cs with
  | nil => cases bs <;> simp_all [unifyAll]
  | cons a as ih =>
    cases bs with
    | nil => simp [unifyAll] at found
    | cons b bs =>
      rw [unifyAll_cons] at found
      obtain ⟨c, -, found⟩ := Option.bind_eq_some_iff.mp found
      obtain ⟨cs, found, -⟩ := Option.map_eq_some_iff.mp found
      rw [List.length_cons, List.length_cons, ih found]

theorem unify_tuple (as bs : List Ty) :
    unify h (.tuple as) (.tuple bs) = (unifyAll h as bs).map .tuple := by
  by_cases same : as = bs
  · simp [same, unifyAll_self]
  refine (if_neg (by simpa using same)).trans ?_
  split
  · rfl
  next lengths =>
  have left : compatible h (.tuple as) (.tuple bs) = none := by
    rw [compatible_tuple, Option.map_eq_none_iff, Option.eq_none_iff_forall_ne_some]
    exact fun cs found => lengths (compatibleAll_length found)
  have right : compatible h (.tuple bs) (.tuple as) = none := by
    rw [compatible_tuple, Option.map_eq_none_iff, Option.eq_none_iff_forall_ne_some]
    exact fun cs found => lengths (compatibleAll_length found).symm
  have joins : unifyAll h as bs = none := by
    rw [Option.eq_none_iff_forall_ne_some]
    exact fun cs found => lengths (unifyAll_length found)
  rw [left, right, joins]
  rfl

theorem isSome_bind_map {α β γ : Type} {x : Option α} {y : Option β} {f : α → β → γ} :
    (x.bind fun a => y.map (f a)).isSome = (x.isSome && y.isSome) := by
  cases x <;> cases y <;> rfl

/-! ## Induction -/

/-- Induction along compatibility: `P a b c` holds of a type `c` that compatibility gives for `a`
and `b`, and `Q` of lists of such types. -/
theorem compatible_induction {P : Ty → Ty → Ty → Prop} {Q : List Ty → List Ty → List Ty → Prop}
    (same : ∀ t, P t t t)
    (any : ∀ t, P t .any t)
    (number : ∀ t, t.isNumeric → P t .number t)
    (fromHole : ∀ t, t ≠ .any → t ≠ .number → P .hole t t)
    (toHole : ∀ t, P t .hole t)
    (atoms : ∀ a b c, compatibleAtoms h a b = some c → P (.atom a) (.atom b) c)
    (list : ∀ a b c, P a b c → P (.list a) (.list b) (.list c))
    (set : ∀ a b c, P a b c → P (.set a) (.set b) (.set c))
    (array : ∀ a b c n, P a b c → P (.array a n) (.array b n) (.array c n))
    (dictionary : ∀ k k' k'' v v' v'', P k k' k'' → P v v' v'' →
      P (.dictionary k v) (.dictionary k' v') (.dictionary k'' v''))
    (tuple : ∀ as bs cs, Q as bs cs → P (.tuple as) (.tuple bs) (.tuple cs))
    (function : ∀ ps ps' ps'' r r' r'', Q ps ps' ps'' → P r r' r'' →
      P (.function ps r) (.function ps' r') (.function ps'' r''))
    (nil : Q [] [] [])
    (cons : ∀ a b c as bs cs, P a b c → Q as bs cs → Q (a :: as) (b :: bs) (c :: cs))
    {a b c : Ty} (found : compatible h a b = some c) : P a b c := by
  revert c
  refine compatible.induct (fun a b => ∀ {c}, compatible h a b = some c → P a b c)
    (fun as bs => ∀ {cs}, compatibleAll h as bs = some cs → Q as bs cs)
    ?_ ?_ ?_ ?_ ?_ ?_ ?_ ?_ ?_ ?_ ?_ ?_ ?_ ?_ ?_ ?_ ?_ ?_ a b
  · intro t c found
    rw [compatible_self] at found
    cases found
    exact same t
  · intro t notAny c found
    rw [compatible, if_neg notAny] at found
    cases found
    exact any t
  · intro t numeric notNumber c found
    rw [compatible, if_neg notNumber, if_pos numeric] at found
    cases found
    exact number t numeric
  · intro t notNumeric notNumber c found
    rw [compatible, if_neg notNumber, if_neg notNumeric] at found
    cases found
  · intro t notAny notNumber _ c found
    rw [compatible_hole_left notAny notNumber] at found
    cases found
    exact fromHole t notAny notNumber
  · intro t _ _ c found
    rw [compatible_hole_right] at found
    cases found
    exact toHole t
  · intro a b differ c found
    rw [compatible_atom, if_neg (by simpa using differ)] at found
    exact atoms a b c found
  · intro a b _ ih c found
    rw [compatible_list] at found
    obtain ⟨c, inner, rfl⟩ := Option.map_eq_some_iff.mp found
    exact list a b c (ih inner)
  · intro a b _ ih c found
    rw [compatible_set] at found
    obtain ⟨c, inner, rfl⟩ := Option.map_eq_some_iff.mp found
    exact set a b c (ih inner)
  · intro a b n _ ih c found
    rw [compatible_array, if_pos rfl] at found
    obtain ⟨c, inner, rfl⟩ := Option.map_eq_some_iff.mp found
    exact array a b c n (ih inner)
  · intro a n b m lengths _ c found
    rw [compatible_array, if_neg lengths] at found
    cases found
  · intro k v k' v' _ ihKey ihValue c found
    rw [compatible_dictionary] at found
    obtain ⟨k'', innerKey, found⟩ := Option.bind_eq_some_iff.mp found
    obtain ⟨v'', innerValue, rfl⟩ := Option.map_eq_some_iff.mp found
    exact dictionary k k' k'' v v' v'' (ihKey innerKey) (ihValue innerValue)
  · intro as bs _ ih c found
    rw [compatible_tuple] at found
    obtain ⟨cs, inner, rfl⟩ := Option.map_eq_some_iff.mp found
    exact tuple as bs cs (ih inner)
  · intro ps r ps' r' _ ihParams ihRet c found
    rw [compatible_function] at found
    obtain ⟨ps'', innerParams, found⟩ := Option.bind_eq_some_iff.mp found
    obtain ⟨r'', innerRet, rfl⟩ := Option.map_eq_some_iff.mp found
    exact function ps ps' ps'' r r' r'' (ihParams innerParams) (ihRet innerRet)
  -- two forms for which there is no rule
  · intro a b differ fromHole' toAny toNumber toHole' atoms' list' set' array' dictionary' tuple'
      function' c found
    rw [compatible.eq_def, if_neg differ] at found
    split at found
    · exact (toAny rfl).elim
    · exact (toNumber rfl).elim
    · exact (fromHole' rfl).elim
    · exact (toHole' rfl).elim
    · exact (atoms' _ _ rfl rfl).elim
    · exact (list' _ _ rfl rfl).elim
    · exact (set' _ _ rfl rfl).elim
    · exact (array' _ _ _ _ rfl rfl).elim
    · exact (dictionary' _ _ _ _ rfl rfl).elim
    · exact (tuple' _ _ rfl rfl).elim
    · exact (function' _ _ _ _ rfl rfl).elim
    · cases found
  -- the lists of types, element by element
  · intro cs found
    rw [compatibleAll] at found
    cases found
    exact nil
  · intro a as b bs ih ihAll cs found
    rw [compatibleAll_cons] at found
    obtain ⟨c, inner, found⟩ := Option.bind_eq_some_iff.mp found
    obtain ⟨cs, innerAll, rfl⟩ := Option.map_eq_some_iff.mp found
    exact cons a b c as bs cs (ih inner) (ihAll innerAll)
  · intro as bs bothNil bothCons cs found
    cases as <;> cases bs <;> simp_all [compatibleAll]

/-- Induction along joins. -/
theorem unify_induction {P : Ty → Ty → Ty → Prop} {Q : List Ty → List Ty → List Ty → Prop}
    (same : ∀ t, P t t t)
    (fromHole : ∀ t, P .hole t t)
    (toHole : ∀ t, P t .hole t)
    (atoms : ∀ a b c, a ≠ b → unifyAtoms h a b = some c → P (.atom a) (.atom b) c)
    (list : ∀ a b c, P a b c → P (.list a) (.list b) (.list c))
    (set : ∀ a b c, P a b c → P (.set a) (.set b) (.set c))
    (array : ∀ a b c n, P a b c → P (.array a n) (.array b n) (.array c n))
    (dictionary : ∀ k k' k'' v v' v'', P k k' k'' → P v v' v'' →
      P (.dictionary k v) (.dictionary k' v') (.dictionary k'' v''))
    (tuple : ∀ as bs cs, Q as bs cs → P (.tuple as) (.tuple bs) (.tuple cs))
    (forward : ∀ a b c, compatible h a b = some c → P a b c)
    (backward : ∀ a b c, compatible h b a = some c → P a b c)
    (nil : Q [] [] [])
    (cons : ∀ a b c as bs cs, P a b c → Q as bs cs → Q (a :: as) (b :: bs) (c :: cs))
    {a b c : Ty} (found : unify h a b = some c) : P a b c := by
  revert c
  refine unify.induct (fun a b => ∀ {c}, unify h a b = some c → P a b c)
    (fun as bs => ∀ {cs}, unifyAll h as bs = some cs → Q as bs cs)
    ?_ ?_ ?_ ?_ ?_ ?_ ?_ ?_ ?_ ?_ ?_ ?_ ?_ ?_ ?_ a b
  · intro t c found
    rw [unify_self] at found
    cases found
    exact same t
  · intro t _ c found
    rw [unify_hole_left] at found
    cases found
    exact fromHole t
  · intro t _ _ c found
    rw [unify_hole_right] at found
    cases found
    exact toHole t
  · intro a b differ c found
    have differ' : a ≠ b := by simpa using differ
    rw [unify_atom, if_neg differ'] at found
    exact atoms a b c differ' found
  · intro a b _ ih c found
    rw [unify_list] at found
    obtain ⟨c, inner, rfl⟩ := Option.map_eq_some_iff.mp found
    exact list a b c (ih inner)
  · intro a b _ ih c found
    rw [unify_set] at found
    obtain ⟨c, inner, rfl⟩ := Option.map_eq_some_iff.mp found
    exact set a b c (ih inner)
  · intro a b n _ ih c found
    rw [unify_array, if_pos rfl] at found
    obtain ⟨c, inner, rfl⟩ := Option.map_eq_some_iff.mp found
    exact array a b c n (ih inner)
  · intro a n b m lengths _ c found
    rw [unify_array, if_neg lengths] at found
    cases found
  · intro k v k' v' _ ihKey ihValue c found
    rw [unify_dictionary] at found
    obtain ⟨k'', innerKey, found⟩ := Option.bind_eq_some_iff.mp found
    obtain ⟨v'', innerValue, rfl⟩ := Option.map_eq_some_iff.mp found
    exact dictionary k k' k'' v v' v'' (ihKey innerKey) (ihValue innerValue)
  · intro as bs _ _ ih c found
    rw [unify_tuple] at found
    obtain ⟨cs, inner, rfl⟩ := Option.map_eq_some_iff.mp found
    exact tuple as bs cs (ih inner)
  -- tuples of different lengths have no common type
  · intro as bs lengths _ c found
    rw [unify_tuple] at found
    obtain ⟨cs, inner, rfl⟩ := Option.map_eq_some_iff.mp found
    exact (lengths (unifyAll_length inner)).elim
  -- two forms for which there is no rule of their own: one side has to accept the other
  · intro a b differ fromHole' toHole' atoms' list' set' array' dictionary' tuple' c found
    rw [unify.eq_def, if_neg differ] at found
    split at found
    · exact (fromHole' rfl).elim
    · exact (toHole' rfl).elim
    · exact (atoms' _ _ rfl rfl).elim
    · exact (list' _ _ rfl rfl).elim
    · exact (set' _ _ rfl rfl).elim
    · exact (array' _ _ _ _ rfl rfl).elim
    · exact (dictionary' _ _ _ _ rfl rfl).elim
    · exact (tuple' _ _ rfl rfl).elim
    · rcases Option.or_eq_some_iff.mp found with found | ⟨-, found⟩
      · exact forward _ _ _ found
      · exact backward _ _ _ found
  -- the lists of types, element by element
  · intro cs found
    rw [unifyAll] at found
    cases found
    exact nil
  · intro a as b bs ih ihAll cs found
    rw [unifyAll_cons] at found
    obtain ⟨c, inner, found⟩ := Option.bind_eq_some_iff.mp found
    obtain ⟨cs, innerAll, rfl⟩ := Option.map_eq_some_iff.mp found
    exact cons a b c as bs cs (ih inner) (ihAll innerAll)
  · intro as bs bothNil bothCons cs found
    cases as <;> cases bs <;> simp_all [unifyAll]

end TreeTyper
