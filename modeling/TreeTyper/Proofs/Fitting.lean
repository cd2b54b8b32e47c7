import TreeTyper.Proofs.Widening

/-!
# What fits a signature fits the body

The type of a parameter is written down twice: the signature takes what later calls
fill in, the body what its own statements find.  Both begin with one type.  As long
as the body leaves the holes of that type alone, an argument that the signature
accepts is accepted by what the body has made of it:

          e
    fills ↙ ↘ widens
        p     n
        ↑
        t               t.Widens h p → (compatible h t n).isSome        (fits_of_keepsHoles)

A hole that the body fills is not a hole of `p` that is filled, so later arguments
need not fit it.
-/

namespace TreeTyper

namespace Ty

mutual

/-- Where the first type has a hole, so has the second. -/
def keepsHoles : Ty → Ty → Bool
  | .hole, n => n == .hole
  | .list e, .list n | .set e, .set n | .array e _, .array n _ => keepsHoles e n
  | .dictionary k v, .dictionary k' v' => keepsHoles k k' && keepsHoles v v'
  | .tuple es, .tuple ns => keepAllHoles es ns
  | .function ps r, .function ps' r' => keepAllHoles ps ps' && keepsHoles r r'
  | _, _ => true

def keepAllHoles : List Ty → List Ty → Bool
  | e :: es, n :: ns => keepsHoles e n && keepAllHoles es ns
  | _, _ => true

end

variable {h : Hierarchy}

/-! ## Below a type -/

theorem widens_list_iff {t b : Ty} :
    t.Widens h (list b) ↔ t = hole ∨ ∃ a, t = list a ∧ a.Widens h b := by
  unfold Widens
  cases t with
  | list a => simp [compatible_list]
  | hole => simp [compatible_hole_left]
  | _ => simp [compatible]

theorem widens_set_iff {t b : Ty} :
    t.Widens h (set b) ↔ t = hole ∨ ∃ a, t = set a ∧ a.Widens h b := by
  unfold Widens
  cases t with
  | set a => simp [compatible_set]
  | hole => simp [compatible_hole_left]
  | _ => simp [compatible]

theorem widens_array_iff {t b : Ty} {n : Nat} :
    t.Widens h (array b n) ↔ t = hole ∨ ∃ a, t = array a n ∧ a.Widens h b := by
  unfold Widens
  cases t with
  | array a m =>
    by_cases same : m = n
    · simp [compatible_array, same]
    · simp [compatible_array, same]
  | hole => simp [compatible_hole_left]
  | _ => simp [compatible]

theorem widens_dictionary_iff {t k v : Ty} : t.Widens h (dictionary k v) ↔
    t = hole ∨ ∃ k' v', t = dictionary k' v' ∧ k'.Widens h k ∧ v'.Widens h v := by
  unfold Widens
  cases t with
  | dictionary k' v' => simp [compatible_dictionary, Option.bind_eq_some_iff]
  | hole => simp [compatible_hole_left]
  | _ => simp [compatible]

theorem widens_tuple_iff {t : Ty} {bs : List Ty} : t.Widens h (tuple bs) ↔
    t = hole ∨ ∃ as, t = tuple as ∧ List.Forall₂ (Widens h) as bs := by
  simp only [forall₂_widens_iff]
  unfold Widens
  cases t with
  | tuple as => simp [compatible_tuple]
  | hole => simp [compatible_hole_left]
  | _ => simp [compatible]

theorem widens_function_iff {t r : Ty} {ps : List Ty} : t.Widens h (function ps r) ↔
    t = hole ∨ ∃ ps' r', t = function ps' r' ∧ List.Forall₂ (Widens h) ps' ps ∧ r'.Widens h r := by
  simp only [forall₂_widens_iff]
  unfold Widens
  cases t with
  | function ps' r' => simp [compatible_function, Option.bind_eq_some_iff]
  | hole => simp [compatible_hole_left]
  | _ => simp [compatible]

/-! ## Holes that stay -/

/-- A hole is accepted wherever values of some type are expected. -/
theorem isSome_compatible_hole {n : Ty} (notAny : n ≠ any) (notNumber : n ≠ number) :
    (compatible h hole n).isSome := by
  rw [compatible_hole_left notAny notNumber]
  rfl

mutual

/-- What the signature accepts fits the body, if the body has left the holes of their common
beginning alone. -/
theorem fits_of_keepsHoles (apart : h.NumbersApart) : ∀ {e p n t : Ty}, e.FillsTo p →
    e.Widens h n → e.keepsHoles n → t.Widens h p → (compatible h t n).isSome
  -- whatever has filled the hole in `p`, it is still one in `n` and takes everything
  | hole, _, n, t, _, _, keeps, _ => by
    have stays : n = hole := by simpa [keepsHoles] using keeps
    rw [stays, compatible_hole_right]
    rfl
  | list e, _, _, _, fills, widens, keeps, fits => by
    obtain ⟨p, rfl, fills'⟩ := list_fillsTo_iff.mp fills
    obtain ⟨n, rfl, widens'⟩ := list_widens_iff.mp widens
    rcases widens_list_iff.mp fits with rfl | ⟨t, rfl, fits'⟩
    · exact isSome_compatible_hole nofun nofun
    · rw [compatible_list, Option.isSome_map]
      exact fits_of_keepsHoles apart fills' widens' keeps fits'
  | set e, _, _, _, fills, widens, keeps, fits => by
    obtain ⟨p, rfl, fills'⟩ := set_fillsTo_iff.mp fills
    obtain ⟨n, rfl, widens'⟩ := set_widens_iff.mp widens
    rcases widens_set_iff.mp fits with rfl | ⟨t, rfl, fits'⟩
    · exact isSome_compatible_hole nofun nofun
    · rw [compatible_set, Option.isSome_map]
      exact fits_of_keepsHoles apart fills' widens' keeps fits'
  | array e len, _, _, _, fills, widens, keeps, fits => by
    obtain ⟨p, rfl, fills'⟩ := array_fillsTo_iff.mp fills
    obtain ⟨n, rfl, widens'⟩ := array_widens_iff.mp widens
    rcases widens_array_iff.mp fits with rfl | ⟨t, rfl, fits'⟩
    · exact isSome_compatible_hole nofun nofun
    · rw [compatible_array, if_pos rfl, Option.isSome_map]
      exact fits_of_keepsHoles apart fills' widens' keeps fits'
  | dictionary k v, _, _, _, fills, widens, keeps, fits => by
    obtain ⟨pk, pv, rfl, fillsKey, fillsValue⟩ := dictionary_fillsTo_iff.mp fills
    obtain ⟨nk, nv, rfl, widensKey, widensValue⟩ := dictionary_widens_iff.mp widens
    obtain ⟨keepsKey, keepsValue⟩ := Bool.and_eq_true_iff.mp keeps
    rcases widens_dictionary_iff.mp fits with rfl | ⟨tk, tv, rfl, fitsKey, fitsValue⟩
    · exact isSome_compatible_hole nofun nofun
    · obtain ⟨_, foundKey⟩ := Option.isSome_iff_exists.mp
        (fits_of_keepsHoles apart fillsKey widensKey keepsKey fitsKey)
      obtain ⟨_, foundValue⟩ := Option.isSome_iff_exists.mp
        (fits_of_keepsHoles apart fillsValue widensValue keepsValue fitsValue)
      rw [compatible_dictionary, foundKey, foundValue]
      rfl
  | tuple es, _, _, _, fills, widens, keeps, fits => by
    obtain ⟨ps, rfl, fills'⟩ := tuple_fillsTo_iff.mp fills
    obtain ⟨ns, rfl, widens'⟩ := tuple_widens_iff.mp widens
    rcases widens_tuple_iff.mp fits with rfl | ⟨ts, rfl, fits'⟩
    · exact isSome_compatible_hole nofun nofun
    · rw [compatible_tuple, Option.isSome_map]
      exact allFit_of_keepAllHoles apart fills' widens' keeps fits'
  | function es e, _, _, _, fills, widens, keeps, fits => by
    obtain ⟨ps, p, rfl, fillsParams, fillsRet⟩ := function_fillsTo_iff.mp fills
    obtain ⟨ns, n, rfl, widensParams, widensRet⟩ := function_widens_iff.mp widens
    obtain ⟨keepsParams, keepsRet⟩ := Bool.and_eq_true_iff.mp keeps
    rcases widens_function_iff.mp fits with rfl | ⟨ts, t, rfl, fitsParams, fitsRet⟩
    · exact isSome_compatible_hole nofun nofun
    · obtain ⟨_, foundParams⟩ := Option.isSome_iff_exists.mp
        (allFit_of_keepAllHoles apart fillsParams widensParams keepsParams fitsParams)
      obtain ⟨_, foundRet⟩ := Option.isSome_iff_exists.mp
        (fits_of_keepsHoles apart fillsRet widensRet keepsRet fitsRet)
      rw [compatible_function, foundParams, foundRet]
      rfl
  -- without holes `p` is `e`, and widening is transitive
  | atom _, _, n, t, fills, widens, _, fits
  | any, _, n, t, fills, widens, _, fits
  | number, _, n, t, fills, widens, _, fits
  | placeholder _, _, n, t, fills, widens, _, fits => by
    rw [(fillsTo_iff_of_not_hasHoles rfl).mp fills] at fits
    have accepted : compatible h t n = some n := Widens.trans apart fits widens
    rw [accepted]
    rfl

theorem allFit_of_keepAllHoles (apart : h.NumbersApart) : ∀ {es ps ns ts : List Ty},
    List.Forall₂ FillsTo es ps → List.Forall₂ (Widens h) es ns → keepAllHoles es ns →
    List.Forall₂ (Widens h) ts ps → (compatibleAll h ts ns).isSome
  | [], _, _, _, .nil, .nil, _, .nil => rfl
  | e :: es, _, _, _, .cons fills fillsAll, .cons widens widensAll, keeps, .cons fits fitsAll => by
    obtain ⟨keepsFirst, keepsRest⟩ := Bool.and_eq_true_iff.mp keeps
    obtain ⟨_, found⟩ := Option.isSome_iff_exists.mp
      (fits_of_keepsHoles apart fills widens keepsFirst fits)
    obtain ⟨_, foundAll⟩ := Option.isSome_iff_exists.mp
      (allFit_of_keepAllHoles apart fillsAll widensAll keepsRest fitsAll)
    rw [compatibleAll_cons, found, foundAll]
    rfl

end

end Ty

end TreeTyper
