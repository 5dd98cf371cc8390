import MergeOnRead.Proofs.Lists
import MergeOnRead.Proofs.Sorting
import MergeOnRead.Row.Basic

/-!
# Canonical values are equal to themselves

A NaN is not equal to itself, and a canonical form has one stand-in for every double that is a NaN.
Two kinds of NaN stay in it: decimals, and whatever stands in the key of a dictionary.  Without
these a canonical form has a settled key (`Value.isSettled_canonical`).

Values that can be kept in a set are compared without a signaling NaN being met
(`Value.signals_eq_false`).
-/

namespace MergeOnRead

namespace Key

theorem areSettled_iff {ks : List Key} : areSettled ks = true ↔ ∀ k ∈ ks, k.isSettled = true := by
  induction ks with
  | nil => simp [areSettled]
  | cons k ks ih => simp [areSettled, ih]

theorem areSettled_insertSorted (k : Key) (ks : List Key) :
    areSettled (insertSorted k ks) = (k.isSettled && areSettled ks) := by
  induction ks with
  | nil => rfl
  | cons l ls ih =>
      rw [insertSorted]
      split
      · rfl
      · rw [areSettled, ih, areSettled]
        exact Bool.and_left_comm ..

end Key

/-! ## Numbers that are not numbers -/

namespace Scalar

/-- Whether a scalar is a decimal that is a NaN. -/
def isDecimalNaN : Scalar → Bool
  | .decimal (.nan _ _ _) => true
  | _ => false

/-- Whether a scalar is a number that is a NaN. -/
def isNaN : Scalar → Bool
  | .float x => x.isNaN
  | s => s.isDecimalNaN

theorem isSettled_atom {s : Scalar} (h : s.isNaN = false) : (Key.atom s.atom).isSettled = true := by
  cases s with
  | float x =>
      have hvalue : ∃ e, Exact.ofBinary64? x = some e := by
        rw [isNaN] at h
        rw [Exact.ofBinary64?, h, if_neg (by decide)]
        split
        · exact ⟨_, rfl⟩
        · split
          · exact ⟨_, rfl⟩
          · exact ⟨_, rfl⟩
      obtain ⟨e, he⟩ := hvalue
      have hatom : (Scalar.float x).atom = .number e := by simp only [atom, he]
      rw [hatom]
      rfl
  | decimal d =>
      cases d with
      | finite _ _ _ | infinite _ => simp [atom, Exact.ofDecimal?, Key.isSettled]
      | nan _ _ _ => simp [isNaN, isDecimalNaN] at h
  | _ => rfl

theorem atom_ne_stray {s : Scalar} (h : s.isNaN = false) : s.atom ≠ .stray := by
  intro hstray
  have hsettled := isSettled_atom h
  rw [hstray] at hsettled
  cases hsettled

/-- The canonical form of a double is no NaN. -/
theorem isNaN_canonical (s : Scalar) : s.canonical.isNaN = s.isDecimalNaN := by
  cases s with
  | float x =>
      rw [canonical]
      split
      · rfl
      · rename_i hx
        simpa [isNaN, isDecimalNaN] using hx
  | _ => rfl

end Scalar

namespace Value

theorem eq_iff {c k : Value} : c.eq k = true ↔ c.key = k.key ∧ c.key.isSettled = true := by
  rw [eq, Bool.and_eq_true, decide_eq_true_eq]

theorem keys_eq_map (vs : List Value) : keys vs = vs.map key := by
  induction vs with
  | nil => rfl
  | cons v vs ih => rw [keys, ih, List.map_cons]

mutual

/-- A value without a NaN has a settled key. -/
theorem isSettled_key : (v : Value) → v.every (fun s => !s.isNaN) = true → v.key.isSettled = true
  | .scalar s, h => by
      rw [key]
      exact Scalar.isSettled_atom (by simpa [every] using h)
  | .list items, h => by
      rw [key, Key.isSettled]
      exact areSettled_keys items (by rwa [every] at h)
  | .tuple items, h => by
      rw [key, Key.isSettled]
      exact areSettled_keys items (by rwa [every] at h)
  | .dict entries, h => by
      rw [key, Key.isSettled]
      exact areSettled_entryKeys entries (by rwa [every] at h)

theorem areSettled_keys : (vs : List Value) → everyItem (fun s => !s.isNaN) vs = true →
    Key.areSettled (keys vs) = true
  | [], _ => rfl
  | v :: vs, h => by
      rw [everyItem, Bool.and_eq_true] at h
      rw [keys, Key.areSettled, isSettled_key v h.1, areSettled_keys vs h.2, Bool.and_self]

theorem areSettled_entryKeys : (es : List (Value × Value)) →
    everyEntry (fun s => !s.isNaN) es = true → Key.areSettled (entryKeys es) = true
  | [], _ => rfl
  | (k, v) :: es, h => by
      rw [everyEntry, Bool.and_eq_true, Bool.and_eq_true] at h
      rw [entryKeys, Key.areSettled_insertSorted, areSettled_entryKeys es h.2, Bool.and_true]
      simp [Key.isSettled, Key.areSettled, isSettled_key k h.1.1, isSettled_key v h.1.2]

end

/-! ## Canonical forms -/

mutual

/-- No decimal is a NaN, and in the keys of dictionaries nothing is. -/
def isRegular : Value → Bool
  | .scalar s => !s.isDecimalNaN
  | .list items => areRegular items
  | .tuple items => areRegular items
  | .dict entries => areRegularEntries entries

/-- All items are regular. -/
def areRegular : List Value → Bool
  | [] => true
  | v :: vs => v.isRegular && areRegular vs

/-- The keys hold no NaN, and the values are regular. -/
def areRegularEntries : List (Value × Value) → Bool
  | [] => true
  | (k, v) :: es => k.every (fun s => !s.isNaN) && v.isRegular && areRegularEntries es

end

mutual

/-- The canonical form of a regular value has a settled key. -/
theorem isSettled_canonical : (v : Value) → {c : Value} → v.isRegular = true →
    v.canonical = .ok c → c.key.isSettled = true
  | .scalar s, c, hv, hc => by
      rw [canonical] at hc
      cases hc
      rw [isRegular, ← Scalar.isNaN_canonical] at hv
      exact Scalar.isSettled_atom (by simpa using hv)
  | .list items, c, hv, hc => by
      rw [canonical] at hc
      obtain ⟨cs, hcs, rfl⟩ := map_eq_ok_iff.1 hc
      exact areSettled_canonicalItems items hv hcs
  | .tuple items, c, hv, hc => by
      rw [canonical] at hc
      obtain ⟨cs, hcs, rfl⟩ := map_eq_ok_iff.1 hc
      exact areSettled_canonicalItems items hv hcs
  | .dict entries, c, hv, hc => by
      rw [canonical] at hc
      obtain ⟨es, hes, hc⟩ := bind_eq_ok_iff.1 hc
      obtain ⟨sorted, hsorted, hc⟩ := bind_eq_ok_iff.1 hc
      cases hc
      have hentries := areSettled_canonicalEntries entries hv hes
      rw [key, Key.isSettled, Key.areSettled_iff, keys_eq_map, List.map_map]
      intro k hk
      obtain ⟨e, he, rfl⟩ := List.mem_map.1 hk
      -- Sorting has only moved the entries.
      obtain ⟨hkey, hvalue⟩ := hentries e ((Sorting.sort_perm hsorted).mem_iff.1 he)
      simp [key, keys, Key.isSettled, Key.areSettled, hkey, hvalue]

theorem areSettled_canonicalItems : (vs : List Value) → {cs : List Value} →
    areRegular vs = true → canonicalItems vs = .ok cs → Key.areSettled (keys cs) = true
  | [], cs, _, hc => by
      rw [canonicalItems] at hc
      cases hc
      rfl
  | v :: vs, cs, hv, hc => by
      rw [areRegular, Bool.and_eq_true] at hv
      rw [canonicalItems] at hc
      obtain ⟨c, hfirst, hc⟩ := bind_eq_ok_iff.1 hc
      obtain ⟨rest, hrest, hc⟩ := bind_eq_ok_iff.1 hc
      cases hc
      rw [keys, Key.areSettled, isSettled_canonical v hv.1 hfirst,
        areSettled_canonicalItems vs hv.2 hrest, Bool.and_self]

theorem areSettled_canonicalEntries : (es : List (Value × Value)) → {fs : List (Value × Value)} →
    areRegularEntries es = true → canonicalEntries es = .ok fs →
    ∀ e ∈ fs, e.1.key.isSettled = true ∧ e.2.key.isSettled = true
  | [], fs, _, hf => by
      rw [canonicalEntries] at hf
      cases hf
      intro e he
      cases he
  | (k, v) :: es, fs, hes, hf => by
      rw [areRegularEntries, Bool.and_eq_true, Bool.and_eq_true] at hes
      rw [canonicalEntries] at hf
      obtain ⟨c, hfirst, hf⟩ := bind_eq_ok_iff.1 hf
      obtain ⟨rest, hrest, hf⟩ := bind_eq_ok_iff.1 hf
      cases hf
      intro e he
      rcases List.mem_cons.1 he with rfl | he
      · exact ⟨isSettled_key k hes.1.1, isSettled_canonical v hes.1.2 hfirst⟩
      · exact areSettled_canonicalEntries es hes.2 hrest e he

end

theorem areRegular_iff {vs : List Value} : areRegular vs = true ↔ ∀ v ∈ vs, v.isRegular = true := by
  induction vs with
  | nil => simp [areRegular]
  | cons v vs ih => simp [areRegular, ih]

end Value

/-- Regular values make a settled key. -/
theorem Row.areSettled_canonicalValues {values key : List Value}
    (hregular : Value.areRegular values = true) (h : canonicalValues values = .ok key) :
    Key.areSettled (Value.keys key) = true := by
  rw [canonicalValues, mapM_eq_ok_iff] at h
  rw [Value.keys_eq_map, Key.areSettled_iff]
  intro k hk
  obtain ⟨c, hc, rfl⟩ := List.mem_map.1 hk
  obtain ⟨v, hv, hcanonical⟩ := exists_mem_of_forall₂ h hc
  exact Value.isSettled_canonical v (Value.areRegular_iff.1 hregular v hv)
    (mapError_eq_ok_iff.1 hcanonical)

namespace Value

/-! ## Values of a set -/

mutual

/-- Values that can be kept in a set are compared without an error. -/
theorem signals_eq_false : (v w : Value) → v.isHashable = true → w.isHashable = true →
    v.signals w = false
  | .scalar s, .scalar t, hv, hw => by
      have hquiet : ∀ {s : Scalar}, (Value.scalar s).isHashable = true → s.isSignaling = false := by
        intro s hs
        cases s with
        | decimal d => simpa [isHashable] using hs
        | _ => rfl
      rw [signals, Scalar.signals, hquiet hv, hquiet hw]
      simp
  | .tuple xs, .tuple ys, hv, hw => by
      rw [signals]
      exact signalsItems_eq_false xs ys (by rwa [isHashable] at hv) (by rwa [isHashable] at hw)
  | .list _, _, hv, _ => by simp [isHashable] at hv
  | .dict _, _, hv, _ => by simp [isHashable] at hv
  | _, .list _, _, hw => by simp [isHashable] at hw
  | _, .dict _, _, hw => by simp [isHashable] at hw
  | .scalar _, .tuple _, _, _ => rfl
  | .tuple _, .scalar _, _, _ => rfl

theorem signalsItems_eq_false : (vs ws : List Value) → areHashable vs = true →
    areHashable ws = true → signalsItems vs ws = false
  | [], _, _, _ => by simp [signalsItems]
  | _ :: _, [], _, _ => rfl
  | v :: vs, w :: ws, hv, hw => by
      rw [areHashable, Bool.and_eq_true] at hv hw
      rw [signalsItems, signals_eq_false v w hv.1 hw.1, signalsItems_eq_false vs ws hv.2 hw.2]
      simp

end

end Value

end MergeOnRead
