import MergeOnRead.Proofs.KeyOrder
import MergeOnRead.Proofs.RowSets

/-!
# Forms of a value

One value comes in several forms: with any bits of a NaN, any holder of binary data, lists or
tuples, and the entries of a dictionary in any order (`Value.Alike`).  What the canonical form of a
value says of it, and what the forms of the key of a dictionary have in common, is shown here.

Strategy:

* canonical forms hold no dictionary, so that each has a canonical form, which is equal to it unless
  a NaN is left in it (`isHashable_canonical`, `exists_canonical_of_isHashable`);
* the forms of a key are equal unless a NaN is in it (`key_eq_of_alike`);
* every key has a form in which views hold its binary data (`viewed`), and nothing else sets it
  apart from other keys of this form (`less_viewed`).
-/

namespace MergeOnRead

/-! ## Forms of a value -/

/-- Scalars that differ by the bits of a NaN or by the holder of binary data only. -/
inductive Scalar.Alike : Scalar → Scalar → Prop where
  | refl (s : Scalar) : Alike s s
  | nan {x y : Binary64} (hx : x.isNaN = true) (hy : y.isNaN = true) : Alike (.float x) (.float y)
  | binary (holder holder' : BinaryHolder) (bytes : List UInt8) :
      Alike (.binary holder bytes) (.binary holder' bytes)

namespace Scalar

theorem atom_of_isNaN {s : Scalar} (h : s.isNaN = true) : s.atom = .stray := by
  cases s with
  | float x =>
      rw [isNaN] at h
      rw [atom, Exact.ofBinary64?, if_pos h]
  | decimal d =>
      cases d with
      | nan _ _ _ => rfl
      | finite _ _ _ | infinite _ => cases h
  | _ => cases h

/-- A key that is equal to itself is that of no NaN. -/
theorem isNaN_eq_false {s : Scalar} (h : (Key.atom s.atom).isSettled = true) :
    s.isNaN = false := by
  rw [Bool.eq_false_iff]
  intro hnan
  rw [atom_of_isNaN hnan] at h
  cases h

theorem atom_canonical {s : Scalar} (h : s.isNaN = false) : s.canonical.atom = s.atom := by
  cases s with
  | float x => rw [canonical, if_neg (by simpa [isNaN] using h)]
  | _ => rfl

end Scalar

namespace Value

/-- The items of a list or of a tuple. -/
inductive HasItems : Value → List Value → Prop where
  | list (vs : List Value) : HasItems (.list vs) vs
  | tuple (vs : List Value) : HasItems (.tuple vs) vs

mutual

/-- Forms of one value: they differ by scalars that are alike, by a list in the place of a tuple,
and by the order of the entries of dictionaries. -/
inductive Alike : Value → Value → Prop where
  | scalar {s t : Scalar} (h : s.Alike t) : Alike (.scalar s) (.scalar t)
  | sequence {v w : Value} {vs ws : List Value} (hv : v.HasItems vs) (hw : w.HasItems ws)
      (h : AlikeItems vs ws) : Alike v w
  | dict {es fs gs : List (Value × Value)} (h : AlikeEntries es fs) (horder : fs.Perm gs) :
      Alike (.dict es) (.dict gs)

/-- Forms of the items of a sequence. -/
inductive AlikeItems : List Value → List Value → Prop where
  | nil : AlikeItems [] []
  | cons {v w : Value} {vs ws : List Value} (h : Alike v w) (hs : AlikeItems vs ws) :
      AlikeItems (v :: vs) (w :: ws)

/-- Forms of the entries of a dictionary, in order. -/
inductive AlikeEntries : List (Value × Value) → List (Value × Value) → Prop where
  | nil : AlikeEntries [] []
  | cons {k l v w : Value} {es fs : List (Value × Value)} (hk : Alike k l) (h : Alike v w)
      (hs : AlikeEntries es fs) : AlikeEntries ((k, v) :: es) ((l, w) :: fs)

end

mutual

/-- A value as it is decoded: no decimal is a NaN, and the keys of a dictionary are different and
can be kept in a set. -/
def isData : Value → Bool
  | .scalar s => !s.isDecimalNaN
  | .list vs => areData vs
  | .tuple vs => areData vs
  | .dict es => areDataEntries es && decide (es.Pairwise fun e f => e.1.eq f.1 = false)

/-- All items are data. -/
def areData : List Value → Bool
  | [] => true
  | v :: vs => v.isData && areData vs

/-- Keys that can be kept in a set, and values that are data. -/
def areDataEntries : List (Value × Value) → Bool
  | [] => true
  | (k, v) :: es =>
    k.isHashable && k.every (fun s => !s.isDecimalNaN) && v.isData && areDataEntries es

end

mutual

theorem Alike.refl : (v : Value) → v.Alike v
  | .scalar s => .scalar (.refl s)
  | .list vs => .sequence (.list vs) (.list vs) (AlikeItems.refl vs)
  | .tuple vs => .sequence (.tuple vs) (.tuple vs) (AlikeItems.refl vs)
  | .dict es => .dict (AlikeEntries.refl es) (.refl es)

theorem AlikeItems.refl : (vs : List Value) → AlikeItems vs vs
  | [] => .nil
  | v :: vs => .cons (Alike.refl v) (AlikeItems.refl vs)

theorem AlikeEntries.refl : (es : List (Value × Value)) → AlikeEntries es es
  | [] => .nil
  | (k, v) :: es => .cons (Alike.refl k) (Alike.refl v) (AlikeEntries.refl es)

end

theorem areDataEntries_iff {es : List (Value × Value)} : areDataEntries es = true ↔
    ∀ e ∈ es, (e.1.isHashable = true ∧ e.1.every (fun s => !s.isDecimalNaN) = true) ∧
      e.2.isData = true := by
  induction es with
  | nil => simp [areDataEntries]
  | cons e es ih => simp [areDataEntries, ih]

theorem areRegularEntries_iff {es : List (Value × Value)} : areRegularEntries es = true ↔
    ∀ e ∈ es, e.1.every (fun s => !s.isNaN) = true ∧ e.2.isRegular = true := by
  induction es with
  | nil => simp [areRegularEntries]
  | cons e es ih => simp [areRegularEntries, ih]

theorem isData_dict_iff {es : List (Value × Value)} : (dict es).isData = true ↔
    areDataEntries es = true ∧ (es.map Prod.fst).Pairwise fun k l => k.eq l = false := by
  rw [isData, Bool.and_eq_true, decide_eq_true_iff, List.pairwise_map]

/-! ## Canonical forms -/

theorem canonical_dict_eq_ok_iff {es : List (Value × Value)} {c : Value} :
    (dict es).canonical = .ok c ↔ ∃ cs sorted, canonicalEntries es = .ok cs ∧
      Sorting.sort lessEntry cs = .ok sorted ∧ c = .tuple (sorted.map pairOf) := by
  constructor
  · intro h
    rw [canonical] at h
    obtain ⟨cs, hcs, h⟩ := bind_eq_ok_iff.1 h
    obtain ⟨sorted, hsorted, h⟩ := bind_eq_ok_iff.1 h
    cases h
    exact ⟨cs, sorted, hcs, hsorted, rfl⟩
  · rintro ⟨cs, sorted, hcs, hsorted, rfl⟩
    rw [canonical, hcs, ok_bind, hsorted, ok_bind]
    rfl

theorem map_fst_of_canonicalEntries {es cs : List (Value × Value)}
    (h : canonicalEntries es = .ok cs) : cs.map Prod.fst = es.map Prod.fst := by
  have hentries := canonicalEntries_eq_ok_iff.1 h
  clear h
  induction hentries with
  | nil => rfl
  | cons h _ ih => rw [List.map_cons, List.map_cons, h.1, ih]

mutual

/-- What can be kept in a set has a canonical form, which is equal to it if no NaN is in it. -/
theorem exists_canonical_of_isHashable : (c : Value) → c.isHashable = true →
    ∃ c', c.canonical = .ok c' ∧ (c.key.isSettled = true → c'.key = c.key)
  | .scalar s, _ => by
      refine ⟨_, rfl, fun hsettled => ?_⟩
      rw [key] at hsettled
      rw [key, key, Scalar.atom_canonical (Scalar.isNaN_eq_false hsettled)]
  | .tuple vs, h => by
      obtain ⟨cs, hcs, hkeys⟩ := exists_canonicalItems_of_areHashable vs (by rwa [isHashable] at h)
      refine ⟨.tuple cs, by rw [canonical, hcs]; rfl, fun hsettled => ?_⟩
      rw [key, key, hkeys (by rwa [key, Key.isSettled] at hsettled)]
  | .list _, h => nomatch h
  | .dict _, h => nomatch h

theorem exists_canonicalItems_of_areHashable : (cs : List Value) → areHashable cs = true →
    ∃ cs', canonicalItems cs = .ok cs' ∧ (Key.areSettled (keys cs) = true → keys cs' = keys cs)
  | [], _ => ⟨[], rfl, fun _ => rfl⟩
  | c :: cs, h => by
      rw [areHashable, Bool.and_eq_true] at h
      obtain ⟨c', hc, hkey⟩ := exists_canonical_of_isHashable c h.1
      obtain ⟨cs', hcs, hkeys⟩ := exists_canonicalItems_of_areHashable cs h.2
      refine ⟨c' :: cs', by rw [canonicalItems, hc, ok_bind, hcs, ok_bind], fun hsettled => ?_⟩
      rw [keys, Key.areSettled, Bool.and_eq_true] at hsettled
      rw [keys, keys, hkey hsettled.1, hkeys hsettled.2]

end

mutual

/-- A key that is equal to itself holds no NaN. -/
theorem every_of_isSettled : (v : Value) → v.isHashable = true → v.key.isSettled = true →
    v.every (fun s => !s.isNaN) = true
  | .scalar s, _, h => by
      rw [key] at h
      rw [every, Scalar.isNaN_eq_false h]
      rfl
  | .tuple vs, hv, h => everyItem_of_areSettled vs (by rwa [isHashable] at hv) h
  | .list _, hv, _ => nomatch hv
  | .dict _, hv, _ => nomatch hv

theorem everyItem_of_areSettled : (vs : List Value) → areHashable vs = true →
    Key.areSettled (keys vs) = true → everyItem (fun s => !s.isNaN) vs = true
  | [], _, _ => rfl
  | v :: vs, hv, h => by
      rw [areHashable, Bool.and_eq_true] at hv
      rw [keys, Key.areSettled, Bool.and_eq_true] at h
      rw [everyItem, every_of_isSettled v hv.1 h.1, everyItem_of_areSettled vs hv.2 h.2]
      rfl

end

mutual

/-- The canonical form of data can be kept in a set, and holds a NaN wherever a key does. -/
theorem isHashable_canonical : (v : Value) → {c : Value} → v.isData = true → v.canonical = .ok c →
    c.isHashable = true ∧ (c.key.isSettled = true → v.isRegular = true)
  | .scalar s, c, hv, hc => by
      cases hc
      exact ⟨(Scalar.isKeyed_canonical (by simpa [isData] using hv)).hashable, fun _ => hv⟩
  | .list vs, c, hv, hc | .tuple vs, c, hv, hc => by
      obtain ⟨cs, hcs, rfl⟩ := map_eq_ok_iff.1 hc
      exact areHashable_canonicalItems vs hv hcs
  | .dict es, c, hv, hc => by
      obtain ⟨cs, sorted, hcs, hsorted, rfl⟩ := canonical_dict_eq_ok_iff.1 hc
      obtain ⟨hhashable, hsettled⟩ :=
        areHashable_canonicalEntries es (isData_dict_iff.1 hv).1 hcs
      have hperm := Sorting.sort_perm hsorted
      constructor
      · rw [isHashable, areHashable_iff, List.forall_mem_map]
        intro e he
        obtain ⟨hkey, hvalue⟩ := hhashable e (hperm.mem_iff.1 he)
        simp [pairOf, isHashable, areHashable, hkey, hvalue]
      · intro h
        rw [key, Key.isSettled, Key.areSettled_iff, keys_eq_map, List.map_map,
          List.forall_mem_map] at h
        refine hsettled fun e he => ?_
        simpa [pairOf, key, keys, Key.isSettled, Key.areSettled] using h e (hperm.mem_iff.2 he)

theorem areHashable_canonicalItems : (vs : List Value) → {cs : List Value} → areData vs = true →
    canonicalItems vs = .ok cs →
    areHashable cs = true ∧ (Key.areSettled (keys cs) = true → areRegular vs = true)
  | [], cs, _, hcs => by
      cases hcs
      exact ⟨rfl, fun _ => rfl⟩
  | v :: vs, cs, hv, hcs => by
      rw [areData, Bool.and_eq_true] at hv
      rw [canonicalItems] at hcs
      obtain ⟨c, hc, hcs⟩ := bind_eq_ok_iff.1 hcs
      obtain ⟨rest, hrest, hcs⟩ := bind_eq_ok_iff.1 hcs
      cases hcs
      obtain ⟨hhashable, hregular⟩ := isHashable_canonical v hv.1 hc
      obtain ⟨hhashables, hregulars⟩ := areHashable_canonicalItems vs hv.2 hrest
      refine ⟨by rw [areHashable, hhashable, hhashables]; rfl, fun h => ?_⟩
      rw [keys, Key.areSettled, Bool.and_eq_true] at h
      rw [areRegular, hregular h.1, hregulars h.2]
      rfl

theorem areHashable_canonicalEntries : (es : List (Value × Value)) →
    {cs : List (Value × Value)} → areDataEntries es = true → canonicalEntries es = .ok cs →
    (∀ e ∈ cs, e.1.isHashable = true ∧ e.2.isHashable = true) ∧
      ((∀ e ∈ cs, e.1.key.isSettled = true ∧ e.2.key.isSettled = true) →
        areRegularEntries es = true)
  | [], cs, _, hcs => by
      cases hcs
      exact ⟨nofun, fun _ => rfl⟩
  | (k, v) :: es, cs, hes, hcs => by
      rw [areDataEntries, Bool.and_eq_true, Bool.and_eq_true, Bool.and_eq_true] at hes
      rw [canonicalEntries] at hcs
      obtain ⟨c, hc, hcs⟩ := bind_eq_ok_iff.1 hcs
      obtain ⟨rest, hrest, hcs⟩ := bind_eq_ok_iff.1 hcs
      cases hcs
      obtain ⟨hhashable, hregular⟩ := isHashable_canonical v hes.1.2 hc
      obtain ⟨hhashables, hregulars⟩ := areHashable_canonicalEntries es hes.2 hrest
      refine ⟨List.forall_mem_cons.2 ⟨⟨hes.1.1.1, hhashable⟩, hhashables⟩, fun h => ?_⟩
      obtain ⟨hfirst, hothers⟩ := List.forall_mem_cons.1 h
      rw [areRegularEntries, every_of_isSettled k hes.1.1.1 hfirst.1, hregular hfirst.2,
        hregulars hothers]
      rfl

end

/-! ## Keys of forms -/

mutual

/-- The forms of a key that can be kept in a set are equal, as long as no NaN is in them. -/
theorem key_eq_of_alike : (k : Value) → {l : Value} → k.Alike l → k.IsKeyed → l.isHashable = true →
    l.key = k.key
  | .scalar s, l, h, hk, hl => by
      cases h with
      | scalar h =>
          rw [key, key]
          cases h with
          | refl => rfl
          | nan hx hy =>
              have hnan := Scalar.isNaN_eq_false hk.settled
              rw [Scalar.isNaN, hx] at hnan
              cases hnan
          | binary _ _ _ => rfl
      | sequence hv _ _ => cases hv
  | .tuple vs, l, h, hk, hl => by
      cases h with
      | sequence hv hw h =>
          cases hv
          cases hw with
          | list ws => cases hl
          | tuple ws =>
              rw [key, key, keys_eq_of_alike vs h (isKeyed_of_tuple hk) (by rwa [isHashable] at hl)]
  | .list _, _, _, hk, _ => nomatch hk.hashable
  | .dict _, _, _, hk, _ => nomatch hk.hashable

theorem keys_eq_of_alike : (vs : List Value) → {ws : List Value} → AlikeItems vs ws →
    (∀ v ∈ vs, v.IsKeyed) → areHashable ws = true → keys ws = keys vs
  | [], ws, h, _, _ => by
      cases h
      rfl
  | v :: vs, ws, h, hv, hw => by
      cases h with
      | cons h hs =>
          obtain ⟨hfirst, hrest⟩ := List.forall_mem_cons.1 hv
          rw [areHashable, Bool.and_eq_true] at hw
          rw [keys, keys, key_eq_of_alike v h hfirst hw.1, keys_eq_of_alike vs hs hrest hw.2]

end

/-! ## Views of binary data -/

mutual

/-- The form of a key in which views hold the binary data. -/
def viewed : Value → Value
  | .scalar (.binary _ data) => .scalar (.binary .view data)
  | .scalar s => .scalar s
  | .tuple vs => .tuple (viewedItems vs)
  | .list vs => .list vs
  | .dict es => .dict es

/-- The same for all items. -/
def viewedItems : List Value → List Value
  | [] => []
  | v :: vs => v.viewed :: viewedItems vs

end

mutual

theorem alike_viewed : (v : Value) → v.Alike v.viewed
  | .scalar s => by
      cases s with
      | binary _ _ => exact .scalar (.binary ..)
      | _ => exact .scalar (.refl _)
  | .tuple vs => .sequence (.tuple vs) (.tuple _) (alikeItems_viewed vs)
  | .list vs => .refl (.list vs)
  | .dict es => .refl (.dict es)

theorem alikeItems_viewed : (vs : List Value) → AlikeItems vs (viewedItems vs)
  | [] => .nil
  | v :: vs => .cons (alike_viewed v) (alikeItems_viewed vs)

end

mutual

theorem key_viewed : (v : Value) → v.viewed.key = v.key
  | .scalar s => by cases s <;> rfl
  | .tuple vs => by rw [viewed, key, key, keys_viewed vs]
  | .list _ => rfl
  | .dict _ => rfl

theorem keys_viewed : (vs : List Value) → keys (viewedItems vs) = keys vs
  | [] => rfl
  | v :: vs => by rw [viewedItems, keys, keys, key_viewed v, keys_viewed vs]

end

mutual

theorem isHashable_viewed : (v : Value) → v.isHashable = true → v.viewed.isHashable = true
  | .scalar s, h => by
      cases s with
      | binary _ _ => rfl
      | _ => exact h
  | .tuple vs, h => by
      rw [isHashable] at h
      rw [viewed, isHashable, areHashable_viewed vs h]
  | .list _, h => h
  | .dict _, h => h

theorem areHashable_viewed : (vs : List Value) → areHashable vs = true →
    areHashable (viewedItems vs) = true
  | [], _ => rfl
  | v :: vs, h => by
      rw [areHashable, Bool.and_eq_true] at h
      rw [viewedItems, areHashable, isHashable_viewed v h.1, areHashable_viewed vs h.2]
      rfl

end

mutual

theorem every_viewed : (v : Value) →
    v.viewed.every (fun s => !s.isDecimalNaN) = v.every fun s => !s.isDecimalNaN
  | .scalar s => by cases s <;> rfl
  | .tuple vs => by rw [viewed, every, every, everyItem_viewed vs]
  | .list _ => rfl
  | .dict _ => rfl

theorem everyItem_viewed : (vs : List Value) →
    everyItem (fun s => !s.isDecimalNaN) (viewedItems vs) = everyItem (fun s => !s.isDecimalNaN) vs
  | [] => rfl
  | v :: vs => by rw [viewedItems, everyItem, everyItem, every_viewed v, everyItem_viewed vs]

end

theorem viewed_of_atom {s : Scalar} {data : List UInt8} (h : s.atom = .binary data) :
    (scalar s).viewed = .scalar (.binary .view data) := by
  cases s with
  | binary holder b =>
      cases h
      rfl
  | float x | decimal d =>
      rw [Scalar.atom] at h
      split at h <;> cases h
  | _ => cases h

theorem exists_atom_of_differInBinary {a b : Atom}
    (h : (Key.atom a).differInBinary (.atom b) = true) : ∃ x y, a = .binary x ∧ b = .binary y := by
  cases a <;> cases b <;> first | exact ⟨_, _, rfl, rfl⟩ | cases h

mutual

/-- Views of binary data have no order. -/
theorem less_viewed : (v w : Value) → v.IsKeyed → w.IsKeyed → v.key.differInBinary w.key = true →
    v.viewed.less w.viewed = .error .types
  | .scalar s, .scalar t, _, _, h => by
      rw [key, key] at h
      obtain ⟨x, y, hx, hy⟩ := exists_atom_of_differInBinary h
      rw [viewed_of_atom hx, viewed_of_atom hy, less, Scalar.less]
  | .tuple vs, .tuple ws, hv, hw, h => by
      rw [viewed, viewed, less]
      exact lessItems_viewed vs ws (isKeyed_of_tuple hv) (isKeyed_of_tuple hw) h
  | .list _, _, hv, _, _ => nomatch hv.hashable
  | .dict _, _, hv, _, _ => nomatch hv.hashable
  | _, .list _, _, hw, _ => nomatch hw.hashable
  | _, .dict _, _, hw, _ => nomatch hw.hashable
  | .scalar s, .tuple _, _, _, h => by
      rw [key, key] at h
      cases hs : s.atom <;> rw [hs] at h <;> cases h
  | .tuple _, .scalar _, _, _, h => nomatch h

theorem lessItems_viewed : (vs ws : List Value) → (∀ v ∈ vs, v.IsKeyed) → (∀ w ∈ ws, w.IsKeyed) →
    Key.differInBinaryItems (keys vs) (keys ws) = true →
    lessItems (viewedItems vs) (viewedItems ws) = .error .types
  | [], _, _, _, h => nomatch h
  | _ :: _, [], _, _, h => nomatch h
  | v :: vs, w :: ws, hv, hw, h => by
      obtain ⟨hfirst, hrest⟩ := List.forall_mem_cons.1 hv
      obtain ⟨hfirst', hrest'⟩ := List.forall_mem_cons.1 hw
      rw [keys, keys, Key.differInBinaryItems] at h
      have hsettled : v.viewed.key.isSettled = true := (key_viewed v).symm ▸ hfirst.settled
      rw [viewedItems, viewedItems, lessItems, eq_of_isSettled hsettled, key_viewed, key_viewed]
      by_cases heq : v.key = w.key
      · rw [if_pos heq] at h
        rw [if_pos (decide_eq_true heq)]
        exact lessItems_viewed vs ws hrest hrest' h
      · rw [if_neg heq] at h
        rw [if_neg (by simpa using heq)]
        exact less_viewed v w hfirst hfirst' h

end

/-- An entry with the key in which views hold the binary data. -/
def viewedEntry (e : Value × Value) : Value × Value := (e.1.viewed, e.2)

theorem alikeEntries_viewed (es : List (Value × Value)) : AlikeEntries es (es.map viewedEntry) := by
  induction es with
  | nil => exact .nil
  | cons e es ih => exact .cons (alike_viewed e.1) (.refl e.2) ih

theorem isKeyed_viewed {k : Value} (h : k.IsKeyed) : k.viewed.IsKeyed :=
  ⟨isHashable_viewed k h.hashable, (key_viewed k).symm ▸ h.settled⟩

end Value

end MergeOnRead
