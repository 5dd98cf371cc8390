import MergeOnRead.Proofs.SortedChains
import MergeOnRead.Proofs.ValueForms

/-!
# Forms of one value have one canonical form

A canonical form should be its own canonical form, and the same for all forms of a value.  But the
keys of dictionaries are left as they are.  A NaN in a key is equal to nothing, and views of binary
data have no order.  `Value.canonicalLaws` says what holds of every value: the first law fails just
where a NaN is in a key, and the second one there, and where two keys are told apart by binary data,
since a form with views in their place cannot be sorted.

Strategy:

* the keys of a dictionary that was sorted are a chain (`Sorting.pairwise_of_sort`), so that entries
  with the same keys and values are sorted in the same way (`map_entryKeyPair_of_sort`);
* `Alike.key_canonical_eq` is the induction on a value for two canonical forms, and
  `Alike.exists_canonical` that for the existence of the second one;
* `ordersWithoutBinary_of_forall` goes back: a dictionary is met where two keys are told apart by
  binary data, and these are put in front, in views (`exists_unsorted`).
-/

namespace MergeOnRead

open Sorting

namespace Value

mutual

/-- No two keys of a dictionary are told apart by binary data. -/
def ordersWithoutBinary : Value → Bool
  | .scalar _ => true
  | .list vs => orderWithoutBinary vs
  | .tuple vs => orderWithoutBinary vs
  | .dict es => entriesOrderWithoutBinary es &&
    decide (es.Pairwise fun e f => e.1.key.differInBinary f.1.key = false)

/-- The same for all items. -/
def orderWithoutBinary : List Value → Bool
  | [] => true
  | v :: vs => v.ordersWithoutBinary && orderWithoutBinary vs

/-- The same for the values of a dictionary. -/
def entriesOrderWithoutBinary : List (Value × Value) → Bool
  | [] => true
  | (_, v) :: es => v.ordersWithoutBinary && entriesOrderWithoutBinary es

end

/-! ## Dictionaries in any order -/

/-- Keys that are equal to themselves, and to no other. -/
structure AreApart (ks : List Value) : Prop where
  keyed : ∀ k ∈ ks, k.IsKeyed
  distinct : (ks.map key).Nodup

theorem areApart_iff {ks : List Value} (hks : ∀ k ∈ ks, k.IsKeyed) :
    AreApart ks ↔ ks.Pairwise fun k l => k.eq l = false := by
  have heq : (ks.map key).Nodup ↔ ks.Pairwise fun k l => k.eq l = false := by
    rw [List.Nodup, List.pairwise_map]
    refine List.Pairwise.iff_of_mem fun hk _ => ?_
    rw [eq_of_isSettled (hks _ hk).settled, decide_eq_false_iff_not]
  exact ⟨fun h => heq.1 h.distinct, fun h => ⟨hks, heq.2 h⟩⟩

/-- The keys of a regular dictionary. -/
theorem areApart_keys {es : List (Value × Value)} (hdata : (dict es).isData = true)
    (hregular : areRegularEntries es = true) : AreApart (es.map Prod.fst) := by
  obtain ⟨hes, hdistinct⟩ := isData_dict_iff.1 hdata
  refine (areApart_iff (List.forall_mem_map.2 fun e he => ?_)).2 hdistinct
  exact ⟨(areDataEntries_iff.1 hes e he).1.1,
    isSettled_key e.1 (areRegularEntries_iff.1 hregular e he).1⟩

theorem AreApart.of_perm {ks ls : List Value} (h : AreApart ks)
    (hls : ∀ l ∈ ls, l.isHashable = true) (hperm : (ls.map key).Perm (ks.map key)) :
    AreApart ls := by
  refine ⟨fun l hl => ⟨hls l hl, ?_⟩, hperm.nodup_iff.2 h.distinct⟩
  obtain ⟨k, hk, heq⟩ := List.mem_map.1 (hperm.mem_iff.1 (List.mem_map_of_mem hl))
  exact heq ▸ (h.keyed k hk).settled

variable {cs ds sorted sorted' : List (Value × Value)}

theorem lessEntry_eq {e f : Value × Value} (he : e.1.IsKeyed) (hne : e.1.key ≠ f.1.key) :
    lessEntry e f = e.1.less f.1 := by
  rw [lessEntry, lessItems, eq_of_isSettled he.settled, if_neg (by simpa using hne)]

/-- Entries are compared by their keys. -/
theorem AreApart.compares (h : AreApart (cs.map Prod.fst)) :
    Compares lessEntry (fun e => e.1.key) Key.Before cs := by
  have hkeyed := List.forall_mem_map.1 h.keyed
  refine ⟨by simpa [Function.comp_def] using h.distinct, fun e he f hf hne isLess hless => ?_⟩
  rw [lessEntry_eq (hkeyed e he) hne] at hless
  exact tells_less e.1 f.1 (hkeyed e he) (hkeyed f hf) hne hless

/-- The key of an entry, and that of its value. -/
def entryKeyPair (e : Value × Value) : Key × Key := (e.1.key, e.2.key)

theorem keys_map_pairOf (es : List (Value × Value)) : keys (es.map pairOf) =
    (es.map entryKeyPair).map fun p => .node .tuple [p.1, p.2] := by
  rw [keys_eq_map, List.map_map, List.map_map]
  rfl

/-- Entries with the same keys and values are sorted in the same way. -/
theorem map_entryKeyPair_of_sort (hcs : AreApart (cs.map Prod.fst))
    (hds : AreApart (ds.map Prod.fst)) (hsort : sort lessEntry cs = .ok sorted)
    (hsort' : sort lessEntry ds = .ok sorted')
    (hperm : (ds.map entryKeyPair).Perm (cs.map entryKeyPair)) :
    sorted'.map entryKeyPair = sorted.map entryKeyPair := by
  have hperm' : (sorted'.map entryKeyPair).Perm (sorted.map entryKeyPair) :=
    ((sort_perm hsort').map _).trans (hperm.trans ((sort_perm hsort).map _).symm)
  have hchain : (sorted.map entryKeyPair).Pairwise fun p q => p.1.Before q.1 :=
    List.pairwise_map.2 (pairwise_of_sort hcs.compares hsort :)
  have hchain' : (sorted'.map entryKeyPair).Pairwise fun p q => p.1.Before q.1 :=
    List.pairwise_map.2 (pairwise_of_sort hds.compares hsort' :)
  refine hperm'.eq_of_pairwise (fun p q _ _ hpq hqp => ?_) hchain' hchain
  exact (Key.not_before_self _ (Key.before_trans _ hpq hqp)).elim

/-- Entries with the keys of others that were sorted can be sorted as well, when no two keys are
told apart by binary data. -/
theorem exists_sort_of_perm (hcs : AreApart (cs.map Prod.fst)) (hds : AreApart (ds.map Prod.fst))
    (hsort : sort lessEntry cs = .ok sorted)
    (hbinary : (cs.map Prod.fst).Pairwise fun k l => k.key.differInBinary l.key = false)
    (hperm : ((ds.map Prod.fst).map key).Perm ((cs.map Prod.fst).map key)) :
    ∃ sorted', sort lessEntry ds = .ok sorted' := by
  rw [List.map_map, List.map_map] at hperm
  have hmem : ∀ e ∈ ds, e.1.key ∈ cs.map fun e => e.1.key := fun e he =>
    hperm.mem_iff.1 (List.mem_map_of_mem he)
  have hkeyed := List.forall_mem_map.1 hds.keyed
  have hsorted := List.pairwise_map.2 (pairwise_of_sort hcs.compares hsort)
  have hbinary' : (cs.map fun e => e.1.key).Pairwise fun k l => k.differInBinary l = false :=
    List.pairwise_map.2 (List.pairwise_map.1 hbinary :)
  refine exists_sort_of_chain hds.compares.distinct (fun e he f hf hne => ?_)
    fun e he f hf (hbefore : e.1.key.Before f.1.key) => ?_
  · have hperm' := (sort_perm hsort).map fun e => e.1.key
    exact lt_or_lt_of_pairwise hsorted (hperm'.mem_iff.2 (hmem e he))
      (hperm'.mem_iff.2 (hmem f hf)) hne
  · have hne : e.1.key ≠ f.1.key := fun heq => Key.not_before_self _ (heq ▸ hbefore)
    have : Std.Symm fun k l : Key => k.differInBinary l = false :=
      ⟨fun k l h => (Key.differInBinary_comm l k).trans h⟩
    have hapart := hbinary'.forall (hmem e he) (hmem f hf) hne
    rw [lessEntry_eq (hkeyed e he) hne, lessEntry_eq (hkeyed f hf) hne.symm]
    exact less_of_before e.1 f.1 (hkeyed e he) (hkeyed f hf) hbefore hapart

/-! ## Forms of a value have equal canonical forms -/

theorem keys_eq_of_alikeEntries {es fs : List (Value × Value)} (h : AlikeEntries es fs)
    (hes : ∀ k ∈ es.map Prod.fst, k.IsKeyed) (hfs : areDataEntries fs = true) :
    (fs.map Prod.fst).map key = (es.map Prod.fst).map key := by
  induction es generalizing fs with
  | nil =>
      cases h
      rfl
  | cons e es ih =>
      cases h with
      | cons hk h hs =>
          obtain ⟨hfirst, hrest⟩ := List.forall_mem_cons.1 hes
          obtain ⟨hfirst', hrest'⟩ := List.forall_mem_cons.1 (areDataEntries_iff.1 hfs)
          have hkey := key_eq_of_alike _ hk hfirst hfirst'.1.1
          simpa [hkey] using ih hs hrest (areDataEntries_iff.2 hrest')

/-- The keys of a regular dictionary and of one of its forms. -/
theorem areApart_of_alike {es fs gs : List (Value × Value)} (hdata : (dict es).isData = true)
    (hregular : areRegularEntries es = true) (h : AlikeEntries es fs) (horder : fs.Perm gs)
    (hgs : areDataEntries gs = true) :
    areDataEntries fs = true ∧ AreApart (gs.map Prod.fst) ∧
      ((gs.map Prod.fst).map key).Perm ((es.map Prod.fst).map key) := by
  have hes := areApart_keys hdata hregular
  have hfs : areDataEntries fs = true := areDataEntries_iff.2 fun f hf =>
    areDataEntries_iff.1 hgs f (horder.mem_iff.1 hf)
  have hperm : ((gs.map Prod.fst).map key).Perm ((es.map Prod.fst).map key) :=
    keys_eq_of_alikeEntries h hes.keyed hfs ▸ (horder.symm.map Prod.fst).map key
  have hhashable : ∀ k ∈ gs.map Prod.fst, k.isHashable = true :=
    List.forall_mem_map.2 fun g hg => (areDataEntries_iff.1 hgs g hg).1.1
  exact ⟨hfs, hes.of_perm hhashable hperm, hperm⟩

mutual

/-- The canonical forms of two forms of a regular value are equal. -/
theorem Alike.key_canonical_eq : (v : Value) → {w c d : Value} → v.isData = true →
    v.isRegular = true → v.canonical = .ok c → v.Alike w → w.isData = true →
    w.canonical = .ok d → d.key = c.key
  | .scalar s, w, c, d, _, _, hc, h, _, hd => by
      cases hc
      cases h with
      | scalar h =>
          cases hd
          cases h with
          | refl => rfl
          | nan hx hy => rw [Scalar.canonical, Scalar.canonical, if_pos hx, if_pos hy]
          | binary _ _ _ => rfl
      | sequence hv _ _ => cases hv
  | .list vs, w, c, d, hv, hr, hc, h, hw, hd | .tuple vs, w, c, d, hv, hr, hc, h, hw, hd => by
      cases h with
      | sequence hvs hws h =>
          cases hvs
          obtain ⟨cs, hcs, rfl⟩ := map_eq_ok_iff.1 hc
          cases hws with
          | list _ | tuple _ =>
              obtain ⟨ds, hds, rfl⟩ := map_eq_ok_iff.1 hd
              rw [key, key, AlikeItems.keys_canonical_eq vs hv hr hcs h hw hds]
  | .dict es, w, c, d, hv, hr, hc, h, hw, hd => by
      obtain ⟨cs, sorted, hcs, hsorted, rfl⟩ := canonical_dict_eq_ok_iff.1 hc
      cases h with
      | sequence hvs _ _ => cases hvs
      | dict h horder =>
          obtain ⟨ds', sorted', hds', hsorted', rfl⟩ := canonical_dict_eq_ok_iff.1 hd
          obtain ⟨hfs, hapart, -⟩ := areApart_of_alike hv hr h horder (isData_dict_iff.1 hw).1
          obtain ⟨ds, hds, hperm⟩ :=
            List.perm_comp_forall₂ horder (canonicalEntries_eq_ok_iff.1 hds')
          have hpairs := AlikeEntries.keys_canonical_eq es (isData_dict_iff.1 hv).1 hr hcs h hfs
            (canonicalEntries_eq_ok_iff.2 hds)
          have hsame := map_entryKeyPair_of_sort
            (map_fst_of_canonicalEntries hcs ▸ areApart_keys hv hr)
            (map_fst_of_canonicalEntries hds' ▸ hapart) hsorted hsorted'
            (hpairs ▸ hperm.symm.map entryKeyPair)
          rw [key, key, keys_map_pairOf, keys_map_pairOf, hsame]

theorem AlikeItems.keys_canonical_eq : (vs : List Value) → {ws cs ds : List Value} →
    areData vs = true → areRegular vs = true → canonicalItems vs = .ok cs → AlikeItems vs ws →
    areData ws = true → canonicalItems ws = .ok ds → keys ds = keys cs
  | [], ws, cs, ds, _, _, hcs, h, _, hds => by
      cases hcs
      cases h
      cases hds
      rfl
  | v :: vs, ws, cs, ds, hv, hr, hcs, h, hw, hds => by
      rw [areData, Bool.and_eq_true] at hv
      rw [areRegular, Bool.and_eq_true] at hr
      rw [canonicalItems] at hcs
      obtain ⟨c, hc, hcs⟩ := bind_eq_ok_iff.1 hcs
      obtain ⟨cs, hrest, hcs⟩ := bind_eq_ok_iff.1 hcs
      cases hcs
      cases h with
      | cons h hs =>
          rw [areData, Bool.and_eq_true] at hw
          rw [canonicalItems] at hds
          obtain ⟨d, hd, hds⟩ := bind_eq_ok_iff.1 hds
          obtain ⟨ds, hrest', hds⟩ := bind_eq_ok_iff.1 hds
          cases hds
          rw [keys, keys, Alike.key_canonical_eq v hv.1 hr.1 hc h hw.1 hd,
            AlikeItems.keys_canonical_eq vs hv.2 hr.2 hrest hs hw.2 hrest']

theorem AlikeEntries.keys_canonical_eq : (es : List (Value × Value)) →
    {fs cs ds : List (Value × Value)} → areDataEntries es = true → areRegularEntries es = true →
    canonicalEntries es = .ok cs → AlikeEntries es fs → areDataEntries fs = true →
    canonicalEntries fs = .ok ds → ds.map entryKeyPair = cs.map entryKeyPair
  | [], fs, cs, ds, _, _, hcs, h, _, hds => by
      cases hcs
      cases h
      cases hds
      rfl
  | (k, v) :: es, fs, cs, ds, hes, hr, hcs, h, hfs, hds => by
      rw [areDataEntries, Bool.and_eq_true, Bool.and_eq_true, Bool.and_eq_true] at hes
      rw [areRegularEntries, Bool.and_eq_true, Bool.and_eq_true] at hr
      rw [canonicalEntries] at hcs
      obtain ⟨c, hc, hcs⟩ := bind_eq_ok_iff.1 hcs
      obtain ⟨cs, hrest, hcs⟩ := bind_eq_ok_iff.1 hcs
      cases hcs
      cases h with
      | cons hk h hs =>
          rw [areDataEntries, Bool.and_eq_true, Bool.and_eq_true, Bool.and_eq_true] at hfs
          rw [canonicalEntries] at hds
          obtain ⟨d, hd, hds⟩ := bind_eq_ok_iff.1 hds
          obtain ⟨ds, hrest', hds⟩ := bind_eq_ok_iff.1 hds
          cases hds
          have hkey := key_eq_of_alike k hk ⟨hes.1.1.1, isSettled_key k hr.1.1⟩ hfs.1.1.1
          have hvalue := Alike.key_canonical_eq v hes.1.2 hr.1.2 hc h hfs.1.2 hd
          rw [List.map_cons, List.map_cons, entryKeyPair, entryKeyPair, hkey, hvalue,
            AlikeEntries.keys_canonical_eq es hes.2 hr.2 hrest hs hfs.2 hrest']

end

mutual

/-- The forms of a regular value have canonical forms, unless binary data tells the keys of a
dictionary apart. -/
theorem Alike.exists_canonical : (v : Value) → {w c : Value} → v.isData = true →
    v.isRegular = true → v.ordersWithoutBinary = true → v.canonical = .ok c → v.Alike w →
    w.isData = true → ∃ d, w.canonical = .ok d
  | .scalar _, w, _, _, _, _, _, h, _ => by
      cases h with
      | scalar _ => exact ⟨_, rfl⟩
      | sequence hv _ _ => cases hv
  | .list vs, w, c, hv, hr, ho, hc, h, hw | .tuple vs, w, c, hv, hr, ho, hc, h, hw => by
      cases h with
      | sequence hvs hws h =>
          cases hvs
          obtain ⟨cs, hcs, -⟩ := map_eq_ok_iff.1 hc
          cases hws with
          | list _ | tuple _ =>
              obtain ⟨ds, hds⟩ := AlikeItems.exists_canonical vs hv hr ho hcs h hw
              exact ⟨.tuple ds, map_eq_ok_iff.2 ⟨ds, hds, rfl⟩⟩
  | .dict es, w, c, hv, hr, ho, hc, h, hw => by
      obtain ⟨cs, sorted, hcs, hsorted, -⟩ := canonical_dict_eq_ok_iff.1 hc
      rw [ordersWithoutBinary, Bool.and_eq_true, decide_eq_true_iff] at ho
      have hbinary : (es.map Prod.fst).Pairwise fun k l => k.key.differInBinary l.key = false :=
        List.pairwise_map.2 ho.2
      cases h with
      | sequence hvs _ _ => cases hvs
      | dict h horder =>
          obtain ⟨hfs, hapart, hperm⟩ := areApart_of_alike hv hr h horder (isData_dict_iff.1 hw).1
          obtain ⟨ds, hds⟩ := AlikeEntries.exists_canonical es (isData_dict_iff.1 hv).1 hr ho.1 hcs
            h hfs
          obtain ⟨ds', hds', -⟩ :=
            List.perm_comp_forall₂ horder.symm (canonicalEntries_eq_ok_iff.1 hds)
          have hds' := canonicalEntries_eq_ok_iff.2 hds'
          have hkeys := map_fst_of_canonicalEntries hcs
          have hkeys' := map_fst_of_canonicalEntries hds'
          obtain ⟨sorted', hsorted'⟩ := exists_sort_of_perm (hkeys ▸ areApart_keys hv hr)
            (hkeys' ▸ hapart) hsorted (hkeys ▸ hbinary) (hkeys ▸ hkeys' ▸ hperm)
          exact ⟨_, canonical_dict_eq_ok_iff.2 ⟨ds', sorted', hds', hsorted', rfl⟩⟩

theorem AlikeItems.exists_canonical : (vs : List Value) → {ws cs : List Value} →
    areData vs = true → areRegular vs = true → orderWithoutBinary vs = true →
    canonicalItems vs = .ok cs → AlikeItems vs ws → areData ws = true →
    ∃ ds, canonicalItems ws = .ok ds
  | [], ws, _, _, _, _, _, h, _ => by
      cases h
      exact ⟨[], rfl⟩
  | v :: vs, ws, cs, hv, hr, ho, hcs, h, hw => by
      rw [areData, Bool.and_eq_true] at hv
      rw [areRegular, Bool.and_eq_true] at hr
      rw [orderWithoutBinary, Bool.and_eq_true] at ho
      rw [canonicalItems] at hcs
      obtain ⟨c, hc, hcs⟩ := bind_eq_ok_iff.1 hcs
      obtain ⟨rest, hrest, -⟩ := bind_eq_ok_iff.1 hcs
      cases h with
      | cons h hs =>
          rw [areData, Bool.and_eq_true] at hw
          obtain ⟨d, hd⟩ := Alike.exists_canonical v hv.1 hr.1 ho.1 hc h hw.1
          obtain ⟨ds, hds⟩ := AlikeItems.exists_canonical vs hv.2 hr.2 ho.2 hrest hs hw.2
          exact ⟨d :: ds, by rw [canonicalItems, hd, ok_bind, hds, ok_bind]⟩

theorem AlikeEntries.exists_canonical : (es : List (Value × Value)) →
    {fs cs : List (Value × Value)} → areDataEntries es = true → areRegularEntries es = true →
    entriesOrderWithoutBinary es = true → canonicalEntries es = .ok cs → AlikeEntries es fs →
    areDataEntries fs = true → ∃ ds, canonicalEntries fs = .ok ds
  | [], fs, _, _, _, _, _, h, _ => by
      cases h
      exact ⟨[], rfl⟩
  | (k, v) :: es, fs, cs, hes, hr, ho, hcs, h, hfs => by
      rw [areDataEntries, Bool.and_eq_true, Bool.and_eq_true, Bool.and_eq_true] at hes
      rw [areRegularEntries, Bool.and_eq_true, Bool.and_eq_true] at hr
      rw [entriesOrderWithoutBinary, Bool.and_eq_true] at ho
      rw [canonicalEntries] at hcs
      obtain ⟨c, hc, hcs⟩ := bind_eq_ok_iff.1 hcs
      obtain ⟨rest, hrest, -⟩ := bind_eq_ok_iff.1 hcs
      cases h with
      | cons hk h hs =>
          rw [areDataEntries, Bool.and_eq_true, Bool.and_eq_true, Bool.and_eq_true] at hfs
          obtain ⟨d, hd⟩ := Alike.exists_canonical v hes.1.2 hr.1.2 ho.1 hc h hfs.1.2
          obtain ⟨ds, hds⟩ := AlikeEntries.exists_canonical es hes.2 hr.2 ho.2 hrest hs hfs.2
          exact ⟨(_, d) :: ds, by rw [canonicalEntries, hd, ok_bind, hds, ok_bind]⟩

end

/-! ## Forms that cannot be sorted -/

/-- Two keys that are told apart by binary data cannot be compared in views. -/
theorem canonical_viewed_ne {e f : Value × Value} (he : e.1.IsKeyed) (hf : f.1.IsKeyed)
    (hne : f.1.key ≠ e.1.key) (hbinary : e.1.key.differInBinary f.1.key = true)
    (rest : List (Value × Value)) (d : Value) :
    (dict (viewedEntry e :: viewedEntry f :: rest)).canonical ≠ .ok d := by
  intro hd
  obtain ⟨cs, sorted, hcs, hsorted, -⟩ := canonical_dict_eq_ok_iff.1 hd
  obtain ⟨c, cs, ⟨hc, -⟩, hothers, rfl⟩ :=
    List.forall₂_cons_left_iff.1 (canonicalEntries_eq_ok_iff.1 hcs)
  obtain ⟨c', cs, ⟨hc', -⟩, -, rfl⟩ := List.forall₂_cons_left_iff.1 hothers
  obtain ⟨isLess, hless⟩ := exists_less_of_sort hsorted
  have hne' : c'.1.key ≠ c.1.key := by
    rwa [← hc, ← hc', viewedEntry, viewedEntry, key_viewed, key_viewed]
  rw [lessEntry_eq (hc' ▸ isKeyed_viewed hf) hne', ← hc, ← hc', viewedEntry, viewedEntry,
    less_viewed f.1 e.1 hf he ((Key.differInBinary_comm ..).trans hbinary)] at hless
  cases hless

/-- Where two keys of a dictionary are told apart by binary data, a form of it cannot be sorted. -/
theorem exists_unsorted {es : List (Value × Value)} (hdata : (dict es).isData = true)
    (hregular : areRegularEntries es = true) {e f : Value × Value} (hsub : [e, f].Sublist es)
    (hbinary : e.1.key.differInBinary f.1.key = true) :
    ∃ w, (dict es).Alike w ∧ w.isData = true ∧ ∀ d, w.canonical ≠ .ok d := by
  have hapart := areApart_keys hdata hregular
  have hes := areDataEntries_iff.1 (isData_dict_iff.1 hdata).1
  -- Views hold the binary data of all keys, and the two come first.
  obtain ⟨rest, horder⟩ := (hsub.map viewedEntry).exists_perm_append
  refine ⟨.dict (viewedEntry e :: viewedEntry f :: rest), .dict (alikeEntries_viewed es) horder,
    ?_, fun d hd => ?_⟩
  · have hgs : areDataEntries (viewedEntry e :: viewedEntry f :: rest) = true := by
      refine areDataEntries_iff.2 fun g hg => ?_
      obtain ⟨e, he, rfl⟩ := List.mem_map.1 (horder.mem_iff.2 hg)
      obtain ⟨⟨hhashable, hevery⟩, hvalue⟩ := hes e he
      exact ⟨⟨isHashable_viewed e.1 hhashable, (every_viewed e.1).trans hevery⟩, hvalue⟩
    obtain ⟨-, hgsApart, -⟩ :=
      areApart_of_alike hdata hregular (alikeEntries_viewed es) horder hgs
    exact isData_dict_iff.2 ⟨hgs, (areApart_iff hgsApart.keyed).1 hgsApart⟩
  · have he : e.1.IsKeyed := hapart.keyed e.1 (List.mem_map_of_mem (hsub.subset (by simp)))
    have hf : f.1.IsKeyed := hapart.keyed f.1 (List.mem_map_of_mem (hsub.subset (by simp)))
    have hpair := hapart.distinct.sublist ((hsub.map Prod.fst).map key)
    have hne : f.1.key ≠ e.1.key := fun heq => (List.nodup_cons.1 hpair).1 (by simp [heq])
    exact canonical_viewed_ne he hf hne hbinary rest d hd

mutual

/-- A value all forms of which have a canonical form orders without binary data. -/
theorem ordersWithoutBinary_of_forall : (v : Value) → v.isData = true → v.isRegular = true →
    (∀ w, v.Alike w → w.isData = true → ∃ d, w.canonical = .ok d) → v.ordersWithoutBinary = true
  | .scalar s, _, _, _ => rfl
  | .list vs, hv, hr, h | .tuple vs, hv, hr, h => by
      refine orderWithoutBinary_of_forall vs hv hr fun ws hws hdata => ?_
      obtain ⟨d, hd⟩ := h (.list ws) (.sequence (by constructor) (.list ws) hws) hdata
      obtain ⟨ds, hds, -⟩ := map_eq_ok_iff.1 hd
      exact ⟨ds, hds⟩
  | .dict es, hv, hr, h => by
      obtain ⟨hes, hdistinct⟩ := isData_dict_iff.1 hv
      rw [ordersWithoutBinary, Bool.and_eq_true, decide_eq_true_iff]
      constructor
      · refine entriesOrderWithoutBinary_of_forall es hes hr fun fs hfs hkeys hdata => ?_
        obtain ⟨d, hd⟩ := h (.dict fs) (.dict hfs (.refl fs))
          (isData_dict_iff.2 ⟨hdata, hkeys ▸ hdistinct⟩)
        obtain ⟨ds, -, hds, -⟩ := canonical_dict_eq_ok_iff.1 hd
        exact ⟨ds, hds⟩
      · refine List.pairwise_iff_forall_sublist.2 fun {e f} hsub => ?_
        by_contra hbinary
        obtain ⟨w, halike, hdata, hnone⟩ :=
          exists_unsorted hv hr hsub (Bool.not_eq_false _ ▸ hbinary)
        obtain ⟨d, hd⟩ := h w halike hdata
        exact hnone d hd

theorem orderWithoutBinary_of_forall : (vs : List Value) → areData vs = true →
    areRegular vs = true →
    (∀ ws, AlikeItems vs ws → areData ws = true → ∃ ds, canonicalItems ws = .ok ds) →
    orderWithoutBinary vs = true
  | [], _, _, _ => rfl
  | v :: vs, hv, hr, h => by
      obtain ⟨hfirst, hrest⟩ := (Bool.and_eq_true ..).mp hv
      obtain ⟨hfirst', hrest'⟩ := (Bool.and_eq_true ..).mp hr
      rw [orderWithoutBinary, Bool.and_eq_true]
      constructor
      · refine ordersWithoutBinary_of_forall v hfirst hfirst' fun w hw hdata => ?_
        obtain ⟨ds, hds⟩ := h (w :: vs) (.cons hw (.refl vs)) (by rw [areData, hdata, hrest]; rfl)
        rw [canonicalItems] at hds
        obtain ⟨d, hd, -⟩ := bind_eq_ok_iff.1 hds
        exact ⟨d, hd⟩
      · refine orderWithoutBinary_of_forall vs hrest hrest' fun ws hws hdata => ?_
        obtain ⟨ds, hds⟩ := h (v :: ws) (.cons (.refl v) hws)
          (by rw [areData, hdata, hfirst]; rfl)
        rw [canonicalItems] at hds
        obtain ⟨_, -, hds⟩ := bind_eq_ok_iff.1 hds
        obtain ⟨ds, hds, -⟩ := bind_eq_ok_iff.1 hds
        exact ⟨ds, hds⟩

theorem entriesOrderWithoutBinary_of_forall : (es : List (Value × Value)) →
    areDataEntries es = true → areRegularEntries es = true →
    (∀ fs, AlikeEntries es fs → fs.map Prod.fst = es.map Prod.fst → areDataEntries fs = true →
      ∃ ds, canonicalEntries fs = .ok ds) → entriesOrderWithoutBinary es = true
  | [], _, _, _ => rfl
  | (k, v) :: es, hes, hr, h => by
      rw [areDataEntries, Bool.and_eq_true, Bool.and_eq_true, Bool.and_eq_true] at hes
      rw [areRegularEntries, Bool.and_eq_true, Bool.and_eq_true] at hr
      rw [entriesOrderWithoutBinary, Bool.and_eq_true]
      constructor
      · refine ordersWithoutBinary_of_forall v hes.1.2 hr.1.2 fun w hw hdata => ?_
        obtain ⟨ds, hds⟩ := h ((k, w) :: es) (.cons (.refl k) hw (.refl es)) rfl
          (by rw [areDataEntries, hes.1.1.1, hes.1.1.2, hdata, hes.2]; rfl)
        rw [canonicalEntries] at hds
        obtain ⟨d, hd, -⟩ := bind_eq_ok_iff.1 hds
        exact ⟨d, hd⟩
      · refine entriesOrderWithoutBinary_of_forall es hes.2 hr.2 fun fs hfs hkeys hdata => ?_
        obtain ⟨ds, hds⟩ := h ((k, v) :: fs) (.cons (.refl k) (.refl v) hfs)
          (by rw [List.map_cons, List.map_cons, hkeys])
          (by rw [areDataEntries, hes.1.1.1, hes.1.1.2, hes.1.2, hdata]; rfl)
        rw [canonicalEntries] at hds
        obtain ⟨_, -, hds⟩ := bind_eq_ok_iff.1 hds
        obtain ⟨ds, hds, -⟩ := bind_eq_ok_iff.1 hds
        exact ⟨ds, hds⟩

end

/-! ## The laws of canonical forms -/

/-- What holds of the canonical form of a value. -/
structure CanonicalLaws (v c : Value) : Prop where
  /-- It is its own canonical form unless a NaN is in the key of a dictionary. -/
  idempotent_iff : ∃ c', c.canonical = .ok c' ∧ (c'.eq c = true ↔ v.isRegular = true)
  /-- It is equal to that of every form that has one, with the same exception. -/
  equal_iff : (∀ w d, v.Alike w → w.isData = true → w.canonical = .ok d → c.eq d = true) ↔
    v.isRegular = true
  /-- All forms have one, and it is the same, unless there is a NaN in a key or two keys are told
  apart by binary data. -/
  blind_iff : (∀ w, v.Alike w → w.isData = true → ∃ d, w.canonical = .ok d ∧ c.eq d = true) ↔
    v.isRegular = true ∧ v.ordersWithoutBinary = true

/-- **Forms of one value have one canonical form**, which is its own canonical form, unless the keys
of a dictionary hold a NaN, or differ in binary data. -/
theorem canonicalLaws {v c : Value} (hv : v.isData = true) (hc : v.canonical = .ok c) :
    CanonicalLaws v c := by
  obtain ⟨hhashable, hregular⟩ := isHashable_canonical v hv hc
  have hequal : v.isRegular = true → ∀ w d, v.Alike w → w.isData = true → w.canonical = .ok d →
      c.eq d = true := fun hr w d halike hw hd =>
    eq_iff.2 ⟨(Alike.key_canonical_eq v hv hr hc halike hw hd).symm, isSettled_canonical v hr hc⟩
  refine ⟨?_, ⟨fun h => ?_, hequal⟩, fun h => ?_, fun ⟨hr, ho⟩ w halike hw => ?_⟩
  · obtain ⟨c', hc', hkey⟩ := exists_canonical_of_isHashable c hhashable
    refine ⟨c', hc', fun h => ?_, fun hr => ?_⟩
    · obtain ⟨hsame, hsettled⟩ := eq_iff.1 h
      exact hregular (hsame ▸ hsettled)
    · have hsettled := isSettled_canonical v hr hc
      exact eq_iff.2 ⟨hkey hsettled, (hkey hsettled).symm ▸ hsettled⟩
  · exact hregular (eq_iff.1 (h v c (.refl v) hv hc)).2
  · obtain ⟨d, -, heq⟩ := h v (.refl v) hv
    have hr := hregular (eq_iff.1 heq).2
    refine ⟨hr, ordersWithoutBinary_of_forall v hv hr fun w halike hw => ?_⟩
    obtain ⟨d, hd, -⟩ := h w halike hw
    exact ⟨d, hd⟩
  · obtain ⟨d, hd⟩ := Alike.exists_canonical v hv hr ho hc halike hw
    exact ⟨d, hd, hequal hr w d halike hw hd⟩

/-- A dictionary with pairs for keys, and with a NaN and a buffer in its values. -/
def readings : Value :=
  .dict [(.tuple [.date ⟨3⟩, .int 2], .list [.float ⟨0x7ff8000000000000⟩, .int 7]),
    (.tuple [.date ⟨3⟩, .int 1], .scalar (.binary .buffer [97]))]

/-- A dictionary with a NaN for its key. -/
def unknownReading : Value := .dict [(.float ⟨0x7ff8000000000000⟩, .int 1)]

/-- All forms of the first one have one canonical form; that of the second one is not its own. -/
theorem canonicalLaws_readings :
    (readings.isData = true ∧ CanonicalLaws readings (.tuple [
      .tuple [.tuple [.date ⟨3⟩, .int 1], .bytes [97]],
      .tuple [.tuple [.date ⟨3⟩, .int 2], .tuple [.scalar .nan, .int 7]]]) ∧
      readings.isRegular = true ∧ readings.ordersWithoutBinary = true) ∧
    unknownReading.isData = true ∧ CanonicalLaws unknownReading
      (.tuple [.tuple [.float ⟨0x7ff8000000000000⟩, .int 1]]) ∧
      unknownReading.isRegular = false :=
  ⟨⟨by decide, canonicalLaws (by decide) (by rfl), by decide, by decide⟩,
    by decide, canonicalLaws (by decide) (by rfl), by decide⟩

end Value

end MergeOnRead
