import MergeOnRead.Proofs.Lists
import MergeOnRead.Proofs.Results
import MergeOnRead.Read.Cast

/-!
# Columns are converted value by value

A column is converted as a whole: the items of all its lists are converted together, and so are
those of its maps.  Nevertheless a value becomes what it becomes on its own.

* `length_convertAll`: there are as many values as before;
* `convertAll_append`: what precedes and what follows in a column is converted apart;
* `convertAll_forall₂`: each value of a converted column is the only value of a converted column
  of one.
-/

namespace MergeOnRead

namespace FlatType

variable {source target : FlatType} {vs ws : List Value}

/-- A column without parts is left as it is, or converted by a function. -/
theorem convertAll_eq_ok (h : source.convertAll target vs = .ok ws) :
    (ws = vs ∧ ∀ us, source.convertAll target us = .ok us) ∨
      ∃ convert : Conversion, (vs = [] ∨ source.refuses target = false) ∧
        List.Forall₂ (fun v w => convert.apply? v = some w) vs ws ∧
        ∀ us us', (us = [] ∨ source.refuses target = false) →
          List.Forall₂ (fun v w => convert.apply? v = some w) us us' →
            source.convertAll target us = .ok us' := by
  unfold convertAll at h
  by_cases hsame : source = target ∨ source = .null
  · rw [if_pos hsame] at h
    cases h
    exact .inl ⟨rfl, fun us => by rw [convertAll, if_pos hsame]⟩
  · rw [if_neg hsame] at h
    cases hconvert : source.conversion? target with
    | none => simp [hconvert] at h
    | some convert =>
        refine .inr ⟨convert, ?_⟩
        -- Only a column without values gets past a refusal.
        have hall : ∀ us us', (us = [] ∨ source.refuses target = false) →
            List.Forall₂ (fun v w => convert.apply? v = some w) us us' →
              source.convertAll target us = .ok us' := by
          intro us us' hrefuses hus
          rw [convertAll, if_neg hsame]
          simp only [hconvert]
          rcases hrefuses with rfl | hrefuses
          · cases hus
            rfl
          · rw [mapM_eq_some_iff.2 hus, hrefuses]
            cases hus <;> rfl
        simp only [hconvert] at h
        cases vs with
        | nil =>
            cases h
            exact ⟨.inl rfl, .nil, hall⟩
        | cons v vs =>
            simp only [List.isEmpty_cons, Bool.false_eq_true, if_false] at h
            split at h
            · cases h
            · rename_i hrefuses
              split at h
              · rename_i hmap
                cases h
                exact ⟨.inr (by simpa using hrefuses), mapM_eq_some_iff.1 hmap, hall⟩
              · cases h

theorem length_convertAll (h : source.convertAll target vs = .ok ws) : ws.length = vs.length := by
  rcases convertAll_eq_ok h with ⟨rfl, -⟩ | ⟨convert, -, hforall, -⟩
  · rfl
  · exact hforall.length_eq.symm

theorem convertAll_append {xs ys : List Value} (h : source.convertAll target (xs ++ ys) = .ok ws) :
    ∃ as bs, source.convertAll target xs = .ok as ∧ source.convertAll target ys = .ok bs ∧
      ws = as ++ bs := by
  rcases convertAll_eq_ok h with ⟨rfl, hall⟩ | ⟨convert, hrefuses, hforall, hall⟩
  · exact ⟨xs, ys, hall xs, hall ys, rfl⟩
  · obtain ⟨as, bs, has, hbs, rfl⟩ := exists_of_forall₂_append hforall
    have hempty : xs ++ ys = [] → xs = [] ∧ ys = [] := List.append_eq_nil_iff.1
    exact ⟨as, bs, hall xs as (hrefuses.imp_left fun h => (hempty h).1) has,
      hall ys bs (hrefuses.imp_left fun h => (hempty h).2) hbs, rfl⟩

end FlatType

namespace ColumnType

/-! ## Lists and maps -/

@[simp] theorem length_regroup (lists pool : List Value) :
    (regroup lists pool).length = lists.length := by
  induction lists generalizing pool with
  | nil => rfl
  | cons v lists ih => cases v <;> simp [regroup, ih]

/-- The items of the first lists are the first items. -/
theorem regroup_append {xs ys ps qs : List Value}
    (hps : ps.length = (xs.flatMap Value.items).length) :
    regroup (xs ++ ys) (ps ++ qs) = regroup xs ps ++ regroup ys qs := by
  induction xs generalizing ps with
  | nil =>
      rw [List.flatMap_nil, List.length_nil, List.length_eq_zero_iff] at hps
      simp [hps, regroup]
  | cons v xs ih =>
      rw [List.flatMap_cons, List.length_append] at hps
      cases v with
      | list items =>
          simp only [Value.items] at hps
          have hle : items.length ≤ ps.length := by omega
          rw [List.cons_append, regroup, regroup, List.take_append_of_le_length hle,
            List.drop_append_of_le_length hle, ih (by rw [List.length_drop]; omega),
            List.cons_append]
      | scalar s => simp only [List.cons_append, regroup, ih (by simpa [Value.items] using hps)]
      | tuple items => simp only [List.cons_append, regroup, ih (by simpa [Value.items] using hps)]
      | dict entries => simp only [List.cons_append, regroup, ih (by simpa [Value.items] using hps)]

theorem keysOf_append (xs ys : List Value) : keysOf (xs ++ ys) = keysOf xs ++ keysOf ys :=
  List.map_append

theorem valuesOf_append (xs ys : List Value) :
    valuesOf (xs ++ ys) = valuesOf xs ++ valuesOf ys := List.map_append

/-! ## Whole columns -/

theorem length_convertAll {source target : ColumnType} {vs ws : List Value}
    (h : source.convertAll target vs = .ok ws) : ws.length = vs.length := by
  unfold convertAll at h
  split at h
  · exact FlatType.length_convertAll h
  · cases h
    rfl
  · split at h
    · cases h
      rfl
    · obtain ⟨items, -, h⟩ := bind_eq_ok_iff.1 h
      cases h
      exact length_regroup _ _
  · split at h
    · cases h
      rfl
    · obtain ⟨keys, -, h⟩ := bind_eq_ok_iff.1 h
      obtain ⟨contents, -, h⟩ := bind_eq_ok_iff.1 h
      cases h
      exact length_regroup _ _
  · split at h
    · rename_i hempty
      cases h
      rw [List.isEmpty_iff.1 hempty]
    · cases h
  · split at h
    · cases h
      rfl
    · cases h

/-- Lists are converted when all their items are. -/
theorem convertAll_list {large large' : Bool} {s t : ColumnType} (hne : s ≠ t)
    {vs items : List Value} (h : s.convertAll t (vs.flatMap Value.items) = .ok items) :
    (list large s).convertAll (list large' t) vs = .ok (regroup vs items) := by
  rw [convertAll.eq_3]
  cases vs with
  | nil => simp [regroup]
  | cons v vs => rw [if_neg (by simp [hne]), h, ok_bind]

/-- Maps are converted when all their keys and all their contents are. -/
theorem convertAll_map {k v l w : ColumnType} (hne : ¬(k = l ∧ v = w))
    {vs keys contents : List Value}
    (hkeys : k.convertAll l (keysOf (vs.flatMap Value.items)) = .ok keys)
    (hcontents : v.convertAll w (valuesOf (vs.flatMap Value.items)) = .ok contents) :
    (map k v).convertAll (map l w) vs =
      .ok (regroup vs (List.zipWith (fun k v => .tuple [k, v]) keys contents)) := by
  rw [convertAll.eq_4]
  cases vs with
  | nil => simp [regroup]
  | cons u vs =>
      simp only [List.isEmpty_cons, Bool.false_eq_true, or_false, if_neg hne, hkeys, hcontents,
        ok_bind]

section Append

variable {s t : ColumnType} {xs ys ws : List Value}

theorem convertAll_append_of_same (hall : ∀ us, s.convertAll t us = .ok us)
    (h : s.convertAll t (xs ++ ys) = .ok ws) :
    ∃ as bs, s.convertAll t xs = .ok as ∧ s.convertAll t ys = .ok bs ∧ ws = as ++ bs := by
  rw [hall] at h
  exact ⟨xs, ys, hall xs, hall ys, (Except.ok.inj h).symm⟩

/-- A column without values is a case of its own, as it is never refused for them. -/
theorem convertAll_append_of_nil (hempty : (xs ++ ys).isEmpty)
    (h : s.convertAll t (xs ++ ys) = .ok ws) :
    ∃ as bs, s.convertAll t xs = .ok as ∧ s.convertAll t ys = .ok bs ∧ ws = as ++ bs := by
  obtain ⟨rfl, rfl⟩ := List.append_eq_nil_iff.1 (List.isEmpty_iff.1 hempty)
  obtain rfl : ws = [] := List.eq_nil_of_length_eq_zero (length_convertAll h)
  exact ⟨[], [], h, h, rfl⟩

/-- What precedes and what follows in a column is converted apart. -/
theorem convertAll_append (h : s.convertAll t (xs ++ ys) = .ok ws) :
    ∃ as bs, s.convertAll t xs = .ok as ∧ s.convertAll t ys = .ok bs ∧ ws = as ++ bs := by
  -- The induction follows the conversion, which goes on with the items of all lists at once.
  generalize hvs : xs ++ ys = vs at h
  induction s, t, vs using convertAll.induct generalizing xs ys ws with
  | case1 values s t =>
      subst hvs
      simp only [convertAll.eq_1] at h ⊢
      exact FlatType.convertAll_append h
  | case2 target values hflat =>
      subst hvs
      exact convertAll_append_of_same (fun us => convertAll.eq_2 target us hflat) h
  | case3 values large s large' t hsame =>
      subst hvs
      rcases hsame with rfl | hempty
      · refine convertAll_append_of_same (fun us => ?_) h
        rw [convertAll.eq_3, if_pos (.inl rfl)]
      · exact convertAll_append_of_nil hempty h
  | case4 values large s large' t hsame ih =>
      subst hvs
      have hne : s ≠ t := fun h => hsame (.inl h)
      rw [convertAll.eq_3, if_neg hsame] at h
      obtain ⟨items, hitems, h⟩ := bind_eq_ok_iff.1 h
      -- The items of the lists in front are converted apart, and go back to these lists.
      obtain ⟨as, bs, has, hbs, rfl⟩ := ih List.flatMap_append.symm hitems
      refine ⟨_, _, convertAll_list hne has, convertAll_list hne hbs, ?_⟩
      rw [← regroup_append (length_convertAll has)]
      exact (Except.ok.inj h).symm
  | case5 values k v l w hsame =>
      subst hvs
      rcases hsame with ⟨rfl, rfl⟩ | hempty
      · refine convertAll_append_of_same (fun us => ?_) h
        rw [convertAll.eq_4, if_pos (.inl ⟨rfl, rfl⟩)]
      · exact convertAll_append_of_nil hempty h
  | case6 values k v l w hsame entries ihkeys =>
      rename_i ihcontents
      subst hvs
      have hne : ¬(k = l ∧ v = w) := fun h => hsame (.inl h)
      rw [convertAll.eq_4, if_neg hsame] at h
      obtain ⟨keys, hkeys, h⟩ := bind_eq_ok_iff.1 h
      obtain ⟨contents, hcontents, h⟩ := bind_eq_ok_iff.1 h
      have hentries : entries = xs.flatMap Value.items ++ ys.flatMap Value.items :=
        List.flatMap_append
      obtain ⟨ks, ks', hks, hks', rfl⟩ := ihkeys (hentries ▸ (keysOf_append _ _).symm) hkeys
      obtain ⟨cs, cs', hcs, hcs', rfl⟩ :=
        ihcontents (hentries ▸ (valuesOf_append _ _).symm) hcontents
      have hlengths : ks.length = cs.length := by
        rw [length_convertAll hks, length_convertAll hcs, keysOf, valuesOf, List.length_map,
          List.length_map]
      refine ⟨_, _, convertAll_map hne hks hcs, convertAll_map hne hks' hcs', ?_⟩
      rw [← regroup_append, ← List.zipWith_append hlengths]
      · exact (Except.ok.inj h).symm
      · rw [List.length_zipWith, ← hlengths, Nat.min_self, length_convertAll hks, keysOf,
          List.length_map]
  | case7 values key value large item hempty =>
      subst hvs
      exact convertAll_append_of_nil hempty h
  | case8 values key value large item hne =>
      rw [convertAll.eq_5, if_neg hne] at h
      cases h
  | case9 values t hflat hnull hlist hmap hmixed =>
      subst hvs
      refine convertAll_append_of_same (fun us => ?_) h
      rw [convertAll.eq_6 _ _ _ hnull hflat hlist hmap hmixed, if_pos rfl]
  | case10 values s t hflat hnull hlist hmap hmixed hne =>
      rw [convertAll.eq_6 _ _ _ hnull hflat hlist hmap hmixed, if_neg hne] at h
      cases h

end Append

/-- Each value of a converted column is the only value of a converted column of one. -/
theorem convertAll_forall₂ {s t : ColumnType} {vs ws : List Value}
    (h : s.convertAll t vs = .ok ws) :
    List.Forall₂ (fun v w => s.convertAll t [v] = .ok [w]) vs ws := by
  induction vs generalizing ws with
  | nil =>
      obtain rfl : ws = [] := List.eq_nil_of_length_eq_zero (length_convertAll h)
      exact .nil
  | cons v vs ih =>
      rw [← List.singleton_append] at h
      obtain ⟨as, bs, has, hbs, rfl⟩ := convertAll_append h
      obtain ⟨w, rfl⟩ := List.length_eq_one_iff.1 (length_convertAll has)
      exact .cons has (ih hbs)

/-- Values of the type that is wanted stay as they are. -/
theorem convertAll_self (type : ColumnType) (values : List Value) :
    type.convertAll type values = .ok values := by
  cases type with
  | flat type => simp [convertAll, FlatType.convertAll]
  | list large item => simp [convertAll]
  | map key value => simp [convertAll]
  | struct fields => simp [convertAll]

end ColumnType

end MergeOnRead
