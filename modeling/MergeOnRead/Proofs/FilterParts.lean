import MergeOnRead.Deletes.DeleteFilter
import MergeOnRead.Proofs.Fields
import MergeOnRead.Proofs.Lists

/-!
# What a delete filter is made of

A filter unites the deletes of its indexes.  The positions become one set
(`inPositions_mergePositions`), and the keys one set for each list of key fields
(`holdsKey_groupKeys`).

`create_eq_ok` takes the creation of a filter apart, and `mem_groups_iff` gives the places
that each of its groups has found for its key fields.  The key columns of a filter are these
places, each once (`mem_keyColumns`, `nodup_keyColumns`).
-/

namespace MergeOnRead

namespace DeleteFilter

variable {file : DataFile} {indexes : List DeleteIndex} {fields : List Field} {check : Bool}
  {f : DeleteFilter}

/-! ## Deleted positions -/

/-- Some position is in a set that may be missing. -/
def InPositions (positions : Option PositionSet) (p : Nat) : Prop := ∃ s ∈ positions, p ∈ s

/-- A position is among the merged ones when some index deletes it in this file. -/
theorem inPositions_mergePositions {dataPath : String} {p : Nat} :
    InPositions (mergePositions dataPath indexes) p ↔
      ∃ index ∈ indexes, ∃ v, index.vector? dataPath = some v ∧ p ∈ v := by
  suffices hstep : ∀ merged index, InPositions (mergeIndex dataPath merged index) p ↔
      InPositions merged p ∨ ∃ v, index.vector? dataPath = some v ∧ p ∈ v by
    simpa [InPositions, mergePositions] using
      foldl_iff_exists (Q := fun merged => InPositions merged p) hstep none indexes
  intro merged index
  rw [mergeIndex]
  cases hvector : index.vector? dataPath with
  | none => simp
  | some v =>
      by_cases hempty : v.isEmpty = true
      · have hnone : p ∉ v := by
          rw [PositionSet.isEmpty, List.isEmpty_iff] at hempty
          simp [PositionSet.mem_def, hempty]
        simp [hempty, hnone]
      · cases merged with
        | none => simp [hempty, InPositions]
        | some m => simp [hempty, InPositions]

/-! ## Deleted keys -/

theorem containsKeys_union {s t : KeySet} {keys : List Key} :
    (s.union t).containsKeys keys = (s.containsKeys keys || t.containsKeys keys) := by
  rw [Bool.eq_iff_iff]
  simp only [KeySet.containsKeys, KeySet.union, List.any_append, Bool.or_eq_true, List.any_filter,
    List.any_eq_true, Bool.and_eq_true, beq_iff_eq]
  constructor
  · rintro (h | ⟨e, he, -, rfl⟩)
    · exact .inl h
    · exact .inr ⟨e, he, rfl⟩
  · rintro (h | ⟨e, he, rfl⟩)
    · exact .inl h
    · -- A key that both sets hold is kept from the first one only.
      by_cases hin : ∃ d ∈ s.settled, d.1 = e.1
      · exact .inl hin
      · refine .inr ⟨e, he, ?_, rfl⟩
        simpa [KeySet.containsKeys] using fun d k hd hk => hin ⟨(d, k), hd, hk⟩

theorem contains_union {s t : KeySet} {values : List Value} :
    (s.union t).contains values = (s.contains values || t.contains values) := by
  rw [KeySet.contains, KeySet.contains, KeySet.contains, containsKeys_union]
  exact Bool.and_or_distrib_left ..

@[simp] theorem contains_empty (values : List Value) : KeySet.empty.contains values = false := by
  simp [KeySet.contains, KeySet.containsKeys, KeySet.empty]

/-- Some group with these key fields holds the key. -/
def HoldsKey (groups : List (List Int × KeySet)) (ids : List Int) (values : List Value) : Prop :=
  ∃ keys, (ids, keys) ∈ groups ∧ keys.contains values = true

theorem holdsKey_addKeys {ids fieldIds : List Int} {keys : KeySet} {values : List Value}
    {groups : List (List Int × KeySet)} :
    HoldsKey (addKeys fieldIds keys groups) ids values ↔
      (ids = fieldIds ∧ keys.contains values = true) ∨ HoldsKey groups ids values := by
  induction groups with
  | nil => simp [addKeys, HoldsKey, contains_union]
  | cons group groups ih =>
      obtain ⟨first, ks⟩ := group
      rw [addKeys]
      -- The keys go to the first group with their key fields.
      by_cases hfirst : first = fieldIds
      · subst hfirst
        rw [if_pos rfl]
        simp only [HoldsKey, List.mem_cons, Prod.mk.injEq]
        constructor
        · rintro ⟨k, ⟨rfl, rfl⟩ | hk, hv⟩
          · rcases Bool.or_eq_true_iff.1 (contains_union ▸ hv) with hv | hv
            · exact .inr ⟨ks, .inl ⟨rfl, rfl⟩, hv⟩
            · exact .inl ⟨rfl, hv⟩
          · exact .inr ⟨k, .inr hk, hv⟩
        · rintro (⟨rfl, hv⟩ | ⟨k, ⟨rfl, rfl⟩ | hk, hv⟩)
          · exact ⟨_, .inl ⟨rfl, rfl⟩, by rw [contains_union, hv, Bool.or_true]⟩
          · exact ⟨_, .inl ⟨rfl, rfl⟩, by rw [contains_union, hv, Bool.true_or]⟩
          · exact ⟨k, .inr hk, hv⟩
      · rw [if_neg hfirst]
        simp only [HoldsKey, List.mem_cons] at ih ⊢
        constructor
        · rintro ⟨k, hk | hk, hv⟩
          · exact .inr ⟨k, .inl hk, hv⟩
          · refine (ih.1 ⟨k, hk, hv⟩).imp id ?_
            rintro ⟨k, hk, hv⟩
            exact ⟨k, .inr hk, hv⟩
        · rintro (h | ⟨k, hk | hk, hv⟩)
          · obtain ⟨k, hk, hv⟩ := ih.2 (.inl h)
            exact ⟨k, .inr hk, hv⟩
          · exact ⟨k, .inl hk, hv⟩
          · obtain ⟨k, hk, hv⟩ := ih.2 (.inr ⟨k, hk, hv⟩)
            exact ⟨k, .inr hk, hv⟩

/-- The groups hold the keys of the indexes, each under its key fields. -/
theorem holdsKey_groupKeys {ids : List Int} {values : List Value} :
    HoldsKey (groupKeys indexes) ids values ↔
      ∃ index ∈ indexes, index.isPosition = false ∧ index.fieldIds = ids ∧
        index.keys.contains values = true := by
  suffices hstep : ∀ groups index, HoldsKey (groupIndex groups index) ids values ↔
      HoldsKey groups ids values ∨
        index.isPosition = false ∧ index.fieldIds = ids ∧ index.keys.contains values = true by
    simpa [HoldsKey, groupKeys] using
      foldl_iff_exists (Q := fun groups => HoldsKey groups ids values) hstep [] indexes
  intro groups index
  cases index with
  | positions path vectors => simp [groupIndex, DeleteIndex.isPosition]
  | equalities path fieldIds keys =>
      rw [groupIndex, holdsKey_addKeys]
      simp only [DeleteIndex.isPosition, DeleteIndex.fieldIds, DeleteIndex.keys, true_and]
      rw [eq_comm, or_comm]

theorem mem_ids_addKeys {ids fieldIds : List Int} {keys : KeySet}
    {groups : List (List Int × KeySet)} :
    ids ∈ (addKeys fieldIds keys groups).map (·.1) ↔ ids ∈ groups.map (·.1) ∨ fieldIds = ids := by
  induction groups with
  | nil => simp [addKeys, eq_comm]
  | cons group groups ih =>
      rw [addKeys]
      by_cases hfirst : group.1 = fieldIds
      · rw [if_pos hfirst, ← hfirst, List.map_cons, List.map_cons, List.mem_cons, eq_comm,
          or_right_comm, or_self]
      · rw [if_neg hfirst, List.map_cons, List.map_cons, List.mem_cons, List.mem_cons, ih, or_assoc]

/-- There is a group for the key fields of each index, and no other one. -/
theorem mem_ids_groupKeys {ids : List Int} :
    ids ∈ (groupKeys indexes).map (·.1) ↔
      ∃ index ∈ indexes, index.isPosition = false ∧ index.fieldIds = ids := by
  suffices hstep : ∀ groups index, ids ∈ (groupIndex groups index).map (·.1) ↔
      ids ∈ groups.map (·.1) ∨ index.isPosition = false ∧ index.fieldIds = ids by
    simpa [groupKeys] using foldl_iff_exists (Q := fun groups : List (List Int × KeySet) =>
      ids ∈ groups.map (·.1)) hstep [] indexes
  intro groups index
  cases index with
  | positions path vectors => simp [groupIndex, DeleteIndex.isPosition]
  | equalities path fieldIds keys =>
      rw [groupIndex, mem_ids_addKeys]
      simp [DeleteIndex.isPosition, DeleteIndex.fieldIds]

/-! ## The parts of a filter -/

theorem create_eq_ok (h : create file indexes fields check = .ok f) :
    ∃ groups, (groupKeys indexes).mapM (resolve file fields) = .ok groups ∧
      f = ⟨file, fields, mergePositions file.path indexes, groups⟩ := by
  simp only [create] at h
  split at h
  · cases h
  · obtain ⟨groups, hgroups, h⟩ := bind_eq_ok_iff.1 h
    exact ⟨groups, hgroups, (Except.ok.inj h).symm⟩

theorem resolve_eq_ok_iff {group : List Int × KeySet} {g : EqualityGroup} :
    resolve file fields group = .ok g ↔
      g.fieldIds = group.1 ∧ g.keys = group.2 ∧
        Field.positionsOf group.1 fields = .ok g.places := by
  obtain ⟨ids, keys, places⟩ := g
  rw [resolve]
  cases Field.positionsOf group.1 fields with
  | error id => simp
  | ok found =>
      simp only [Except.ok.injEq, EqualityGroup.mk.injEq]
      exact ⟨fun ⟨h₁, h₂, h₃⟩ => ⟨h₁.symm, h₂.symm, h₃⟩, fun ⟨h₁, h₂, h₃⟩ => ⟨h₁.symm, h₂.symm, h₃⟩⟩

/-- The groups of a filter are those of the keys, with places for their key fields. -/
theorem mem_groups_iff (h : create file indexes fields check = .ok f) {g : EqualityGroup} :
    g ∈ f.groups ↔
      (g.fieldIds, g.keys) ∈ groupKeys indexes ∧
        Field.positionsOf g.fieldIds fields = .ok g.places := by
  obtain ⟨groups, hgroups, rfl⟩ := create_eq_ok h
  rw [mem_iff_of_mapM_eq_ok hgroups]
  constructor
  · rintro ⟨group, hgroup, hresolved⟩
    obtain ⟨hids, hkeys, hplaces⟩ := resolve_eq_ok_iff.1 hresolved
    rw [hids, hkeys]
    exact ⟨hgroup, hplaces⟩
  · rintro ⟨hgroup, hplaces⟩
    exact ⟨_, hgroup, resolve_eq_ok_iff.2 ⟨rfl, rfl, hplaces⟩⟩

/-- There is a group for all keys with the same key fields. -/
theorem exists_mem_groups (h : create file indexes fields check = .ok f)
    {group : List Int × KeySet} (hgroup : group ∈ groupKeys indexes) :
    ∃ g ∈ f.groups, g.fieldIds = group.1 ∧ g.keys = group.2 := by
  obtain ⟨groups, hgroups, rfl⟩ := create_eq_ok h
  obtain ⟨i, hi, rfl⟩ := List.mem_iff_getElem.1 hgroup
  have hforall := mapM_eq_ok_iff.1 hgroups
  have hi' : i < groups.length := hforall.length_eq ▸ hi
  obtain ⟨hids, hkeys, -⟩ := resolve_eq_ok_iff.1 (hforall.get hi hi')
  exact ⟨groups[i], List.getElem_mem hi', hids, hkeys⟩

/-- The places of a group exist. -/
theorem lt_of_mem_places (h : create file indexes fields check = .ok f) {g : EqualityGroup}
    (hg : g ∈ f.groups) {place : Nat} (hplace : place ∈ g.places) : place < fields.length :=
  Field.lt_of_mem_positionsOf ((mem_groups_iff h).1 hg).2 hplace

/-- A group whose key fields are given has places. -/
theorem places_ne_nil (h : create file indexes fields check = .ok f)
    (hkeyed : ∀ index ∈ indexes, index.isPosition = false → index.fieldIds ≠ [])
    {g : EqualityGroup} (hg : g ∈ f.groups) : g.places ≠ [] := by
  obtain ⟨hmem, hplaces⟩ := (mem_groups_iff h).1 hg
  obtain ⟨index, hindex, hequality, (hids : index.fieldIds = g.fieldIds)⟩ :=
    mem_ids_groupKeys.1 (List.mem_map_of_mem (f := (·.1)) hmem)
  have hne : g.fieldIds ≠ [] := hids ▸ hkeyed index hindex hequality
  have hlength := (Field.positionsOf_eq_ok_iff.1 hplaces).length_eq
  intro hnil
  rw [hnil, List.length_nil, List.length_eq_zero_iff] at hlength
  exact hne hlength

/-! ## The key columns -/

theorem mem_keyColumns {place : Nat} : place ∈ f.keyColumns ↔ ∃ g ∈ f.groups, place ∈ g.places := by
  rw [keyColumns, List.mem_eraseDups, List.mem_mergeSort, List.mem_flatMap]

theorem nodup_keyColumns (f : DeleteFilter) : f.keyColumns.Nodup := nodup_eraseDups _

/-- The key columns exist. -/
theorem lt_of_mem_keyColumns (h : create file indexes fields check = .ok f) {place : Nat}
    (hplace : place ∈ f.keyColumns) : place < fields.length := by
  obtain ⟨g, hg, hmem⟩ := mem_keyColumns.1 hplace
  exact lt_of_mem_places h hg hmem

/-- A filter with groups has key columns. -/
theorem keyColumns_ne_nil (h : create file indexes fields check = .ok f)
    (hkeyed : ∀ index ∈ indexes, index.isPosition = false → index.fieldIds ≠ [])
    (hgroups : f.groups ≠ []) : f.keyColumns ≠ [] := by
  obtain ⟨g, hg⟩ := List.exists_mem_of_ne_nil f.groups hgroups
  obtain ⟨place, hplace⟩ := List.exists_mem_of_ne_nil _ (places_ne_nil h hkeyed hg)
  exact List.ne_nil_of_mem (mem_keyColumns.2 ⟨g, hg, hplace⟩)

end DeleteFilter

end MergeOnRead
