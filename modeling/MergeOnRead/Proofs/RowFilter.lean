import MergeOnRead.Proofs.FilterParts

/-!
# What a filter decides of a row

A filter deletes a row when one of its indexes does: an index of positions when it has the position
of the row under the path of the data file, and an index of keys when it has the canonical key that
the row makes of its key fields (`DeleteIndex.deletesRow`).

A row makes a key at least of plain values (`hasKey_of_isPlain`): a dictionary may have keys without
an order, and a signaling NaN cannot be looked up.

`isDeleted_eq` says so for every filter that was created, and for every row whose fields can be
read.  It goes from the groups of the filter to its indexes: `groupsDelete_eq` asks the groups one
after the other, and `positionDeleted_iff` and `exists_group_iff` find the indexes behind the
filter.  `isDeleted_iff_of_ok` and `exists_isDeleted_eq_ok` are about any integer as the position.
-/

namespace MergeOnRead

/-- The canonical key that the values of some fields make is in a set. -/
def KeySet.holdsKeyOf (keys : KeySet) (ids : List Int) (value : Int → Value) : Bool :=
  match Row.canonicalValues (ids.map value) with
  | .ok key => keys.contains key
  | .error _ => false

/-- The values of some fields make a canonical key, which can be looked up. -/
def HasKey (ids : List Int) (value : Int → Value) : Prop :=
  ∃ key, Row.canonicalValues (ids.map value) = .ok key ∧ Value.areHashable key = true

/-- The fields of a row that are found by their ids have some values. -/
def Row.HasFields (r : Row) (fields : List Field) (value : Int → Value) : Prop :=
  ∀ id (place : Nat), Field.positionOf? fields id = some place → r.get place = .ok (value id)

/-- A row has values that can be read field by field. -/
theorem Row.hasFields_of_get {r : Row} {fields : List Field} {value : Int → Value}
    (hget : ∀ (i : Nat) (hi : i < fields.length), r.get i = .ok (value fields[i].id)) :
    r.HasFields fields value := by
  intro id place hplace
  obtain ⟨hlt, rfl⟩ := Field.of_positionOf?_eq_some hplace
  exact hget place hlt

mutual

/-- A value without dictionaries and signaling NaNs. -/
def Value.isPlain : Value → Bool
  | .scalar s => !s.isSignaling
  | .list items => Value.arePlain items
  | .tuple items => Value.arePlain items
  | .dict _ => false

/-- All items are plain. -/
def Value.arePlain : List Value → Bool
  | [] => true
  | v :: vs => v.isPlain && Value.arePlain vs

end

mutual

/-- A plain value has a canonical form, which can be kept in a set. -/
theorem canonical_of_isPlain : (v : Value) → v.isPlain = true →
    ∃ c, v.canonical = .ok c ∧ c.isHashable = true
  | .scalar s, h => by
      refine ⟨.scalar s.canonical, by rw [Value.canonical], ?_⟩
      cases s with
      | float x =>
          rw [Scalar.canonical]
          split <;> rfl
      | binary holder bytes => rfl
      | _ => simpa [Scalar.canonical, Value.isHashable, Value.isPlain] using h
  | .list items, h => by
      obtain ⟨cs, hcs, hhashable⟩ := canonicalItems_of_arePlain items (by rwa [Value.isPlain] at h)
      exact ⟨.tuple cs, by rw [Value.canonical, hcs]; rfl, by rwa [Value.isHashable]⟩
  | .tuple items, h => by
      obtain ⟨cs, hcs, hhashable⟩ := canonicalItems_of_arePlain items (by rwa [Value.isPlain] at h)
      exact ⟨.tuple cs, by rw [Value.canonical, hcs]; rfl, by rwa [Value.isHashable]⟩
  | .dict _, h => by simp [Value.isPlain] at h

theorem canonicalItems_of_arePlain : (vs : List Value) → Value.arePlain vs = true →
    ∃ cs, Value.canonicalItems vs = .ok cs ∧ Value.areHashable cs = true
  | [], _ => ⟨[], by rw [Value.canonicalItems], by rw [Value.areHashable]⟩
  | v :: vs, h => by
      rw [Value.arePlain, Bool.and_eq_true] at h
      obtain ⟨c, hc, hfirst⟩ := canonical_of_isPlain v h.1
      obtain ⟨cs, hcs, hrest⟩ := canonicalItems_of_arePlain vs h.2
      refine ⟨c :: cs, ?_, ?_⟩
      · rw [Value.canonicalItems, hc, ok_bind, hcs, ok_bind]
      · rw [Value.areHashable, hfirst, hrest, Bool.and_self]

end

/-- Plain values always make a key. -/
theorem hasKey_of_isPlain {ids : List Int} {value : Int → Value}
    (h : ∀ id ∈ ids, (value id).isPlain = true) : HasKey ids value := by
  induction ids with
  | nil => exact ⟨[], rfl, rfl⟩
  | cons id ids ih =>
      obtain ⟨c, hc, hfirst⟩ := canonical_of_isPlain (value id) (h id (List.mem_cons_self ..))
      obtain ⟨key, hkey, hrest⟩ := ih fun i hi => h i (List.mem_cons_of_mem _ hi)
      refine ⟨c :: key, ?_, by rw [Value.areHashable, hfirst, hrest, Bool.and_self]⟩
      rw [Row.canonicalValues] at hkey ⊢
      rw [List.map_cons, List.mapM_cons, Row.canonical, hc, hkey]
      rfl

/-- An index deletes the row at a position of a data file whose fields have some values. -/
def DeleteIndex.deletesRow (index : DeleteIndex) (dataPath : String) (position : Nat)
    (value : Int → Value) : Bool :=
  match index with
  | .positions path vectors =>
    ((DeleteIndex.positions path vectors).vector? dataPath).any (·.isDeleted position)
  | .equalities _ fieldIds keys => keys.holdsKeyOf fieldIds value

namespace DeleteFilter

variable {file : DataFile} {indexes : List DeleteIndex} {fields : List Field} {check : Bool}
  {f : DeleteFilter} {value : Int → Value} {r : Row} {p : Nat}

/-! ## Asking the groups -/

/-- A row whose key fields can be read is deleted when the key of some group is. -/
theorem groupsDelete_eq {groups : List EqualityGroup}
    (hvalues : ∀ g ∈ groups,
      g.places.mapM (fun (i : Nat) => r.get i) = .ok (g.fieldIds.map value))
    (hkeys : ∀ g ∈ groups, HasKey g.fieldIds value) :
    groupsDelete r groups = .ok (groups.any fun g => g.keys.holdsKeyOf g.fieldIds value) := by
  induction groups with
  | nil => rfl
  | cons g groups ih =>
      obtain ⟨key, hkey, hhashable⟩ := hkeys g (List.mem_cons_self ..)
      have hrest := ih (fun g hg => hvalues g (List.mem_cons_of_mem _ hg))
        fun g hg => hkeys g (List.mem_cons_of_mem _ hg)
      have hdeletes : g.deletes (g.fieldIds.map value) = .ok (g.keys.contains key) := by
        rw [EqualityGroup.deletes, hkey, ok_bind, KeySet.containsTuple, if_pos hhashable]
      have hholds : g.keys.holdsKeyOf g.fieldIds value = g.keys.contains key := by
        simp only [KeySet.holdsKeyOf, hkey]
      rw [groupsDelete, hvalues g (List.mem_cons_self ..), ok_bind, hdeletes, ok_bind, hrest,
        List.any_cons, hholds]
      cases g.keys.contains key <;> rfl

/-- The places of a group hold the values of its key fields. -/
theorem mapM_places_eq (hcreate : create file indexes fields check = .ok f)
    (hvalue : r.HasFields fields value)
    {g : EqualityGroup} (hg : g ∈ f.groups) :
    g.places.mapM (fun (i : Nat) => r.get i) = .ok (g.fieldIds.map value) := by
  have hplaces := Field.positionsOf_eq_ok_iff.1 ((mem_groups_iff hcreate).1 hg).2
  rw [mapM_eq_ok_iff, List.forall₂_map_right_iff]
  exact hplaces.flip.imp fun place id => hvalue id place

/-! ## From the groups to the indexes -/

/-- Every key that a group asks for is one that an index asks for. -/
theorem hasKey_of_mem_groups (hcreate : create file indexes fields check = .ok f)
    (hkeys : ∀ index ∈ indexes, HasKey index.fieldIds value) {g : EqualityGroup}
    (hg : g ∈ f.groups) : HasKey g.fieldIds value := by
  have hmem := ((mem_groups_iff hcreate).1 hg).1
  obtain ⟨index, hindex, -, (hids : index.fieldIds = g.fieldIds)⟩ :=
    mem_ids_groupKeys.1 (List.mem_map_of_mem (f := (·.1)) hmem)
  exact hids ▸ hkeys index hindex

/-- Some group holds its key of the row when some index does. -/
theorem exists_group_iff (hcreate : create file indexes fields check = .ok f) :
    (∃ g ∈ f.groups, g.keys.holdsKeyOf g.fieldIds value = true) ↔
      ∃ index ∈ indexes, index.isPosition = false ∧
        index.keys.holdsKeyOf index.fieldIds value = true := by
  have hholds : ∀ (keys : KeySet) ids, keys.holdsKeyOf ids value = true ↔
      ∃ key, Row.canonicalValues (ids.map value) = .ok key ∧ keys.contains key = true := by
    intro keys ids
    rw [KeySet.holdsKeyOf]
    cases Row.canonicalValues (ids.map value) with
    | error e => simp
    | ok key => simp
  simp only [hholds]
  -- A group holds the keys of all indexes with its key fields.
  constructor
  · rintro ⟨g, hg, key, hkey, hcontains⟩
    have hmem := ((mem_groups_iff hcreate).1 hg).1
    obtain ⟨index, hindex, hequality, hids, hkeys⟩ :=
      holdsKey_groupKeys.1 ⟨g.keys, hmem, hcontains⟩
    exact ⟨index, hindex, hequality, key, by rw [hids]; exact hkey, hkeys⟩
  · rintro ⟨index, hindex, hequality, key, hkey, hcontains⟩
    obtain ⟨keys, hmem, hkeys⟩ :=
      holdsKey_groupKeys.2 ⟨index, hindex, hequality, rfl, hcontains⟩
    obtain ⟨g, hg, hids, hsame⟩ := exists_mem_groups hcreate hmem
    exact ⟨g, hg, key, by rw [hids]; exact hkey, by rw [hsame]; exact hkeys⟩

/-- A position, which may be any integer, is deleted when some index deletes it in this file. -/
theorem positionDeleted_iff {p : Int} (hcreate : create file indexes fields check = .ok f) :
    f.positionDeleted p = true ↔
      ∃ index ∈ indexes, (index.vector? file.path).any (·.isDeleted p) = true := by
  obtain ⟨groups, -, rfl⟩ := create_eq_ok hcreate
  have hmerged : DeleteFilter.positionDeleted
      ⟨file, fields, mergePositions file.path indexes, groups⟩ p = true ↔
        0 ≤ p ∧ InPositions (mergePositions file.path indexes) p.toNat := by
    rw [positionDeleted, InPositions]
    cases mergePositions file.path indexes with
    | none => simp
    | some s => simp [PositionSet.isDeleted_iff]
  rw [hmerged, inPositions_mergePositions, and_comm, ← exists_and_right]
  refine exists_congr fun index => ?_
  cases index.vector? file.path with
  | none => simp
  | some v => simp [PositionSet.isDeleted_iff, and_assoc, and_comm, and_left_comm]

/-- Where the groups come to an answer, it is that of their keys. -/
theorem groupsDelete_eq_of_ok {groups : List EqualityGroup} {deleted : Bool}
    (hvalues : ∀ g ∈ groups,
      g.places.mapM (fun (i : Nat) => r.get i) = .ok (g.fieldIds.map value))
    (h : groupsDelete r groups = .ok deleted) :
    deleted = groups.any fun g => g.keys.holdsKeyOf g.fieldIds value := by
  induction groups with
  | nil =>
      cases h
      rfl
  | cons g groups ih =>
      rw [groupsDelete, hvalues g (List.mem_cons_self ..), ok_bind] at h
      obtain ⟨first, hfirst, h⟩ := bind_eq_ok_iff.1 h
      obtain ⟨key, hkey, hcontains⟩ := bind_eq_ok_iff.1 hfirst
      have hholds : g.keys.holdsKeyOf g.fieldIds value = first := by
        rw [KeySet.containsTuple] at hcontains
        split at hcontains
        · simpa only [KeySet.holdsKeyOf, hkey] using Except.ok.inj hcontains
        · cases hcontains
      rw [List.any_cons, hholds]
      cases first with
      | true => exact (Except.ok.inj h).symm
      | false => simpa using ih (fun g hg => hvalues g (List.mem_cons_of_mem _ hg)) h

/-- What a filter answers about the row at any integer position is what the indexes say of the
position and of the key. -/
theorem isDeleted_iff_of_ok {p : Int} {deleted : Bool}
    (hcreate : create file indexes fields check = .ok f)
    (hvalue : r.HasFields fields value)
    (h : f.isDeleted p r = .ok deleted) :
    deleted = true ↔
      (∃ index ∈ indexes, (index.vector? file.path).any (·.isDeleted p) = true) ∨
        ∃ index ∈ indexes, index.isPosition = false ∧
          index.keys.holdsKeyOf index.fieldIds value = true := by
  rw [← positionDeleted_iff hcreate, ← exists_group_iff hcreate]
  rw [isDeleted] at h
  split at h
  · rename_i hposition
    cases h
    simp [hposition]
  · rename_i hposition
    rw [groupsDelete_eq_of_ok (fun g hg => mapM_places_eq hcreate hvalue hg) h, List.any_eq_true]
    simp [hposition]

/-- A filter answers about a row that makes a key for each index, unless the position is deleted:
then it asks for no key. -/
theorem exists_isDeleted_eq_ok {p : Int} (hcreate : create file indexes fields check = .ok f)
    (hvalue : r.HasFields fields value)
    (hkeys : (∀ index ∈ indexes, (index.vector? file.path).any (·.isDeleted p) = false) →
      ∀ index ∈ indexes, HasKey index.fieldIds value) :
    ∃ deleted, f.isDeleted p r = .ok deleted := by
  unfold isDeleted
  by_cases hposition : f.positionDeleted p = true
  · exact ⟨true, if_pos hposition⟩
  · have hnone : ∀ index ∈ indexes, (index.vector? file.path).any (·.isDeleted p) = false := by
      intro index hindex
      rw [← Bool.not_eq_true]
      exact fun h => hposition ((positionDeleted_iff hcreate).2 ⟨index, hindex, h⟩)
    rw [if_neg hposition]
    exact ⟨_, groupsDelete_eq (fun g hg => mapM_places_eq hcreate hvalue hg)
      fun g hg => hasKey_of_mem_groups hcreate (hkeys hnone) hg⟩

/-! ## Rows of the file -/

/-- An index that deletes the position of a row deletes the row. -/
theorem deletesRow_iff {index : DeleteIndex} {dataPath : String} :
    index.deletesRow dataPath p value = true ↔
      (index.vector? dataPath).any (·.isDeleted p) = true ∨
        index.isPosition = false ∧ index.keys.holdsKeyOf index.fieldIds value = true := by
  cases index with
  | positions path vectors => simp [DeleteIndex.deletesRow, DeleteIndex.isPosition]
  | equalities path fieldIds keys =>
      simp [DeleteIndex.deletesRow, DeleteIndex.vector?, DeleteIndex.isPosition,
        DeleteIndex.keys, DeleteIndex.fieldIds]

/-- What a filter decides of a row whose fields can be read is what the indexes say. -/
theorem isDeleted_eq_of_ok {deleted : Bool} (hcreate : create file indexes fields check = .ok f)
    (hvalue : r.HasFields fields value)
    (h : f.isDeleted p r = .ok deleted) :
    deleted = indexes.any fun index => index.deletesRow file.path p value := by
  rw [Bool.eq_iff_iff, isDeleted_iff_of_ok hcreate hvalue h, List.any_eq_true, ← exists_or]
  refine exists_congr fun index => ?_
  rw [deletesRow_iff, and_or_left]

/-- **A filter deletes the rows that one of its indexes deletes.**  The fields of the row must be
there to be read, and make a key for each index unless the position is deleted. -/
theorem isDeleted_eq (hcreate : create file indexes fields check = .ok f)
    (hvalue : r.HasFields fields value)
    (hkeys : (∀ index ∈ indexes, (index.vector? file.path).any (·.isDeleted p) = false) →
      ∀ index ∈ indexes, HasKey index.fieldIds value) :
    f.isDeleted p r = .ok (indexes.any fun index => index.deletesRow file.path p value) := by
  obtain ⟨deleted, h⟩ := exists_isDeleted_eq_ok hcreate hvalue hkeys
  rw [h, isDeleted_eq_of_ok hcreate hvalue h]

end DeleteFilter

end MergeOnRead
