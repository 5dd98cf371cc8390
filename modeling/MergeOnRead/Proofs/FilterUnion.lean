import MergeOnRead.Proofs.RowFilter
import Mathlib.Order.Bounds.Basic

/-!
# A filter is the union of its indexes

Before a filter is made, its indexes are merged: the positions of the data file into one set, and
the keys into one set for each list of key fields.  The merging changes no outcome
(`create_unites`).  It depends on the indexes one by one whether a filter can be made, with what
error it fails otherwise, and which rows it deletes.

The two errors come from different parts of the merging, and each of them needs the order in which
something is kept:

* the greatest merged position is the last one of an ascending list (`max?_eq_some_iff`), and it is
  the greatest one that any index lists (`create_eq_outOfRange_iff`);
* the groups stand in the order in which their key fields occur first, so that the first key field
  that is not read is that of the indexes themselves (`find?_groupKeys`,
  `create_eq_unresolved_iff`).

A list that is put together from two has the indexes of both, so the union of two filters is the
filter of both lists (`joins_append`), and neither the order of the indexes nor repetitions among
them matter (`agree_of_same`).
-/

namespace MergeOnRead

namespace PositionSet

theorem max?_eq_some_iff {s : PositionSet} {last : Nat} :
    s.max? = some last ↔ IsGreatest {p | p ∈ s} last := by
  have hpairwise := s.ascending
  unfold max?
  rw [IsGreatest, mem_upperBounds]
  simp only [Set.mem_ofPred_eq, mem_def]
  constructor
  · intro h
    obtain ⟨front, hfront⟩ := List.getLast?_eq_some_iff.1 h
    rw [hfront, List.pairwise_append] at hpairwise
    refine ⟨by simp [hfront], fun p hp => ?_⟩
    rw [hfront, List.mem_append, List.mem_singleton] at hp
    rcases hp with hp | rfl
    · exact (hpairwise.2.2 p hp last (List.mem_singleton_self _)).le
    · exact le_refl _
  · rintro ⟨hlast, hgreatest⟩
    cases hfound : s.positions.getLast? with
    | none =>
        rw [List.getLast?_eq_none_iff.1 hfound] at hlast
        cases hlast
    | some q =>
        obtain ⟨front, hfront⟩ := List.getLast?_eq_some_iff.1 hfound
        rw [hfront, List.pairwise_append] at hpairwise
        have hle : q ≤ last := hgreatest q (by simp [hfront])
        rw [hfront, List.mem_append, List.mem_singleton] at hlast
        rcases hlast with hlast | rfl
        · have := hpairwise.2.2 last hlast q (List.mem_singleton_self _)
          omega
        · rfl

end PositionSet

/-! ## What the indexes say one by one -/

namespace DeleteIndex

variable {dataPath : String} {as bs : List DeleteIndex} {value : Int → Value}

/-- Some index has a position, which may be any integer, under the path of a data file. -/
def ListsAt (indexes : List DeleteIndex) (dataPath : String) (p : Int) : Prop :=
  ∃ index ∈ indexes, (index.vector? dataPath).any (·.isDeleted p) = true

/-- Some index of keys has the key that the values of its own key fields make. -/
def HoldsKeyOf (indexes : List DeleteIndex) (value : Int → Value) : Prop :=
  ∃ index ∈ indexes, index.isPosition = false ∧
    index.keys.holdsKeyOf index.fieldIds value = true

/-- The first key field, in the order of the indexes, that is not among some fields. -/
def firstUnread? (indexes : List DeleteIndex) (fields : List Field) : Option Int :=
  (indexes.flatMap (·.fieldIds)).find? fun id => id ∉ fields.map (·.id)

theorem lists_append {p : Int} : ListsAt (as ++ bs) dataPath p ↔
    ListsAt as dataPath p ∨ ListsAt bs dataPath p := by
  simp only [ListsAt, List.mem_append, or_and_right, exists_or]

theorem holdsKeyOf_append :
    HoldsKeyOf (as ++ bs) value ↔ HoldsKeyOf as value ∨ HoldsKeyOf bs value := by
  simp only [HoldsKeyOf, List.mem_append, or_and_right, exists_or]

theorem lists_congr (hsame : ∀ index, index ∈ as ↔ index ∈ bs) {p : Int} :
    ListsAt as dataPath p ↔ ListsAt bs dataPath p := by
  simp only [ListsAt, hsame]

theorem holdsKeyOf_congr (hsame : ∀ index, index ∈ as ↔ index ∈ bs) :
    HoldsKeyOf as value ↔ HoldsKeyOf bs value := by
  simp only [HoldsKeyOf, hsame]

/-- No negative position is listed. -/
theorem nonneg_of_lists {p : Int} (h : ListsAt as dataPath p) : 0 ≤ p := by
  obtain ⟨index, -, hlists⟩ := h
  cases hvector : index.vector? dataPath with
  | none => simp [hvector] at hlists
  | some v =>
      rw [hvector, Option.any_some] at hlists
      exact (PositionSet.isDeleted_iff.1 hlists).1

theorem firstUnread?_eq_none_iff {fields : List Field} : firstUnread? as fields = none ↔
    ∀ index ∈ as, ∀ id ∈ index.fieldIds, id ∈ fields.map (·.id) := by
  simp only [firstUnread?, List.find?_eq_none, List.mem_flatMap, decide_eq_true_eq, not_not]
  exact ⟨fun h index hindex id hid => h id ⟨index, hindex, hid⟩,
    fun h id ⟨index, hindex, hid⟩ => h index hindex id hid⟩

end DeleteIndex

/-! ## The errors -/

namespace Field

/-- The ids are looked up in order, and the first one without a field is the error. -/
theorem positionsOf_eq_error_iff {ids : List Int} {fields : List Field} {id : Int} :
    positionsOf ids fields = .error id ↔ ids.find? (· ∉ fields.map (·.id)) = some id := by
  unfold positionsOf
  induction ids with
  | nil => simp [pure, Except.pure]
  | cons first ids ih =>
      rw [mapM_cons_eq_error_iff, ih]
      by_cases hfirst : first ∈ fields.map (·.id)
      · rw [List.find?_cons_of_neg (by simpa using hfirst)]
        cases hposition : positionOf? fields first with
        | none => exact absurd hfirst (positionOf?_eq_none_iff.1 hposition)
        | some i => simp
      · rw [List.find?_cons_of_pos (by simpa using hfirst), positionOf?_eq_none_iff.2 hfirst]
        simp

end Field

namespace DeleteFilter

open DeleteIndex

variable {file : DataFile} {indexes : List DeleteIndex} {fields : List Field} {check : Bool}
  {f : DeleteFilter} {p : Int}

/-- A position delete points past the end of the data file. -/
def OutOfRange (file : DataFile) (indexes : List DeleteIndex) : Prop :=
  ∃ p, ListsAt indexes file.path p ∧ file.rowCount ≤ p

/-- Key fields that are added behind others come behind them, or are there already. -/
theorem find?_addKeys (q : Int → Bool) (ids : List Int) (keys : KeySet)
    (groups : List (List Int × KeySet)) :
    ((addKeys ids keys groups).flatMap (·.1)).find? q =
      (groups.flatMap (·.1) ++ ids).find? q := by
  induction groups with
  | nil => simp [addKeys]
  | cons group groups ih =>
      rw [addKeys]
      by_cases hfirst : group.1 = ids
      · rw [if_pos hfirst, List.flatMap_cons, List.flatMap_cons, List.append_assoc, hfirst]
        rw [List.find?_append, List.find?_append, List.find?_append]
        -- What is found behind the group is found in the group before.
        cases ids.find? q <;> simp
      · rw [if_neg hfirst, List.flatMap_cons, List.flatMap_cons, List.append_assoc,
          List.find?_append, List.find?_append, ih]

theorem find?_groupKeys (q : Int → Bool) (indexes : List DeleteIndex) :
    ((groupKeys indexes).flatMap (·.1)).find? q = (indexes.flatMap (·.fieldIds)).find? q := by
  suffices hgroups : ∀ groups : List (List Int × KeySet),
      ((indexes.foldl groupIndex groups).flatMap (·.1)).find? q =
        (groups.flatMap (·.1) ++ indexes.flatMap (·.fieldIds)).find? q by
    simpa [groupKeys] using hgroups []
  induction indexes with
  | nil => intro groups; simp
  | cons index indexes ih =>
      intro groups
      have hstep : ((groupIndex groups index).flatMap (·.1)).find? q =
          (groups.flatMap (·.1) ++ index.fieldIds).find? q := by
        cases index with
        | positions path vectors => simp [groupIndex, fieldIds]
        | equalities path ids keys => exact find?_addKeys q ids keys groups
      rw [List.foldl_cons, ih, List.find?_append, hstep, ← List.find?_append, List.append_assoc,
        List.flatMap_cons]

/-- The groups fail to find their places with the first key field that is not read. -/
theorem mapM_resolve_eq_error_iff {groups : List (List Int × KeySet)} {e : Error} :
    groups.mapM (resolve file fields) = .error e ↔
      ∃ id, (groups.flatMap (·.1)).find? (· ∉ fields.map (·.id)) = some id ∧
        e = .scan (.unresolved id) (some file.path) := by
  induction groups with
  | nil => simp [pure, Except.pure]
  | cons group groups ih =>
      rw [mapM_cons_eq_error_iff, ih, List.flatMap_cons, List.find?_append, resolve]
      cases hplaces : Field.positionsOf group.1 fields with
      | error id =>
          rw [Field.positionsOf_eq_error_iff.1 hplaces]
          simp [eq_comm]
      | ok places =>
          have hnone : group.1.find? (· ∉ fields.map (·.id)) = none := by
            cases hfound : group.1.find? (· ∉ fields.map (·.id)) with
            | none => rfl
            | some id => simp [Field.positionsOf_eq_error_iff.2 hfound] at hplaces
          rw [hnone, Option.none_or]
          simp

/-- The positions that are merged are those that some index lists. -/
theorem inPositions_iff_lists {last : Nat} :
    InPositions (mergePositions file.path indexes) last ↔ ListsAt indexes file.path last := by
  rw [inPositions_mergePositions]
  refine exists_congr fun index => and_congr_right fun _ => ?_
  cases index.vector? file.path with
  | none => simp
  | some v => simp [PositionSet.isDeleted_iff]

theorem beyondEnd?_eq_some_iff {last : Nat} :
    beyondEnd? file (mergePositions file.path indexes) = some last ↔
      IsGreatest {p | ListsAt indexes file.path p} (last : Int) ∧ file.rowCount ≤ last := by
  have hgreatest : (mergePositions file.path indexes).bind (·.max?) = some last ↔
      IsGreatest {p | ListsAt indexes file.path p} (last : Int) := by
    have hlists : ∀ p : Nat, ListsAt indexes file.path p ↔
        ∃ s ∈ mergePositions file.path indexes, p ∈ s := fun p => inPositions_iff_lists.symm
    have hbound : (last : Int) ∈ upperBounds {p | ListsAt indexes file.path p} ↔
        ∀ p : Nat, ListsAt indexes file.path p → p ≤ last := by
      rw [mem_upperBounds]
      constructor
      · intro h p hp
        exact Int.ofNat_le.1 (h p hp)
      · intro h p hp
        obtain ⟨n, rfl⟩ := Int.eq_ofNat_of_zero_le (nonneg_of_lists hp)
        exact Int.ofNat_le.2 (h n hp)
    rw [IsGreatest, hbound, Set.mem_ofPred_eq]
    simp only [hlists]
    cases mergePositions file.path indexes with
    | none => simp
    | some s => simp [PositionSet.max?_eq_some_iff, IsGreatest, mem_upperBounds]
  rw [← hgreatest]
  unfold beyondEnd?
  cases (mergePositions file.path indexes).bind (·.max?) with
  | none => simp
  | some q =>
      by_cases hq : file.rowCount ≤ q
      · simp only [if_pos hq, Option.some.injEq]
        exact ⟨fun h => ⟨h, h ▸ hq⟩, And.left⟩
      · simp only [if_neg hq, Option.some.injEq, reduceCtorEq, false_iff]
        rintro ⟨rfl, h⟩
        exact hq h

/-- A position past the end means that the greatest one is. -/
theorem exists_beyondEnd?_iff :
    (∃ last, beyondEnd? file (mergePositions file.path indexes) = some last) ↔
      OutOfRange file indexes := by
  constructor
  · rintro ⟨last, h⟩
    obtain ⟨hgreatest, hend⟩ := beyondEnd?_eq_some_iff.1 h
    exact ⟨last, hgreatest.1, hend⟩
  · rintro ⟨p, hp, hend⟩
    obtain ⟨n, rfl⟩ := Int.eq_ofNat_of_zero_le (nonneg_of_lists hp)
    obtain ⟨s, hs, hn⟩ := inPositions_iff_lists.2 hp
    rw [Option.mem_def] at hs
    cases hlast : s.max? with
    | none =>
        rw [PositionSet.max?, List.getLast?_eq_none_iff] at hlast
        rw [PositionSet.mem_def, hlast] at hn
        cases hn
    | some last =>
        have hle : n ≤ last := (PositionSet.max?_eq_some_iff.1 hlast).2 hn
        have hpast : file.rowCount ≤ last := by omega
        refine ⟨last, ?_⟩
        rw [beyondEnd?, hs, Option.bind_some, hlast]
        exact if_pos hpast

/-! ## Making a filter -/

/-- The greatest position that is listed is reported. -/
theorem create_eq_outOfRange (hcheck : check = true) {last : Nat}
    (hlast : beyondEnd? file (mergePositions file.path indexes) = some last) :
    create file indexes fields check =
      .error (.scan (.deleteOutOfRange (some last) file.rowCount) (some file.path)) := by
  unfold create
  simp only [hcheck, if_true, hlast]

/-- Where no position is out of range, only the places of the key fields can be missing. -/
theorem create_eq_mapM (hrange : ¬(check = true ∧ OutOfRange file indexes)) :
    create file indexes fields check =
      ((groupKeys indexes).mapM (resolve file fields) >>= fun groups =>
        .ok ⟨file, fields, mergePositions file.path indexes, groups⟩) := by
  have hnone : (if check then beyondEnd? file (mergePositions file.path indexes) else none) =
      none := by
    cases check with
    | false => rfl
    | true =>
        rw [← exists_beyondEnd?_iff] at hrange
        simpa [Option.eq_none_iff_forall_ne_some] using hrange
  unfold create
  simp only [hnone]

theorem create_eq_outOfRange_iff {last : Nat} :
    create file indexes fields check =
        .error (.scan (.deleteOutOfRange (some last) file.rowCount) (some file.path)) ↔
      check = true ∧ IsGreatest {p | ListsAt indexes file.path p} (last : Int) ∧
        file.rowCount ≤ last := by
  rw [← beyondEnd?_eq_some_iff]
  refine ⟨fun h => ?_, fun ⟨hcheck, hlast⟩ => create_eq_outOfRange hcheck hlast⟩
  by_cases hrange : check = true ∧ OutOfRange file indexes
  · obtain ⟨q, hq⟩ := exists_beyondEnd?_iff.2 hrange.2
    rw [create_eq_outOfRange hrange.1 hq] at h
    have hsame : q = last := by
      simp only [Except.error.injEq, Error.scan.injEq, ScanCause.deleteOutOfRange.injEq,
        Option.some.injEq] at h
      omega
    exact ⟨hrange.1, hsame ▸ hq⟩
  · rw [create_eq_mapM hrange, bind_eq_error_iff, mapM_resolve_eq_error_iff] at h
    simp at h

theorem create_eq_unresolved_iff (hrange : ¬(check = true ∧ OutOfRange file indexes)) {id : Int} :
    create file indexes fields check = .error (.scan (.unresolved id) (some file.path)) ↔
      firstUnread? indexes fields = some id := by
  rw [create_eq_mapM hrange, bind_eq_error_iff, mapM_resolve_eq_error_iff, find?_groupKeys]
  simp [firstUnread?]

/-- What becomes of some indexes: one of the two errors, or a filter. -/
theorem create_cases (file : DataFile) (indexes : List DeleteIndex) (fields : List Field)
    (check : Bool) :
    (∃ last : Nat, check = true ∧ beyondEnd? file (mergePositions file.path indexes) = some last ∧
      create file indexes fields check =
        .error (.scan (.deleteOutOfRange (some last) file.rowCount) (some file.path))) ∨
    ¬(check = true ∧ OutOfRange file indexes) ∧
      ((∃ id, firstUnread? indexes fields = some id ∧ create file indexes fields check =
          .error (.scan (.unresolved id) (some file.path))) ∨
        firstUnread? indexes fields = none ∧ ∃ f, create file indexes fields check = .ok f) := by
  by_cases hrange : check = true ∧ OutOfRange file indexes
  · obtain ⟨last, hlast⟩ := exists_beyondEnd?_iff.2 hrange.2
    exact .inl ⟨last, hrange.1, hlast, create_eq_outOfRange hrange.1 hlast⟩
  · refine .inr ⟨hrange, ?_⟩
    cases hcreate : create file indexes fields check with
    | error e =>
        have hunread := hcreate
        rw [create_eq_mapM hrange, bind_eq_error_iff, mapM_resolve_eq_error_iff,
          find?_groupKeys] at hunread
        obtain ⟨id, hid, rfl⟩ : ∃ id, firstUnread? indexes fields = some id ∧
            e = .scan (.unresolved id) (some file.path) := by
          simpa [firstUnread?] using hunread
        exact .inl ⟨id, hid, rfl⟩
    | ok f =>
        refine .inr ⟨Option.eq_none_iff_forall_ne_some.2 fun id hid => ?_, f, rfl⟩
        rw [(create_eq_unresolved_iff hrange).2 hid] at hcreate
        cases hcreate

theorem exists_create_eq_ok_iff :
    (∃ f, create file indexes fields check = .ok f) ↔
      ¬(check = true ∧ OutOfRange file indexes) ∧ firstUnread? indexes fields = none := by
  rcases create_cases file indexes fields check with
    ⟨last, hcheck, hlast, h⟩ | ⟨hrange, ⟨id, hid, h⟩ | ⟨hnone, h⟩⟩
  · have hrange : OutOfRange file indexes := exists_beyondEnd?_iff.1 ⟨last, hlast⟩
    subst hcheck
    simp [h, hrange]
  · simp [h, hid]
  · simp only [h, hrange, hnone, not_false_eq_true, and_self]

/-! ## Lists of indexes -/

section Together

variable {as bs : List DeleteIndex}

theorem outOfRange_append :
    OutOfRange file (as ++ bs) ↔ OutOfRange file as ∨ OutOfRange file bs := by
  simp only [OutOfRange, lists_append, or_and_right, exists_or]

theorem firstUnread?_append_eq_none_iff :
    firstUnread? (as ++ bs) fields = none ↔
      firstUnread? as fields = none ∧ firstUnread? bs fields = none := by
  unfold firstUnread?
  rw [List.flatMap_append, List.find?_append, Option.or_eq_none_iff]

/-- Two lists of indexes make a filter together when each of them makes one. -/
theorem exists_create_append_iff :
    (∃ f, create file (as ++ bs) fields check = .ok f) ↔
      (∃ f, create file as fields check = .ok f) ∧ ∃ f, create file bs fields check = .ok f := by
  simp only [exists_create_eq_ok_iff, outOfRange_append, firstUnread?_append_eq_none_iff]
  tauto

theorem exists_create_congr (hsame : ∀ index, index ∈ as ↔ index ∈ bs) :
    (∃ f, create file as fields check = .ok f) ↔ ∃ f, create file bs fields check = .ok f := by
  simp only [exists_create_eq_ok_iff, OutOfRange, lists_congr hsame, firstUnread?_eq_none_iff,
    hsame]

theorem create_eq_outOfRange_congr (hsame : ∀ index, index ∈ as ↔ index ∈ bs) {last : Nat} :
    create file as fields check =
        .error (.scan (.deleteOutOfRange (some last) file.rowCount) (some file.path)) ↔
      create file bs fields check =
        .error (.scan (.deleteOutOfRange (some last) file.rowCount) (some file.path)) := by
  simp only [create_eq_outOfRange_iff, lists_congr hsame]

end Together

/-! ## The union -/

/-- The value that a row of some fields has for the field with an id. -/
def valueOf (fields : List Field) (values : List Value) (id : Int) : Value :=
  values.getD ((fields.map (·.id)).idxOf id) .null

/-- The row has these values for some fields, in their order. -/
def IsLaidOut (fields : List Field) (values : List Value) (r : Row) : Prop :=
  values.length = fields.length ∧ ∀ (i : Nat) v, values[i]? = some v → r.get i = .ok v

theorem IsLaidOut.hasFields {values : List Value} {r : Row} (hids : (fields.map (·.id)).Nodup)
    (hrow : IsLaidOut fields values r) : r.HasFields fields (valueOf fields values) := by
  refine Row.hasFields_of_get fun i hi => ?_
  have hlt : i < values.length := hrow.1 ▸ hi
  have hplace : (fields.map (·.id)).idxOf fields[i].id = i := by
    have hi' : i < (fields.map (·.id)).length := by rwa [List.length_map]
    simpa using hids.idxOf_getElem i hi'
  have hget := hrow.2 i values[i] (List.getElem?_eq_getElem hlt)
  rw [valueOf, hplace, List.getD_eq_getElem?_getD, List.getElem?_eq_getElem hlt, hget]
  rfl

/-- Making a filter of some indexes comes to what the indexes say one by one. -/
structure IsUnionOf (file : DataFile) (indexes : List DeleteIndex) (fields : List Field)
    (check : Bool) : Prop where
  refused_iff : (∃ e, create file indexes fields check = .error e ∧ e.kind = .invalidDelete) ↔
    check = true ∧ OutOfRange file indexes
  reported : ∀ e, create file indexes fields check = .error e → e.kind = .invalidDelete →
    ∃ last : Nat, IsGreatest {p | ListsAt indexes file.path p} (last : Int) ∧
      e = .scan (.deleteOutOfRange (some last) file.rowCount) (some file.path)
  mismatched_iff : ¬(check = true ∧ OutOfRange file indexes) →
    ((∃ e, create file indexes fields check = .error e ∧ e.kind = .schemaMismatch) ↔
      ∃ index ∈ indexes, ∃ id ∈ index.fieldIds, id ∉ fields.map (·.id))
  unread : ∀ e, create file indexes fields check = .error e → e.kind = .schemaMismatch →
    ∃ id, firstUnread? indexes fields = some id ∧
      e = .scan (.unresolved id) (some file.path)
  made : ¬(check = true ∧ OutOfRange file indexes) →
    (∀ index ∈ indexes, ∀ id ∈ index.fieldIds, id ∈ fields.map (·.id)) →
      ∃ f, create file indexes fields check = .ok f ∧
        ∀ (p : Int) (values : List Value) (r : Row), IsLaidOut fields values r →
          (∀ deleted, f.isDeleted p r = .ok deleted → (deleted = true ↔
            ListsAt indexes file.path p ∨ HoldsKeyOf indexes (valueOf fields values))) ∧
          (ListsAt indexes file.path p ∨
              (∀ index ∈ indexes, HasKey index.fieldIds (valueOf fields values)) →
            ∃ deleted, f.isDeleted p r = .ok deleted)

theorem isUnionOf_create (hids : (fields.map (·.id)).Nodup) :
    IsUnionOf file indexes fields check := by
  have hunread : firstUnread? indexes fields = none ↔
      ¬∃ index ∈ indexes, ∃ id ∈ index.fieldIds, id ∉ fields.map (·.id) := by
    rw [firstUnread?_eq_none_iff]
    push Not
    rfl
  constructor
  case refused_iff =>
    rcases create_cases file indexes fields check with
      ⟨last, hcheck, hlast, h⟩ | ⟨hrange, ⟨id, hid, h⟩ | ⟨hnone, f, h⟩⟩
    · exact iff_of_true ⟨_, h, rfl⟩ ⟨hcheck, exists_beyondEnd?_iff.1 ⟨last, hlast⟩⟩
    · refine iff_of_false ?_ hrange
      rintro ⟨e, he, hkind⟩
      cases h ▸ he
      cases hkind
    · refine iff_of_false ?_ hrange
      rintro ⟨e, he, -⟩
      cases h ▸ he
  case reported =>
    intro e he hkind
    rcases create_cases file indexes fields check with
      ⟨last, hcheck, hlast, h⟩ | ⟨hrange, ⟨id, hid, h⟩ | ⟨hnone, f, h⟩⟩
    · exact ⟨last, (beyondEnd?_eq_some_iff.1 hlast).1, Except.error.inj (he ▸ h)⟩
    · cases h ▸ he
      cases hkind
    · cases h ▸ he
  case mismatched_iff =>
    intro hrange
    rcases create_cases file indexes fields check with
      ⟨last, hcheck, hlast, -⟩ | ⟨-, ⟨id, hid, h⟩ | ⟨hnone, f, h⟩⟩
    · exact absurd ⟨hcheck, exists_beyondEnd?_iff.1 ⟨last, hlast⟩⟩ hrange
    · refine iff_of_true ⟨_, h, rfl⟩ ?_
      by_contra hall
      rw [hunread.2 hall] at hid
      cases hid
    · refine iff_of_false ?_ (hunread.1 hnone)
      rintro ⟨e, he, -⟩
      cases h ▸ he
  case unread =>
    intro e he hkind
    rcases create_cases file indexes fields check with
      ⟨last, hcheck, hlast, h⟩ | ⟨hrange, ⟨id, hid, h⟩ | ⟨hnone, f, h⟩⟩
    · cases h ▸ he
      cases hkind
    · exact ⟨id, hid, Except.error.inj (he ▸ h)⟩
    · cases h ▸ he
  case made =>
    intro hrange hread
    obtain ⟨f, hf⟩ := exists_create_eq_ok_iff.2 ⟨hrange, firstUnread?_eq_none_iff.2 hread⟩
    refine ⟨f, hf, fun p values r hrow => ⟨fun deleted h => ?_, fun h => ?_⟩⟩
    · exact isDeleted_iff_of_ok hf (hrow.hasFields hids) h
    · refine exists_isDeleted_eq_ok hf (hrow.hasFields hids) fun hnone => ?_
      refine h.resolve_left ?_
      rintro ⟨index, hindex, hlists⟩
      rw [hnone index hindex] at hlists
      cases hlists

/-- The filter of two lists of indexes is the union of their filters. -/
def Joins (file : DataFile) (as bs : List DeleteIndex) (fields : List Field) (check : Bool) :
    Prop :=
  ((∃ f, create file (as ++ bs) fields check = .ok f) ↔
    (∃ f, create file as fields check = .ok f) ∧ ∃ f, create file bs fields check = .ok f) ∧
  ∀ f g h, create file as fields check = .ok f → create file bs fields check = .ok g →
    create file (as ++ bs) fields check = .ok h →
      ∀ (p : Int) (values : List Value) (r : Row), IsLaidOut fields values r →
        ∀ x y z, f.isDeleted p r = .ok x → g.isDeleted p r = .ok y → h.isDeleted p r = .ok z →
          z = (x || y)

theorem joins_append {as bs : List DeleteIndex} (hids : (fields.map (·.id)).Nodup) :
    Joins file as bs fields check := by
  refine ⟨exists_create_append_iff, ?_⟩
  intro f g h hf hg hh p values r hrow x y z hx hy hz
  have hvalue := hrow.hasFields hids
  have hleft : x = true ↔ ListsAt as file.path p ∨ HoldsKeyOf as (valueOf fields values) :=
    isDeleted_iff_of_ok hf hvalue hx
  have hright : y = true ↔ ListsAt bs file.path p ∨ HoldsKeyOf bs (valueOf fields values) :=
    isDeleted_iff_of_ok hg hvalue hy
  have hboth : z = true ↔ ListsAt (as ++ bs) file.path p ∨
      HoldsKeyOf (as ++ bs) (valueOf fields values) := isDeleted_iff_of_ok hh hvalue hz
  rw [Bool.eq_iff_iff, Bool.or_eq_true, hleft, hright, hboth, lists_append, holdsKeyOf_append]
  exact or_or_or_comm

/-- Two lists of the same indexes make filters that delete the same rows, or none of them makes
one. -/
def Agree (file : DataFile) (as bs : List DeleteIndex) (fields : List Field) (check : Bool) :
    Prop :=
  ((∃ f, create file as fields check = .ok f) ↔ ∃ f, create file bs fields check = .ok f) ∧
  (∀ last : Nat,
    create file as fields check =
        .error (.scan (.deleteOutOfRange (some last) file.rowCount) (some file.path)) ↔
      create file bs fields check =
        .error (.scan (.deleteOutOfRange (some last) file.rowCount) (some file.path))) ∧
  ∀ f g, create file as fields check = .ok f → create file bs fields check = .ok g →
    ∀ (p : Int) (values : List Value) (r : Row), IsLaidOut fields values r →
      ∀ x y, f.isDeleted p r = .ok x → g.isDeleted p r = .ok y → x = y

theorem agree_of_same {as bs : List DeleteIndex} (hids : (fields.map (·.id)).Nodup)
    (hsame : ∀ index, index ∈ as ↔ index ∈ bs) : Agree file as bs fields check := by
  refine ⟨exists_create_congr hsame, fun last => create_eq_outOfRange_congr hsame, ?_⟩
  intro f g hf hg p values r hrow x y hx hy
  have hvalue := hrow.hasFields hids
  have hleft : x = true ↔ ListsAt as file.path p ∨ HoldsKeyOf as (valueOf fields values) :=
    isDeleted_iff_of_ok hf hvalue hx
  have hright : y = true ↔ ListsAt bs file.path p ∨ HoldsKeyOf bs (valueOf fields values) :=
    isDeleted_iff_of_ok hg hvalue hy
  rw [Bool.eq_iff_iff, hleft, hright, lists_congr hsame, holdsKeyOf_congr hsame]

/-- **A filter is the union of its indexes.**  A filter of more indexes is the union of the filters
of the parts, and the order in which the indexes come does not matter. -/
theorem create_unites (file : DataFile) (fields : List Field) (check : Bool)
    (hids : (fields.map (·.id)).Nodup) :
    (∀ indexes, IsUnionOf file indexes fields check) ∧
      (∀ as bs, Joins file as bs fields check) ∧
      ∀ as bs, (∀ index, index ∈ as ↔ index ∈ bs) → Agree file as bs fields check :=
  ⟨fun _ => isUnionOf_create hids, fun _ _ => joins_append hids,
    fun _ _ hsame => agree_of_same hids hsame⟩

def pairFields : List Field :=
  [⟨4, "a", .atomic "INT" true, none⟩, ⟨7, "b", .atomic "INT" true, none⟩]

def pairFile : DataFile := { path := "d", format := "parquet", partition := [], rowCount := 6 }

/-- Positions of two files, and keys of the fields in either order. -/
def pairIndexes : List DeleteIndex :=
  [.positions "p" [("d", ⟨[1, 5], by decide, by decide⟩)],
    .equalities "e" [7, 4] ((KeySet.empty.insert ⟨"e", 0⟩ [.int 20, .int 2]).1),
    .positions "q" [("c", ⟨[9], by decide, by decide⟩), ("d", ⟨[3], by decide, by decide⟩)],
    .equalities "g" [4, 7] ((KeySet.empty.insert ⟨"g", 0⟩ [.int 30, .int 3]).1)]

/-- Of the rows at the positions 2 and 3 the second one is listed, and the key of the first one is
that of an index whose fields are the other way round.  In a file of four rows the greatest position
is out of range. -/
theorem create_unites_pairIndexes : (pairFields.map (·.id)).Nodup ∧
    (∃ f, create pairFile pairIndexes pairFields true = .ok f ∧
      f.isDeleted 2 (.ofValues [.int 2, .int 20]) = .ok true ∧
      f.isDeleted 3 (.ofValues [.int 3, .int 20]) = .ok true ∧
      f.isDeleted (-5) (.ofValues [.int 3, .int 20]) = .ok false) ∧
    ∃ e, create { pairFile with rowCount := 4 } pairIndexes pairFields true = .error e ∧
      e = .scan (.deleteOutOfRange (some (5 : Nat)) (some 4)) (some "d") := by
  have hids : (pairFields.map (·.id)).Nodup := by decide
  obtain ⟨hunion, -⟩ := create_unites pairFile pairFields true hids
  have hrange : ¬(true = true ∧ OutOfRange pairFile pairIndexes) := by
    rintro ⟨-, hout⟩
    obtain ⟨last, hlast⟩ := exists_beyondEnd?_iff.2 hout
    cases hlast
  obtain ⟨f, hf, hrows⟩ := (hunion pairIndexes).made hrange (by decide)
  have hlaid : ∀ a b : Value, IsLaidOut pairFields [a, b] (.ofValues [a, b]) := by
    refine fun a b => ⟨rfl, fun i v hv => ?_⟩
    match i with
    | 0 => exact congrArg Except.ok (Option.some.inj hv)
    | 1 => exact congrArg Except.ok (Option.some.inj hv)
    | i + 2 => cases hv
  have hanswer : ∀ (p a b : Int) (deleted : Bool), (deleted = true ↔
      ListsAt pairIndexes pairFile.path p ∨
        HoldsKeyOf pairIndexes (valueOf pairFields [.int a, .int b])) →
      f.isDeleted p (.ofValues [.int a, .int b]) = .ok deleted := by
    intro p a b deleted hdeleted
    obtain ⟨hunited, hanswers⟩ := hrows p _ _ (hlaid (.int a) (.int b))
    have hkeys : ∀ index ∈ pairIndexes,
        HasKey index.fieldIds (valueOf pairFields [.int a, .int b]) := by
      intro index hindex
      simp only [pairIndexes, List.mem_cons, List.not_mem_nil, or_false] at hindex
      rcases hindex with rfl | rfl | rfl | rfl <;> exact ⟨_, rfl, rfl⟩
    obtain ⟨answer, h⟩ := hanswers (.inr hkeys)
    rw [h, Bool.eq_iff_iff.2 ((hunited answer h).trans hdeleted.symm)]
  refine ⟨hids, ⟨f, hf, ?_, ?_, ?_⟩, ?_⟩
  · exact hanswer 2 2 20 true (iff_of_true rfl (.inr (by unfold HoldsKeyOf; decide)))
  · exact hanswer 3 3 20 true (iff_of_true rfl (.inl (by unfold ListsAt; decide)))
  · exact hanswer (-5) 3 20 false (iff_of_false Bool.false_ne_true
      (by unfold ListsAt HoldsKeyOf; decide))
  · obtain ⟨e, he, hkind⟩ := ((create_unites { pairFile with rowCount := 4 } pairFields true
      hids).1 pairIndexes).refused_iff.2 ⟨rfl, 5, by unfold ListsAt; decide, by decide⟩
    exact ⟨e, he, Except.error.inj (he.symm.trans rfl)⟩

end DeleteFilter

end MergeOnRead
