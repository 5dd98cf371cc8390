import MergeOnRead.Proofs.Batches
import MergeOnRead.Proofs.FilterParts
import MergeOnRead.Proofs.Positions
import MergeOnRead.Proofs.Rows

/-!
# Batches are filtered row by row

A filter removes the deleted rows of a batch without looking at its rows one by one: the
deleted positions are taken away from a range of numbers, and keys are read from the key
columns alone.  `apply_eq_rows_that_pass` says that the rows which stay are nevertheless
those that `DeleteFilter.test` lets pass, asked for each row and its position.

Strategy:

* `undeletedPositions_eq`: the first step leaves the rows at positions not deleted;
* `groupsDelete_rowOf`: a key read from a whole row is the key read from its key columns;
* `keepLive_eq_filterM`: the second step asks the groups for each row that is left;
* `survivingRows_eq_of_picked` joins both, and drops the rows that the first step removed from
  the questions (`filterM_bypass`).
-/

namespace MergeOnRead

/-- A batch whose columns are those of some fields, with a value for each of them in every row,
and no more columns than a sequence has items. -/
structure Batch.LaidOut (b : Batch) (fields : List Field) : Prop where
  header : Field.headers fields = .ok b.header
  width : ∀ row ∈ b.rows, row.length = b.header.length
  addressable : b.header.length ≤ maxIndex

theorem Batch.LaidOut.length_header {b : Batch} {fields : List Field} (hb : b.LaidOut fields) :
    b.header.length = fields.length := by
  obtain ⟨columns, hcolumns, hheader⟩ := bind_eq_ok_iff.1 hb.header
  rw [← Except.ok.inj hheader, List.length_map, length_of_mapM_eq_ok hcolumns]

namespace DeleteFilter

variable {file : DataFile} {indexes : List DeleteIndex} {fields : List Field} {check : Bool}
  {f : DeleteFilter} {b : Batch} {start : Int}

/-! ## Deleted positions -/

/-- Of rows whose positions are in range, those are left whose positions are not deleted. -/
theorem undeletedPositions_eq {count : Nat} (hstart : 0 ≤ start)
    (hend : start + count ≤ (positionLimit : Int)) :
    f.undeletedPositions start count =
      .ok ((List.range count).filter fun (i : Nat) => !f.positionDeleted (start + i)) := by
  rw [undeletedPositions]
  cases hpositions : f.positions with
  | none =>
      simp [positionDeleted, hpositions]
  | some s =>
      have hfits : ¬(start < 0 ∨ (rangeLimit : Int) < start + count) := by
        have : (positionLimit : Int) ≤ rangeLimit := by decide
        omega
      have hcount : min count (positionLimit - start.toNat) = count := by omega
      simp only [if_neg hfits, hcount, s.survivors_eq_filter]
      -- The positions of the range are the row numbers, moved by the start.
      rw [List.range'_eq_map_range, List.filter_map, List.map_map, List.map_congr_left (g := id),
        List.map_id]
      · refine congrArg _ (List.filter_congr fun i _ => ?_)
        have hposition : ((start.toNat + i : Nat) : Int) = start + i := by omega
        simp only [Function.comp_apply, positionDeleted, hpositions, hposition]
      · intro i _
        simp

/-! ## Deleted keys -/

/-- A key that is read from the record of a row is the one that is read from its key columns. -/
theorem groupsDelete_rowOf {columns : List Nat} {record : List Value} {groups : List EqualityGroup}
    (hmax : record.length ≤ maxIndex)
    (hcolumns : ∀ g ∈ groups, ∀ place ∈ g.places, place ∈ columns)
    (hlt : ∀ g ∈ groups, ∀ place ∈ g.places, place < record.length) :
    groupsDelete (RecordIterator.rowOf record.length record) groups =
      keyDeleted columns (Batch.pick columns record) groups := by
  induction groups with
  | nil => rfl
  | cons g groups ih =>
      have hvalues : (g.places.mapM fun (i : Nat) =>
          (RecordIterator.rowOf record.length record).get i) =
            .ok (g.places.map fun i =>
              (Batch.pick columns record).getD (columns.idxOf i) .null) := by
        refine mapM_eq_ok_map fun place hplace => ?_
        rw [RecordIterator.rowOf_get rfl (hlt g (List.mem_cons_self ..) place hplace) hmax,
          Batch.getD_pick (hcolumns g (List.mem_cons_self ..) place hplace)]
        rfl
      rw [groupsDelete, keyDeleted, hvalues, ok_bind,
        ih (fun g hg => hcolumns g (List.mem_cons_of_mem _ hg))
          fun g hg => hlt g (List.mem_cons_of_mem _ hg)]

/-- Rows that have records stay when the groups do not delete their keys. -/
theorem keepLive_eq_filterM {columns : List Nat} {groups : List EqualityGroup}
    {records : Array (List Value)} {numbers : List Nat} {record : Nat → List Value}
    (hrecord : ∀ i ∈ numbers, records[i]? = some (record i)) :
    keepLive columns groups records numbers =
      liftError .row (numbers.filterM fun i => (keyDeleted columns (record i) groups).map not) := by
  induction numbers with
  | nil => rfl
  | cons i numbers ih =>
      simp only [keepLive, hrecord i (List.mem_cons_self ..)]
      rw [ih fun j hj => hrecord j (List.mem_cons_of_mem _ hj), filterM_cons]
      cases keyDeleted columns (record i) groups with
      | error e => rfl
      | ok deleted =>
          cases numbers.filterM fun i => (keyDeleted columns (record i) groups).map not with
          | error e => rfl
          | ok rest => cases deleted <;> rfl

/-! ## The rows that stay -/

/-- The numbers of the rows that pass, when each is asked for with its position. -/
def passing (f : DeleteFilter) (start : Int) (row : Nat → Row) (count : Nat) :
    Except RowError (List Nat) :=
  (List.range count).filterM fun (i : Nat) => f.test (start + i) (row i)

/-- Only rows at positions not deleted are asked for. -/
theorem passing_eq (row : Nat → Row) (count : Nat) :
    f.passing start row count =
      ((List.range count).filter fun (i : Nat) => !f.positionDeleted (start + i)).filterM
        fun i => (groupsDelete (row i) f.groups).map not := by
  rw [passing, ← filterM_bypass]
  refine filterM_congr fun i _ => ?_
  rw [test, isDeleted]
  split <;> rfl

/-- The rows that stay are those that pass, when the key columns have the records that are made of
them. -/
theorem survivingRows_eq_of_picked (hcreate : create file indexes fields check = .ok f)
    (hb : b.LaidOut fields) (hundeleted : f.undeletedPositions start b.size =
      .ok ((List.range b.size).filter fun (i : Nat) => !f.positionDeleted (start + i)))
    {records : List (List Value)} (hrecords : b.records = .ok records)
    (hsize : records.length = b.size) {row : Nat → Row}
    (hrow : ∀ i < b.size, row i = RecordIterator.rowOf b.header.length (records.getD i []))
    (hpicked : f.groups ≠ [] →
      ((List.range b.size).filter fun (i : Nat) => !f.positionDeleted (start + i)) ≠ [] →
        ∀ c, b.select (f.keyColumns.map fun (i : Nat) => (i : Int)) = .ok c →
          c.records = .ok (records.map (Batch.pick f.keyColumns))) :
    f.survivingRows b start = liftError .row (f.passing start row b.size) := by
  rw [survivingRows, hundeleted, ok_bind, passing_eq]
  generalize hkept : (List.range b.size).filter (fun (i : Nat) =>
    !f.positionDeleted (start + i)) = kept at hpicked ⊢
  have hlt : ∀ i ∈ kept, i < b.size := fun i hi =>
    List.mem_range.1 (List.mem_filter.1 (hkept ▸ hi)).1
  by_cases hnone : (f.groups.isEmpty || kept.isEmpty) = true
  · -- No group deletes anything, or there is no row left to be asked for.
    rw [if_pos hnone]
    rcases Bool.or_eq_true_iff.1 hnone with hgroups | hempty
    · have hall : (kept.filterM fun i => (groupsDelete (row i) []).map not) =
          .ok (kept.filter fun _ => true) := filterM_eq_ok_filter fun i _ => rfl
      rw [List.isEmpty_iff.1 hgroups, hall, List.filter_true]
      rfl
    · rw [List.isEmpty_iff.1 hempty]
      rfl
  · rw [if_neg hnone]
    rw [Bool.or_eq_true, not_or, List.isEmpty_iff, List.isEmpty_iff] at hnone
    have hplaces : ∀ place ∈ f.keyColumns, place < b.header.length := fun place hplace => by
      rw [hb.length_header]
      exact lt_of_mem_keyColumns hcreate hplace
    have hselect := Batch.select_eq_ok hplaces hb.addressable
    have hfound : ∀ i ∈ kept, (records.map (Batch.pick f.keyColumns)).toArray[i]? =
        some (Batch.pick f.keyColumns (records.getD i [])) := fun i hi => by
      have hi' : i < records.length := hsize ▸ hlt i hi
      simp [hi']
    rw [hselect, ok_bind, hpicked hnone.1 hnone.2 _ hselect, ok_bind,
      keepLive_eq_filterM hfound]
    refine congrArg _ (filterM_congr fun i hi => ?_)
    have hmem : records.getD i [] ∈ records := by
      rw [List.getD_eq_getElem _ _ (hsize ▸ hlt i hi)]
      exact List.getElem_mem _
    have hlength := Batch.length_of_mem_records hrecords hb.width hmem
    rw [hrow i (hlt i hi), ← hlength, groupsDelete_rowOf (hlength ▸ hb.addressable)
      (fun g hg place hplace => mem_keyColumns.2 ⟨g, hg, hplace⟩)
      fun g hg place hplace => by
        rw [hlength, hb.length_header]
        exact lt_of_mem_places hcreate hg hplace]

/-- The rows that stay are those that pass. -/
theorem survivingRows_eq_passing (hcreate : create file indexes fields check = .ok f)
    (hkeyed : ∀ index ∈ indexes, index.isPosition = false → index.fieldIds ≠ [])
    (hb : b.LaidOut fields) (hcolumns : b.DecodesByColumn) (hstart : 0 ≤ start)
    (hend : start + b.size ≤ (positionLimit : Int)) {records : List (List Value)}
    (hrecords : b.records = .ok records) (hsize : records.length = b.size) {row : Nat → Row}
    (hrow : ∀ i < b.size, row i = RecordIterator.rowOf b.header.length (records.getD i [])) :
    f.survivingRows b start = liftError .row (f.passing start row b.size) := by
  refine survivingRows_eq_of_picked hcreate hb (undeletedPositions_eq hstart hend) hrecords hsize
    hrow fun hgroups _ c hselect => ?_
  refine hcolumns records f.keyColumns c hrecords (keyColumns_ne_nil hcreate hkeyed hgroups)
    f.nodup_keyColumns (fun place hplace => ?_) hselect
  rw [hb.length_header]
  exact lt_of_mem_keyColumns hcreate hplace

/-- A batch that keeps some of its rows is left with these. -/
theorem rows_of_kept {numbers : List Nat}
    (hnumbers : numbers.Sublist (List.range b.size)) :
    (if numbers.length = b.size then b else b.keep numbers).rows =
      numbers.map fun i => b.rows.getD i [] := by
  split
  · rename_i hall
    rw [hnumbers.eq_of_length (by rw [hall, List.length_range])]
    exact (Batch.map_range_getD b.rows).symm
  · exact Batch.keep_rows (List.pairwise_lt_range.sublist hnumbers) fun i hi =>
      List.mem_range.1 (hnumbers.subset hi)

/-- **The filter of batches agrees with the filter of rows.**  Let a filter be created from
indexes with key fields, and let the iterator of a batch of the fields being read hand out
`row i` at position `start + i`.  What is left of the batch is the rows that `test` lets pass,
in their order; and where `test` fails first, filtering the batch fails the same way. -/
theorem apply_eq_rows_that_pass (hcreate : create file indexes fields check = .ok f)
    (hkeyed : ∀ index ∈ indexes, index.isPosition = false → index.fieldIds ≠ [])
    (hb : b.LaidOut fields) (hcolumns : b.DecodesByColumn) (hstart : 0 ≤ start)
    (hend : start + b.size ≤ 2147483648) {it : RecordIterator} (row : Nat → Row)
    (hiter : b.iterate (some start) = .ok it)
    (hdrain : (it.drain .ok).1 =
      ((List.range b.size).map fun (i : Nat) => (some (start + (i : Int)), row i), none)) :
    (f.apply b start).map (fun c => (c.header, c.rows)) =
      (liftError .row (f.passing start row b.size)).map fun numbers =>
        (b.header, numbers.map fun i => b.rows.getD i []) := by
  obtain ⟨records, hrecords, hrows⟩ := Batch.records_of_drain_iterate hiter hdrain
  have hsize : records.length = b.size := by simpa using congrArg List.length hrows.symm
  have hrow : ∀ i < b.size, row i = RecordIterator.rowOf b.header.length (records.getD i []) :=
    fun i hi => by
      rw [hsize] at hrows
      have := List.map_inj_left.1 hrows i (List.mem_range.2 hi)
      exact (Prod.mk.inj this).2
  have hlimit : start + b.size ≤ (positionLimit : Int) := by
    have : (2147483648 : Int) ≤ positionLimit := by decide
    omega
  have hpassing := survivingRows_eq_passing hcreate hkeyed hb hcolumns hstart hlimit hrecords hsize
    hrow
  rw [DeleteFilter.apply]
  split
  · rename_i hidle
    -- Nothing is asked for when there are no rows or no deletes: all of them pass.
    have hall : f.survivingRows b start = .ok (List.range b.size) := by
      rcases Bool.or_eq_true_iff.1 hidle with hempty | hnone
      · rw [survivingRows, undeletedPositions_eq hstart hlimit, of_decide_eq_true hempty]
        simp
      · have hpositions : f.positions = none := by simp_all [hasDeletes]
        have hgroups : f.groups = [] := by simp_all [hasDeletes]
        simp [survivingRows, undeletedPositions, hpositions, hgroups]
    rw [← hpassing, hall]
    exact congrArg _ (congrArg _ (Batch.map_range_getD b.rows).symm)
  · rw [hpassing]
    cases hnumbers : f.passing start row b.size with
    | error e => rfl
    | ok numbers =>
        have hheader : (if numbers.length = b.size then b else b.keep numbers).header = b.header :=
          by split <;> rfl
        simp only [liftError, ok_bind, ← apply_ite Except.ok, Except.map, hheader,
          rows_of_kept (sublist_of_filterM_eq_ok hnumbers)]

/-! ## A case -/

/-- Two columns of numbers, and what is deleted: a position, and a key of both columns. -/
def tailFields : List Field :=
  [⟨1, "a", .atomic "INT" true, none⟩, ⟨2, "b", .atomic "INT" true, none⟩]

def tailBatch : Batch where
  header := [⟨"a", .flat (.int .w32)⟩, ⟨"b", .flat (.int .w32)⟩]
  rows := [[.int 1, .int 10], [.int 2, .int 20], [.int 3, .int 30]]

def tailIndexes : List DeleteIndex :=
  [.positions "p" [("d", PositionSet.empty.insert 7 (by decide))],
    .equalities "e" [2, 1] ((KeySet.empty.insert ⟨"e", 0⟩ [.int 20, .int 2]).1)]

def tailFile : DataFile := { path := "d", format := "parquet", partition := [], rowCount := 8 }

theorem apply_tailBatch :
    ∃ f, create tailFile tailIndexes tailFields true = .ok f ∧
      (f.apply tailBatch 5).map (fun c => (c.header, c.rows)) =
        .ok (tailBatch.header, [[.int 1, .int 10]]) := by
  have hcreate : create tailFile tailIndexes tailFields true = .ok _ := rfl
  have hb : tailBatch.LaidOut tailFields := ⟨by rfl, by decide, by decide⟩
  refine ⟨_, hcreate, ?_⟩
  exact apply_eq_rows_that_pass hcreate (by decide) hb
    (Batch.decodesByColumn_of_named (by decide) hb.width hb.addressable) (by decide) (by decide)
    (fun i => RecordIterator.rowOf 2 (tailBatch.rows.getD i [])) rfl rfl

end DeleteFilter

end MergeOnRead
