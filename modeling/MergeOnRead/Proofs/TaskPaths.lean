import MergeOnRead.Proofs.LiveRecords
import MergeOnRead.Proofs.Rows

/-!
# Two ways to read a task

A task can be read as rows or as batches.  If both come to the end, both give the rows of its data
file that no index deletes, with their cells for the fields that are asked for
(`Scan.Layers.Over.rows_and_batches`).  Nothing is assumed of how the file is divided into batches.

Strategy:

* `Scan.Layers.Over`: what the layers of a reader have to do with the rows of a stored file;
* `Over.row_and_batch_of_step` is the step for one batch.  Its rows are what `toList_shownRow` says
  of a record, and its batch is what `finish_eq` leaves of it; `deleted_eq` says that both leave out
  the rows that some index deletes;
* `rows_and_batches` goes through the stream, by induction on what is delivered.
-/

namespace MergeOnRead

/-! ## What is to be read -/

namespace StoredRows

variable (s : StoredRows)

/-- The cells of a row for some fields. -/
def cells (fileFields fields : List Field) (p : Nat) : List Value :=
  fields.map (s.cell fileFields p)

/-- The value of a row for the field that a schema has under an id. -/
def valueOf (schema : TableSchema) (fileFields : List Field) (p : Nat) (id : Int) : Value :=
  (schema.findField? id).elim .null (s.cell fileFields p)

/-- Some index deletes the row at a position of a data file. -/
def isDeletedBy (indexes : List DeleteIndex) (dataPath : String) (schema : TableSchema)
    (fileFields : List Field) (p : Nat) : Bool :=
  indexes.any fun index => index.deletesRow dataPath p (s.valueOf schema fileFields p)

/-- The positions of the rows that no index deletes, from one of them on. -/
def liveFrom (indexes : List DeleteIndex) (dataPath : String) (schema : TableSchema)
    (fileFields : List Field) (position : Nat) : List Nat :=
  (List.range' position (s.count - position)).filter fun p =>
    !s.isDeletedBy indexes dataPath schema fileFields p

variable {s}

theorem liveFrom_eq_append {indexes : List DeleteIndex} {dataPath : String} {schema : TableSchema}
    {fileFields : List Field} {position count : Nat} (hend : position + count ≤ s.count) :
    s.liveFrom indexes dataPath schema fileFields position =
      ((List.range count).filter fun i =>
        !s.isDeletedBy indexes dataPath schema fileFields (position + i)).map (position + ·) ++
        s.liveFrom indexes dataPath schema fileFields (position + count) := by
  have hcount : s.count - position = count + (s.count - (position + count)) := by omega
  rw [liveFrom, hcount, ← List.range'_append_1, List.filter_append, List.range'_eq_map_range,
    List.filter_map]
  rfl

end StoredRows

/-- The leading columns of a batch hold the leading values of its records. -/
theorem Batch.recordOf_leading {b : Batch} {n : Nat} (hn : n ≤ b.header.length)
    (hmax : b.header.length ≤ maxIndex) (hwidth : ∀ row ∈ b.rows, row.length = b.header.length) :
    ∃ d, b.select ((List.range n).map fun (i : Nat) => (i : Int)) = .ok d ∧
      d.header = b.header.take n ∧
      d.rows.map (recordOf d.header) = b.rows.map fun row => (recordOf b.header row).take n := by
  have hlt : ∀ place ∈ List.range n, place < b.header.length := fun place hplace =>
    (List.mem_range.1 hplace).trans_le hn
  refine ⟨_, select_eq_ok hlt hmax, pick_range hn, ?_⟩
  rw [List.map_map]
  refine List.map_congr_left fun row hrow => ?_
  have hlength := length_recordOf (hwidth row hrow)
  rw [Function.comp_apply, recordOf_pick (hwidth row hrow) hlt, pick_range (hlength ▸ hn)]

theorem Field.headers_append {fields hidden : List Field} {header : List ColumnHeader}
    (h : headers (fields ++ hidden) = .ok header) :
    headers fields = .ok (header.take fields.length) := by
  rw [headers_eq, mapM_eq_ok_iff] at h ⊢
  obtain ⟨as, bs, has, -, rfl⟩ := exists_of_forall₂_append h
  rwa [has.length_eq, List.take_left]

namespace Scan.Layers

/-- The layers of a reader hand out some fields of a stored file, behind which hidden ones are
read. -/
structure Over (l : Layers) (s : StoredRows) (schema : TableSchema) (file : DataFile)
    (indexes : List DeleteIndex) (fileFields fields hidden : List Field) (columns : List String) :
    Prop where
  header : Field.headers (fields ++ hidden) = .ok l.header
  names : l.names = Field.physicalNames fileFields (fields ++ hidden)
  filter : ∃ check, DeleteFilter.create file indexes (fields ++ hidden) check = .ok l.filter
  asked : l.asked = fields.length
  total : l.total = (fields ++ hidden).length
  nonempty : fields ++ hidden ≠ []
  addressable : (fields ++ hidden).length ≤ maxIndex
  opened : columns ≠ []
  distinct : columns.Nodup
  found : ∀ f ∈ fields ++ hidden, ∀ name ∈ Field.nameOf? fileFields f.id, name ∈ columns
  value : ∀ f ∈ fields ++ hidden, ∀ p, s.valueOf schema fileFields p f.id = s.cell fileFields p f
  reaches : l.filter.positions = none ∨ s.count ≤ DeleteFilter.positionLimit

namespace Over

variable {l : Layers} {s : StoredRows} {schema : TableSchema} {file : DataFile}
  {indexes : List DeleteIndex} {fileFields fields hidden : List Field} {columns : List String}
  (h : l.Over s schema file indexes fileFields fields hidden columns)
include h

theorem length_header : l.header.length = (fields ++ hidden).length :=
  (Field.headers_eq_ok h.header).length_eq.symm

theorem header_ne_nil : l.header ≠ [] := by
  rw [← List.length_pos_iff, h.length_header, List.length_pos_iff]
  exact h.nonempty

/-! ## The rows of a batch -/

section Batches

variable {position : Nat} {b c d : Batch} {records : List (List Value)}

theorem laidOut_of_conform (hconform : b.conform l.names l.header = .ok c) :
    c.LaidOut (fields ++ hidden) := by
  rw [h.names] at hconform
  obtain ⟨hheader, hwidth⟩ := Batch.width_of_conform h.header hconform
  refine ⟨hheader ▸ h.header, hheader ▸ hwidth, ?_⟩
  rw [hheader, h.length_header]
  exact h.addressable

/-- The records of a batch consist of the cells of its rows. -/
theorem records_of_conform (hb : s.Holds columns position b)
    (hconform : b.conform l.names l.header = .ok c) :
    c.size = b.size ∧ c.rows.map (Batch.recordOf l.header) =
      (List.range b.size).map fun i => s.cells fileFields (fields ++ hidden) (position + i) := by
  rw [h.names] at hconform
  obtain ⟨-, hsize, hrecords⟩ :=
    hb.recordOf_conform h.distinct h.found h.header h.header_ne_nil hconform
  exact ⟨hsize, hrecords⟩

theorem get_wholeRow {i : Nat} (hi : i < (fields ++ hidden).length) (p : Nat) :
    (l.wholeRow (s.cells fileFields (fields ++ hidden) p)).get i =
      .ok (s.cell fileFields p (fields ++ hidden)[i]) := by
  have hlength : (s.cells fileFields (fields ++ hidden) p).length = l.header.length := by
    rw [StoredRows.cells, List.length_map, h.length_header]
  rw [wholeRow, RecordIterator.rowOf_get hlength (by rw [h.length_header]; exact hi)
    (by rw [h.length_header]; exact h.addressable)]
  simp only [StoredRows.cells, List.getD_eq_getElem?_getD, List.getElem?_map,
    List.getElem?_eq_getElem hi, Option.map_some, Option.getD_some]

/-- The row that is handed out has the fields that are asked for, in this order. -/
theorem toList_shownRow (p : Nat) :
    (l.shownRow (s.cells fileFields (fields ++ hidden) p)).toList =
      .ok (s.cells fileFields fields p) := by
  have hmax : fields.length ≤ maxIndex := by
    have := h.addressable
    rw [List.length_append] at this
    omega
  have hget : ∀ (i : Nat) (hi : i < (s.cells fileFields fields p).length),
      (l.wholeRow (s.cells fileFields (fields ++ hidden) p)).get i =
        .ok (s.cells fileFields fields p)[i] := by
    intro i hi
    rw [StoredRows.cells, List.length_map] at hi
    rw [h.get_wholeRow (by rw [List.length_append]; omega), List.getElem_append_left hi]
    simp [StoredRows.cells]
  have hlength : (s.cells fileFields fields p).length = fields.length := List.length_map ..
  rw [shownRow, h.total, h.asked]
  split
  · rename_i hall
    refine Row.toList_eq rfl ?_ (by rwa [hlength]) hget
    rw [hlength, ← hall, ← h.length_header]
    rfl
  · refine Row.toList_eq rfl (by simp [Row.arity, hlength]) (by rwa [hlength]) fun i hi => ?_
    rw [Row.view_range_get (hlength ▸ hi) hmax, hget i hi]

/-- What is decided of a record is what the indexes say of its row. -/
theorem deleted_eq {p : Nat} {deleted : Bool}
    (hdecided : l.filter.isDeleted p
      (l.wholeRow (s.cells fileFields (fields ++ hidden) p)) = .ok deleted) :
    deleted = s.isDeletedBy indexes file.path schema fileFields p := by
  obtain ⟨check, hcreate⟩ := h.filter
  refine DeleteFilter.isDeleted_eq_of_ok hcreate (Row.hasFields_of_get fun i hi => ?_) hdecided
  rw [h.get_wholeRow hi, h.value _ (List.getElem_mem hi)]

/-- The rows that a filter leaves of a batch have the records that are not deleted. -/
theorem recordOf_kept {deleted : Nat → Bool} {kept : Batch} (hc : c.LaidOut (fields ++ hidden))
    (hheader : c.header = l.header) (hreaches : l.filter.Reaches position c.size)
    (hrecords : c.records = .ok records) (hrows : c.rows.map (Batch.recordOf l.header) = records)
    (hdecided : ∀ i < c.size, l.filter.isDeleted ((position : Int) + i)
      (l.wholeRow (records.getD i [])) = .ok (deleted i))
    (hkept : l.filter.apply c position = .ok kept) :
    kept.header = l.header ∧ (∀ row ∈ kept.rows, row.length = l.header.length) ∧
      kept.rows.map (Batch.recordOf l.header) =
        ((List.range c.size).filter fun i => !deleted i).map fun i => records.getD i [] := by
  obtain ⟨check, hcreate⟩ := h.filter
  have hsize : records.length = c.size := by rw [← hrows, List.length_map, Batch.size]
  rw [← hheader] at hrows ⊢
  obtain ⟨hsame, hkeptRows⟩ := DeleteFilter.apply_eq_ok_of_decided hcreate hc
    (Int.natCast_nonneg position) hreaches hrecords hsize
    (fun i hi => by rw [hheader]; exact hdecided i hi) hkept
  have hrow : ∀ i ∈ (List.range c.size).filter fun i => !deleted i,
      ∃ hi : i < c.rows.length, c.rows.getD i [] = c.rows[i] := by
    intro i hi
    have hlt : i < c.rows.length := List.mem_range.1 (List.mem_filter.1 hi).1
    exact ⟨hlt, List.getD_eq_getElem _ _ hlt⟩
  refine ⟨hsame, ?_, ?_⟩
  · intro row hmem
    rw [hkeptRows] at hmem
    obtain ⟨i, hi, rfl⟩ := List.mem_map.1 hmem
    obtain ⟨hlt, hget⟩ := hrow i hi
    rw [hget]
    exact hc.width _ (List.getElem_mem hlt)
  · rw [hkeptRows, List.map_map]
    refine List.map_congr_left fun i hi => ?_
    obtain ⟨hlt, hget⟩ := hrow i hi
    rw [Function.comp_apply, hget, ← hrows, List.getD_eq_getElem _ _ (by rwa [List.length_map]),
      List.getElem_map]

/-- What is left of a batch has the columns that are asked for, and of the records that are not
deleted the leading values. -/
theorem finish_eq {deleted : Nat → Bool} (hc : c.LaidOut (fields ++ hidden))
    (hheader : c.header = l.header) (hreaches : l.filter.Reaches position c.size)
    (hrecords : c.records = .ok records) (hrows : c.rows.map (Batch.recordOf l.header) = records)
    (hdecided : ∀ i < c.size, l.filter.isDeleted ((position : Int) + i)
      (l.wholeRow (records.getD i [])) = .ok (deleted i))
    (hfinish : l.finish c position = .ok d) :
    Field.headers fields = .ok d.header ∧
      d.rows.map (Batch.recordOf d.header) =
        ((List.range c.size).filter fun i => !deleted i).map fun i =>
          (records.getD i []).take fields.length := by
  obtain ⟨kept, hkept, hfinish⟩ := bind_eq_ok_iff.1 hfinish
  obtain ⟨hsame, hwidth, hleft⟩ :=
    h.recordOf_kept hc hheader hreaches hrecords hrows hdecided hkept
  have hlength := h.length_header
  rw [h.total, h.asked] at hfinish
  have htake : kept.rows.map (fun row => (Batch.recordOf l.header row).take fields.length) =
      ((List.range c.size).filter fun i => !deleted i).map fun i =>
        (records.getD i []).take fields.length := by
    have hmap := congrArg (List.map (List.take fields.length)) hleft
    rwa [List.map_map, List.map_map] at hmap
  rw [← htake]
  split at hfinish
  · -- All fields are asked for.
    rename_i hall
    cases hfinish
    have hnone : hidden = [] := by
      rw [List.length_append] at hall
      exact List.length_eq_zero_iff.1 (by omega)
    have hheaders := h.header
    rw [hnone, List.append_nil] at hheaders
    rw [hsame]
    refine ⟨hheaders, List.map_congr_left fun row hrow => ?_⟩
    rw [List.take_of_length_le]
    rw [Batch.length_recordOf (hwidth row hrow)]
    omega
  · -- Hidden fields are projected away.
    rw [← hsame] at hwidth hlength
    have hle : fields.length ≤ kept.header.length := by
      rw [hlength, List.length_append]
      omega
    obtain ⟨d', hselect, hleading, hvalues⟩ :=
      Batch.recordOf_leading hle (hlength ▸ h.addressable) hwidth
    cases hfinish.symm.trans hselect
    rw [hvalues, hleading, hsame]
    exact ⟨Field.headers_append h.header, rfl⟩

/-- The records that are drained of a batch are the cells of its rows. -/
theorem getD_records (hb : s.Holds columns position b)
    (hconform : b.conform l.names l.header = .ok c) (hrecords : c.records = .ok records) :
    c.rows.map (Batch.recordOf l.header) = records ∧ records.length = b.size ∧
      ∀ i < b.size, records.getD i [] = s.cells fileFields (fields ++ hidden) (position + i) := by
  obtain ⟨hsize, hcells⟩ := h.records_of_conform hb hconform
  have hrows : c.rows.map (Batch.recordOf l.header) = records := by
    have hdecoded := (Batch.records_eq_ok_iff.1 hrecords).1
    have hheader := Batch.header_of_conform hconform
    rw [Batch.decoded_eq_ok (Batch.nodup_recordNames_of_decoded hdecoded)
      (hheader ▸ h.header_ne_nil), hheader] at hdecoded
    exact Except.ok.inj hdecoded
  refine ⟨hrows, by rw [← hrows, List.length_map, ← hsize, Batch.size], fun i hi => ?_⟩
  rw [← hrows, hcells, List.getD_eq_getElem _ _ (by simpa using hi), List.getElem_map,
    List.getElem_range]

/-- The leading records that are decided are handed out unless an index deletes their rows. -/
theorem rows_of_decided {deleted : Nat → Bool} {k : Nat} (hb : s.Holds columns position b)
    (hconform : b.conform l.names l.header = .ok c) (hrecords : c.records = .ok records)
    (hk : k ≤ b.size) (hdecided : ∀ i < k, l.filter.isDeleted ((position : Int) + i)
      (l.wholeRow (records.getD i [])) = .ok (deleted i)) :
    ((List.range k).filter fun i => !deleted i) =
        ((List.range k).filter fun i =>
          !s.isDeletedBy indexes file.path schema fileFields (position + i)) ∧
      (((List.range k).filter fun i => !deleted i).map fun i =>
          (l.shownRow (records.getD i [])).toList) =
        ((List.range k).filter fun i =>
          !s.isDeletedBy indexes file.path schema fileFields (position + i)).map (fun i =>
            .ok (s.cells fileFields fields (position + i))) := by
  obtain ⟨-, -, hrecord⟩ := h.getD_records hb hconform hrecords
  -- The indexes decide of a record what they say of its row.
  have hlive : ((List.range k).filter fun i => !deleted i) =
      (List.range k).filter fun i =>
        !s.isDeletedBy indexes file.path schema fileFields (position + i) := by
    refine List.filter_congr fun i hi => ?_
    have hi' := List.mem_range.1 hi
    have hasked := hdecided i hi'
    rw [hrecord i (hi'.trans_le hk), ← Int.natCast_add] at hasked
    rw [h.deleted_eq hasked]
  refine ⟨hlive, ?_⟩
  rw [hlive]
  refine List.map_congr_left fun i hi => ?_
  have hi' : i < k := List.mem_range.1 (List.mem_filter.1 hi).1
  rw [hrecord i (hi'.trans_le hk), h.toList_shownRow]

/-- The rows and the batch that are made of a batch are those of its rows that no index deletes. -/
theorem row_and_batch_of_step {deleted : Nat → Bool} (hb : s.Holds columns position b)
    (hend : position + b.size ≤ s.count) (hconform : b.conform l.names l.header = .ok c)
    (hrecords : c.records = .ok records)
    (hdecided : ∀ i < records.length, l.filter.isDeleted ((position : Int) + i)
      (l.wholeRow (records.getD i [])) = .ok (deleted i))
    (hfinish : l.finish c position = .ok d) :
    (((List.range records.length).filter fun i => !deleted i).map fun i =>
        (l.shownRow (records.getD i [])).toList) =
      ((List.range b.size).filter fun i =>
        !s.isDeletedBy indexes file.path schema fileFields (position + i)).map (fun i =>
          .ok (s.cells fileFields fields (position + i))) ∧
      Field.headers fields = .ok d.header ∧
      d.rows.map (Batch.recordOf d.header) =
        ((List.range b.size).filter fun i =>
          !s.isDeletedBy indexes file.path schema fileFields (position + i)).map fun i =>
            s.cells fileFields fields (position + i) := by
  obtain ⟨hsize, -⟩ := h.records_of_conform hb hconform
  obtain ⟨hrows, hlength, hrecord⟩ := h.getD_records hb hconform hrecords
  have hreaches : l.filter.Reaches position c.size :=
    h.reaches.imp id fun hle => by rw [hsize]; omega
  obtain ⟨hlive, hshown⟩ := h.rows_of_decided hb hconform hrecords hlength.le hdecided
  rw [hlength] at hlive hshown
  obtain ⟨hcolumns, hbatch⟩ := h.finish_eq (h.laidOut_of_conform hconform)
    (Batch.header_of_conform hconform) hreaches hrecords hrows
    (fun i hi => hdecided i (by rwa [hlength, ← hsize])) hfinish
  rw [hsize, hlive] at hbatch
  rw [hlength, hbatch]
  refine ⟨hshown, hcolumns, List.map_congr_left fun i hi => ?_⟩
  rw [hrecord i (List.mem_range.1 (List.mem_filter.1 hi).1), StoredRows.cells, StoredRows.cells,
    List.map_append, List.take_left' (List.length_map ..)]

end Batches

/-! ## Reading on from a position -/

/-- The rows and the batches that are read from a position on are those of the rows that no index
deletes. -/
theorem rows_and_batches {position : Nat} {stream : BatchStream} {rows : List Row}
    {ds : List Batch} (hstream : s.Delivers columns position stream)
    (hdrains : l.Drains position stream rows) (hreads : l.Reads position stream ds) :
    rows.map Row.toList = (s.liveFrom indexes file.path schema fileFields position).map
        (fun p => .ok (s.cells fileFields fields p)) ∧
      ds.flatMap (fun d => d.rows.map (Batch.recordOf d.header)) =
        (s.liveFrom indexes file.path schema fileFields position).map
          (s.cells fileFields fields) ∧
      ∀ d ∈ ds, Field.headers fields = .ok d.header := by
  induction hstream generalizing rows ds with
  | done =>
      cases hdrains
      cases hreads
      simp [StoredRows.liveFrom]
  | @more position b rest hb hrest ih =>
      cases hdrains with
      | @more _ _ c _ records more deleted hconform hrecords hdecided hdrains =>
      cases hreads with
      | @more _ _ c' d _ ds hconform' hfinish hreads =>
      obtain rfl := Except.ok.inj (hconform'.symm.trans hconform)
      obtain ⟨hsize, -⟩ := h.records_of_conform hb hconform
      obtain ⟨hrows, hcolumns, hbatch⟩ :=
        h.row_and_batch_of_step hb hrest.le_count hconform hrecords hdecided hfinish
      obtain ⟨hmore, hbatches, hheaders⟩ := ih (hsize ▸ hdrains) (hsize ▸ hreads)
      rw [StoredRows.liveFrom_eq_append hrest.le_count, List.map_append, List.map_append,
        List.map_append, List.map_map, List.map_map, List.map_map, List.flatMap_cons, hmore,
        hbatches, hbatch]
      refine ⟨congrArg (· ++ _) hrows, rfl, fun e he => ?_⟩
      rcases List.mem_cons.1 he with rfl | he
      · exact hcolumns
      · exact hheaders e he

end Over

end Scan.Layers

end MergeOnRead
