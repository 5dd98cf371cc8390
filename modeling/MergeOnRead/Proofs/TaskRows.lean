import MergeOnRead.Proofs.ReadableTask
import MergeOnRead.Proofs.Rows

/-!
# The rows of a task

A task yields the cells of the rows that no index deletes, in the order of the file, however the
source divides it into batches: `yieldsLiveRows_iff` says so for every task whose rows have records,
and of other tasks that they do not.

Strategy:

* `pass_record`: the record of a row passes the stages of the reader unless an index deletes the
  row;
* `rowsWithin_readerAt`: by induction on what the stream delivers, reading on from a position gives
  the rows that are left from there;
* `toList_rowAt`: the rows consist of the cells of the fields that are asked for;
* `hasRecords_of_yieldsLiveRows`: by the same induction, reading to the end makes a record of every
  row.

There is no record of a row without fields, of a row in which a field has the name that another
one without a name gets, or of a day after the year 9999.
-/

namespace MergeOnRead

namespace ReadableTask

variable (t : ReadableTask)

/-! ## Reading one batch -/

/-- What a record passes: the filter, if it deletes anything, and the view of the fields that are
asked for, if there are others. -/
def stages : List Stage :=
  (if t.filter.hasDeletes then [.live t.filter] else []) ++
    if t.all.length = t.fields.length then []
    else [.view ((List.range t.fields.length).map fun (i : Nat) => (i : Int))]

/-- A batch is read as an iterator over the records of what it is conformed to. -/
theorem readRecords_readerAt_cons {position : Nat} {b c : Batch} {rest : BatchStream}
    (hconform : b.conform (Field.physicalNames t.fileSchema.fields t.all) t.header = .ok c) :
    (t.readerAt position (.ok b :: rest)).readRecords =
      ((c.iterate (some position)).map fun it => some { it with stages := it.stages ++ t.stages },
        t.readerAt (position + c.size) rest) := by
  simp only [readerAt, Scan.keepLeading, Scan.dropDeleted, stages]
  cases hiterate : c.iterate (some (position : Int)) <;> split <;> split <;>
    simp [Reader.readRecords, Reader.readBatch, Except.map, Except.mapError, hconform, hiterate,
      RecordIterator.through]

/-- The record of a row: its cells for all fields that are read. -/
def record (p : Nat) : List Value := t.all.map (t.cell p)

/-- The row that is handed out for a position. -/
def rowAt (p : Nat) : Row :=
  let r := RecordIterator.rowOf t.header.length (t.record p)
  if t.all.length = t.fields.length then r
  else .view ((List.range t.fields.length).map fun (i : Nat) => (i : Int)) (some r)

/-- The row that is handed out for a position, unless it is deleted. -/
def liveRow (p : Nat) : Option Row := if t.deletes p then none else some (t.rowAt p)

theorem get_record {i p : Nat} (hi : i < t.all.length) :
    (RecordIterator.rowOf t.header.length (t.record p)).get i = .ok (t.cell p t.all[i]) := by
  have hlength : (t.record p).length = t.header.length := by
    rw [record, List.length_map, t.length_header]
  rw [RecordIterator.rowOf_get hlength (by rw [t.length_header]; exact hi)
    (by rw [t.length_header]; exact t.addressable)]
  simp [record, List.getD_eq_getElem?_getD, hi]

/-- The filter deletes the record of a row when an index deletes the row. -/
theorem isDeleted_record {p : Nat} (hp : p < t.stored.count) :
    t.filter.isDeleted p (RecordIterator.rowOf t.header.length (t.record p)) =
      .ok (t.deletes p) := by
  refine DeleteFilter.isDeleted_eq t.creates (Row.hasFields_of_get fun i hi => ?_) (t.keyed p hp)
  rw [t.get_record hi, ← t.valueOf_id (List.getElem_mem hi) p]

/-- A record passes the stages unless an index deletes its row. -/
theorem pass_record {p : Nat} (hp : p < t.stored.count) :
    RecordIterator.pass (some (p : Int)) t.stages
      (RecordIterator.rowOf t.header.length (t.record p)) = .ok (t.liveRow p) := by
  have hview : RecordIterator.pass (some (p : Int))
      (if t.all.length = t.fields.length then []
        else [.view ((List.range t.fields.length).map fun (i : Nat) => (i : Int))])
      (RecordIterator.rowOf t.header.length (t.record p)) = .ok (some (t.rowAt p)) := by
    rw [rowAt]
    split <;> rfl
  have hdecided := t.isDeleted_record hp
  rw [stages, liveRow]
  by_cases hdeletes : t.filter.hasDeletes = true
  · rw [if_pos hdeletes, List.singleton_append, RecordIterator.pass, hview]
    simp only [RecordIterator.positionOrError, ok_bind, hdecided, liftError]
    split <;> rfl
  · -- A filter without deletes deletes nothing.
    have hnone : t.deletes p = false := by
      simp only [DeleteFilter.hasDeletes, Bool.or_eq_true, Option.isSome_iff_ne_none,
        Bool.not_eq_true', List.isEmpty_eq_false_iff, not_or, not_not] at hdeletes
      simp only [DeleteFilter.isDeleted, DeleteFilter.positionDeleted, hdeletes.1, hdeletes.2,
        DeleteFilter.groupsDelete] at hdecided
      simpa using hdecided.symm
    rw [if_neg hdeletes, List.nil_append, hview, hnone]
    rfl

/-! ## Reading on from a position -/

section Runs

variable {t} {columns : List String} {position : Nat} {b c : Batch} {stream : BatchStream}

theorem all_ne_nil (h : t.HasRecords) : t.all ≠ [] := by
  intro hnil
  have hle := t.length_fields_le
  rw [hnil, List.length_nil, Nat.le_zero, List.length_eq_zero_iff] at hle
  exact TableSchema.ne_nil_of_project t.projects h.fields hle

theorem header_ne_nil (hall : t.all ≠ []) : t.header ≠ [] := by
  rw [← List.length_pos_iff, t.length_header, List.length_pos_iff]
  exact hall

variable (hnodup : columns.Nodup)
  (hfound : ∀ f ∈ t.all, ∀ name ∈ Field.nameOf? t.fileSchema.fields f.id, name ∈ columns)
include hnodup hfound

/-- A batch that is delivered can be conformed. -/
theorem exists_conform (hb : t.stored.Holds columns position b)
    (hcast : b.Castable t.fileSchema.fields t.all) :
    ∃ c, b.conform (Field.physicalNames t.fileSchema.fields t.all) t.header = .ok c :=
  hb.exists_conform hnodup hfound t.typed hcast

/-- A conformed batch has the columns of the fields that are read, and the records of its rows. -/
theorem conform_eq_ok (hall : t.all ≠ []) (hb : t.stored.Holds columns position b)
    (hconform : b.conform (Field.physicalNames t.fileSchema.fields t.all) t.header = .ok c) :
    c.header = t.header ∧ c.size = b.size ∧
      c.rows.map (Batch.recordOf t.header) =
        (List.range b.size).map fun i => t.record (position + i) :=
  hb.recordOf_conform hnodup hfound t.typed (header_ne_nil hall) hconform

/-- A batch has records when its columns have different names in records and all its days can be
named; they are the records of its rows. -/
theorem records_eq_ok_iff (hall : t.all ≠ []) (hb : t.stored.Holds columns position b)
    (hconform : b.conform (Field.physicalNames t.fileSchema.fields t.all) t.header = .ok c)
    {records : List (List Value)} :
    c.records = .ok records ↔
      ({ header := t.header, rows := [] } : Batch).recordNames.Nodup ∧
        (∀ i < b.size, t.IsDated (position + i)) ∧
          records = (List.range b.size).map fun i => t.record (position + i) := by
  obtain ⟨hheader, -, hrecords⟩ := conform_eq_ok hnodup hfound hall hb hconform
  have hnames : c.recordNames = ({ header := t.header, rows := [] } : Batch).recordNames := by
    rw [Batch.recordNames, Batch.names, hheader]
    rfl
  have hdecoded (hdistinct : c.recordNames.Nodup) :
      c.decoded = .ok ((List.range b.size).map fun i => t.record (position + i)) := by
    rw [Batch.decoded_eq_ok hdistinct (by rw [hheader]; exact header_ne_nil hall), hheader,
      hrecords]
  have hdated : Batch.areDated ((List.range b.size).map fun i => t.record (position + i)) = true ↔
      ∀ i < b.size, t.IsDated (position + i) := by
    simp [Batch.areDated, record, IsDated]
  rw [Batch.records_eq_ok_iff, ← hnames]
  constructor
  · rintro ⟨h, hnamed⟩
    have hdistinct := Batch.nodup_recordNames_of_decoded h
    obtain rfl := Except.ok.inj ((hdecoded hdistinct).symm.trans h)
    exact ⟨hdistinct, hdated.1 hnamed, rfl⟩
  · rintro ⟨hdistinct, hnamed, rfl⟩
    exact ⟨hdecoded hdistinct, hdated.2 hnamed⟩

omit hnodup hfound

/-- Draining the records of the rows from a position on gives those that are left. -/
theorem drain_records {count : Nat} (hend : position + count ≤ t.stored.count) :
    ((⟨t.header.length, (List.range count).map fun i => t.record (position + i), none,
        some ((position : Int) - 1), t.stages⟩ : RecordIterator).drain .ok).1 =
      ((List.range count).filterMap fun i => (t.liveRow (position + i)).map fun r =>
        (some ((position : Int) + i), r), none) := by
  refine RecordIterator.drain_eq_iff.2 ⟨rfl, ?_⟩
  rw [RecordIterator.drainFrom_eq fun i => t.liveRow (position + i)]
  · rw [List.length_map, List.length_range, Int.sub_add_cancel]
  · intro i hi
    rw [List.length_map, List.length_range] at hi
    -- An iterator stands before its first record, so that record `i` comes at `position + i`.
    rw [List.getElem_map, List.getElem_range, Int.sub_add_cancel, ← Int.natCast_add]
    apply t.pass_record
    omega

/-- The rows that are left from a position on. -/
def liveRowsFrom (t : ReadableTask) (position : Nat) : List Row :=
  (List.range' position (t.stored.count - position)).filterMap t.liveRow

/-- What is left from a position on is what is left of some rows, and what is left behind them. -/
theorem liveRowsFrom_eq_append {count : Nat} (hend : position + count ≤ t.stored.count) :
    t.liveRowsFrom position =
      (((List.range count).filterMap fun i => (t.liveRow (position + i)).map fun r =>
        (some ((position : Int) + i), r)).map (·.2)) ++ t.liveRowsFrom (position + count) := by
  have hcount : t.stored.count - position = count + (t.stored.count - (position + count)) := by
    omega
  have hhere : (((List.range count).filterMap fun i => (t.liveRow (position + i)).map fun r =>
      (some ((position : Int) + i), r)).map (·.2)) =
      (List.range' position count).filterMap t.liveRow := by
    rw [List.map_filterMap, List.range'_eq_map_range, List.filterMap_map]
    apply List.filterMap_congr
    intro i _
    simp [Function.comp_def]
  calc t.liveRowsFrom position
      = (List.range' position (count + (t.stored.count - (position + count)))).filterMap
          t.liveRow := by rw [liveRowsFrom, hcount]
    _ = (List.range' position count).filterMap t.liveRow ++ t.liveRowsFrom (position + count) := by
        rw [← List.range'_append_1, List.filterMap_append, liveRowsFrom]
    _ = _ := by rw [hhere]

include hnodup hfound

/-- Reading on from a position gives the rows that are left from there. -/
theorem rowsWithin_readerAt (h : t.HasRecords) (hstream : t.stored.Delivers columns position stream)
    (hcasts : ∀ b, .ok b ∈ stream → b.Castable t.fileSchema.fields t.all) :
    (t.readerAt position stream).rowsWithin stream.length = (t.liveRowsFrom position, none) := by
  induction hstream with
  | done => simp [Reader.rowsWithin, liveRowsFrom]
  | @more position b rest hb hrest ih =>
      have hend := hrest.le_count
      obtain ⟨c, hconform⟩ := exists_conform hnodup hfound hb (hcasts b (List.mem_cons_self ..))
      obtain ⟨hheader, hsize, -⟩ := conform_eq_ok hnodup hfound (all_ne_nil h) hb hconform
      -- The batch has records, and the reader stands behind its last row when they are handed out.
      have hrecords := (records_eq_ok_iff hnodup hfound (all_ne_nil h) hb hconform).2
        ⟨h.names, fun i hi => h.dated (position + i) (by omega), rfl⟩
      have hmore := ih fun b hb => hcasts b (List.mem_cons_of_mem _ hb)
      rw [List.length_cons, Reader.rowsWithin, t.readRecords_readerAt_cons hconform,
        Batch.iterate_of_records hrecords, hheader, hsize]
      simp only [Except.map, Option.map_some, List.nil_append, drain_records hend, hmore,
        liveRowsFrom_eq_append hend]

omit hnodup hfound

/-- Where reading comes to the end, the first batch has records, and the reading of the others comes
to the end. -/
theorem records_of_rowsWithin {count : Nat} {rest : BatchStream}
    (hconform : b.conform (Field.physicalNames t.fileSchema.fields t.all) t.header = .ok c)
    (hend : ((t.readerAt position (.ok b :: rest)).rowsWithin (count + 1)).2 = none) :
    (∃ records, c.records = .ok records) ∧
      ((t.readerAt (position + c.size) rest).rowsWithin count).2 = none := by
  rw [Reader.rowsWithin, t.readRecords_readerAt_cons hconform] at hend
  cases hiterate : c.iterate (some (position : Int)) with
  | error e => simp [hiterate, Except.map] at hend
  | ok it =>
      simp only [hiterate, Except.map] at hend
      cases hdrain : (({ it with stages := it.stages ++ t.stages } : RecordIterator).drain .ok).1
        with
      | mk rows failure =>
          cases failure with
          | some e => simp [hdrain] at hend
          | none =>
              simp only [hdrain] at hend
              have hfailure : it.failure = none := (RecordIterator.drain_eq_iff.1 hdrain).1
              exact ⟨⟨_, Batch.records_of_iterate hiterate hfailure⟩, hend⟩

include hnodup hfound

/-- Where reading on comes to the end, there is a record of every row from the position on. -/
theorem isDated_of_rowsWithin (hall : t.all ≠ [])
    (hstream : t.stored.Delivers columns position stream)
    (hcasts : ∀ b, .ok b ∈ stream → b.Castable t.fileSchema.fields t.all)
    (hend : ((t.readerAt position stream).rowsWithin stream.length).2 = none) :
    (position < t.stored.count →
        ({ header := t.header, rows := [] } : Batch).recordNames.Nodup) ∧
      ∀ p, position ≤ p → p < t.stored.count → t.IsDated p := by
  induction hstream with
  | done =>
      refine ⟨fun hlt => absurd hlt (Nat.lt_irrefl _), ?_⟩
      intro p hle hlt
      omega
  | @more position b rest hb hrest ih =>
      obtain ⟨c, hconform⟩ := exists_conform hnodup hfound hb (hcasts b (List.mem_cons_self ..))
      obtain ⟨⟨records, hrecords⟩, hend⟩ := records_of_rowsWithin hconform hend
      obtain ⟨-, hsize, -⟩ := conform_eq_ok hnodup hfound hall hb hconform
      obtain ⟨hnames, hdated, -⟩ := (records_eq_ok_iff hnodup hfound hall hb hconform).1 hrecords
      rw [hsize] at hend
      obtain ⟨-, hlater⟩ := ih (fun b hb => hcasts b (List.mem_cons_of_mem _ hb)) hend
      refine ⟨fun _ => hnames, ?_⟩
      intro p hle hlt
      -- The row is one of the batch, or one behind it.
      by_cases hhere : p < position + b.size
      · have hrow : position + (p - position) = p := by omega
        rw [← hrow]
        exact hdated (p - position) (by omega)
      · exact hlater p (by omega) hlt

omit hnodup hfound

/-- Without fields there are no rows. -/
theorem rowsWithin_of_fieldless (hall : t.all = []) (consumed : Nat)
    (hstream : t.stored.Delivers columns position stream) :
    ((t.readerAt consumed stream).rowsWithin stream.length).1 = [] := by
  induction hstream generalizing consumed with
  | done => rfl
  | @more position b rest hb hrest ih =>
      have hheader : t.header = [] := by
        rw [← List.length_eq_zero_iff, t.length_header, hall, List.length_nil]
      have hconform : b.conform (Field.physicalNames t.fileSchema.fields t.all) t.header =
          .ok { header := [], rows := [] } := by
        rw [hheader, hall]
        rfl
      rw [List.length_cons, Reader.rowsWithin, t.readRecords_readerAt_cons hconform]
      exact ih consumed

end Runs

/-! ## The rows of the task -/

/-- A row that is handed out has the fields that are asked for, in this order. -/
theorem toList_rowAt (p : Nat) : (t.rowAt p).toList = .ok (t.fields.map (t.cell p)) := by
  have hle := t.length_fields_le
  have hmax : t.fields.length ≤ maxIndex := Nat.le_trans hle t.addressable
  have hrecord : ∀ (i : Nat) (hi : i < (t.fields.map (t.cell p)).length),
      (RecordIterator.rowOf t.header.length (t.record p)).get i =
        .ok (t.fields.map (t.cell p))[i] := by
    intro i hi
    rw [List.length_map] at hi
    -- The fields that are asked for come first among those that are read.
    have hsame : t.all[i] = t.fields[i] := by
      have hi' : i < (t.all.take t.fields.length).length := by rwa [t.take_all]
      have htake : (t.all.take t.fields.length)[i] = t.fields[i] := by simp only [t.take_all]
      rwa [List.getElem_take] at htake
    rw [t.get_record (by omega), hsame, List.getElem_map]
  rw [rowAt]
  split
  · rename_i hall
    refine Row.toList_eq rfl ?_ (by rwa [List.length_map]) hrecord
    rw [List.length_map, ← hall, ← t.length_header]
    rfl
  · refine Row.toList_eq rfl (by simp [Row.arity]) (by rwa [List.length_map]) fun i hi => ?_
    rw [Row.view_range_get (by simpa using hi) hmax, hrecord i hi]

theorem remaining_readerAt (position : Nat) (stream : BatchStream) :
    (t.readerAt position stream).remaining = stream.length := by
  rw [readerAt, Scan.keepLeading, Scan.dropDeleted]
  split <;> split <;> rfl

/-- The rows that are left are those at the positions that no index deletes. -/
theorem liveRowsFrom_zero : t.liveRowsFrom 0 = t.livePositions.map t.rowAt := by
  rw [liveRowsFrom, Nat.sub_zero, ← List.range_eq_range', livePositions, ← List.filterMap_eq_map,
    List.filterMap_filter]
  apply List.filterMap_congr
  intro p _
  rw [liveRow]
  cases t.deletes p with
  | true => rfl
  | false => rfl

theorem yieldsLiveRows_of_hasRecords (h : t.HasRecords) : t.YieldsLiveRows := by
  obtain ⟨columns, stream, hreader, hnodup, hfound, hdelivers, hcasts⟩ := t.exists_reader
  refine ⟨t.readerAt 0 stream, t.liveRowsFrom 0, hreader, ?_, ?_⟩
  · rw [Reader.rows, t.remaining_readerAt, rowsWithin_readerAt hnodup hfound h hdelivers hcasts]
  · rw [t.liveRowsFrom_zero, List.map_map]
    apply List.map_congr_left
    intro p _
    exact t.toList_rowAt p

theorem hasRecords_of_yieldsLiveRows (h : t.YieldsLiveRows) (hlive : t.livePositions ≠ []) :
    t.HasRecords := by
  obtain ⟨reader, rows, hrun, hrows, hlist⟩ := h
  obtain ⟨columns, stream, hreader, hnodup, hfound, hdelivers, hcasts⟩ := t.exists_reader
  obtain rfl : reader = t.readerAt 0 stream :=
    Except.ok.inj (Prod.mk.inj (hrun.symm.trans hreader)).1
  rw [Reader.rows, t.remaining_readerAt] at hrows
  -- Without fields no row is handed out, but one is left.
  have hall : t.all ≠ [] := by
    intro hnil
    have hnone := rowsWithin_of_fieldless hnil 0 hdelivers
    rw [hrows] at hnone
    obtain rfl : rows = [] := hnone
    exact hlive (List.map_eq_nil_iff.1 hlist.symm)
  obtain ⟨hnames, hdated⟩ := isDated_of_rowsWithin hnodup hfound hall hdelivers hcasts
    (by rw [hrows])
  obtain ⟨p, hp⟩ := List.exists_mem_of_ne_nil _ hlive
  have hcount : p < t.stored.count := List.mem_range.1 (List.mem_filter.1 hp).1
  obtain ⟨f, hf⟩ := List.exists_mem_of_ne_nil _ hall
  exact ⟨List.ne_nil_of_mem (t.mem_schema hf), hnames (Nat.zero_lt_of_lt hcount),
    fun p hp => hdated p (Nat.zero_le p) hp⟩

/-- **A task yields the rows that its deletes leave.**  When every row of the file has a record,
reading the task to the end gives exactly the rows that no index deletes, in the order of the file,
each with its cells for the fields that are asked for; and when a row is left, it does so only
then. -/
theorem yieldsLiveRows_iff :
    (t.HasRecords → t.YieldsLiveRows) ∧
      (t.livePositions ≠ [] → (t.YieldsLiveRows ↔ t.HasRecords)) :=
  ⟨t.yieldsLiveRows_of_hasRecords, fun hlive =>
    ⟨fun h => t.hasRecords_of_yieldsLiveRows h hlive, t.yieldsLiveRows_of_hasRecords⟩⟩

/-! ## A case -/

section Sample

/-- The columns of the sample: a number, and a day. -/
def sampleFields : List Field :=
  [⟨1, "a", .atomic "INT" true, none⟩, ⟨2, "b", .atomic "DATE" true, none⟩]

def sampleType (name : String) : ColumnType :=
  if name = "a" then .flat (.int .w32) else .flat .date32

/-- Three rows, which are numbered and belong to three days in a row. -/
def sampleRows (day : Int) : StoredRows where
  count := 3
  type := fun _ => sampleType
  value := fun p name => if name = "a" then .int p else .date ⟨day + p⟩

/-- The rows of the sample from a position on, in a batch. -/
def sampleBatch (day : Int) (columns : List String) (position count : Nat) : Batch where
  header := columns.map fun name => ⟨name, sampleType name⟩
  rows := (List.range count).map fun i => columns.map ((sampleRows day).value (position + i))

variable {day : Int} {columns : List String} {position count : Nat}

theorem holds_sampleBatch :
    (sampleRows day).Holds columns position (sampleBatch day columns position count) where
  names := by simp [Batch.names, sampleBatch, Function.comp_def]
  types := fun i _ => rfl
  rows := fun i hi => by
    rw [Batch.size, sampleBatch, List.length_map, List.length_range] at hi
    simp [sampleBatch, List.getD_eq_getElem?_getD, hi]

/-- Columns that are read as what they are need no conversion. -/
theorem castable_sampleBatch {fields : List Field}
    (htypes : ∀ f ∈ fields, ∀ name ∈ Field.nameOf? sampleFields f.id,
      f.type.columnType = .ok (sampleType name)) :
    (sampleBatch day columns position count).Castable sampleFields fields := by
  intro f hf name hname hfound type htype
  have hnames : (sampleBatch day columns position count).names = columns :=
    holds_sampleBatch.names
  rw [hnames] at hname ⊢
  have hlt : columns.idxOf name < columns.length := List.idxOf_lt_length_of_mem hname
  have hsource : ((sampleBatch day columns position count).header.getD (columns.idxOf name)
      default).type = sampleType name := by
    rw [sampleBatch, List.getD_eq_getElem _ _ (by rwa [List.length_map]), List.getElem_map,
      List.getElem_idxOf hlt]
  obtain rfl : sampleType name = type := Except.ok.inj ((htypes f hf name hfound).symm.trans htype)
  rw [Batch.convertHeld, hsource, sampleType]
  split <;> exact ⟨_, rfl⟩

/-- A source that delivers the sample in two batches. -/
def sampleSource (day : Int) : RowSource := fun _ _ columns =>
  .ok [.ok (sampleBatch day columns 0 1), .ok (sampleBatch day columns 1 2)]

theorem delivers_sampleSource {fields : List Field}
    (htypes : ∀ f ∈ fields, ∀ name ∈ Field.nameOf? sampleFields f.id,
      f.type.columnType = .ok (sampleType name)) (path format : String) (columns : List String) :
    ∃ stream, sampleSource day path format columns = .ok stream ∧
      (sampleRows day).Delivers columns 0 stream ∧
      ∀ b, .ok b ∈ stream → b.Castable sampleFields fields := by
  refine ⟨_, rfl, .more holds_sampleBatch (.more holds_sampleBatch .done), ?_⟩
  intro b hb
  simp only [List.mem_cons, Except.ok.injEq, List.not_mem_nil, or_false] at hb
  rcases hb with rfl | rfl
  · exact castable_sampleBatch htypes
  · exact castable_sampleBatch htypes

def sampleFile : DataFile := { path := "d", format := "parquet", partition := [], rowCount := 3 }

/-- A table whose fields have changed since the sample was written. -/
def sampleTable (day : Int) (fields : List Field) : Table where
  log := ⟨⟨1, fields, [], 3, []⟩, [⟨0, sampleFields, [], 2, []⟩], []⟩
  options := .empty
  source := sampleSource day

/-- A field that was added behind those of the sample. -/
def addedField : Field := ⟨3, "c", .atomic "INT" true, none⟩

def samplePositions : DeleteFile where
  path := "p"
  format := "parquet"
  partition := []
  content := .positionDeletes
  recordCount := 1

def sampleKeys : DeleteFile where
  path := "e"
  format := "parquet"
  partition := []
  content := .equalityDeletes
  recordCount := 1
  fieldIds := [2]

/-- The first row is deleted by position, and the last one by its day. -/
def sampleIndexes : List DeleteIndex :=
  [.positions "p" [("d", PositionSet.empty.insert 0 (by decide))],
    .equalities "e" [2] ((KeySet.empty.insert ⟨"e", 0⟩ [.date ⟨2⟩]).1)]

/-- Two fields of the sample table are asked for, of which the file has one; the days are read for
the sake of the keys. -/
def sampleTask : ReadableTask where
  table := sampleTable 0 (sampleFields ++ [addedField])
  schema := ⟨1, sampleFields ++ [addedField], [], 3, []⟩
  projection := some ["c", "a"]
  task := ⟨sampleFile, [samplePositions, sampleKeys]⟩
  kept := some ⟨8, [(samplePositions.cacheKey.key, sampleIndexes.getD 0 default),
    (sampleKeys.cacheKey.key, sampleIndexes.getD 1 default)], [], 0⟩
  keptAfter := some ⟨8, [(sampleKeys.cacheKey.key, sampleIndexes.getD 1 default),
    (samplePositions.cacheKey.key, sampleIndexes.getD 0 default)], [], 0⟩
  fields := [addedField, sampleFields.getD 0 addedField]
  indexes := sampleIndexes
  all := [addedField] ++ sampleFields
  header := [⟨"c", .flat (.int .w32)⟩, ⟨"a", .flat (.int .w32)⟩, ⟨"b", .flat .date32⟩]
  checkBounds := true
  filter := ⟨sampleFile, [addedField] ++ sampleFields,
    some (PositionSet.empty.insert 0 (by decide)),
    [⟨[2], (KeySet.empty.insert ⟨"e", 0⟩ [.date ⟨2⟩]).1, [2]⟩]⟩
  fileSchema := ⟨0, sampleFields, [], 2, []⟩
  stored := sampleRows 0
  distinctIds := by decide
  distinctNames := by decide
  distinctProjection := by decide
  projects := by decide
  loads := rfl
  readsKeys := by rfl
  addressable := by decide
  checks := rfl
  creates := rfl
  known := rfl
  fileFields := by decide
  distinctFileNames := by decide
  typed := rfl
  delivers := fun columns _ _ _ => delivers_sampleSource (by decide) "d" "parquet" columns
  keyed := by
    intro p _ _ index hindex
    refine hasKey_of_isPlain fun id hid => ?_
    rcases List.mem_pair.1 hindex with rfl | rfl
    · cases hid
    · obtain rfl : id = 2 := by simpa [DeleteIndex.fieldIds] using hid
      rfl

theorem hasRecords_sampleTask : sampleTask.HasRecords where
  fields := by decide
  names := by decide
  dated := by
    simp only [IsDated]
    decide

theorem yieldsLiveRows_sampleTask :
    sampleTask.livePositions = [1] ∧ sampleTask.fields.map (sampleTask.cell 1) = [.null, .int 1] ∧
      sampleTask.YieldsLiveRows :=
  ⟨by decide, by decide, (yieldsLiveRows_iff sampleTask).1 hasRecords_sampleTask⟩

/-! ## Rows without records -/

/-- A task without deletes, for all fields of a schema. -/
def plainTask (day : Int) (fields : List Field) (header : List ColumnHeader)
    (hids : (fields.map (·.id)).Nodup) (hnames : (fields.map (·.name)).Nodup)
    (hmax : fields.length ≤ maxIndex) (hheader : Field.headers fields = .ok header)
    (htypes : ∀ f ∈ fields, ∀ name ∈ Field.nameOf? sampleFields f.id,
      f.type.columnType = .ok (sampleType name)) : ReadableTask where
  table := sampleTable day fields
  schema := ⟨1, fields, [], 3, []⟩
  projection := none
  task := ⟨sampleFile, []⟩
  kept := none
  keptAfter := none
  fields := fields
  indexes := []
  all := fields
  header := header
  checkBounds := true
  filter := ⟨sampleFile, fields, none, []⟩
  fileSchema := ⟨0, sampleFields, [], 2, []⟩
  stored := sampleRows day
  distinctIds := hids
  distinctNames := hnames
  distinctProjection := by simp
  projects := rfl
  loads := rfl
  readsKeys := rfl
  addressable := hmax
  checks := rfl
  creates := rfl
  known := rfl
  fileFields := by decide
  distinctFileNames := by decide
  typed := hheader
  delivers := fun columns _ _ _ => delivers_sampleSource htypes "d" "parquet" columns
  keyed := by simp

/-- No field is asked for. -/
def fieldlessTask : ReadableTask :=
  plainTask 0 [] [] (by decide) (by decide) (by decide) rfl (by decide)

/-- A field without a name gets the name of another one. -/
def namelessTask : ReadableTask :=
  plainTask 0 [⟨1, "", .atomic "INT" true, none⟩, ⟨2, "column_0", .atomic "DATE" true, none⟩]
    [⟨"", .flat (.int .w32)⟩, ⟨"column_0", .flat .date32⟩]
    (by decide) (by decide) (by decide) rfl (by decide)

/-- The days lie behind the year 9999. -/
def farTask : ReadableTask :=
  plainTask 2932897 sampleFields [⟨"a", .flat (.int .w32)⟩, ⟨"b", .flat .date32⟩]
    (by decide) (by decide) (by decide) rfl (by decide)

/-- Without a record for every row, a task does not yield its rows: they are left out when it has no
fields, and reading fails when two names become one or a day cannot be named. -/
theorem not_yieldsLiveRows_withoutRecords :
    ¬fieldlessTask.YieldsLiveRows ∧ ¬namelessTask.YieldsLiveRows ∧ ¬farTask.YieldsLiveRows := by
  refine ⟨?_, ?_, ?_⟩
  · rintro ⟨reader, rows, hreader, hrows, hlist⟩
    cases hreader
    cases hrows
    exact absurd (congrArg List.length hlist) (by decide)
  · rintro ⟨reader, rows, hreader, hrows, -⟩
    cases hreader
    cases hrows
  · rintro ⟨reader, rows, hreader, hrows, -⟩
    cases hreader
    cases hrows

end Sample

end ReadableTask

end MergeOnRead
