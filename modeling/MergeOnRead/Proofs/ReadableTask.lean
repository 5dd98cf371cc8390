import MergeOnRead.Proofs.ConformedStreams
import MergeOnRead.Proofs.ReadFields
import MergeOnRead.Proofs.RowFilter
import MergeOnRead.Scan.Table

/-!
# Tasks that can be read

A task can be read when its fields are found, its delete files are loaded and make a filter, and its
data file is delivered by the source (`ReadableTask`).  What is to come out are the rows that no
index deletes (`ReadableTask.YieldsLiveRows`).

The reader of such a task is built in layers around a stream of columns that the file has
(`exists_reader`): the columns are conformed to the fields that are read, counted, filtered, and cut
down to the fields that are asked for (`readerAt`).
-/

namespace MergeOnRead

/-- A step of a scan that succeeds is followed by the next one. -/
theorem Scanning.run_bind_of_ok {α β : Type} {x : Scanning α} {next : α → Scanning β}
    {kept keptAfter : KeptIndexes} {a : α} (h : x.run kept = (.ok a, keptAfter)) :
    (x >>= next).run kept = (next a).run keptAfter := by
  change x kept = _ at h
  simp only [ExceptT.run, bind, ExceptT.bind, ExceptT.mk, StateT.bind, h, ExceptT.bindCont]

/-- A task for which everything is there: its fields are found, its delete files are loaded and make
a filter, and its data file is delivered by the source in some batches whose columns can be
converted. -/
structure ReadableTask where
  table : Table
  schema : TableSchema
  projection : Option (List String)
  task : ScanTask
  /-- The delete files that are kept before and after the task is read. -/
  kept : KeptIndexes
  keptAfter : KeptIndexes
  /-- The fields that are asked for. -/
  fields : List Field
  indexes : List DeleteIndex
  /-- The fields that are read. -/
  all : List Field
  header : List ColumnHeader
  checkBounds : Bool
  filter : DeleteFilter
  /-- The schema that the file was written with. -/
  fileSchema : TableSchema
  stored : StoredRows
  distinctIds : schema.fieldIds.Nodup
  distinctNames : schema.fieldNames.Nodup
  distinctProjection : ∀ names ∈ projection, names.Nodup
  projects : schema.project projection = .ok fields
  loads : (table.loadIndexes schema task.deletes).run kept = (.ok indexes, keptAfter)
  readsKeys : Scan.readFields schema task.file.path fields (indexes.flatMap (·.fieldIds)) = .ok all
  addressable : all.length ≤ maxIndex
  checks : table.checksBounds = .ok checkBounds
  creates : DeleteFilter.create task.file indexes all checkBounds = .ok filter
  known : table.log.schemaById task.file.schemaId = .ok fileSchema
  fileFields : fileSchema.fields ≠ []
  distinctFileNames : fileSchema.fieldNames.Nodup
  typed : Field.headers all = .ok header
  /-- Whichever columns of the file are opened, their rows are delivered in order, in batches that
  can be converted. -/
  delivers : ∀ columns, columns ≠ [] → columns.Nodup →
    (∀ name ∈ columns, name ∈ fileSchema.fieldNames) →
      ∃ stream, table.source task.file.path task.file.format columns = .ok stream ∧
        stored.Delivers columns 0 stream ∧
        ∀ b, .ok b ∈ stream → b.Castable fileSchema.fields all
  /-- A row makes a key for every index, unless its position is deleted anyway. -/
  keyed : ∀ p < stored.count,
    (∀ index ∈ indexes, (index.vector? task.file.path).any (·.isDeleted p) = false) →
      ∀ index ∈ indexes, HasKey index.fieldIds fun id =>
        (schema.findField? id).elim .null (stored.cell fileSchema.fields p)

namespace ReadableTask

/-! ## What is to be read -/

/-- The value of a row for a field. -/
def cell (t : ReadableTask) (p : Nat) (f : Field) : Value := t.stored.cell t.fileSchema.fields p f

/-- The value of a row for the field with an id. -/
def valueOf (t : ReadableTask) (p : Nat) (id : Int) : Value :=
  (t.schema.findField? id).elim .null (t.cell p)

/-- Some index deletes the row at a position. -/
def deletes (t : ReadableTask) (p : Nat) : Bool :=
  t.indexes.any fun index => index.deletesRow t.task.file.path p (t.valueOf p)

/-- The positions of the rows that no index deletes, in the order of the file. -/
def livePositions (t : ReadableTask) : List Nat :=
  (List.range t.stored.count).filter fun p => !t.deletes p

/-- Reading the task to the end gives the rows that no index deletes, each with its cells for the
fields that are asked for, and no error. -/
def YieldsLiveRows (t : ReadableTask) : Prop :=
  ∃ reader rows,
    (t.table.taskReader t.schema t.fields t.task).run t.kept = (.ok reader, t.keptAfter) ∧
      reader.rows = (rows, none) ∧
      rows.map Row.toList = t.livePositions.map fun p => .ok (t.fields.map (t.cell p))

/-- All days of a row lie in the years that can be named. -/
def IsDated (t : ReadableTask) (p : Nat) : Prop :=
  ∀ f ∈ t.all, (t.cell p f).every Scalar.isDated = true

/-- Every row of the file has a record: there are fields, they keep different names in records, and
all days can be named. -/
structure HasRecords (t : ReadableTask) : Prop where
  fields : t.schema.fields ≠ []
  names : ({ header := t.header, rows := [] } : Batch).recordNames.Nodup
  dated : ∀ p < t.stored.count, t.IsDated p

variable (t : ReadableTask)

/-! ## The fields that are read -/

theorem mem_schema {f : Field} (hf : f ∈ t.all) : f ∈ t.schema.fields := by
  obtain ⟨⟨hidden, hall, hhidden⟩, -, -⟩ := Scan.readFields_eq_ok t.readsKeys
  rcases List.mem_append.1 (hall ▸ hf) with hf | hf
  · exact TableSchema.mem_of_project t.projects hf
  · exact hhidden f hf

theorem nodup_ids : (t.all.map (·.id)).Nodup :=
  (Scan.readFields_eq_ok t.readsKeys).2.1
    (TableSchema.nodup_ids_of_project t.projects t.distinctIds t.distinctProjection)

theorem length_header : t.header.length = t.all.length :=
  (Field.headers_eq_ok t.typed).length_eq.symm

/-- The value of a field that is read is the one that belongs to its id. -/
theorem valueOf_id {f : Field} (hf : f ∈ t.all) (p : Nat) : t.valueOf p f.id = t.cell p f := by
  rw [valueOf, TableSchema.findField?, TableSchema.findLast?_id t.distinctIds (t.mem_schema hf)]
  rfl

/-- The fields that are asked for are the first ones. -/
theorem take_all : t.all.take t.fields.length = t.fields := by
  obtain ⟨⟨hidden, hall, -⟩, -, -⟩ := Scan.readFields_eq_ok t.readsKeys
  rw [hall, List.take_left]

theorem length_fields_le : t.fields.length ≤ t.all.length := by
  obtain ⟨⟨hidden, hall, -⟩, -, -⟩ := Scan.readFields_eq_ok t.readsKeys
  rw [hall, List.length_append]
  exact Nat.le_add_right _ _

/-! ## The layers of the reader -/

/-- The reader that has read the rows before a position, with what the stream has left. -/
def readerAt (position : Nat) (stream : BatchStream) : Reader :=
  Scan.keepLeading t.fields.length t.all.length (Scan.dropDeleted t.filter
    (.tracked position (.reported t.task.file.path
      (.conformed (Field.physicalNames t.fileSchema.fields t.all) t.header (.stream stream 0)))))

/-- The task has a reader, over a stream of columns that the file has. -/
theorem exists_reader : ∃ columns stream,
    (t.table.taskReader t.schema t.fields t.task).run t.kept =
        (.ok (t.readerAt 0 stream), t.keptAfter) ∧
      columns.Nodup ∧
      (∀ f ∈ t.all, ∀ name ∈ Field.nameOf? t.fileSchema.fields f.id, name ∈ columns) ∧
      t.stored.Delivers columns 0 stream ∧
      ∀ b, .ok b ∈ stream → b.Castable t.fileSchema.fields t.all := by
  obtain ⟨columns, hcolumns, hne, hnodup, hmem, hfound⟩ :=
    Scan.columnsToRead_eq_ok t.fileFields t.distinctFileNames t.nodup_ids
  obtain ⟨stream, hstream, hdelivers, hcasts⟩ := t.delivers columns hne hnodup hmem
  refine ⟨columns, stream, ?_, hnodup, hfound, hdelivers, hcasts⟩
  have hreader : Scan.dataReader t.table.source t.task.file t.fileSchema t.all =
      .ok (.tracked 0 (.reported t.task.file.path (.conformed
        (Field.physicalNames t.fileSchema.fields t.all) t.header (.stream stream 0)))) := by
    rw [Scan.dataReader, hcolumns, ok_bind, hstream, ok_bind,
      liftError_eq_ok_iff.2 t.typed]
    rfl
  have hover : t.table.readerOver t.schema t.fields t.task.file t.indexes =
      .ok (t.readerAt 0 stream) := by
    rw [Table.readerOver, t.readsKeys, ok_bind, t.checks, ok_bind, t.creates, ok_bind, t.known,
      ok_bind, hreader]
    rfl
  rw [Table.taskReader, Scanning.run_bind_of_ok t.loads, hover]
  rfl

end ReadableTask

end MergeOnRead
