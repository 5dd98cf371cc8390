import MergeOnRead.Proofs.ServedIndexes
import MergeOnRead.Proofs.TableReads
import MergeOnRead.Proofs.TaskPaths

/-!
# The ways to read a table agree

A table is read as rows, as batches, or as a whole.  If tasks are read without an error, the rows
are the same ones in each way, and again when they are read again: the rows that the deletes of the
first task leave, in the order of its file, then those of the second task, and so on
(`Table.paths_agree`).

Strategy:

* `Opens.over`: the reader of a task is one over the stored rows of its file, so that what is said
  of such readers applies (`rows_and_batches_of_yields`);
* `rows_and_batches_of_forall₂` puts the tasks together.  All ways load the same indexes, namely
  those that the delete files give anew, though they may be kept from earlier tasks;
* `readsAs_of_runs`: tasks are read in every way once their indexes are loaded, so it is enough that
  these are loaded again.

There are no rows without fields; columns of a file that have the same name are not told apart; and
position deletes reach only so far.  `Table.misread_tables` has a table for each of these.
-/

namespace MergeOnRead

/-! ## What is to be read -/

namespace Table

variable {t : Table} {schema : TableSchema} {fields : List Field} {task : ScanTask}
  {tasks : List ScanTask} {stored : DataFile → StoredRows} {kept last : KeptIndexes}

/-- The fields that are read of a task: those that are asked for, and the key fields of its delete
files. -/
def fieldsRead (t : Table) (schema : TableSchema) (fields : List Field) (task : ScanTask) :
    Except Error (List Field) := do
  let indexes ← task.deletes.mapM (·.load t.source schema)
  Scan.readFields schema task.file.path fields (indexes.flatMap (·.fieldIds))

/-- The rows that the delete files of a task leave, in the order of the data file, each with its
cells for the fields that are asked for. -/
def liveRows (t : Table) (schema : TableSchema) (fields : List Field)
    (stored : DataFile → StoredRows) (task : ScanTask) : List (List Value) :=
  match t.log.schemaById task.file.schemaId, task.deletes.mapM (·.load t.source schema) with
  | .ok fileSchema, .ok indexes =>
    ((stored task.file).liveFrom indexes task.file.path schema fileSchema.fields 0).map
      ((stored task.file).cells fileSchema.fields fields)
  | _, _ => []

/-- What a task relies on: its data file is stored with different columns, the fields that are read
have different names, and position deletes reach all of its rows. -/
structure Provides (t : Table) (schema : TableSchema) (fields : List Field)
    (stored : DataFile → StoredRows) (task : ScanTask) : Prop where
  stores : t.source.Stores task.file (stored task.file)
  fileNames : ∀ s, t.log.schemaById task.file.schemaId = .ok s → s.fieldNames.Nodup
  names : ∀ all, t.fieldsRead schema fields task = .ok all → (all.map (·.name)).Nodup
  within : (∃ f ∈ task.deletes, f.content = .positionDeletes) →
    (stored task.file).count ≤ DeleteFilter.positionLimit

end Table

/-- A stream that is read to the end has no batch that fails. -/
theorem Scan.Layers.Reads.exists_ok {l : Scan.Layers} {position : Nat} {stream : BatchStream}
    {ds : List Batch} (h : l.Reads position stream ds) : ∀ r ∈ stream, ∃ b, r = .ok b := by
  induction h with
  | done => exact fun r hr => absurd hr List.not_mem_nil
  | more hconform hfinish hrest ih =>
      intro r hr
      rcases List.mem_cons.1 hr with rfl | hr
      · exact ⟨_, rfl⟩
      · exact ih r hr

/-- A file of which columns are opened has columns. -/
theorem Scan.fields_ne_nil_of_columnsToRead {fileSchema : TableSchema} {all : List Field}
    {columns : List String}
    (h : columnsToRead fileSchema (Field.physicalNames fileSchema.fields all) = .ok columns) :
    fileSchema.fields ≠ [] := by
  intro hnone
  have hnames : (Field.physicalNames [] all).filterMap id = [] := by
    rw [Field.physicalNames, List.filterMap_map, List.filterMap_eq_nil_iff]
    exact fun f _ => rfl
  rw [columnsToRead, hnone, hnames] at h
  cases h

/-- Only files of position deletes list positions. -/
theorem DeleteFile.vector?_of_load {f : DeleteFile} {source : RowSource} {schema : TableSchema}
    {i : DeleteIndex} (hcontent : f.content ≠ .positionDeletes) (h : f.load source schema = .ok i)
    (dataPath : String) : i.vector? dataPath = none := by
  have hload : f.loadEqualities source schema = .ok i := by
    rw [load] at h
    split at h
    · rename_i hpositions
      exact absurd hpositions hcontent
    · exact h
  obtain ⟨fields, -, hload⟩ := bind_eq_ok_iff.1 hload
  obtain ⟨reader, -, hload⟩ := bind_eq_ok_iff.1 hload
  obtain ⟨keys, -, hload⟩ := bind_eq_ok_iff.1 hload
  split at hload
  · cases hload
  · cases hload
    rfl

theorem DeleteFilter.mergePositions_eq_none {dataPath : String} {indexes : List DeleteIndex}
    (h : ∀ index ∈ indexes, index.vector? dataPath = none) :
    mergePositions dataPath indexes = none := by
  rw [mergePositions]
  induction indexes with
  | nil => rfl
  | cons index indexes ih =>
      rw [List.foldl_cons, mergeIndex, h index (List.mem_cons_self ..)]
      exact ih fun index hindex => h index (List.mem_cons_of_mem _ hindex)

namespace Table

variable {t : Table} {schema : TableSchema} {projection : Option (List String)}
  {fields : List Field} {task : ScanTask} {stored : DataFile → StoredRows}
  {indexes : List DeleteIndex}

/-! ## One task -/

/-- The layers over a data file that is opened hand out its stored rows, where position deletes
reach all of them. -/
theorem Opens.over_of_reaches {file : DataFile} {s : StoredRows} {all : List Field}
    {fileSchema : TableSchema} {columns : List String} {stream : BatchStream} {l : Scan.Layers}
    (h : t.Opens schema fields file indexes all fileSchema columns stream l)
    (hids : schema.fieldIds.Nodup) (hfields : schema.fields ≠ [])
    (hmax : schema.fields.length ≤ maxIndex) (hproject : schema.project projection = .ok fields)
    (hfileNames : fileSchema.fieldNames.Nodup) (hnames : (all.map (·.name)).Nodup)
    (hreaches : l.filter.positions = none ∨ s.count ≤ DeleteFilter.positionLimit) :
    ∃ hidden, all = fields ++ hidden ∧ (all.map (·.id)).Nodup ∧
      l.Over s schema file indexes fileSchema.fields fields hidden columns := by
  obtain ⟨⟨hidden, rfl, hhidden⟩, -, -⟩ := Scan.readFields_eq_ok h.resolved
  have hmem : ∀ f ∈ fields ++ hidden, f ∈ schema.fields := by
    intro f hf
    rcases List.mem_append.1 hf with hf | hf
    · exact TableSchema.mem_of_project hproject hf
    · exact hhidden f hf
  have hnodup : (fields ++ hidden).Nodup := .of_map (·.name) hnames
  have hnodupIds : ((fields ++ hidden).map (·.id)).Nodup :=
    hnodup.map_on fun f hf g hg hid =>
      List.inj_on_of_nodup_map hids (hmem f hf) (hmem g hg) hid
  obtain ⟨columns', hcolumns, hopened, hdistinct, -, hfound⟩ := Scan.columnsToRead_eq_ok
    (Scan.fields_ne_nil_of_columnsToRead h.found) hfileNames hnodupIds
  cases hcolumns.symm.trans h.found
  obtain ⟨check, -, hcreate⟩ := h.filter
  refine ⟨hidden, rfl, hnodupIds, h.header, h.names, ⟨check, hcreate⟩, h.asked, h.total, ?_, ?_,
    hopened, hdistinct, hfound, fun f hf p => ?_, hreaches⟩
  · exact List.append_ne_nil_of_left_ne_nil (TableSchema.ne_nil_of_project hproject hfields) hidden
  · exact (List.subperm_of_subset hnodup hmem).length_le.trans hmax
  · rw [StoredRows.valueOf, TableSchema.findField?, TableSchema.findLast?_id hids (hmem f hf)]
    rfl

section Task

variable (hids : schema.fieldIds.Nodup) (hfields : schema.fields ≠ [])
  (hmax : schema.fields.length ≤ maxIndex) (hproject : schema.project projection = .ok fields)
  (htask : t.Provides schema fields stored task)
  (hloads : task.deletes.mapM (·.load t.source schema) = .ok indexes)
include hids hfields hmax hproject htask hloads

/-- The layers over a task that is opened hand out its stored rows. -/
theorem Opens.over {all : List Field} {fileSchema : TableSchema} {columns : List String}
    {stream : BatchStream} {l : Scan.Layers}
    (h : t.Opens schema fields task.file indexes all fileSchema columns stream l) :
    ∃ hidden, l.Over (stored task.file) schema task.file indexes fileSchema.fields fields hidden
      columns := by
  have hnames : (all.map (·.name)).Nodup := by
    refine htask.names _ ?_
    rw [fieldsRead, hloads, ok_bind, h.resolved]
  have hreaches : l.filter.positions = none ∨
      (stored task.file).count ≤ DeleteFilter.positionLimit := by
    by_cases hpositions : ∃ f ∈ task.deletes, f.content = .positionDeletes
    · exact .inr (htask.within hpositions)
    · refine .inl ?_
      obtain ⟨check, -, hcreate⟩ := h.filter
      obtain ⟨groups, -, hfilter⟩ := DeleteFilter.create_eq_ok hcreate
      rw [hfilter]
      refine DeleteFilter.mergePositions_eq_none fun index hindex => ?_
      obtain ⟨f, hf, hload⟩ := exists_mem_of_forall₂ (mapM_eq_ok_iff.1 hloads) hindex
      exact DeleteFile.vector?_of_load (fun hcontent => hpositions ⟨f, hf, hcontent⟩) hload _
  obtain ⟨hidden, -, -, hover⟩ := h.over_of_reaches hids hfields hmax hproject
    (htask.fileNames _ h.known) hnames hreaches
  exact ⟨hidden, hover⟩

/-- The rows and the batches of a task are its live rows. -/
theorem rows_and_batches_of_yields {header : List ColumnHeader} {rows : List Row} {bs : List Batch}
    (hheader : Field.headers fields = .ok header)
    (hrows : t.Yields schema fields Reader.rows (task, indexes) rows)
    (hbatches : t.Yields schema fields liveBatches (task, indexes) bs) :
    rows.map Row.toList = (t.liveRows schema fields stored task).map .ok ∧
      (bs.flatMap (·.rows)).map (Batch.recordOf header) = t.liveRows schema fields stored task ∧
      ∀ b ∈ bs, b.header = header := by
  obtain ⟨reader, hreader, hrows⟩ := hrows
  obtain ⟨reader', hreader', hbatches⟩ := hbatches
  cases hreader.symm.trans hreader'
  obtain ⟨all, fileSchema, columns, stream, l, hopens, rfl⟩ := readerOver_eq_ok_iff.1 hreader
  obtain ⟨hidden, hover⟩ := hopens.over hids hfields hmax hproject htask hloads
  rw [Reader.rows, Scan.Layers.remaining_reader] at hrows
  obtain ⟨ds, hds, rfl⟩ := liveBatches_eq_ok_iff.1 hbatches
  rw [Reader.batches, Scan.Layers.remaining_reader] at hds
  have hreads := Scan.Layers.batchesWithin_reader_iff.1 hds
  have hdelivers := htask.stores columns stream hover.distinct hover.opened hopens.opened
    hreads.exists_ok
  obtain ⟨hlive, hdecoded, hheaders⟩ :=
    hover.rows_and_batches hdelivers (Scan.Layers.rowsWithin_reader_iff.1 hrows) hreads
  have hliveRows : t.liveRows schema fields stored task =
      ((stored task.file).liveFrom indexes task.file.path schema fileSchema.fields 0).map
        ((stored task.file).cells fileSchema.fields fields) := by
    rw [liveRows, hopens.known, hloads]
  have hsame : ∀ d ∈ ds, d.header = header := fun d hd =>
    Except.ok.inj ((hheaders d hd).symm.trans hheader)
  refine ⟨by rw [hlive, hliveRows, List.map_map]; rfl, ?_,
    fun b hb => hsame b (List.mem_filter.1 hb).1⟩
  rw [flatMap_rows_filter, hliveRows, ← hdecoded, List.map_flatMap]
  exact List.flatMap_congr fun d hd => by rw [hsame d hd]

end Task

/-! ## All tasks -/

theorem exists_headers_of_columnsOf {columns : List ColumnField}
    (h : columnsOf fields = .ok columns) : ∃ header, Field.headers fields = .ok header := by
  obtain ⟨found, hfound, -⟩ := bind_eq_ok_iff.1 h
  rw [Field.headers, liftError_eq_ok_iff.1 hfound, ok_bind]
  exact ⟨_, rfl⟩

/-- Reading tasks gives some rows, and no error, whichever way they are read: as rows, as batches,
or as a whole. -/
structure ReadsAs (t : Table) (schema : TableSchema) (fields : List Field) (tasks : List ScanTask)
    (live : List (List Value)) (kept last : KeptIndexes) : Prop where
  rows : ∃ rows, (t.rows schema fields tasks).run kept = ((rows, none), last) ∧
    rows.map Row.toList = live.map .ok
  table : ∃ header columns bs,
    Field.headers fields = .ok header ∧ columnsOf fields = .ok columns ∧
      (t.batches schema fields tasks).run kept = ((bs, none), last) ∧
      (∀ b ∈ bs, b.header = header) ∧
      (t.readTable schema fields tasks).run kept = (.ok (columns, bs.flatMap (·.rows)), last) ∧
      (bs.flatMap (·.rows)).map (Batch.recordOf header) = live

section Tasks

variable {tasks : List ScanTask} {lists : List (List DeleteIndex)} {kept last : KeptIndexes}
  {rowParts : List (List Row)} {batchParts : List (List Batch)} {header : List ColumnHeader}

/-- The rows and the batches of tasks are the live rows of one task after the other. -/
theorem rows_and_batches_of_forall₂ (hids : schema.fieldIds.Nodup) (hfields : schema.fields ≠ [])
    (hmax : schema.fields.length ≤ maxIndex) (hproject : schema.project projection = .ok fields)
    (htasks : ∀ task ∈ tasks, t.Provides schema fields stored task)
    (hloads : List.Forall₂ (fun task is => task.deletes.mapM (·.load t.source schema) = .ok is)
      tasks lists)
    (hheader : Field.headers fields = .ok header)
    (hrows : List.Forall₂ (t.Yields schema fields Reader.rows) (tasks.zip lists) rowParts)
    (hbatches : List.Forall₂ (t.Yields schema fields liveBatches) (tasks.zip lists) batchParts) :
    rowParts.flatten.map Row.toList =
        (tasks.flatMap (t.liveRows schema fields stored)).map .ok ∧
      (batchParts.flatten.flatMap (·.rows)).map (Batch.recordOf header) =
        tasks.flatMap (t.liveRows schema fields stored) ∧
      ∀ b ∈ batchParts.flatten, b.header = header := by
  induction hloads generalizing rowParts batchParts with
  | nil =>
      cases hrows
      cases hbatches
      simp
  | @cons task indexes tasks lists hfirst hrest ih =>
      cases hrows with
      | @cons _ rows _ moreRows hrow hrows =>
      cases hbatches with
      | @cons _ bs _ moreBatches hbatch hbatches =>
      obtain ⟨hlive, hdecoded, hheaders⟩ := rows_and_batches_of_yields hids hfields hmax hproject
        (htasks task (List.mem_cons_self ..)) hfirst hheader hrow hbatch
      obtain ⟨hmore, hmoreDecoded, hmoreHeaders⟩ :=
        ih (fun task htask => htasks task (List.mem_cons_of_mem _ htask)) hrows hbatches
      simp only [List.flatten_cons, List.map_append, List.flatMap_append, List.flatMap_cons, hlive,
        hdecoded, hmore, hmoreDecoded, List.mem_append]
      exact ⟨trivial, trivial, fun b hb => hb.elim (hheaders b) (hmoreHeaders b)⟩

/-- Tasks whose indexes are loaded are read whichever way, if their rows and batches are known. -/
theorem readsAs_of_runs {live : List (List Value)} {columns : List ColumnField} {workers : Int}
    (hheader : Field.headers fields = .ok header) (hcolumns : columnsOf fields = .ok columns)
    (hworkers : t.parallelism = .ok workers)
    (hlists : Scanning.Runs (fun task => t.loadIndexes schema task.deletes) kept tasks lists last)
    (hrows : List.Forall₂ (t.Yields schema fields Reader.rows) (tasks.zip lists) rowParts)
    (hbatches : List.Forall₂ (t.Yields schema fields liveBatches) (tasks.zip lists) batchParts)
    (hlive : rowParts.flatten.map Row.toList = live.map .ok)
    (hdecoded : (batchParts.flatten.flatMap (·.rows)).map (Batch.recordOf header) = live)
    (hheaders : ∀ b ∈ batchParts.flatten, b.header = header) :
    t.ReadsAs schema fields tasks live kept last where
  rows := ⟨_, readInOrder_run_eq_iff.2 ⟨_, runs_readWith_iff.2 ⟨lists, hlists, hrows⟩, rfl⟩, hlive⟩
  table := by
    have hread : (t.batches schema fields tasks).run kept = ((batchParts.flatten, none), last) :=
      readInOrder_run_eq_iff.2 ⟨_, runs_readWith_iff.2 ⟨lists, hlists, hbatches⟩, rfl⟩
    refine ⟨header, columns, _, hheader, hcolumns, hread, hheaders, ?_, hdecoded⟩
    exact readTable_run_eq_ok_iff.2
      ⟨hcolumns, _, readAll_run_eq_ok_iff_batches.2 ⟨⟨workers, hworkers⟩, hread⟩, rfl⟩

/-- **The ways to read a table agree.**  Let tasks be read as rows and as a whole without an error,
for some fields of a schema that has fields at all, and let the indexes that are kept be loaded with
this schema.  Then in every way they are read as their live rows, one task after the other; and from
the state that is left behind they are read in this way again. -/
theorem paths_agree {files : List DeleteFile} {rows : List Row}
    {table : List ColumnField × List (List Value)} {lastOfTable : KeptIndexes}
    (hids : schema.fieldIds.Nodup) (hfields : schema.fields ≠ [])
    (hmax : schema.fields.length ≤ maxIndex) (hproject : schema.project projection = .ok fields)
    (htasks : ∀ task ∈ tasks, t.Provides schema fields stored task)
    (hfiles : ∀ task ∈ tasks, ∀ f ∈ task.deletes, f ∈ files)
    (hkept : t.KeepsLoaded schema files kept)
    (hrows : (t.rows schema fields tasks).run kept = ((rows, none), last))
    (htable : (t.readTable schema fields tasks).run kept = (.ok table, lastOfTable)) :
    t.ReadsAs schema fields tasks (tasks.flatMap (t.liveRows schema fields stored)) kept last ∧
      t.KeepsLoaded schema files last ∧
      ∃ after, t.ReadsAs schema fields tasks (tasks.flatMap (t.liveRows schema fields stored)) last
        after := by
  obtain ⟨rowParts, hrowRuns, -⟩ := readInOrder_run_eq_iff.1 hrows
  obtain ⟨lists, hlists, hrowParts⟩ := runs_readWith_iff.1 hrowRuns
  obtain ⟨hcolumns, bs, hbs, -⟩ := readTable_run_eq_ok_iff.1 htable
  obtain ⟨⟨workers, hworkers⟩, hbatches⟩ := readAll_run_eq_ok_iff_batches.1 hbs
  obtain ⟨batchParts, hbatchRuns, -⟩ := readInOrder_run_eq_iff.1 hbatches
  obtain ⟨lists', hlists', hbatchParts⟩ := runs_readWith_iff.1 hbatchRuns
  -- Both ways load the same indexes.
  obtain ⟨rfl, rfl⟩ := hlists.unique hlists'
  obtain ⟨header, hheader⟩ := exists_headers_of_columnsOf hcolumns
  obtain ⟨hloads, -⟩ := hkept.of_loads hfiles hlists
  obtain ⟨hlive, hdecoded, hheaders⟩ := rows_and_batches_of_forall₂ hids hfields hmax hproject
    htasks hloads hheader hrowParts hbatchParts
  obtain ⟨hlast, after, hagain⟩ := hkept.loads_again hfiles hlists
  exact ⟨readsAs_of_runs hheader hcolumns hworkers hlists hrowParts hbatchParts hlive hdecoded
      hheaders, hlast, after, readsAs_of_runs hheader hcolumns hworkers hagain hrowParts hbatchParts
      hlive hdecoded hheaders⟩

end Tasks

/-! ## A table of notes -/

def noteType (name : String) : ColumnType :=
  if name = "file_path" then .flat (.text false)
  else if name = "pos" then .flat (.int .w64)
  else .flat (.int .w32)

/-- What some files have in a column. -/
def noteColumn (path name : String) : List Value :=
  match path, name with
  | "d1", "a" => [.int 1, .int 2, .int 3]
  | "d1", _ => [.int 10, .int 20, .int 30]
  | "d2", "a" => [.int 4, .int 5]
  | "d2", _ => [.int 20, .int 50]
  | "p", "file_path" => [.text "d1"]
  | "p", _ => [.int 0]
  | _, _ => [.int 20]

def noteRows (file : DataFile) : StoredRows where
  count := (noteColumn file.path "b").length
  type _ := noteType
  value p name := (noteColumn file.path name).getD p .null

def noteSchema (fields : List Field) : TableSchema := ⟨1, fields, [], 3, []⟩

/-- A table whose fields have changed since its files were written.  Of each file the first row
comes in a batch of its own, and the next batch is empty. -/
def noteTable (fileFields fields : List Field) : Table where
  log := ⟨noteSchema fields, [⟨0, fileFields, [], 3, []⟩], []⟩
  options := .empty
  source path format columns :=
    let s := noteRows { path, format, partition := [], rowCount := 0 }
    .ok (s.divided columns 0 [1, 0, s.count - 1])

theorem stores_noteTable {fileFields fields : List Field} {file : DataFile}
    (hrows : 1 ≤ (noteRows file).count) :
    (noteTable fileFields fields).source.Stores file (noteRows file) := by
  intro columns stream _ _ h _
  cases h
  refine StoredRows.delivers_divided (fun _ => rfl) ?_
  change 0 + 1 + 0 + ((noteRows file).count - 1) = (noteRows file).count
  omega

def noteFile (path : String) (rowCount : Int) : DataFile :=
  { path, format := "parquet", partition := [], rowCount }

/-- The first row of a file is deleted by position. -/
def notePositions : DeleteFile := ⟨"p", "parquet", [], .positionDeletes, 1, 0, [], none, none⟩

/-- Rows with 20 in column `b` are deleted. -/
def noteKeys : DeleteFile := ⟨"e", "parquet", [], .equalityDeletes, 1, 0, [2], none, none⟩

def noteDeletes : List DeleteFile := [notePositions, noteKeys]

def noteTasks : List ScanTask :=
  [⟨noteFile "d1" 3, noteDeletes⟩, ⟨noteFile "d2" 2, noteDeletes⟩]

/-- Column `a` under another name. -/
def renamedA : Field := { columnA with name := "first" }

def columnC : Field := ⟨3, "c", .atomic "INT" true, none⟩

def noteStart : KeptIndexes := some ⟨8, [], [], 0⟩

/-- A column that was added and one that was renamed are read, and column `b` for the sake of the
keys. -/
theorem paths_agree_noteTable :
    let t := noteTable [columnA, columnB] [renamedA, columnB, columnC]
    let live := [[.null, .int 3], [.null, .int 5]]
    ∃ last after, t.ReadsAs t.log.schema [columnC, renamedA] noteTasks live noteStart last ∧
      t.ReadsAs t.log.schema [columnC, renamedA] noteTasks live last after := by
  intro t live
  have hlive : noteTasks.flatMap (t.liveRows t.log.schema [columnC, renamedA] noteRows) = live := by
    decide +kernel
  obtain ⟨rows, last, hrows⟩ : ∃ rows last,
      (t.rows t.log.schema [columnC, renamedA] noteTasks).run noteStart = ((rows, none), last) :=
    exists_readInOrder_run (by decide +kernel)
  obtain ⟨table, lastOfTable, htable⟩ : ∃ table last,
      (t.readTable t.log.schema [columnC, renamedA] noteTasks).run noteStart = (.ok table, last) :=
    Scanning.exists_run_eq_ok (by decide +kernel)
  have hnames : ∀ task ∈ noteTasks,
      (t.fieldsRead t.log.schema [columnC, renamedA] task).toOption.map (·.map (·.name)) =
        some ["c", "first", "b"] := by
    decide +kernel
  have hcounts : ∀ task ∈ noteTasks, 1 ≤ (noteRows task.file).count ∧
      (noteRows task.file).count ≤ DeleteFilter.positionLimit := by
    decide
  have hprovides : ∀ task ∈ noteTasks,
      t.Provides t.log.schema [columnC, renamedA] noteRows task := by
    intro task htask
    refine ⟨stores_noteTable (hcounts task htask).1, fun s hs => ?_, fun all hall => ?_,
      fun _ => (hcounts task htask).2⟩
    · obtain rfl : s = ⟨0, [columnA, columnB], [], 3, []⟩ := by
        simp only [noteTasks, List.mem_cons, List.not_mem_nil, or_false] at htask
        rcases htask with rfl | rfl <;> cases hs <;> rfl
      decide
    · have hnamed : all.map (·.name) = ["c", "first", "b"] := by
        simpa [hall, Except.toOption] using hnames task htask
      rw [hnamed]
      decide
  have hkept : t.KeepsLoaded t.log.schema noteDeletes noteStart := by
    intro c hc
    cases hc
    exact ⟨by simp [OneFormat, noteDeletes, notePositions, noteKeys],
      ⟨by simp, .nil, by decide⟩, by simp⟩
  have hfiles : ∀ task ∈ noteTasks, ∀ f ∈ task.deletes, f ∈ noteDeletes := by
    simp [noteTasks]
  have hproject : t.log.schema.project (some ["c", "first"]) = .ok [columnC, renamedA] := rfl
  obtain ⟨hreads, -, after, hagain⟩ := paths_agree (by decide) (by decide) (by decide) hproject
    hprovides hfiles hkept hrows htable
  rw [hlive] at hreads hagain
  exact ⟨last, after, hreads, hagain⟩

/-! ## Tables that are not read as their live rows

A batch that is left without columns has no rows.  A column is found by its name, and for a name
that occurs twice the last column is taken.  Positions are matched up to a limit, and batches lose
every row behind it. -/

/-- Tasks of which different fields are read, without an error, but which are not read as their live
rows. -/
structure Misread (t : Table) (schema : TableSchema) (fields : List Field)
    (stored : DataFile → StoredRows) (tasks : List ScanTask) : Prop where
  projects : schema.project none = .ok fields
  stores : ∀ task ∈ tasks, t.source.Stores task.file (stored task.file)
  names : ∀ task ∈ tasks, ∀ all, t.fieldsRead schema fields task = .ok all →
    (all.map (·.name)).Nodup
  asRows : ∃ rows last, (t.rows schema fields tasks).run none = ((rows, none), last)
  asTable : ∃ table last, (t.readTable schema fields tasks).run none = (.ok table, last)
  not_readsAs : ∀ last,
    ¬t.ReadsAs schema fields tasks (tasks.flatMap (t.liveRows schema fields stored)) none last

/-- A file with two rows, of which none is deleted. -/
def plainTasks : List ScanTask := [⟨noteFile "d2" 2, []⟩]

theorem misread_plainTasks {fileFields fields : List Field}
    (hnames : (fields.map (·.name)).Nodup)
    (hrows : (((noteTable fileFields fields).rows (noteSchema fields) fields plainTasks).run
      none).1.2 = none)
    (htable : (((noteTable fileFields fields).readTable (noteSchema fields) fields plainTasks).run
      none).1.toOption.isSome = true)
    (hne : (((noteTable fileFields fields).rows (noteSchema fields) fields plainTasks).run
      none).1.1.map Row.toList ≠ (plainTasks.flatMap ((noteTable fileFields fields).liveRows
        (noteSchema fields) fields noteRows)).map .ok) :
    (noteTable fileFields fields).Misread (noteSchema fields) fields noteRows plainTasks where
  projects := rfl
  stores task htask := by
    obtain rfl := List.mem_singleton.1 htask
    exact stores_noteTable (by decide)
  names task htask all hall := by
    obtain rfl := List.mem_singleton.1 htask
    cases hall
    exact hnames
  asRows := exists_readInOrder_run hrows
  asTable := Scanning.exists_run_eq_ok htable
  not_readsAs last h := by
    obtain ⟨rows, hread, hlive⟩ := h.rows
    rw [hread] at hne
    exact hne hlive

/-- Any number of rows. -/
def longRows (count : Nat) : StoredRows := ⟨count, fun _ => noteType, fun _ _ => .int 0⟩

/-- A table with a long file, which comes in one batch, and a file of deletes by position. -/
def longTable (count : Nat) : Table where
  log := .start ⟨0, [columnA], [], 1, []⟩
  options := .ofList [(Options.checkBounds.key, .bool false)]
  source path format columns :=
    if path = "d1" then .ok ((longRows count).divided columns 0 [count])
    else (noteTable [] []).source path format columns

def longTasks (count : Nat) : List ScanTask := [⟨noteFile "d1" count, [notePositions]⟩]

def firstPosition : PositionSet := PositionSet.empty.insert 0 (Nat.zero_le maxPosition)

def firstIndex : DeleteIndex := .positions "p" [("d1", firstPosition)]

variable {count : Nat}

theorem load_notePositions :
    notePositions.load (longTable count).source (longTable count).log.schema = .ok firstIndex := by
  with_unfolding_all rfl

theorem mapM_load_longTable : [notePositions].mapM
    (·.load (longTable count).source (longTable count).log.schema) = .ok [firstIndex] := by
  rw [List.mapM_cons, load_notePositions]
  rfl

def longLayers (count : Nat) : Scan.Layers :=
  ⟨⟨noteFile "d1" count, [columnA], some firstPosition, []⟩, "d1", [some "a"],
    [⟨"a", .flat (.int .w32)⟩], 1, 1⟩

def longStream (count : Nat) : BatchStream := (longRows count).divided ["a"] 0 [count]

theorem readerOver_longTable :
    (longTable count).readerOver (longTable count).log.schema [columnA] (noteFile "d1" count)
      [firstIndex] = .ok ((longLayers count).reader 0 (longStream count)) := rfl

/-- The records of the long file. -/
theorem exists_records_longTable (count : Nat) :
    ∃ c, ((longRows count).batch ["a"] 0 count).conform (longLayers count).names
        (longLayers count).header = .ok c ∧ c.size = count ∧
      c.records = .ok ((List.range count).map fun _ => [.int 0]) := by
  obtain ⟨c, hconform⟩ : ∃ c, ((longRows count).batch ["a"] 0 count).conform
      (longLayers count).names (longLayers count).header = .ok c :=
    ⟨{ header := _, rows := _ }, rfl⟩
  have hholds : (longRows count).Holds ["a"] 0 ((longRows count).batch ["a"] 0 count) :=
    StoredRows.holds_batch (fun _ => rfl) count
  have hnames : Field.physicalNames [columnA] [columnA] = (longLayers count).names := rfl
  rw [← hnames] at hconform
  obtain ⟨hheader, hsize, hrecords⟩ :=
    hholds.recordOf_conform (by decide) (by decide) rfl (List.cons_ne_nil _ _) hconform
  rw [StoredRows.size_batch] at hsize hrecords
  refine ⟨c, hconform, hsize, Batch.records_eq_ok_iff.2 ⟨?_, ?_⟩⟩
  · have hnames : c.recordNames = ["a"] := by
      rw [Batch.recordNames, Batch.names, hheader]
      rfl
    rw [Batch.decoded_eq_ok (by rw [hnames]; decide) (by rw [hheader]; exact List.cons_ne_nil _ _),
      hheader]
    exact congrArg Except.ok hrecords
  · rw [Batch.areDated, List.all_map, List.all_eq_true]
    exact fun _ _ => rfl

theorem isDeleted_firstPosition (p : Nat) : firstPosition.isDeleted p = (p == 0) := by
  rw [Bool.eq_iff_iff, PositionSet.isDeleted_iff, firstPosition, PositionSet.mem_insert]
  simp [PositionSet.mem_def, PositionSet.empty]

/-- Of the long file the first row is deleted. -/
theorem isDeleted_longTable (i : Nat) (record : List Value) :
    (longLayers count).filter.isDeleted (((0 : Nat) : Int) + i)
      ((longLayers count).wholeRow record) = .ok (i == 0) := by
  rw [DeleteFilter.isDeleted, DeleteFilter.positionDeleted, Int.natCast_zero, Int.zero_add]
  simp only [longLayers, isDeleted_firstPosition]
  cases i <;> rfl

theorem exists_rows_longTable (count : Nat) :
    ∃ rows, ((longLayers count).reader 0 (longStream count)).rows = (rows, none) := by
  obtain ⟨c, hconform, -, hrecords⟩ := exists_records_longTable count
  have hdrains : ∃ rows, (longLayers count).Drains 0 (longStream count) rows :=
    ⟨_, .more (fun i => i == 0) hconform hrecords (fun i _ => isDeleted_longTable i _) .done⟩
  obtain ⟨rows, hrows⟩ := hdrains
  refine ⟨rows, ?_⟩
  rw [Reader.rows, Scan.Layers.remaining_reader]
  exact Scan.Layers.rowsWithin_reader_iff.2 hrows

theorem exists_batches_longTable (hcount : count ≤ DeleteFilter.rangeLimit) :
    ∃ ds, ((longLayers count).reader 0 (longStream count)).batches = (ds, none) ∧
      (ds.flatMap (·.rows)).length ≤ DeleteFilter.positionLimit := by
  obtain ⟨c, hconform, hsize, -⟩ := exists_records_longTable count
  obtain ⟨d, hfinish⟩ : ∃ d, (longLayers count).finish c ((0 : Nat) : Int) = .ok d := by
    obtain ⟨live, hlive⟩ : ∃ live, (longLayers count).filter.undeletedPositions
        ((0 : Nat) : Int) c.size = .ok live := by
      have hwithin : ¬(((0 : Nat) : Int) < 0 ∨ (DeleteFilter.rangeLimit : Int) <
          ((0 : Nat) : Int) + c.size) := by
        omega
      simp only [DeleteFilter.undeletedPositions, longLayers, if_neg hwithin]
      exact ⟨_, rfl⟩
    have hsurvive : (longLayers count).filter.survivingRows c ((0 : Nat) : Int) = .ok live := by
      rw [DeleteFilter.survivingRows, hlive]
      rfl
    have happly : ∃ d, (longLayers count).filter.apply c ((0 : Nat) : Int) = .ok d := by
      rw [DeleteFilter.apply, hsurvive, ok_bind]
      split
      · exact ⟨_, rfl⟩
      · split <;> exact ⟨_, rfl⟩
    obtain ⟨d, hd⟩ := happly
    exact ⟨d, by rw [Scan.Layers.finish, hd]; rfl⟩
  have hreads : (longLayers count).Reads 0 (longStream count) [d] := .more hconform hfinish .done
  refine ⟨[d], ?_, hreads.length_le (by simp [longLayers])⟩
  rw [Reader.batches, Scan.Layers.remaining_reader]
  exact Scan.Layers.batchesWithin_reader_iff.2 hreads

theorem length_liveRows_longTable :
    ((longTasks count).flatMap ((longTable count).liveRows (longTable count).log.schema [columnA]
      fun _ => longRows count)).length = count - 1 := by
  have hknown : (longTable count).log.schemaById (noteFile "d1" count).schemaId =
      .ok (longTable count).log.schema := rfl
  rw [longTasks, List.flatMap_singleton, liveRows, hknown, mapM_load_longTable]
  have hdeleted : ∀ p, (longRows count).isDeletedBy [firstIndex] "d1" (longTable count).log.schema
      (longTable count).log.schema.fields p = (p == 0) := by
    intro p
    rw [← isDeleted_firstPosition]
    exact Bool.or_false _
  simp only [List.length_map, StoredRows.liveFrom, noteFile, hdeleted]
  change ((List.range' 0 count).filter fun p => !(p == 0)).length = count - 1
  cases count with
  | zero => rfl
  | succ count =>
      have hrest : (List.range' 1 count).filter (fun p => !(p == 0)) = List.range' 1 count := by
        rw [List.filter_eq_self]
        intro p hp
        have := (List.mem_range'_1.1 hp).1
        simpa using show p ≠ 0 by omega
      rw [List.range'_succ, List.filter_cons_of_neg (by decide), hrest, List.length_range']
      rfl

/-- Positions do not reach all rows of a long file. -/
theorem misread_longTable (hcount : DeleteFilter.positionLimit + 1 < count)
    (hmax : count ≤ DeleteFilter.rangeLimit) :
    (longTable count).Misread (longTable count).log.schema [columnA] (fun _ => longRows count)
      (longTasks count) := by
  obtain ⟨rows, hrows⟩ := exists_rows_longTable count
  obtain ⟨ds, hds, hlength⟩ := exists_batches_longTable hmax
  have hlists : Scanning.Runs (fun task => (longTable count).loadIndexes
      (longTable count).log.schema task.deletes) none (longTasks count) [[firstIndex]] none := by
    refine .cons ?_ .nil
    refine Scanning.run_mapM_eq_ok_iff.2 (.cons ?_ .nil)
    exact loadIndex_run_eq_ok_iff.2 (.inl ⟨rfl, rfl, load_notePositions⟩)
  have hread : ((longTable count).rows (longTable count).log.schema [columnA]
      (longTasks count)).run none = ((rows, none), none) :=
    readInOrder_run_eq_iff.2 ⟨[rows], runs_readWith_iff.2
      ⟨_, hlists, .cons ⟨_, readerOver_longTable, hrows⟩ .nil⟩, (List.append_nil rows).symm⟩
  have hbatches : ((longTable count).batches (longTable count).log.schema [columnA]
      (longTasks count)).run none = ((ds.filter fun b => b.size != 0, none), none) :=
    readInOrder_run_eq_iff.2 ⟨[_], runs_readWith_iff.2
      ⟨_, hlists, .cons ⟨_, readerOver_longTable, liveBatches_eq_ok_iff.2 ⟨ds, hds, rfl⟩⟩ .nil⟩,
      (List.append_nil _).symm⟩
  refine ⟨rfl, ?_, ?_, ⟨rows, none, hread⟩, ?_, ?_⟩
  · intro task htask
    obtain rfl := List.mem_singleton.1 htask
    intro columns stream _ _ h _
    cases h
    exact StoredRows.delivers_divided (fun _ => rfl) (Nat.zero_add count)
  · intro task htask all hall
    obtain rfl := List.mem_singleton.1 htask
    rw [fieldsRead, mapM_load_longTable] at hall
    cases hall
    decide
  · exact ⟨_, none, readTable_run_eq_ok_iff.2 ⟨rfl, _,
      readAll_run_eq_ok_iff_batches.2 ⟨⟨_, rfl⟩, hbatches⟩, rfl⟩⟩
  · intro last h
    obtain ⟨header, columns, bs, -, -, hbs, -, -, hlive⟩ := h.table
    rw [hbatches] at hbs
    cases hbs
    have hsame := congrArg List.length hlive
    rw [List.length_map, flatMap_rows_filter, length_liveRows_longTable] at hsame
    omega

/-- **Not every table is read as its live rows**: not one without fields, nor one of a file in which
two columns have the same name, nor one of a file with position deletes that do not reach all of its
rows. -/
theorem misread_tables :
    (noteTable [columnA, columnB] []).Misread (noteSchema []) [] noteRows plainTasks ∧
      (noteTable [columnA, { columnB with name := "a" }, { columnC with name := "b" }]
        [columnA, columnB, columnC]).Misread (noteSchema [columnA, columnB, columnC])
        [columnA, columnB, columnC] noteRows plainTasks ∧
      (longTable 4294967298).Misread (longTable 4294967298).log.schema [columnA]
        (fun _ => longRows 4294967298) (longTasks 4294967298) :=
  ⟨misread_plainTasks (by decide) (by decide +kernel) (by decide +kernel) (by decide +kernel),
    misread_plainTasks (by decide) (by decide +kernel) (by decide +kernel) (by decide +kernel),
    misread_longTable (by decide) (by decide)⟩

end Table

end MergeOnRead
