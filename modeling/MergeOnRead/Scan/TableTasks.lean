import MergeOnRead.Deletes.IndexCache
import MergeOnRead.Log.Change
import MergeOnRead.Options.Core
import MergeOnRead.Scan.DeleteLoading
import MergeOnRead.Scan.Plan
import MergeOnRead.Scan.TaskReader

/-!
# The tasks of a table

A table is read task by task: the delete files of a task are loaded, a filter is made of
them, and only then the data file is opened.  Parsed delete files may be kept for later
tasks.

A task can be read as rows or as batches.  A table is read as a sequence of rows, which
ends at the first task that fails and holds what came before; or as a whole, which
exists only if no task fails.
-/

namespace MergeOnRead

/-- The parsed delete files that are kept, if any are kept at all. -/
abbrev KeptIndexes := Option (IndexCache DeleteIndex)

/-- Steps of a scan may fail, and add to the delete files that are kept even then. -/
abbrev Scanning := ExceptT Error (StateM KeptIndexes)

/-- A table. -/
structure Table where
  log : TableLog
  options : Options
  source : RowSource

namespace Table

/-! ## Parameters -/

/-- The number of rows of a batch. -/
def batchSize (options : Options) : Except Error Int :=
  liftError .option (options.number Options.readBatchSize)

/-- Nothing is kept yet; whether anything will be is a parameter, and so is how much. -/
def keepNothingYet (options : Options) : Except Error KeptIndexes := do
  if ← liftError .option (options.flag Options.cacheEnabled) then
    let maxEntries ← liftError .option (options.number Options.cacheMaxEntries)
    (IndexCache.make maxEntries).map some
  else .ok none

/-- Whether positions must lie within the data file. -/
def checksBounds (t : Table) : Except Error Bool :=
  liftError .option (t.options.flag Options.checkBounds)

/-- How many tasks are read at a time; at least one. -/
def parallelism (t : Table) : Except Error Int :=
  (liftError .option (t.options.number Options.scanParallelism)).map (max 1)

/-! ## Delete files -/

/-- Gets the index of a delete file, which is loaded unless it is kept.  A scan alone has nobody to
wait for: where a build of the index is pending already, it would wait for ever, and `.blocked`
stands for this.  A build is left pending where the bound is less than 1. -/
def loadIndex (t : Table) (schema : TableSchema) (f : DeleteFile) : Scanning DeleteIndex :=
  fun kept =>
    match kept with
    | none => (f.load t.source schema, none)
    | some cache =>
      match IndexCache.getOrLoad f.cacheKey.key (fun s => (f.load t.source schema, s))
        (cache, ()) with
      | (.done r, (cache, _)) => (r, some cache)
      | (.waiting, (cache, _)) => (.error .blocked, some cache)

/-- Gets the indexes of delete files in order. -/
def loadIndexes (t : Table) (schema : TableSchema) (deletes : List DeleteFile) :
    Scanning (List DeleteIndex) :=
  deletes.mapM (t.loadIndex schema)

/-- The filter of a data file.  Its rows have the given fields, or else those of the table. -/
def deleteFilter (t : Table) (file : DataFile) (deletes : List DeleteFile)
    (fields : List Field) : Scanning DeleteFilter := do
  let indexes ← t.loadIndexes t.log.schema deletes
  let checkBounds ← ExceptT.mk (pure t.checksBounds)
  let fields := if fields.isEmpty then t.log.schema.fields else fields
  ExceptT.mk (pure (DeleteFilter.create file indexes fields checkBounds))

/-! ## Tasks -/

/-- The reader of a task whose delete files are loaded: the filter is made before the data file is
opened. -/
def readerOver (t : Table) (schema : TableSchema) (fields : List Field) (file : DataFile)
    (indexes : List DeleteIndex) : Except Error Reader := do
  let all ← Scan.readFields schema file.path fields (indexes.flatMap (·.fieldIds))
  let checkBounds ← t.checksBounds
  let filter ← DeleteFilter.create file indexes all checkBounds
  let fileSchema ← t.log.schemaById file.schemaId
  let reader ← Scan.dataReader t.source file fileSchema all
  .ok (Scan.keepLeading fields.length all.length (Scan.dropDeleted filter reader))

/-- The reader of a task. -/
def taskReader (t : Table) (schema : TableSchema) (fields : List Field) (task : ScanTask) :
    Scanning Reader := do
  let indexes ← t.loadIndexes schema task.deletes
  ExceptT.mk (pure (t.readerOver schema fields task.file indexes))

/-- The batches of a reader that hold rows. -/
def liveBatches (r : Reader) : List Batch × Option Error :=
  let (bs, failure) := r.batches
  (bs.filter fun b => b.size != 0, failure)

/-- The batches of a task, if it does not fail. -/
def readTask (t : Table) (schema : TableSchema) (fields : List Field) (task : ScanTask) :
    Scanning (List Batch) := do
  let reader ← t.taskReader schema fields task
  ExceptT.mk (pure (match liveBatches reader with
    | (bs, none) => .ok bs
    | (_, some e) => .error e))

/-! ## Reading tasks one after another -/

/-- Reads tasks in order, up to the first error. -/
def readInOrder {α : Type} (t : Table) (schema : TableSchema) (fields : List Field)
    (read : Reader → List α × Option Error) :
    List ScanTask → StateM KeptIndexes (List α × Option Error)
  | [] => pure ([], none)
  | task :: tasks => do
    match ← (t.taskReader schema fields task).run with
    | .error e => pure ([], some e)
    | .ok reader =>
      match read reader with
      | (items, some e) => pure (items, some e)
      | (items, none) => do
        let (more, failure) ← t.readInOrder schema fields read tasks
        pure (items ++ more, failure)

/-- The rows of tasks. -/
def rows (t : Table) (schema : TableSchema) (fields : List Field) (tasks : List ScanTask) :
    StateM KeptIndexes (List Row × Option Error) :=
  t.readInOrder schema fields Reader.rows tasks

/-- The batches of tasks. -/
def batches (t : Table) (schema : TableSchema) (fields : List Field) (tasks : List ScanTask) :
    StateM KeptIndexes (List Batch × Option Error) :=
  t.readInOrder schema fields liveBatches tasks

/-! ## Reading tasks as a whole -/

/-- The batches of all tasks, if none fails.  When several tasks are read at a time, a task that
fails does not keep the others from being read; the error is that of the first one that fails. -/
def readAll (t : Table) (schema : TableSchema) (fields : List Field) (tasks : List ScanTask) :
    Scanning (List Batch) := do
  let workers ← ExceptT.mk (pure t.parallelism)
  if workers = 1 ∨ tasks.length ≤ 1 then
    let read ← tasks.mapM (t.readTask schema fields)
    pure read.flatten
  else
    let results ← ExceptT.lift (tasks.mapM fun task => (t.readTask schema fields task).run)
    let read ← ExceptT.mk (pure (results.mapM id))
    pure read.flatten

/-- The columns of what is read, all of them nullable. -/
def columnsOf (fields : List Field) : Except Error (List ColumnField) := do
  let columns ← liftError .type (Field.columns fields)
  .ok (columns.map fun c => { c with nullable := true })

/-- The columns and rows of all tasks, if none fails. -/
def readTable (t : Table) (schema : TableSchema) (fields : List Field) (tasks : List ScanTask) :
    Scanning (List ColumnField × List (List Value)) := do
  let bs ← t.readAll schema fields tasks
  let columns ← ExceptT.mk (pure (columnsOf fields))
  pure (columns, bs.flatMap (·.rows))

end Table

end MergeOnRead
