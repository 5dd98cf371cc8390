import MergeOnRead.Scan.ParallelRead

/-!
# Tables

What is handed out of a table that is read: all tasks as a whole, by as many workers as the options
say, or the rows of a snapshot.
-/

namespace MergeOnRead

namespace Table

/-! ## Whole tables -/

/-- The columns and rows of all tasks, if none fails.  Several workers take turns. -/
def readTogether (t : Table) (schema : TableSchema) (fields : List Field)
    (tasks : List ScanTask) : Scanning (List ColumnField × List (List Value)) := do
  let bs ← t.readInRounds schema fields tasks
  let columns ← ExceptT.mk (pure (columnsOf fields))
  pure (columns, bs.flatMap (·.rows))

/-- The columns of all tasks with the rows as they are handed out. -/
def readShown (t : Table) (schema : TableSchema) (fields : List Field) (tasks : List ScanTask) :
    Scanning (List ColumnField × List (List Value)) := do
  let (columns, rows) ← t.readTogether schema fields tasks
  let rows ← ExceptT.mk (pure (Batch.showRows rows))
  pure (columns, rows)

/-- The names of the columns of a frame of all tasks, and the number of its rows.  A frame counts
the time of a timestamp, whatever day it is, but names every date. -/
def readFrame (t : Table) (schema : TableSchema) (fields : List Field) (tasks : List ScanTask) :
    Scanning (List String × Nat) := do
  let (columns, rows) ← t.readTogether schema fields tasks
  if rows.all fun row => row.all (Value.every Scalar.hasNamedDate) then
    pure (columns.map (·.name), rows.length)
  else throw (.raised .value)

/-! ## Scans -/

/-- The schema and the fields of a scan: those with the given names in the schema of a snapshot. -/
def selection (t : Table) (snapshotId : Option Int) (names : Option (List String)) :
    Except Error (TableSchema × List Field) := do
  let schema ← t.log.schemaAt snapshotId
  let fields ← liftError .schema (schema.project names)
  .ok (schema, fields)

/-- The rows of a snapshot, or of the latest one.  What the scan needs to know of the snapshot is
found out first, and an error there is an error of the scan itself. -/
def scan (t : Table) (snapshotId : Option Int) (names : Option (List String)) :
    Scanning (List Row × Option Error) := do
  let plan ← ExceptT.mk (pure (Plan.make t.log snapshotId none Plan.notOlder))
  let (schema, fields) ← ExceptT.mk (pure (t.selection snapshotId names))
  ExceptT.lift (t.rows schema fields plan.tasks)

end Table

end MergeOnRead
