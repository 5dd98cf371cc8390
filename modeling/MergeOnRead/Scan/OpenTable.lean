import MergeOnRead.Scan.Table

/-!
# Tables in use

A table is opened with options that say whether the indexes of its delete files are kept.  Files
and schemas are committed to it, and its snapshots are scanned, in any order; each step is
answered before the next one is taken.  A scan hands out rows, or reads a snapshot as a whole.
-/

namespace MergeOnRead

/-- The columns and rows of a snapshot, or of the latest one, if no task fails. -/
def Table.collect (t : Table) (snapshotId : Option Int) (names : Option (List String)) :
    Scanning (List ColumnField × List (List Value)) := do
  let plan ← ExceptT.mk (pure (Plan.make t.log snapshotId none Plan.notOlder))
  let (schema, fields) ← ExceptT.mk (pure (t.selection snapshotId names))
  t.readTable schema fields plan.tasks

/-- The delete files that a scan of a snapshot may load, each with the schema it is read with. -/
def TableLog.deleteReads (log : TableLog) (snapshotId : Option Int) :
    List (TableSchema × DeleteFile) :=
  match Plan.make log snapshotId none Plan.notOlder, log.schemaAt snapshotId with
  | .ok plan, .ok schema => plan.tasks.flatMap fun task => task.deletes.map fun d => (schema, d)
  | _, _ => []

/-- A table with the indexes that it has kept. -/
structure OpenTable where
  table : Table
  kept : KeptIndexes

/-- What is done with a table. -/
inductive TableStep where
  | commitFiles (kind : CommitKind) (data : List DataFile) (deletes : List DeleteFile)
  | commitSchema (schema : TableSchema)
  | scan (snapshotId : Option Int) (names : Option (List String))
  | collect (snapshotId : Option Int) (names : Option (List String))

/-- What comes of it. -/
inductive TableAnswer where
  | committed (r : Except Error Unit)
  | rows (r : Except Error (List Row × Option Error))
  | table (r : Except Error (List ColumnField × List (List Value)))

namespace OpenTable

/-- Opens a table. -/
def make (t : Table) : Except Error OpenTable :=
  (Table.keepNothingYet t.options).map fun kept => ⟨t, kept⟩

/-- Goes on with another log, unless there is an error. -/
def commit (o : OpenTable) : Except Error TableLog → TableAnswer × OpenTable
  | .ok log => (.committed (.ok ()), { o with table := { o.table with log } })
  | .error e => (.committed (.error e), o)

/-- One step and its answer. -/
def take (o : OpenTable) : TableStep → TableAnswer × OpenTable
  | .commitFiles kind data deletes =>
    o.commit ((o.table.log.commitFiles kind data deletes).map (·.2))
  | .commitSchema schema => o.commit (o.table.log.commitSchema schema)
  | .scan snapshotId names =>
    let (r, kept) := (o.table.scan snapshotId names).run o.kept
    (.rows r, { o with kept })
  | .collect snapshotId names =>
    let (r, kept) := (o.table.collect snapshotId names).run o.kept
    (.table r, { o with kept })

/-- The answer to a step. -/
def answer (o : OpenTable) (e : TableStep) : TableAnswer := (o.take e).1

/-- The table after some steps. -/
def run (o : OpenTable) (steps : List TableStep) : OpenTable :=
  steps.foldl (fun o e => (o.take e).2) o

/-- The delete files that a step may load. -/
def reads (o : OpenTable) : TableStep → List (TableSchema × DeleteFile)
  | .scan snapshotId _ | .collect snapshotId _ => o.table.log.deleteReads snapshotId
  | .commitFiles _ _ _ | .commitSchema _ => []

/-- The delete files that some steps may load. -/
def allReads : OpenTable → List TableStep → List (TableSchema × DeleteFile)
  | _, [] => []
  | o, e :: steps => o.reads e ++ allReads (o.take e).2 steps

end OpenTable

end MergeOnRead
