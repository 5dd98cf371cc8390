import MergeOnRead.Log.TableLog
import MergeOnRead.Row.Buckets

/-!
# Plans

The plan of a scan has one task for each data file of a snapshot, in the order of the
files.  A task carries the delete files that apply to its data file: those of the same
partition whose sequence number is not too old.  The delete files are kept in a dictionary
whose keys are the rows of their partitions; the hashes it finds them by do not matter.
-/

namespace MergeOnRead

/-- A data file to be read with the delete files that apply to it. -/
structure ScanTask where
  file : DataFile
  deletes : List DeleteFile

/-- The text of a task. -/
def ScanTask.print (t : ScanTask) : String :=
  "FileScanTask(file='" ++ t.file.path ++ "', deletes=" ++
    Value.listText (t.deletes.map fun d => Text.quoted d.path) ++ ")"

/-- The tasks of a snapshot. -/
structure Plan where
  tasks : List ScanTask
  /-- The snapshot, unless the table has none. -/
  snapshot : Option Snapshot

namespace Plan

/-- Decides which partitions are read. -/
abbrev PartitionFilter := Row → Except RowError Bool

/-- Decides from the sequence numbers of a delete file and of a data file whether the deletes
apply. -/
abbrev SequenceOrder := (delete data : Int) → Bool

/-- Deletes apply to the rows that were committed before them or together with them. -/
def notOlder : SequenceOrder := fun delete data => decide (data ≤ delete)

/-- The delete files of a snapshot in buckets, one for each partition.  The row of a partition is
numbered by the place of its file. -/
def buckets (hasher : Hasher) (identity : Nat → Hash) (deletes : List DeleteFile) :
    Except RowError (RowBuckets DeleteFile) :=
  RowBuckets.ofItems hasher identity
    (deletes.zipIdx.map fun d => (⟨d.2, .ofValues d.1.partition⟩, d.1))

/-- Whether the sequence number of a delete file lets it apply to a data file. -/
def applies (order : SequenceOrder) (file : DataFile) (d : DeleteFile) : Bool :=
  order (d.sequence.getD 0) (file.sequence.getD 0)

/-- The task of a data file, the row of whose partition has some number; none when its partition is
not read. -/
def task? (hasher : Hasher) (identity : Nat → Hash) (admits : Option PartitionFilter)
    (order : SequenceOrder) (deletes : RowBuckets DeleteFile) (file : DataFile) (serial : Nat) :
    Except RowError (Option ScanTask) := do
  let admitted ← match admits with
    | some admits => admits file.partitionRow
    | none => .ok true
  if admitted then
    let candidates ← deletes.get hasher identity ⟨serial, .ofValues file.partition⟩
    .ok (some ⟨file, candidates.filter (applies order file)⟩)
  else .ok none

/-- The tasks of a snapshot, whose delete files are found with a hasher. -/
def tasksWith (hasher : Hasher) (identity : Nat → Hash) (s : Snapshot)
    (admits : Option PartitionFilter) (order : SequenceOrder) :
    Except RowError (List ScanTask) := do
  let deletes ← buckets hasher identity s.deleteFiles
  let tasks ← (s.dataFiles.zipIdx s.deleteFiles.length).mapM fun f =>
    task? hasher identity admits order deletes f.1 f.2
  .ok (tasks.filterMap id)

/-- The plan of a snapshot, or of the latest one, whose delete files are found with a hasher; a
table without snapshots has nothing to scan. -/
def makeWith (hasher : Hasher) (identity : Nat → Hash) (log : TableLog) (snapshotId : Option Int)
    (admits : Option PartitionFilter) (order : SequenceOrder) : Except Error Plan := do
  let snapshot ← match snapshotId with
    | some id => (log.snapshot id).map some
    | none => .ok log.current?
  match snapshot with
  | none => .ok ⟨[], none⟩
  | some s => do
    let tasks ← liftError .row (tasksWith hasher identity s admits order)
    .ok ⟨tasks, some s⟩

/-- The tasks of a snapshot. -/
def tasksOf (s : Snapshot) (admits : Option PartitionFilter) (order : SequenceOrder) :
    Except RowError (List ScanTask) :=
  tasksWith .ofContent .ofNat s admits order

/-- The plan of a snapshot, or of the latest one. -/
def make (log : TableLog) (snapshotId : Option Int) (admits : Option PartitionFilter)
    (order : SequenceOrder) : Except Error Plan :=
  makeWith .ofContent .ofNat log snapshotId admits order

/-- The number of different delete files. -/
def deleteFileCount (p : Plan) : Nat :=
  (p.tasks.flatMap fun t => t.deletes.map (·.path)).eraseDups.length

end Plan

end MergeOnRead
