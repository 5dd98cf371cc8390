import MergeOnRead.Manifest.DeleteFile

/-!
# Snapshots

A snapshot is the table at one point in time: the data files and delete files that are
live, in the order in which they were committed.
-/

namespace MergeOnRead

/-- The kinds of commits. -/
inductive CommitKind where
  /-- Only rows are added. -/
  | append
  /-- Rows are added and deleted. -/
  | rowDelta
  deriving DecidableEq, Repr

/-- The name of a kind of commit. -/
def CommitKind.name : CommitKind → String
  | .append => "APPEND"
  | .rowDelta => "ROW_DELTA"

/-- The table at one point in time. -/
structure Snapshot where
  id : Int
  /-- The sequence number of the commit. -/
  sequence : Int
  /-- The schema that was current at the commit. -/
  schemaId : Int
  kind : CommitKind
  parentId : Option Int
  /-- The live data files. -/
  dataFiles : List DataFile
  /-- The live delete files. -/
  deleteFiles : List DeleteFile

namespace Snapshot

/-- The number of rows of all data files, deleted ones included. -/
def recordCount (s : Snapshot) : Int := (s.dataFiles.map (·.rowCount)).foldl (· + ·) 0

/-- The text of a snapshot. -/
def print (s : Snapshot) : String :=
  "Snapshot(id=" ++ toString s.id ++ ", seq=" ++ toString s.sequence ++ ", kind=" ++
    s.kind.name ++ ", data_files=" ++ toString s.dataFiles.length ++ ", delete_files=" ++
    toString s.deleteFiles.length ++ ")"

end Snapshot

end MergeOnRead
