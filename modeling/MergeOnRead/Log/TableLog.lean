import MergeOnRead.Error
import MergeOnRead.Log.Snapshot

/-!
# The log of a table

The schemas and the snapshots that were committed, the latest first.  A commit either
adds one of them or changes nothing.  Schema versions follow one another, and so do the
numbers of snapshots.
-/

namespace MergeOnRead

/-- What was committed to a table. -/
structure TableLog where
  schema : TableSchema
  /-- The schemas before it, the latest first. -/
  olderSchemas : List TableSchema
  /-- The snapshots, the latest first. -/
  snapshots : List Snapshot

namespace TableLog

/-- The log of a table without snapshots. -/
def start (schema : TableSchema) : TableLog := ⟨schema, [], []⟩

/-- The schemas, the latest first. -/
def schemas (log : TableLog) : List TableSchema := log.schema :: log.olderSchemas

/-- The latest snapshot. -/
def current? (log : TableLog) : Option Snapshot := log.snapshots.head?

/-- The snapshot with a number. -/
def snapshot (log : TableLog) (id : Int) : Except Error Snapshot :=
  match log.snapshots.find? fun s => s.id == id with
  | some s => .ok s
  | none => .error (.log (.unknownSnapshot id))

/-- Whether a schema with a number was committed. -/
def hasSchema (log : TableLog) (id : Int) : Bool := log.schemas.any fun s => s.id == id

/-- The schema with a number. -/
def schemaById (log : TableLog) (id : Int) : Except Error TableSchema :=
  match log.schemas.find? fun s => s.id == id with
  | some s => .ok s
  | none => .error (.log (.unknownSchema id))

/-- The schema that a snapshot was committed with, or the current one. -/
def schemaAt (log : TableLog) (snapshotId : Option Int) : Except Error TableSchema :=
  match snapshotId with
  | none => .ok log.schema
  | some id => do
    let s ← log.snapshot id
    log.schemaById s.schemaId

/-! ## Commits -/

/-- Why files cannot be committed: the first data file of an unknown schema, or else the first
delete file with a key field that the current schema does not have. -/
def refusal? (log : TableLog) (data : List DataFile) (deletes : List DeleteFile) :
    Option LogError :=
  match data.find? fun f => !log.hasSchema f.schemaId with
  | some f => some (.fileOfUnknownSchema f.path f.schemaId)
  | none => deletes.findSome? fun f =>
    (f.fieldIds.find? fun id => (log.schema.findField? id).isNone).map
      (.deleteOfUnknownField f.path ·)

/-- The snapshot that follows when files are added to the latest one. -/
def nextSnapshot (log : TableLog) (kind : CommitKind) (data : List DataFile)
    (deletes : List DeleteFile) : Snapshot :=
  let parent := log.current?
  let id := (parent.map (·.id)).getD 0 + 1
  let sequence := (parent.map (·.sequence)).getD 0 + 1
  { id, sequence, schemaId := log.schema.id, kind, parentId := parent.map (·.id)
    dataFiles := (parent.map (·.dataFiles)).getD [] ++ data.map (·.committed sequence id)
    deleteFiles := (parent.map (·.deleteFiles)).getD [] ++ deletes.map (·.committed sequence id) }

/-- Commits files in a new snapshot. -/
def commitFiles (log : TableLog) (kind : CommitKind) (data : List DataFile)
    (deletes : List DeleteFile) : Except Error (Snapshot × TableLog) :=
  match log.refusal? data deletes with
  | some e => .error (.log e)
  | none =>
    let s := log.nextSnapshot kind data deletes
    .ok (s, { log with snapshots := s :: log.snapshots })

/-- Commits the next version of the schema. -/
def commitSchema (log : TableLog) (schema : TableSchema) : Except Error TableLog :=
  if schema.id = log.schema.id + 1 then
    .ok { log with schema, olderSchemas := log.schemas }
  else .error (.log (.schemaNotNext schema.id log.schema.id))

end TableLog

end MergeOnRead
