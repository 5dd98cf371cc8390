import MergeOnRead.Log.TableLog

/-!
# Changes to be committed

Files and schema changes are collected before they are committed.  A change of files is
committed once; when the log refuses it, it stays as it was and may be tried again.
Schema changes are collected on the schema that was current when the collection began,
and are committed together as one version.
-/

namespace MergeOnRead

/-- Files to be committed. -/
structure FileChange where
  kind : CommitKind
  data : List DataFile := []
  deletes : List DeleteFile := []
  /-- The snapshot, once the change is committed. -/
  committed : Option Snapshot := none

namespace FileChange

/-- Adds a data file. -/
def addData (c : FileChange) (f : DataFile) : FileChange := { c with data := c.data ++ [f] }

/-- Adds a delete file. -/
def addDeletes (c : FileChange) (f : DeleteFile) : FileChange :=
  { c with deletes := c.deletes ++ [f] }

/-- Commits the files. -/
def commit (c : FileChange) (log : TableLog) : Except Error (Snapshot × FileChange × TableLog) :=
  match c.committed with
  | some _ => .error (.log .alreadyCommitted)
  | none => do
    let (s, log) ← log.commitFiles c.kind c.data c.deletes
    .ok (s, { c with committed := some s }, log)

end FileChange

/-- Changes of a schema to be committed. -/
structure SchemaChange where
  schema : TableSchema
  changed : Bool := false

namespace SchemaChange

/-- Begins with the current schema. -/
def start (log : TableLog) : SchemaChange := ⟨log.schema, false⟩

/-- Makes a column nullable. -/
def makeColumnOptional (c : SchemaChange) (name : String) : Except Error SchemaChange :=
  match c.schema.makeColumnOptional name with
  | .ok schema => .ok ⟨schema, true⟩
  | .error e => .error (.schema e)

/-- Adds a column. -/
def addColumn (c : SchemaChange) (name : String) (type : DataType) :
    Except Error SchemaChange :=
  match c.schema.addColumn name type with
  | .ok schema => .ok ⟨schema, true⟩
  | .error e => .error (.schema e)

/-- The version to be committed when another one is current. -/
def proposal (c : SchemaChange) (current : TableSchema) : TableSchema :=
  c.schema.withId (current.id + 1)

/-- Commits the changes as one version.  Without changes nothing is committed. -/
def commit (c : SchemaChange) (log : TableLog) : Except Error (TableSchema × TableLog) :=
  if c.changed then do
    let schema := c.proposal log.schema
    let log ← log.commitSchema schema
    .ok (schema, log)
  else .ok (c.schema, log)

end SchemaChange

end MergeOnRead
