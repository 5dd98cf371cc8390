import MergeOnRead.Log.TableLog

/-!
# Table metadata in memory

The schemas and the snapshots of a table are kept in memory under their numbers, together with the
numbers of the current ones.  A commit is a program: it looks at one file after the other, and then
writes one entry after the other.  An error ends it where it is, and whatever was written before
stays.
-/

namespace MergeOnRead

/-- The metadata of a table in memory. -/
structure TableMemory where
  /-- The schemas by number, in the order in which they came. -/
  schemas : List (Int × TableSchema)
  currentSchemaId : Int
  /-- The snapshots by number, in the order in which they came. -/
  snapshots : List (Int × Snapshot)
  currentSnapshotId : Option Int

namespace TableMemory

variable {α : Type}

/-- Puts something under a number.  A new number comes last. -/
def put (id : Int) (a : α) : List (Int × α) → List (Int × α)
  | [] => [(id, a)]
  | (i, b) :: entries => if i = id then (i, a) :: entries else (i, b) :: put id a entries

/-- What is taken for granted under a number. -/
def entry (id : Int) (entries : List (Int × α)) : Except Error α :=
  match entries.lookup id with
  | some a => .ok a
  | none => .error (.raised .key)

/-- The metadata of a table with one schema. -/
def start (schema : TableSchema) : TableMemory := ⟨[(schema.id, schema)], schema.id, [], none⟩

/-! ## Queries -/

variable (m : TableMemory)

/-- The current schema. -/
def schema : Except Error TableSchema := entry m.currentSchemaId m.schemas

/-- The schema with a number. -/
def schemaById (id : Int) : Except Error TableSchema :=
  match m.schemas.lookup id with
  | some s => .ok s
  | none => .error (.log (.unknownSchema id))

/-- The latest snapshot, if there is one. -/
def currentSnapshot : Except Error (Option Snapshot) :=
  match m.currentSnapshotId with
  | some id => (entry id m.snapshots).map some
  | none => .ok none

/-- The snapshot with a number. -/
def snapshot (id : Int) : Except Error Snapshot :=
  match m.snapshots.lookup id with
  | some s => .ok s
  | none => .error (.log (.unknownSnapshot id))

/-- All snapshots, by ascending numbers. -/
def allSnapshots : List Snapshot := (m.snapshots.mergeSort fun s t => s.1 ≤ t.1).map (·.2)

end TableMemory

/-! ## Commits -/

/-- The snapshot that adds files to another one. -/
def Snapshot.following (parent : Option Snapshot) (schemaId : Int) (kind : CommitKind)
    (data : List DataFile) (deletes : List DeleteFile) : Snapshot :=
  let id := (parent.map (·.id)).getD 0 + 1
  let sequence := (parent.map (·.sequence)).getD 0 + 1
  { id, sequence, schemaId, kind, parentId := parent.map (·.id)
    dataFiles := (parent.map (·.dataFiles)).getD [] ++ data.map (·.committed sequence id)
    deleteFiles := (parent.map (·.deleteFiles)).getD [] ++ deletes.map (·.committed sequence id) }

namespace TableMemory

/-- Commits files in a new snapshot. -/
def commitFiles (kind : CommitKind) (data : List DataFile) (deletes : List DeleteFile) :
    Writing TableMemory Snapshot := do
  let m ← get
  let parent := m.currentSnapshotId.bind fun id => m.snapshots.lookup id
  let schema ← m.schema
  for f in data do
    if (m.schemas.lookup f.schemaId).isNone then
      throw (.log (.fileOfUnknownSchema f.path f.schemaId))
  for f in deletes do
    for id in f.fieldIds do
      if (schema.findField? id).isNone then
        throw (.log (.deleteOfUnknownField f.path id))
  let s := Snapshot.following parent m.currentSchemaId kind data deletes
  modify fun m => { m with snapshots := put s.id s m.snapshots }
  modify fun m => { m with currentSnapshotId := some s.id }
  return s

/-- Commits the next version of the schema. -/
def commitSchema (schema : TableSchema) : Writing TableMemory TableSchema := do
  let current ← (← get).schema
  if schema.id ≠ current.id + 1 then
    throw (.log (.schemaNotNext schema.id current.id))
  modify fun m => { m with schemas := put schema.id schema m.schemas }
  modify fun m => { m with currentSchemaId := schema.id }
  return schema

end TableMemory

end MergeOnRead
