import MergeOnRead.Read.Reader

/-!
# Loading delete files

A delete file is read through a source of rows.  A file of deletes by position holds
pairs of the path of a data file and a position in it; a file of deletes by equality
holds the columns of its key fields, under the names that these have in a schema.
-/

namespace MergeOnRead.DeleteFile

/-- The column of the paths of data files. -/
def pathField : Field := ⟨2147483546, "file_path", .atomic "STRING" false, none⟩

/-- The column of positions. -/
def positionField : Field := ⟨2147483545, "pos", .atomic "BIGINT" false, none⟩

/-- Opens the columns of some fields. -/
def openFields (f : DeleteFile) (source : RowSource) (fields : List Field) :
    Except Error Reader := do
  let names := fields.map (·.name)
  let stream ← source f.path f.format names
  let header ← liftError .type (Field.headers fields)
  .ok (.conformed (names.map some) header (.stream stream 0))

/-- Reports columns that cannot be converted as undecodable deletes. -/
def report (f : DeleteFile) (e : Error) : Error :=
  if e.kind = .column ∨ e.kind = .conversion ∨ e.kind = .columnType then
    .scan .undecodableDelete (some f.path)
  else e

/-! ## Deletes by position -/

/-- The path and the position in a row.  Both must be there, and the position must be in range. -/
def positionOf (f : DeleteFile) : List Value → Except Error (String × Nat)
  | [.text path, .int position] =>
    if position < 0 then .error (.scan (.negativeDelete position path) (some f.path))
    else if (maxPosition : Int) < position then
      .error (.scan (.deleteTooFar position path) (some f.path))
    else .ok (path, position.toNat)
  | _ => .error (.scan .nullDelete (some f.path))

/-- The positions of every path, in order of first occurrence of the paths. -/
def groupPositions (pairs : List (String × Nat)) : List (String × PositionSet) :=
  ((pairs.map (·.1)).eraseDups).map fun path =>
    let positions := (pairs.filter fun p => p.1 == path).map (·.2)
    (path, PositionSet.empty.insertAll (positions.mergeSort (· ≤ ·)))

/-- Goes through the items of batches in order; an error that ended the batches comes last. -/
def throughBatches {α : Type} (read : List Batch × Option Error)
    (visit : Batch → Except Error (List α)) : Except Error (List α) := do
  let items ← read.1.mapM visit
  match read.2 with
  | some e => .error e
  | none => .ok items.flatten

/-- Loads deletes by position.  The first row that is not in order is the error. -/
def loadPositions (f : DeleteFile) (source : RowSource) : Except Error DeleteIndex := do
  let reader ← f.openFields source [pathField, positionField]
  let (batches, failure) := reader.batches
  let pairs ← throughBatches (batches, failure.map f.report) fun b => b.rows.mapM f.positionOf
  .ok (.positions f.path (groupPositions pairs))

/-! ## Deletes by equality -/

/-- The key fields in a schema; the first id without a field is the error. -/
def keyFields (f : DeleteFile) (schema : TableSchema) : Except Error (List Field) :=
  f.fieldIds.mapM fun id =>
    match schema.findField? id with
    | some field => .ok field
    | none => .error (.scan (.unknownKeyField id schema.id) (some f.path))

/-- The rows of a batch, up to the first that has no record.  Without rows there is nothing to
decode. -/
def keyRows (b : Batch) : Except Error (List (List Value) × Option Error) :=
  if b.size = 0 then .ok ([], none) else b.recordBlocks

/-- Adds the keys of batches to a set. -/
def addKeys (f : DeleteFile) : KeySet → (number : Nat) → List Batch → Except Error KeySet
  | keys, _, [] => .ok keys
  | keys, number, b :: bs => do
    let (records, failure) ← keyRows b
    match keys.addRows f.path number (records.map Row.ofValues), failure with
    | (_, some e), _ => .error (.row e)
    | _, some e => .error e
    | (keys, none), none => f.addKeys keys (number + records.length) bs

/-- Loads deletes by equality. -/
def loadEqualities (f : DeleteFile) (source : RowSource) (schema : TableSchema) :
    Except Error DeleteIndex := do
  let fields ← f.keyFields schema
  let reader ← f.openFields source fields
  let (batches, failure) := reader.batches
  let keys ← f.addKeys .empty 0 batches
  match failure with
  | some e => .error (f.report e)
  | none => .ok (.equalities f.path f.fieldIds keys)

/-- Loads a delete file. -/
def load (f : DeleteFile) (source : RowSource) (schema : TableSchema) :
    Except Error DeleteIndex :=
  match f.content with
  | .positionDeletes => f.loadPositions source
  | _ => f.loadEqualities source schema

end MergeOnRead.DeleteFile
