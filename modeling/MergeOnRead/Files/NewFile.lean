import MergeOnRead.Files.FileTree
import MergeOnRead.Schema.RecordType

/-!
# Files that are written

A file is written from columns.  Their values are taken into the columns first, and
nothing is written when one of them does not fit.

In a file of records every record is written for itself.  A record that cannot be
written leaves a file with the names of its fields, and without records.
-/

namespace MergeOnRead

/-- A column that is to be written. -/
structure NewColumn where
  name : String
  /-- The type of the field that it is written for. -/
  type : DataType
  values : List Value

/-! ## Records -/

/-- A scalar as records hold it: a time is one of UTC, in microseconds. -/
def Scalar.stored : Scalar → Scalar
  | .timestamp t => .instant (t.floor .micro)
  | s => s

/-- What is written for a null where no null is provided for: only a truth value has a substitute.
-/
def ColumnType.substitute : ColumnType → Except Error Value
  | .flat .bool => .ok (.bool false)
  | _ => .error (.raised .type)

/-- Writes a value where no null is provided for. -/
def ColumnType.store : ColumnType → Value → Except Error Value
  | .list _ item, .list items => do
    let items ← items.mapM item.store
    .ok (.list items)
  | type, .null => type.substitute
  | _, .scalar s => .ok (.scalar s.stored)
  | _, v => .ok v

/-- Writes the value of a field.  One that may be null holds no null inside. -/
def ColumnType.storeField (type : ColumnType) (nullable : Bool) (v : Value) : Except Error Value :=
  if !nullable then type.store v
  else if v.isNull then .ok v
  else if v.every (· != .null) then type.store v
  else .error (.raised .value)

/-- The records of rows, when the fields with some types may or may not be null. -/
def RecordFile.store (fields : List (ColumnType × Bool)) (rows : List (List Value)) :
    Except Error (List (List Value)) :=
  rows.mapM fun row => (fields.zip row).mapM fun ((type, nullable), v) => type.storeField nullable v

/-! ## Files -/

/-- The file of records that columns are written to, and the error of the writing, if there is one.
When it is cut, no more records can be read than the given number. -/
def RecordFile.ofColumns (columns : List NewColumn) (content : Batch) (cut : Option Nat) :
    Except Error (RecordFile × Option Error) := do
  let _ ← liftError .type (content.header.mapM fun h => h.type.recordType)
  let rows ← content.shown
  let fields := (content.header.zip columns).map fun (h, c) => (h.type, c.type.nullable)
  match store fields rows, cut with
  | .error e, _ => .ok (⟨content.names, [], none⟩, some e)
  | .ok records, none => .ok (⟨content.names, records, none⟩, none)
  | .ok records, some n => .ok (⟨content.names, records.take n, some (.raised .endOfFile)⟩, none)

/-- The file that columns are written to, and the error of the writing, if there is one.  The types
of all columns are found first. -/
def StoredFile.ofColumns (format : FileFormat) (columns : List NewColumn) (cut : Option Nat) :
    Except Error (StoredFile × Option Error) := do
  let header ← columns.mapM fun c => do
    let type ← liftError .type c.type.columnType
    .ok (ColumnHeader.mk c.name type)
  let content ← Batch.ofColumns (header.zip (columns.map (·.values)))
  match format with
  | .avro => do
    let (file, failure) ← RecordFile.ofColumns columns content cut
    .ok (.records file, failure)
  | format => .ok (.rows ⟨format, content⟩, none)

end MergeOnRead
