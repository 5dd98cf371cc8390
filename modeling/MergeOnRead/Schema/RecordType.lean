import MergeOnRead.Schema.ColumnField

/-!
# Types of record files

A row-wise file describes its records by types of its own: a name, or a name with a
logical type, an array, or a choice with null.
-/

namespace MergeOnRead

/-- The type of a field of a record. -/
inductive RecordType where
  | named (name : String)
  | decimal (precision : Nat) (scale : Int)
  | logical (name logicalType : String)
  | array (items : RecordType)
  /-- A value of the type, or null. -/
  | optional (type : RecordType)
  deriving DecidableEq, Repr

/-- A record: its name, its namespace, and its fields in order. -/
structure RecordSchema where
  name : String
  /-- The namespace of the name. -/
  scope : String
  fields : List (String × RecordType)

/-- The name of a record, unless another is given. -/
def RecordSchema.defaultName : String := "Root"

/-- The namespace of a record, unless another is given. -/
def RecordSchema.defaultNamespace : String := "pymergeread.avro"

/-- The record type of a column type without parts. -/
def FlatType.recordType? : FlatType → Option RecordType
  | .int .w64 => some (.named "long")
  | .int _ => some (.named "int")
  | .uint _ => some (.named "long")
  | .single => some (.named "float")
  | .double => some (.named "double")
  | .bool => some (.named "boolean")
  | .text _ => some (.named "string")
  | .binary _ => some (.named "bytes")
  | .decimal _ precision scale => some (.decimal precision scale)
  | .date32 => some (.logical "int" "date")
  | .date64 => some (.logical "int" "date")
  | .timestamp .milli _ => some (.logical "long" "timestamp-millis")
  | .timestamp _ _ => some (.logical "long" "timestamp-micros")
  | _ => none

/-- The record type of a column type. -/
def ColumnType.recordType : ColumnType → Except TypeError RecordType
  | .flat type =>
    match type.recordType? with
    | some r => .ok r
    | none => .error (.unsupportedRecord type.print)
  | .list _ item => item.recordType.map .array
  | .map key value => .error (.unsupportedRecord (ColumnType.map key value).print)
  | .struct fields => .error (.unsupportedRecord (ColumnType.struct fields).print)

/-- The record type of a column, a choice with null if the column is nullable. -/
def ColumnField.recordType (c : ColumnField) : Except TypeError RecordType := do
  let type ← c.type.recordType
  .ok (if c.nullable then .optional type else type)

/-- The record that has the given columns as fields. -/
def RecordSchema.ofColumns (name scope : String) (columns : List ColumnField) :
    Except TypeError RecordSchema := do
  let fields ← columns.mapM fun c => do
    let type ← c.recordType
    .ok (c.name, type)
  .ok ⟨name, scope, fields⟩

end MergeOnRead
