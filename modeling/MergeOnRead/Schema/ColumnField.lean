import MergeOnRead.Number.Numeral
import MergeOnRead.Schema.ColumnType
import MergeOnRead.Schema.TableSchema
import MergeOnRead.Text.LetterCase

/-!
# Table fields as columns

Each field of a table is read into a column.  `DataType.columnType` gives the type of
the column, and `ColumnType.dataType` goes back; field ids travel with a column as
text.
-/

namespace MergeOnRead

/-- Why a type has no counterpart. -/
inductive TypeError where
  /-- No column has this type of field. -/
  | unsupportedField (text : String)
  /-- No field has this type of column. -/
  | unsupportedColumn (text : String)
  /-- No record of a row-wise file has this type of column. -/
  | unsupportedRecord (text : String)
  /-- A number in the name of a type or in an id has too many digits. -/
  | tooManyDigits (digits : Nat)
  /-- An id has too many digits to be written. -/
  | unwritableId
  /-- A decimal has 1 to 38 digits, or 1 to 76 in its wide form. -/
  | badPrecision
  /-- A time of day in 32 bits is coarse, and one in 64 bits is fine. -/
  | badUnit
  /-- The numbers in a type are machine integers. -/
  | numberOverflow
  /-- A column of nulls is nullable. -/
  | nullRequired
  /-- The id that a column carries is no integer. -/
  | badFieldId (text : String)
  | schema (e : SchemaError)
  deriving DecidableEq, Repr

/-- The wording of the error, where it has one. -/
def TypeError.message? : TypeError → Option String
  | .unsupportedField text => some ("Unsupported data type: " ++ text)
  | .unsupportedColumn text => some ("Unsupported pyarrow type: " ++ text)
  | .unsupportedRecord text =>
    some ("Unsupported pyarrow type for Avro conversion: " ++ text)
  | .tooManyDigits digits => some (Numeral.tooLongText digits)
  | .unwritableId => some Numeral.tooLongToWriteText
  | .badPrecision | .badUnit | .numberOverflow => none
  | .nullRequired => none
  | .badFieldId text =>
    some ("invalid literal for int() with base 10: " ++
      String.ofList ((Text.quotedBytes text.toUTF8.toList).toList.take 200))
  | .schema e => some e.message

/-- A column that is described but holds no values. -/
structure ColumnField where
  name : String
  type : ColumnType
  nullable : Bool
  /-- The text of the field id that it carries, if any. -/
  fieldId : Option String
  deriving DecidableEq, Repr

/-- Makes a column; the type that holds nothing but nulls must be nullable. -/
def ColumnField.make (name : String) (type : ColumnType) (nullable : Bool)
    (fieldId : Option String) : Except TypeError ColumnField :=
  if type = .flat .null ∧ nullable = false then .error .nullRequired
  else .ok ⟨name, type, nullable, fieldId⟩

/-! ## Types with numbers in them -/

namespace FlatType

/-- The decimal type with a precision and a scale, of which a wide one can have more digits. -/
def makeDecimal (wide : Bool) (precision scale : Int) : Except TypeError FlatType :=
  if !IntWidth.w32.holds precision || !IntWidth.w32.holds scale then .error .numberOverflow
  else if 1 ≤ precision ∧ precision ≤ (if wide then 76 else 38) then
    .ok (.decimal wide precision.toNat scale)
  else .error .badPrecision

/-- The type of binary data of a size; the size `-1` stands for any. -/
def makeBinary (size : Int) : Except TypeError FlatType :=
  if !IntWidth.w32.holds size then .error .numberOverflow
  else if size = -1 then .ok (.binary false)
  else .ok (.fixedBinary size)

/-- The type of timestamps of a resolution.  An empty text names no zone. -/
def makeTimestamp (unit : TimeUnit) (zone : Option String) : FlatType :=
  .timestamp unit (zone.filter fun z => !z.isEmpty)

/-- The type of times of day in 64 bits, or else in 32. -/
def makeTime (long : Bool) (unit : TimeUnit) : Except TypeError FlatType :=
  let fine := decide (unit = .micro ∨ unit = .nano)
  if long != fine then .error .badUnit
  else .ok (if long then .time64 unit else .time32 unit)

end FlatType

/-! ## From fields to columns -/

namespace DataType

/-- The digits of the numbers of a parameter list that follows a type name: `(10, 2)`. -/
def parameterDigits? (cs : List Char) : Option (List (List Nat)) :=
  let digits (cs : List Char) : List Nat × List Char :=
    ((cs.takeWhile fun c => (Text.digitValue? c).isSome).filterMap Text.digitValue?,
      cs.dropWhile fun c => (Text.digitValue? c).isSome)
  match cs with
  | '(' :: rest =>
    match digits rest with
    | ([], _) => none
    | (ds, [')']) => some [ds]
    | (ds, ',' :: more) =>
      match digits (more.dropWhile Text.isBlank) with
      | ([], _) => none
      | (es, [')']) => some [ds, es]
      | _ => none
    | _ => none
  | _ => none

/-- The number of some digits, unless there are too many. -/
def parameter (digits : List Nat) : Except TypeError Nat :=
  if Numeral.maxDigits < digits.length then .error (.tooManyDigits digits.length)
  else .ok (Numeral.digitsValue digits)

/-- The decimal type with a precision and a scale. -/
def decimalType (precision scale : Nat) : Except TypeError FlatType :=
  FlatType.makeDecimal false precision scale

/-- The resolution that holds a number of digits of a second. -/
def unitOfDigits (digits : Nat) : TimeUnit :=
  if digits = 0 then .second else if digits ≤ 3 then .milli else if digits ≤ 6 then .micro
  else .nano

/-- What follows a word at the beginning of a text. -/
def rest? (word : String) (cs : List Char) : Option (List Char) :=
  if word.toList.isPrefixOf cs then some (cs.drop word.length) else none

/-- The atomic types with a fixed name. -/
def namedTypes : List (String × FlatType) :=
  [("TINYINT", .int .w8), ("SMALLINT", .int .w16), ("INT", .int .w32), ("INTEGER", .int .w32),
    ("BIGINT", .int .w64), ("FLOAT", .single), ("DOUBLE", .double), ("BOOLEAN", .bool),
    ("STRING", .text false), ("BYTES", .binary false), ("DATE", .date32)]

/-- The column type of an atomic type, by its name in capitals: one of the fixed names, or a
name that starts with the word for texts, binary data, decimals or timestamps. -/
def flatType (name : String) : Except TypeError (Option FlatType) :=
  let cs := Text.upperAscii name.toList
  match namedTypes.lookup (String.ofList cs) with
  | some type => .ok (some type)
  | none =>
    if (rest? "CHAR" cs).isSome || (rest? "VARCHAR" cs).isSome then .ok (some (.text false))
    else if (rest? "VARBINARY" cs).isSome then .ok (some (.binary false))
    else match rest? "DECIMAL" cs, rest? "TIMESTAMP" cs with
      | some rest, _ =>
        match parameterDigits? rest with
        | some [precision, scale] => do
          let precision ← parameter precision
          let scale ← parameter scale
          (decimalType precision scale).map some
        | _ => (decimalType 10 0).map some
      | none, some rest =>
        match parameterDigits? rest with
        | some [digits] => do
          let digits ← parameter digits
          .ok (some (.timestamp (unitOfDigits digits) none))
        | _ => .ok (some (.timestamp .micro none))
      | none, none => .ok none

/-- The type of the column that a field of this type is read into. -/
def columnType : DataType → Except TypeError ColumnType
  | .atomic name nullable => do
    match ← flatType name with
    | some type => .ok (.flat type)
    | none => .error (.unsupportedField (DataType.atomic name nullable).print)
  | .array element _ => do
    let item ← element.columnType
    .ok (.list false item)
  | .map key value _ => do
    let k ← key.columnType
    let v ← value.columnType
    .ok (.map k v)

end DataType

/-- The column that a field is read into, with its id, which is written once the type is known. -/
def Field.column (f : Field) : Except TypeError ColumnField := do
  let type ← f.type.columnType
  match Numeral.writeInt? f.id with
  | some id => .ok ⟨f.name, type, f.nullable, some id⟩
  | none => .error .unwritableId

/-- The columns that fields are read into. -/
def Field.columns (fields : List Field) : Except TypeError (List ColumnField) :=
  fields.mapM Field.column

/-! ## From columns to fields -/

/-- The number of digits of a second that a resolution holds. -/
def TimeUnit.digits : TimeUnit → Nat
  | .second => 0
  | .milli => 3
  | .micro => 6
  | .nano => 9

/-- The name of the atomic type that a column type stands for. -/
def FlatType.typeName? : FlatType → Option String
  | .int .w8 => some "TINYINT"
  | .int .w16 => some "SMALLINT"
  | .int .w32 => some "INT"
  | .int .w64 => some "BIGINT"
  | .single => some "FLOAT"
  | .double => some "DOUBLE"
  | .bool => some "BOOLEAN"
  | .text _ => some "STRING"
  | .binary _ => some "BYTES"
  | .decimal _ precision scale =>
    some ("DECIMAL(" ++ toString precision ++ ", " ++ toString scale ++ ")")
  | .date32 => some "DATE"
  | .timestamp unit none => some ("TIMESTAMP(" ++ toString unit.digits ++ ")")
  | _ => none

/-- The type of field that a column type stands for.  Items and values may be null, keys may
not. -/
def ColumnType.dataType (nullable : Bool) : ColumnType → Except TypeError DataType
  | .flat type =>
    match type.typeName? with
    | some name => .ok (.atomic name nullable)
    | none => .error (.unsupportedColumn type.print)
  | .list _ item => do
    let element ← item.dataType true
    .ok (.array element nullable)
  | .map key value => do
    let k ← key.dataType false
    let v ← value.dataType true
    .ok (.map k v nullable)
  | .struct fields => .error (.unsupportedColumn (ColumnType.struct fields).print)

/-- The white space that may surround the text of an id. -/
def ColumnField.isIdBlank (c : Char) : Bool :=
  c = ' ' || (9 ≤ c.toNat && c.toNat ≤ 13)

/-- Reads the text of a field id: an integer in ASCII digits, with ASCII blanks around it.  A
character that is neither of the two is no part of any number. -/
def ColumnField.readId (text : String) : Except TypeError Int :=
  let plain (c : Char) : Char := if isIdBlank c || (32 < c.toNat && c.toNat < 127) then c else 'x'
  match Numeral.readInt (text.map plain) with
  | .ok n => .ok n
  | .error (.tooLong digits) => .error (.tooManyDigits digits)
  | .error .malformed => .error (.badFieldId text)

/-- The field that a column stands for; a column that carries no id gets its place as one. -/
def ColumnField.field (place : Nat) (c : ColumnField) : Except TypeError Field := do
  let id ← match c.fieldId with
    | some text => readId text
    | none => .ok (place : Int)
  let type ← c.type.dataType c.nullable
  .ok ⟨id, c.name, type, none⟩

/-- The fields that columns stand for. -/
def ColumnField.fields (columns : List ColumnField) : Except TypeError (List Field) :=
  (columns.zipIdx).mapM fun (c, place) => c.field place

/-- The first version of a schema with the given columns.  When no column carries an id, the
fields are numbered from 1. -/
def TableSchema.ofColumns (columns : List ColumnField) (partitionKeys : List String)
    (options : List (String × Value)) : Except TypeError TableSchema := do
  let fields ← ColumnField.fields columns
  let fields := if columns.all fun c => c.fieldId.isNone then
      fields.map fun f => { f with id := f.id + 1 }
    else fields
  (TableSchema.make 0 fields partitionKeys none options).mapError .schema

/-- The columns of a schema. -/
def TableSchema.columns (s : TableSchema) : Except TypeError (List ColumnField) :=
  Field.columns s.fields

end MergeOnRead
