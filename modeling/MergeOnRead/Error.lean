import MergeOnRead.Deletes.PositionSet
import MergeOnRead.Manifest.DeleteFile
import MergeOnRead.Options.Conversion
import MergeOnRead.Row.Basic
import MergeOnRead.Schema.ColumnField

/-!
# Errors of a table and of its readers

An error is a cause.  `Error.message?` words it, and `Error.kind` sorts it: readers
report some kinds of errors as others, and let the rest pass.  Errors of a scan name
the file they are about.
-/

namespace MergeOnRead

/-- Kinds of errors. -/
inductive ErrorKind where
  | scan
  | schemaMismatch
  | dataCorruption
  | ioFailure
  /-- A position delete points past the end of its data file. -/
  | invalidDelete
  | value
  | type
  | index
  | key
  | attribute
  | overflow
  | runtime
  | notImplemented
  | io
  | endOfFile
  | column
  /-- Columns of one type are never converted to another. -/
  | conversion
  /-- A column does not have the type that is taken for granted. -/
  | columnType
  /-- An operation needs numbers, and met one that is none. -/
  | notANumber
  | duplicateColumn
  | recordForm
  /-- A call never comes back. -/
  | blocked
  deriving DecidableEq, Repr

/-- Why the content of a file could not be decoded. -/
inductive DecodeError where
  /-- The decoder gave up. -/
  | undecodable
  | unknownFormat (format : String)
  | missingColumns (names : List String) (format path : String)
  deriving DecidableEq, Repr

/-- The place of a text that a decoder supplied, and that is not part of the wording here. -/
def DecodeError.foreignText : String := "<library>"

/-- The wording of the error. -/
def DecodeError.message : DecodeError → String
  | .undecodable => foreignText
  | .unknownFormat format => "Unexpected file format: " ++ format
  | .missingColumns names format path =>
    "Columns " ++ Value.listText (names.map Text.quoted) ++ " are not present in " ++ format ++
      " file " ++ path

/-- Why a scan failed. -/
inductive ScanCause where
  /-- A cause that came with its wording: of a scan at large, of corruption or of input. -/
  | given (kind : ErrorKind) (text : String)
  /-- A field id is not among the fields being read. -/
  | unresolved (fieldId : Int)
  /-- The same with a wording of its own, and perhaps without the id. -/
  | mismatch (fieldId : Option Int) (text : String)
  /-- A key field of a delete file is not in the schema. -/
  | unknownKeyField (fieldId schemaId : Int)
  /-- A row cannot be decoded, with the wording of the reason. -/
  | malformedRow (reason : String)
  | undecodableDelete
  /-- A position delete needs path and position. -/
  | nullDelete
  | negativeDelete (position : Int) (path : String)
  /-- A position delete has a position beyond the greatest one. -/
  | deleteTooFar (position : Int) (path : String)
  | undecodableFile (format : String) (e : DecodeError)
  | missingFile
  | missingSize
  | unopenable
  | unopenableFormat (format : String)
  | unreadable
  /-- A position delete points past the end of its data file. -/
  | deleteOutOfRange (position rowCount : Option Int)
  deriving DecidableEq, Repr

namespace ScanCause

/-- The kind of the error. -/
def kind : ScanCause → ErrorKind
  | .given kind _ => kind
  | .unresolved _ | .mismatch _ _ | .unknownKeyField _ _ => .schemaMismatch
  | .malformedRow _ | .undecodableDelete | .nullDelete | .negativeDelete _ _
  | .deleteTooFar _ _ | .undecodableFile _ _ => .dataCorruption
  | .missingFile | .missingSize | .unopenable | .unopenableFormat _ | .unreadable => .ioFailure
  | .deleteOutOfRange _ _ => .invalidDelete

/-- The field id that a mismatch is about. -/
def fieldId? : ScanCause → Option Int
  | .unresolved id | .unknownKeyField id _ => some id
  | .mismatch id _ => id
  | _ => none

/-- The wording of the cause, without the file.  A mismatch without a wording of its own is
worded as an unresolved field. -/
def message : ScanCause → String
  | .given _ text => text
  | .unresolved id => "Field id " ++ toString id ++ " is not present in the read schema"
  | .mismatch id text =>
    if text.isEmpty then
      "Field id " ++ DataFile.numberText id ++ " is not present in the read schema"
    else text
  | .unknownKeyField id schemaId =>
    "Equality field id " ++ toString id ++ " is not present in table schema " ++
      toString schemaId
  | .malformedRow reason => "Malformed row: " ++ reason
  | .undecodableDelete => "Undecodable delete row: " ++ DecodeError.foreignText
  | .nullDelete => "Position delete row with null file_path or pos"
  | .negativeDelete position path =>
    "Negative position delete " ++ toString position ++ " for " ++ path
  | .deleteTooFar position path =>
    "Position delete " ++ toString position ++ " for " ++ path ++
      " exceeds the supported row count " ++ toString maxPosition
  | .undecodableFile format e => "Failed to decode " ++ format ++ " file: " ++ e.message
  | .missingFile => "File does not exist"
  | .missingSize => "File size not available"
  | .unopenable => "Failed to open file: " ++ DecodeError.foreignText
  | .unopenableFormat format =>
    "Failed to open " ++ format ++ " file: " ++ DecodeError.foreignText
  | .unreadable => "Failed to read file: " ++ DecodeError.foreignText
  | .deleteOutOfRange position rowCount =>
    "Position delete " ++ DataFile.numberText position ++
      " is out of range for data file with " ++ DataFile.numberText rowCount ++ " rows"

end ScanCause

/-- Why the log of a table refuses an operation. -/
inductive LogError where
  | unknownSnapshot (id : Int)
  | unknownSchema (id : Int)
  | fileOfUnknownSchema (path : String) (schemaId : Int)
  | deleteOfUnknownField (path : String) (fieldId : Int)
  /-- Versions of the schema are numbered one by one. -/
  | schemaNotNext (id current : Int)
  | alreadyCommitted
  deriving DecidableEq, Repr

/-- The wording of the error. -/
def LogError.message : LogError → String
  | .unknownSnapshot id => "Snapshot " ++ toString id ++ " does not exist"
  | .unknownSchema id => "Schema " ++ toString id ++ " does not exist"
  | .fileOfUnknownSchema path schemaId =>
    "Data file " ++ path ++ " refers to unknown schema " ++ toString schemaId
  | .deleteOfUnknownField path fieldId =>
    "Delete file " ++ path ++ " refers to unknown field id " ++ toString fieldId
  | .schemaNotNext id current =>
    "Schema " ++ toString id ++ " does not follow current schema " ++ toString current
  | .alreadyCommitted => "Row delta has already been committed"

/-- The errors of a table. -/
inductive Error where
  | scan (cause : ScanCause) (path : Option String)
  | option (e : OptionError)
  | type (e : TypeError)
  | schema (e : SchemaError)
  | row (e : RowError)
  | position (e : PositionError)
  | deleteFile (e : DeleteFileError)
  | log (e : LogError)
  /-- The reader or iterator of this name does not know the positions of its rows. -/
  | untracked (reader : String)
  /-- An error without a wording that a source of batches reports. -/
  | raised (kind : ErrorKind)
  | unknownStore (scheme : String)
  | noSource
  /-- A list is too short. -/
  | outsideList
  /-- A call waits for a build that never ends. -/
  | blocked
  deriving DecidableEq, Repr

namespace Error

/-- A column cannot be converted to the type that is wanted. -/
def badColumn : Error := .raised .column

/-- A value of this type is never taken into a column. -/
def badValueType : Error := .raised .columnType

/-- A number is out of range. -/
def overflow : Error := .raised .overflow

/-- The kind of the error. -/
def kind : Error → ErrorKind
  | .scan cause _ => cause.kind
  | .option .notANumber => .notANumber
  | .option e => if e.isOverflow then .overflow else .value
  | .type .numberOverflow => .overflow
  | .type _ => .value
  | .schema _ => .value
  | .row (.outOfBounds _ _) | .row .outsideList | .row .outsideTuple | .row .unreachable => .index
  | .row .oversized => .overflow
  | .row .negativeArity => .value
  | .row .noRow | .row .noFields => .attribute
  | .row (.comparison .notANumber) => .notANumber
  | .row _ => .type
  | .position .notPositions => .runtime
  | .position _ => .value
  | .deleteFile _ => .value
  | .log .alreadyCommitted => .runtime
  | .log _ => .value
  | .untracked _ => .notImplemented
  | .raised kind => kind
  | .unknownStore _ => .value
  | .noSource => .value
  | .outsideList => .index
  | .blocked => .blocked

/-- Whether the error is one of a scan. -/
def isScan : Error → Bool
  | .scan _ _ => true
  | _ => false

/-- The wording of the error, where it has one.  An error of a scan ends in the file. -/
def message? : Error → Option String
  | .scan cause none => some cause.message
  | .scan cause (some path) => some (cause.message ++ " (file: " ++ path ++ ")")
  | .option e => e.message?
  | .type e => e.message?
  | .schema e => some e.message
  | .row e => e.message?
  | .position e => e.message?
  | .deleteFile e => some e.message
  | .log e => some e.message
  | .untracked reader => some (reader ++ " does not track row positions")
  | .raised _ => none
  | .unknownStore scheme => some ("Unrecognized filesystem type in URI: " ++ scheme)
  | .noSource => some "Either a FileIO or a RowSource is required to read a table"
  | .outsideList => some "list index out of range"
  | .blocked => none

end Error

instance : Coe OptionError Error := ⟨.option⟩

instance : Coe TypeError Error := ⟨.type⟩

instance : Coe SchemaError Error := ⟨.schema⟩

instance : Coe RowError Error := ⟨.row⟩

instance : Coe PositionError Error := ⟨.position⟩

instance : Coe DeleteFileError Error := ⟨.deleteFile⟩

/-- Lifts a result with one kind of error to the errors of a table. -/
def liftError {ε α : Type} (wrap : ε → Error) : Except ε α → Except Error α
  | .ok a => .ok a
  | .error e => .error (wrap e)

/-- A program may fail.  What it has written stays even then. -/
abbrev Writing (σ : Type) := ExceptT Error (StateM σ)

end MergeOnRead
