import MergeOnRead.Read.Reader
import MergeOnRead.Schema.TableSchema

/-!
# Readers of tasks

The reader of a task hands out the rows of a data file that are not deleted, with the
fields that are asked for.  Keys are made of fields that may not be asked for; these
are read behind the others, and projected away in the end.
-/

namespace MergeOnRead.Scan

/-- The fields that are read: those that are asked for, and behind them the key fields that are
not among them, each once. -/
def readFields (schema : TableSchema) (dataPath : String) : (fields : List Field) → List Int →
    Except Error (List Field)
  | fields, [] => .ok fields
  | fields, id :: ids =>
    if fields.any fun f => f.id == id then readFields schema dataPath fields ids
    else match schema.findField? id with
      | some f => readFields schema dataPath (fields ++ [f]) ids
      | none => .error (.scan (.unresolved id) (some dataPath))

/-- The columns that are read from a file: those that the fields have there, or else the first
column, by which rows are counted. -/
def columnsToRead (fileSchema : TableSchema) (names : List (Option String)) :
    Except Error (List String) :=
  match names.filterMap id with
  | [] => match fileSchema.fields with
    | first :: _ => .ok [first.name]
    | [] => .error .outsideList
  | names => .ok names

/-- A reader of the given fields of a data file, which was written with some schema. -/
def dataReader (source : RowSource) (file : DataFile) (fileSchema : TableSchema)
    (fields : List Field) : Except Error Reader := do
  let names := Field.physicalNames fileSchema.fields fields
  let columns ← columnsToRead fileSchema names
  let stream ← source file.path file.format columns
  let header ← liftError .type (Field.headers fields)
  .ok (.tracked 0 (.reported file.path (.conformed names header (.stream stream 0))))

/-- Drops deleted rows, if there are any. -/
def dropDeleted (filter : DeleteFilter) (reader : Reader) : Reader :=
  if filter.hasDeletes then .filtered filter reader else reader

/-- Keeps the leading fields, if there are more. -/
def keepLeading (count total : Nat) (reader : Reader) : Reader :=
  if total = count then reader
  else .projected ((List.range count).map fun (i : Nat) => (i : Int)) reader

end MergeOnRead.Scan
