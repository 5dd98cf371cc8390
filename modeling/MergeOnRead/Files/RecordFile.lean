import MergeOnRead.Files.BatchStream
import MergeOnRead.Read.ValueType

/-!
# Files of records

A file of records holds one record after the other, and no columns: the types of the
columns of a batch are found from the values in it.  Where the file is damaged, the
records in front of the damage can be read.
-/

namespace MergeOnRead

/-- The records of a file. -/
structure RecordFile where
  names : List String
  /-- The records that can be read, each with one value per field. -/
  records : List (List Value)
  /-- The error that comes behind them, if there is one. -/
  failure : Option Error

namespace RecordFile

/-- The place of the field with a name; of fields with the name the last one counts. -/
def placeOf (f : RecordFile) (name : String) : Nat :=
  ((List.range f.names.length).filter fun i => f.names.getD i "" == name).getLastD 0

/-- Writes every item of a list some times in a row. -/
def stutter (times : Nat) (values : List Value) : List Value :=
  values.flatMap (List.replicate times)

/-- A column of values, with the type that is found from them. -/
def column (name : String) (values : List Value) : Except Error (ColumnHeader × List Value) :=
  match ColumnType.ofValues? values with
  | some type => .ok (⟨name, type⟩, values)
  | none => .error .badColumn

/-- A batch of some fields of records.  A field that is asked for more than once comes once, with
every value as often in a row; columns of different lengths make no batch. -/
def batch (f : RecordFile) (names : List String) (records : List (List Value)) :
    Except Error Batch := do
  let columns ← names.eraseDups.mapM fun name =>
    let place := f.placeOf name
    column name (stutter (names.count name) (records.map fun r => r.getD place .null))
  Batch.ofColumns columns

/-- The stream of some fields.  Without records it has no batch.  Where the file is damaged, the
batch that the damage lies in fails as a whole, and nothing follows. -/
def stream (f : RecordFile) (size : Nat) (names : List String) : BatchStream :=
  let size := max 1 size
  match f.failure with
  | none => (chunks size f.records).map (f.batch names)
  | some e =>
    let whole := f.records.take (f.records.length / size * size)
    (chunks size whole).map (f.batch names) ++ [.error e]

end RecordFile

end MergeOnRead
