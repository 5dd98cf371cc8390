import MergeOnRead.Container.Reading
import MergeOnRead.Files.FileTree
import MergeOnRead.Files.RestoredType

/-!
# Datasets

Files that keep the types of their columns are read as datasets.  The dataset of a file
is this file alone, that of a directory are all files below it, one after the other.
The first file says which columns there are, and the others are read as if they had
these.

Four names belong to the reading of a dataset itself.  A file may have columns of these
names, but none of its columns can then be read.

A file of columns ends with a footer: a description of its columns, the length of the
description and a mark.  For bytes that are no such file, it matters whether they seem to
end so.
-/

namespace MergeOnRead

namespace Footer

/-- The marks with which a footer ends. -/
def marks : List (List UInt8) := [[0x50, 0x41, 0x52, 0x31], [0x50, 0x41, 0x52, 0x45]]

/-- Whether bytes end in a mark, and in front of it in the length of a footer that fits into the
bytes before. -/
def isAtEnd (bytes : List UInt8) : Bool :=
  let trailer := bytes.drop (bytes.length - 8)
  8 ≤ bytes.length && marks.contains (trailer.drop 4) &&
    Bytes.littleEndian (trailer.take 4) ≤ bytes.length - 8

end Footer

namespace StoredFile

/-- The rows of a file, if it has them in the format.  Whether a file without rows is taken for
damaged or for one that the system failed to read depends on how far reading comes. -/
def rowsIn (format : FileFormat) : StoredFile → Except Error RowFile
  | .rows f =>
    if f.format = format then .ok f
    else .error (.raised (if format = .orc then .io else .column))
  | .records _ => .error (.raised (if format = .orc then .io else .column))
  | .bytes content =>
    .error (.raised (if format = .orc || Footer.isAtEnd content then .io else .column))

end StoredFile

namespace RowFile

/-- The columns of a file as they are read back. -/
def restoredHeader (f : RowFile) : List ColumnHeader :=
  f.content.header.map fun h => { h with type := f.format.restored h.type }

/-- The places of the columns with a name. -/
def placesOf (f : RowFile) (name : String) : List Nat :=
  (List.range f.content.header.length).filter fun i =>
    (f.content.header.getD i default).name == name

/-- The values of a column of some rows, in the type that is wanted.  A column that the file does
not have is null, and one that it has twice cannot be read. -/
def columnOf (f : RowFile) (held : Batch) (wanted : ColumnHeader) : Except Error (List Value) :=
  match f.placesOf wanted.name with
  | [] => .ok (held.rows.map fun _ => .null)
  | [place] =>
    let type := (held.header.getD place default).type
    if held.rows.all fun row => type.inRange (row.getD place .null) then
      held.convertHeld place wanted.type
    else .error .badColumn
  | _ => .error .badColumn

/-- The batch of some columns of some rows of a file, and of the rows that are held behind them. -/
def typedBatch (f : RowFile) (header : List ColumnHeader) (rows behind : List (List Value)) :
    Except Error Batch := do
  let columns ← header.mapM (f.columnOf { header := f.restoredHeader, rows, behind })
  let all := Batch.transpose (rows.length + behind.length) columns
  .ok { header, rows := all.take rows.length, behind := all.drop rows.length }

/-- The rows that are held behind the first batch of a file, when the others are given.  Only lists
and maps are held in this way, and only by a format that reads the whole file at once. -/
def heldBehind (f : RowFile) (others : List (List (List Value))) : List (List Value) :=
  if f.format = .parquet ∧ f.content.header.any (fun h => !h.type.isFlat) then others.flatten
  else []

/-- The stream of some columns of a file.  A file without rows has one batch without rows. -/
def typedStream (f : RowFile) (header : List ColumnHeader) (size : Nat) : BatchStream :=
  match chunks size f.content.rows with
  | [] => [f.typedBatch header [] []]
  | first :: others =>
    f.typedBatch header first (f.heldBehind others) ::
      others.map fun rows => f.typedBatch header rows []

end RowFile

/-- Files of one format that are read one after the other. -/
structure Dataset where
  format : FileFormat
  /-- The columns, as the first file has them. -/
  header : List ColumnHeader
  files : List StoredFile

namespace Dataset

/-- The dataset of some files; without files it has no columns.  The first file must have rows,
and no two columns of one name. -/
def ofFiles (format : FileFormat) : List StoredFile → Except Error Dataset
  | [] => .ok ⟨format, [], []⟩
  | first :: rest => do
    let f ← first.rowsIn format
    if f.content.names.Nodup then .ok ⟨format, f.restoredHeader, first :: rest⟩
    else .error .badColumn

/-- The names of the columns. -/
def names (d : Dataset) : List String := d.header.map (·.name)

/-- The columns with some names. -/
def select (d : Dataset) (names : List String) : List ColumnHeader :=
  names.filterMap fun name => d.header.find? fun h => h.name == name

/-- The names that belong to the reading itself. -/
def reservedNames : List String :=
  ["__fragment_index", "__batch_index", "__last_in_fragment", "__filename"]

/-- The greatest number of rows of a batch. -/
def batchLimit : Int := 2147483647

/-- The stream of some columns, in batches of some size; a batch is from one file.  A column with a
name of the reading itself is not found, and next to one no column can be read. -/
def stream (d : Dataset) (names : List String) (batchSize : Int) : Except Error BatchStream :=
  if batchLimit < batchSize ∨ batchSize < -batchLimit - 1 then .error (.raised .overflow)
  else if batchSize ≤ 0 ∨ names.any reservedNames.contains then .error .badColumn
  else if d.names.any reservedNames.contains then .ok [.error .badColumn]
  else .ok (d.files.flatMap fun file =>
    match file.rowsIn d.format with
    | .ok f => f.typedStream (d.select names) batchSize.toNat
    | .error e => [.error e])

end Dataset

end MergeOnRead
