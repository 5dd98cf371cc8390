import MergeOnRead.Row.Basic
import MergeOnRead.Text.LetterCase

/-!
# Data files

What a manifest records of a file of rows.  The format of a file is told by the
extension of its path, unless it is given.  The sequence number and the snapshot are
set when the file is committed.
-/

namespace MergeOnRead

/-! ## Formats of files -/

namespace FilePath

/-- What follows the last separator of a path. -/
def baseName (cs : List Char) : List Char :=
  (cs.reverse.takeWhile (· ≠ '/')).reverse

/-- What follows the last dot of the base name; a name whose dots all stand at its beginning has
no extension. -/
def extension (path : String) : String :=
  let name := (baseName path.toList).dropWhile (· == '.')
  if name.contains '.' then String.ofList (name.reverse.takeWhile (· ≠ '.')).reverse else ""

/-- The format of a file: the extension of its path in lower case. -/
def format (path : String) : String := Text.lower (extension path)

/-- The format that is given, or else that of the path. -/
def formatOr (given : Option String) (path : String) : String :=
  match given with
  | none => format path
  | some g => if g.isEmpty then format path else g

end FilePath

/-! ## Records of files -/

/-- A file of rows. -/
structure DataFile where
  path : String
  format : String
  /-- The values of the partition that all its rows belong to. -/
  partition : List Value
  rowCount : Int
  size : Int := 0
  /-- The schema it was written with. -/
  schemaId : Int := 0
  /-- The number of the commit that added it. -/
  sequence : Option Int := none
  /-- The snapshot that added it. -/
  snapshotId : Option Int := none

namespace DataFile

/-- The partition as a row. -/
def partitionRow (f : DataFile) : Row := .ofValues f.partition

/-- The file as a commit records it. -/
def committed (f : DataFile) (sequence snapshotId : Int) : DataFile :=
  { f with sequence := some sequence, snapshotId := some snapshotId }

/-- An optional number as texts show it. -/
def numberText : Option Int → String
  | none => "None"
  | some n => toString n

/-- The text of a file. -/
def print (f : DataFile) : String :=
  "DataFileMeta(path='" ++ f.path ++ "', format=" ++ f.format ++ ", partition=" ++
    Row.plainText f.partition [] ++ ", rows=" ++ toString f.rowCount ++ ", seq=" ++
    numberText f.sequence ++ ")"

end DataFile

/-- Partitions are equal as rows are. -/
def samePartition (p q : List Value) : Except RowError Bool :=
  RowObject.equal ⟨0, .ofValues p⟩ ⟨1, .ofValues q⟩

/-- Files are equal when all that is recorded of them is, the snapshot aside.  Partitions are
compared only where path and format agree. -/
def DataFile.equal (f g : DataFile) : Except RowError Bool :=
  if f.path = g.path ∧ f.format = g.format then do
    let same ← samePartition f.partition g.partition
    .ok (same && f.rowCount == g.rowCount && f.size == g.size && f.schemaId == g.schemaId &&
      f.sequence == g.sequence)
  else .ok false

/-- The number of different files in a list.  Every partition needs a key; a comparison that fails
does not make files equal. -/
def countFiles {α : Type} (partition : α → List Value) (equal : α → α → Except RowError Bool)
    (files : List α) : Except RowError Nat := do
  let keys ← files.mapM fun f => Row.key (.ofValues (partition f))
  if keys.all Value.areHashable then
    .ok (files.eraseDupsBy fun f g => (equal f g).toOption == some true).length
  else .error .unhashable

/-- Compares all files of a list with each other.  A file is equal to itself, whatever its partition
holds. -/
def compareFiles {α : Type} (equal : α → α → Except RowError Bool) (files : List α) :
    List (List (Except RowError Bool)) :=
  files.zipIdx.map fun (f, i) => files.zipIdx.map fun (g, j) =>
    if i = j then .ok true else equal f g

/-- Whether the files of a list are equal, each compared with each. -/
def DataFile.equalities (files : List DataFile) : List (List (Except RowError Bool)) :=
  compareFiles DataFile.equal files

/-- The number of different files in a list. -/
def DataFile.countDistinct (files : List DataFile) : Except RowError Nat :=
  countFiles (·.partition) DataFile.equal files

end MergeOnRead
