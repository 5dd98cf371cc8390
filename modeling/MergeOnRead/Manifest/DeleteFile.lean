import MergeOnRead.Manifest.DataFile
import MergeOnRead.Manifest.FileContent

/-!
# Delete files

What a manifest records of a file of deletes: by position, with rows of path and
position, or by equality, with the fields that the deleted keys are made of.
-/

namespace MergeOnRead

/-- Why a file is no delete file. -/
inductive DeleteFileError where
  /-- The content is not one of deletes. -/
  | notDeletes (content : FileContent)
  /-- Deletes by equality need the ids of fields. -/
  | noFieldIds (path : String)
  /-- Deletes by position have no ids of fields. -/
  | fieldIds (path : String)
  deriving DecidableEq, Repr

/-- The wording of the error. -/
def DeleteFileError.message : DeleteFileError → String
  | .notDeletes content => "Not a delete content: " ++ content.member.family ++ "." ++ content.name
  | .noFieldIds path => "Equality delete file " ++ path ++ " declares no equality field ids"
  | .fieldIds path =>
    "Position delete file " ++ path ++ " must not declare equality field ids"

/-- A file of deletes. -/
structure DeleteFile where
  path : String
  format : String
  /-- The values of the partition that it applies to. -/
  partition : List Value
  /-- Whether it deletes by position or by equality. -/
  content : FileContent
  recordCount : Int
  size : Int := 0
  /-- The ids of the fields that its keys are made of. -/
  fieldIds : List Int := []
  /-- The number of the commit that added it. -/
  sequence : Option Int := none
  /-- The snapshot that added it. -/
  snapshotId : Option Int := none

namespace DeleteFile

/-- Accepts a file if content and field ids go together. -/
def check (f : DeleteFile) : Except DeleteFileError DeleteFile :=
  match f.content with
  | .data => .error (.notDeletes .data)
  | .equalityDeletes => if f.fieldIds.isEmpty then .error (.noFieldIds f.path) else .ok f
  | .positionDeletes => if f.fieldIds.isEmpty then .ok f else .error (.fieldIds f.path)

/-- What an index of the file is kept under: the path, the content and the field ids. -/
def cacheKey (f : DeleteFile) : Value :=
  .tuple [.text f.path, .member f.content.member, .tuple (f.fieldIds.map Value.int)]

/-- The file as a commit records it. -/
def committed (f : DeleteFile) (sequence snapshotId : Int) : DeleteFile :=
  { f with sequence := some sequence, snapshotId := some snapshotId }

/-- The text of a list of ids. -/
def idsText (ids : List Int) : String := Value.listText (ids.map toString)

/-- The text of a file. -/
def print (f : DeleteFile) : String :=
  "DeleteFileMeta(path='" ++ f.path ++ "', content=" ++ f.content.name ++
    ", equality_field_ids=" ++ idsText f.fieldIds ++ ", seq=" ++
    DataFile.numberText f.sequence ++ ")"

/-- Files are equal when all that is recorded of them is, the snapshot aside.  Partitions are
compared only where path and format agree. -/
def equal (f g : DeleteFile) : Except RowError Bool :=
  if f.path = g.path ∧ f.format = g.format then do
    let same ← samePartition f.partition g.partition
    .ok (same && f.content == g.content && f.recordCount == g.recordCount && f.size == g.size &&
      f.fieldIds == g.fieldIds && f.sequence == g.sequence)
  else .ok false

/-- Whether the files of a list are equal, each compared with each. -/
def equalities (files : List DeleteFile) : List (List (Except RowError Bool)) :=
  compareFiles equal files

/-- The number of different files in a list. -/
def countDistinct (files : List DeleteFile) : Except RowError Nat :=
  countFiles (·.partition) equal files

end DeleteFile

end MergeOnRead
