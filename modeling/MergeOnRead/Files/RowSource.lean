import MergeOnRead.Container.File
import MergeOnRead.Files.Dataset

/-!
# Sources of rows

A source opens the columns of a file as a stream of batches, in the order of the rows
in the file.
-/

namespace MergeOnRead

/-- Opens the named columns of a file, given its path and its format. -/
abbrev RowSource := (path format : String) → (names : List String) → Except Error BatchStream

namespace FileTree

/-- What is reported when a file cannot be opened: the system failed to read it, or what it read is
not in the format.  Errors of scans and all others are reported as they are. -/
def reportOpening (format path : String) (e : Error) : Error :=
  if e.isScan then e
  else match e.kind with
    | .io => .scan (.unopenableFormat format) (some path)
    | .column | .conversion | .value => .scan (.undecodableFile format .undecodable) (some path)
    | _ => e

/-- Refuses columns that are asked for and missing. -/
def demand (present names : List String) (format path : String) : Except Error Unit :=
  let missing := names.filter fun name => !present.contains name
  if missing.isEmpty then .ok ()
  else .error
    (.scan (.undecodableFile format (.missingColumns missing format path)) (some path))

/-- Opens columns of files that keep their types: of the file that a path leads to, or of those
below the directory. -/
def openTyped (t : FileTree) (batchSize : Int) (format : FileFormat) (path : String)
    (names : List String) : Except Error BatchStream := do
  let files ← match ← t.find (← Location.storePath path) with
    | .missing => .error (.scan .missingFile (some path))
    | .directory way => .ok (t.listing way)
    | .file f => .ok [f]
  let dataset ← Dataset.ofFiles format files
  demand dataset.names names format.name path
  dataset.stream names batchSize

/-- The records that a file holds, perhaps as bytes. -/
def recordsIn : StoredFile → Except Error RecordFile
  | .records f => .ok f
  | .rows _ => .error (.raised .value)
  | .bytes content => Container.fileOf content

/-- Opens fields of a file of records. -/
def openFound (t : FileTree) (batchSize : Int) (path : String) (names : List String) :
    Except Error BatchStream := do
  let f ← recordsIn (← t.openFile path)
  demand f.names names FileFormat.avro.name path
  .ok (f.stream batchSize.toNat names)

/-- The source that reads the files of a tree in batches of some size.  What fails while a stream
is read is reported as an error of its file. -/
def rowSource (t : FileTree) (batchSize : Int) : RowSource := fun path format names => do
  t.check path
  let opened := match FileFormat.ofName? format with
    | some .avro => t.openFound batchSize path names
    | some format => t.openTyped batchSize format path names
    | none => .error (.scan (.undecodableFile format (.unknownFormat format)) (some path))
  let stream ← opened.mapError (reportOpening format path)
  .ok (stream.map fun r => r.mapError (BatchStream.report path))

end FileTree

end MergeOnRead
