import MergeOnRead.Files.Location
import MergeOnRead.Files.RecordFile

/-!
# Trees of files

The files that a table is read from, in directories under a working directory.  A file
holds columns in one of the formats that keep their types, records, or bytes.
-/

namespace MergeOnRead

/-- The formats of files of rows. -/
inductive FileFormat where
  | parquet
  | orc
  | avro
  deriving DecidableEq, Repr

namespace FileFormat

/-- The name of a format. -/
def name : FileFormat → String
  | .parquet => "parquet"
  | .orc => "orc"
  | .avro => "avro"

/-- The format with a name. -/
def ofName? (name : String) : Option FileFormat :=
  [parquet, orc, avro].find? fun f => f.name == name

end FileFormat

/-- A file of columns. -/
structure RowFile where
  format : FileFormat
  content : Batch

/-- The content of a file. -/
inductive StoredFile where
  | bytes (content : List UInt8)
  | rows (file : RowFile)
  | records (file : RecordFile)

/-- What a path leads to.  The directories outside the working directory exist, and nothing is known
of what they hold. -/
inductive Place where
  | missing
  /-- The directory at the end of a way, or one that is outside. -/
  | directory (way : Option (List String))
  | file (f : StoredFile)

/-- Files and directories by the names on the way to them.  The working directory has no names on
the way to it. -/
structure FileTree where
  /-- The directories below the working directory. -/
  directories : List (List String)
  files : List (List String × StoredFile)

namespace FileTree

/-- A working directory without files. -/
def empty : FileTree := ⟨[], []⟩

/-- The segments of a path. -/
def segments (path : String) : List String :=
  (NetworkAddress.splitAt '/' path.toList).map String.ofList

/-- The greatest number of bytes of a name. -/
def nameLimit : Nat := 255

/-- The greatest number of bytes of a path. -/
def pathLimit : Nat := 4095

/-- Follows the segments of a path from a directory.  An empty segment stays, as does `.`; the way
up from the working directory leads outside, where no name is known. -/
def walk (t : FileTree) : (here : Option (List String)) → List String → Except Error Place
  | here, [] => .ok (.directory here)
  | here, part :: rest =>
    if part = "" || part = "." then t.walk here rest
    else match here, part with
      | some [], ".." | none, ".." => t.walk none rest
      | some way, ".." => t.walk (some way.dropLast) rest
      | _, _ =>
        if nameLimit < part.utf8ByteSize then .error (.raised .io)
        else match here.map (· ++ [part]) with
          | none => .ok .missing
          | some there =>
            if t.directories.contains there then t.walk (some there) rest
            else match t.files.lookup there with
              | some f => .ok (if rest.isEmpty then .file f else .missing)
              | none => .ok .missing

/-- What a path leads to.  A path that looks like a URL or holds the null character is refused, and
so is one that is too long; an empty path leads nowhere. -/
def find (t : FileTree) (path : String) : Except Error Place :=
  if Location.looksLikeUrl path || path.toList.contains '\x00' then .error .badColumn
  else if pathLimit < path.utf8ByteSize then .error (.raised .io)
  else if path.isEmpty then .ok .missing
  else t.walk (if path.startsWith "/" then none else some []) (segments path)

/-- A file is left out of listings when a name on the way to it begins with a dot or an
underscore. -/
def isHidden (way : List String) : Bool :=
  way.any fun name => name.startsWith "." || name.startsWith "_"

/-- The files below a directory, in the order of their paths. -/
def listing (t : FileTree) (directory : Option (List String)) : List StoredFile :=
  match directory with
  | none => []
  | some way =>
    let below := t.files.filter fun e => way.isPrefixOf e.1 && !isHidden (e.1.drop way.length)
    (below.mergeSort fun a b => decide ("/".intercalate a.1 ≤ "/".intercalate b.1)).map (·.2)

/-- The names on the way to a path. -/
def names (path : String) : List String :=
  (Location.follow true [] ((segments path).map String.toList)).map String.ofList

/-- All proper beginnings of a way, the empty one aside. -/
def ancestors (way : List String) : List (List String) :=
  (List.range way.length).filterMap fun n => if n = 0 then none else some (way.take n)

/-- Makes a directory, and those above it. -/
def makeDirectory (t : FileTree) (path : String) : FileTree :=
  let way := names path
  { t with directories := ancestors way ++ way :: t.directories }

/-- Removes a file. -/
def remove (t : FileTree) (path : String) : FileTree :=
  let way := names path
  { t with files := t.files.filter fun e => e.1 != way }

/-- Writes a file, in place of the one that was there. -/
def write (t : FileTree) (path : String) (f : StoredFile) : FileTree :=
  let way := names path
  { directories := ancestors way ++ t.directories
    files := (way, f) :: (t.remove path).files }

/-! ## Files by location -/

/-- Whether there is a file or directory.  A path that the storage refuses leads to none. -/
def isPresent (t : FileTree) (location : String) : Except Error Bool := do
  match t.find (← Location.storePath location) with
  | .ok .missing | .error _ => .ok false
  | _ => .ok true

/-- Refuses a location where there is nothing. -/
def check (t : FileTree) (location : String) : Except Error Unit := do
  if ← t.isPresent location then .ok ()
  else .error (.scan .missingFile (some location))

/-- The number of bytes of a file.  The size of other files is not kept here. -/
def size (t : FileTree) (location : String) : Except Error Nat := do
  match ← t.find (← Location.storePath location) with
  | .file (.bytes content) => .ok content.length
  | .file _ => .ok 0
  | _ => .error (.scan .missingSize (some location))

/-- Opens a file; a directory cannot be opened. -/
def openFile (t : FileTree) (location : String) : Except Error StoredFile := do
  match t.find (← Location.storePath location) with
  | .ok (.file f) => .ok f
  | _ => .error (.scan .unopenable (some location))

/-- The bytes of a file.  Those of other files are not kept here. -/
def readBytes (t : FileTree) (location : String) : Except Error (List UInt8) := do
  match ← t.openFile location with
  | .bytes content => .ok content
  | _ => .ok []

end FileTree

end MergeOnRead
