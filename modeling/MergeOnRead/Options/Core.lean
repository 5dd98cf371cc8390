import MergeOnRead.Options.Basic

/-!
# The parameters of a scan

The settings that a table reads, and those of an object store.
-/

namespace MergeOnRead.Options

/-- The default format of data and delete files. -/
def fileFormat : Setting :=
  ⟨"file.format", .text, "Specify the format of data and delete files.", .text "parquet"⟩

/-- The number of rows of a batch. -/
def readBatchSize : Setting :=
  ⟨"read.batch-size", .int, "Number of rows per arrow batch produced by the row source.",
    .int 4096⟩

/-- The number of tasks that are read at a time. -/
def scanParallelism : Setting :=
  ⟨"scan.parallelism", .int,
    "Number of scan tasks read concurrently when materializing a scan.", .int 1⟩

/-- Whether delete indexes are kept for later tasks. -/
def cacheEnabled : Setting :=
  ⟨"delete-index.cache.enabled", .bool,
    "Whether parsed delete files are shared across scan tasks.", .bool true⟩

/-- The number of delete indexes that are kept. -/
def cacheMaxEntries : Setting :=
  ⟨"delete-index.cache.max-entries", .int,
    "Maximum number of parsed delete files kept in the cache.", .int 128⟩

/-- Whether a position delete must lie within its data file. -/
def checkBounds : Setting :=
  ⟨"scan.position-delete.check-bounds", .bool,
    "Whether a position delete beyond the row count of its data file fails the scan task.",
    .bool true⟩

/-- The parameters of a scan. -/
def core : List Setting :=
  [fileFormat, readBatchSize, scanParallelism, cacheEnabled, cacheMaxEntries, checkBounds]

/-- The key that identifies a client of an object store. -/
def storeAccessKey : Setting := ⟨"fs.s3.accessKeyId", .text, "S3 access key ID", .null⟩

/-- The secret of the client. -/
def storeSecret : Setting := ⟨"fs.s3.accessKeySecret", .text, "S3 access key secret", .null⟩

/-- The token of the client's session. -/
def storeToken : Setting := ⟨"fs.s3.securityToken", .text, "S3 security token", .null⟩

/-- The address of the object store. -/
def storeEndpoint : Setting := ⟨"fs.s3.endpoint", .text, "S3 endpoint", .null⟩

/-- The region of the object store. -/
def storeRegion : Setting := ⟨"fs.s3.region", .text, "S3 region", .null⟩

/-- The parameters of an object store. -/
def objectStore : List Setting :=
  [storeAccessKey, storeSecret, storeToken, storeEndpoint, storeRegion]

/-- The setting with a key. -/
def setting? (key : String) : Option Setting :=
  (core ++ objectStore).find? fun s => s.key == key

/-- The value of a parameter that counts something.  A truth value counts as zero or one. -/
def number (options : Options) (setting : Setting) : Except OptionError Int := do
  match ← options.get setting .null with
  | .int n => .ok n
  | .bool b => .ok (if b then 1 else 0)
  | _ => .ok 0

/-- The value of a parameter that is a truth value. -/
def flag (options : Options) (setting : Setting) : Except OptionError Bool := do
  match ← options.get setting .null with
  | .bool b => .ok b
  | _ => .ok false

end MergeOnRead.Options
