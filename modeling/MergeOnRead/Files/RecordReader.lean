import MergeOnRead.Files.RowSource

/-!
# Readers of records

A reader hands out the records of a file batch after batch.  It takes them from the file one by one,
and what a call does not take is left for the next one.
-/

namespace MergeOnRead

/-- A reader of some fields, between two calls. -/
structure RecordReader where
  /-- The records that no call has taken yet, and the damage behind them. -/
  file : RecordFile
  names : List String
  batchSize : Int

namespace RecordReader

/-- Opens fields of a file at a path; all of them must be present. -/
def ofFile (file : RecordFile) (path : String) (names : List String) (batchSize : Int) :
    Except DecodeError RecordReader :=
  let missing := names.filter fun name => !file.names.contains name
  if missing.isEmpty then .ok ⟨file, names, batchSize⟩
  else .error (.missingColumns missing FileFormat.avro.name path)

/-- Takes records until the batch is full, when `count` of them are taken already.  The size is
compared behind every record.  Comes with what is left, and with whether the batch is full. -/
def gather (size : Int) : (count : Nat) → List (List Value) →
    List (List Value) × List (List Value) × Bool
  | _, [] => ([], [], false)
  | count, record :: rest =>
    if size ≤ (count : Int) + 1 then ([record], rest, true)
    else
      let (taken, left, full) := gather size (count + 1) rest
      (record :: taken, left, full)

/-- One call: a batch of the records taken, and none if there is no record.  Damage that is met
before the batch is full fails the call, and ends the file. -/
def readBatch (reader : RecordReader) : Except Error (Option Batch) × RecordReader :=
  let (taken, left, full) := gather reader.batchSize 0 reader.file.records
  match full, reader.file.failure with
  | false, some e =>
    (.error e, { reader with file := { reader.file with records := [], failure := none } })
  | _, _ =>
    (if taken.isEmpty then .ok none else (reader.file.batch reader.names taken).map some,
      { reader with file := { reader.file with records := left } })

/-- What a call comes to, told by its number. -/
def outcome : (call : Nat) → RecordReader → Except Error (Option Batch)
  | 0, reader => reader.readBatch.1
  | call + 1, reader => outcome call reader.readBatch.2

end RecordReader

end MergeOnRead
