import MergeOnRead.Files.RowSource
import MergeOnRead.Read.RecordIterator

/-!
# Readers

A reader hands out batches, or iterators over the records of batches.  Readers are
built in layers around a stream: they count positions, report errors, rename and
convert columns, select columns, and drop deleted rows.  Every read of a reader is one
read of its stream.
-/

namespace MergeOnRead

/-- A reader. -/
inductive Reader where
  /-- Reads a stream, and counts how often it was closed. -/
  | stream (batches : BatchStream) (closings : Nat)
  /-- Counts the rows that were read. -/
  | tracked (consumed : Nat) (inner : Reader)
  /-- Reports errors as errors of a file. -/
  | reported (path : String) (inner : Reader)
  /-- Finds columns by name, and converts them to the types that are wanted. -/
  | conformed (names : List (Option String)) (header : List ColumnHeader) (inner : Reader)
  /-- Selects columns. -/
  | projected (mapping : List Int) (inner : Reader)
  /-- Drops deleted rows. -/
  | filtered (filter : DeleteFilter) (inner : Reader)

namespace Reader

/-- The name of a reader that does not know positions. -/
def untrackedName : Reader → String
  | .stream _ _ => "ListBatchReader"
  | .tracked _ _ => "RowPositionReader"
  | .reported _ _ => "ErrorTranslatingReader"
  | .conformed _ _ _ => "DataFileBatchReader"
  | .projected _ _ => "ProjectedBatchReader"
  | .filtered _ _ => "ApplyDeleteFilterReader"

/-- The number of rows that were read, where it is known. -/
def batchPosition : Reader → Except Error Int
  | .tracked consumed _ => .ok consumed
  | .projected _ inner => inner.batchPosition
  | r => .error (.untracked r.untrackedName)

/-- Reads a batch; there is none at the end. -/
def readBatch : Reader → Except Error (Option Batch) × Reader
  | .stream [] closings => (.ok none, .stream [] closings)
  | .stream (r :: rs) closings => (r.map some, .stream rs closings)
  | .tracked consumed inner =>
    match inner.readBatch with
    | (.ok (some b), inner) => (.ok (some b), .tracked (consumed + b.size) inner)
    | (r, inner) => (r, .tracked consumed inner)
  | .reported path inner =>
    let (r, inner) := inner.readBatch
    (r.mapError (BatchStream.report path), .reported path inner)
  | .conformed names header inner =>
    let (r, inner) := inner.readBatch
    let r := match r with
      | .ok (some b) => (b.conform names header).map some
      | r => r
    (r, .conformed names header inner)
  | .projected mapping inner =>
    let (r, inner) := inner.readBatch
    let r := match r with
      | .ok (some b) => (b.select mapping).map some
      | r => r
    (r, .projected mapping inner)
  | .filtered filter inner =>
    let (r, inner) := inner.readBatch
    let r := match r with
      | .ok (some b) => do
        let position ← inner.batchPosition
        (filter.apply b (position - b.size)).map some
      | r => r
    (r, .filtered filter inner)

/-- Reads a batch as an iterator over its records; there is none at the end.  Filters and
projections become stages of the iterator below them. -/
def readRecords : Reader → Except Error (Option RecordIterator) × Reader
  | .tracked consumed inner =>
    match inner.readBatch with
    | (.ok (some b), inner) =>
      ((b.iterate (some consumed)).map some, .tracked (consumed + b.size) inner)
    | (.ok none, inner) => (.ok none, .tracked consumed inner)
    | (.error e, inner) => (.error e, .tracked consumed inner)
  | .projected mapping inner =>
    let (r, inner) := inner.readRecords
    (r.map fun it => it.map fun it => it.through (.view mapping), .projected mapping inner)
  | .filtered filter inner =>
    let (r, inner) := inner.readRecords
    (r.map fun it => it.map fun it => it.through (.live filter), .filtered filter inner)
  | reader =>
    match reader.readBatch with
    | (.ok (some b), reader) => ((b.iterate none).map some, reader)
    | (.ok none, reader) => (.ok none, reader)
    | (.error e, reader) => (.error e, reader)

/-- Reads a batch as its columns with its rows; there is none at the end. -/
def readRows (r : Reader) :
    Except Error (Option (List ColumnHeader × List (List Value))) × Reader :=
  match r.readBatch with
  | (.ok (some b), r) => (b.shown.map fun rows => some (b.header, rows), r)
  | (.ok none, r) => (.ok none, r)
  | (.error e, r) => (.error e, r)

/-- Reads a batch as a frame of records with the names of its columns; there is none at the end. -/
def readFrame (r : Reader) : Except Error (Option (List String × List (List Value))) × Reader :=
  match r.readBatch with
  | (.ok (some b), r) => (b.records.map fun records => some (b.recordNames, records), r)
  | (.ok none, r) => (.ok none, r)
  | (.error e, r) => (.error e, r)

/-- Closes a reader, which closes its stream. -/
def close : Reader → Reader
  | .stream batches closings => .stream batches (closings + 1)
  | .tracked consumed inner => .tracked consumed inner.close
  | .reported path inner => .reported path inner.close
  | .conformed names header inner => .conformed names header inner.close
  | .projected mapping inner => .projected mapping inner.close
  | .filtered filter inner => .filtered filter inner.close

/-- How often the stream was closed. -/
def closings : Reader → Nat
  | .stream _ closings => closings
  | .tracked _ inner | .reported _ inner | .conformed _ _ inner | .projected _ inner
  | .filtered _ inner => inner.closings

/-! ## Reading to the end -/

/-- The number of reads until the end. -/
def remaining : Reader → Nat
  | .stream batches _ => batches.length
  | .tracked _ inner | .reported _ inner | .conformed _ _ inner | .projected _ inner
  | .filtered _ inner => inner.remaining

/-- The batches of at most `count` reads, up to the first error. -/
def batchesWithin : (count : Nat) → Reader → List Batch × Option Error
  | 0, _ => ([], none)
  | count + 1, r =>
    match r.readBatch with
    | (.ok none, _) => ([], none)
    | (.error e, _) => ([], some e)
    | (.ok (some b), r) =>
      let (bs, failure) := batchesWithin count r
      (b :: bs, failure)

/-- All batches, up to the first error. -/
def batches (r : Reader) : List Batch × Option Error := r.batchesWithin r.remaining

/-- The rows of at most `count` reads, up to the first error. -/
def rowsWithin : (count : Nat) → Reader → List Row × Option Error
  | 0, _ => ([], none)
  | count + 1, r =>
    match r.readRecords with
    | (.ok none, _) => ([], none)
    | (.error e, _) => ([], some e)
    | (.ok (some it), r) =>
      match (it.drain .ok).1 with
      | (rows, some e) => (rows.map (·.2), some e)
      | (rows, none) =>
        let (more, failure) := rowsWithin count r
        (rows.map (·.2) ++ more, failure)

/-- All rows, up to the first error. -/
def rows (r : Reader) : List Row × Option Error := r.rowsWithin r.remaining

end Reader

end MergeOnRead
