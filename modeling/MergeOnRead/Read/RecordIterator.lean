import MergeOnRead.Deletes.DeleteFilter

/-!
# Iterators over records

An iterator hands out the records of one batch as rows.  It may know their positions in
the file.  Each record passes the stages of the iterator, which drop the deleted ones
and show the others through views.
-/

namespace MergeOnRead

/-- What a record passes on its way. -/
inductive Stage where
  /-- Deleted rows are dropped. -/
  | live (filter : DeleteFilter)
  /-- Rows are shown through a mapping. -/
  | view (mapping : List Int)

/-- An iterator over records. -/
structure RecordIterator where
  /-- The number of fields of a record. -/
  width : Nat
  /-- The records to come. -/
  pending : List (List Value)
  /-- The error that comes behind them, if there is one. -/
  failure : Option Error
  /-- The position of the last record, if positions are known. -/
  position : Option Int
  stages : List Stage

namespace RecordIterator

/-- The name of an iterator that does not know positions. -/
def untrackedName : String := "InternalRowWrapperIterator"

/-- The position of a row, where it is known. -/
def positionOrError : Option Int → Except Error Int
  | some position => .ok position
  | none => .error (.untracked untrackedName)

/-- The position of the row that was handed out last. -/
def lastPosition (it : RecordIterator) : Except Error Int := positionOrError it.position

/-- Passes a row through stages; none when it is dropped on the way. -/
def pass (position : Option Int) : List Stage → Row → Except Error (Option Row)
  | [], r => .ok (some r)
  | .live filter :: stages, r => do
    let p ← positionOrError position
    if ← liftError .row (filter.isDeleted p r) then .ok none else pass position stages r
  | .view mapping :: stages, r => pass position stages (.view mapping (some r))

/-- The row of a record. -/
def rowOf (width : Nat) (record : List Value) : Row := .window (some record) 0 width

/-- What follows after a position. -/
def following (position : Option Int) : Option Int := position.map (· + 1)

/-- Hands out the next row of some records, and what is left behind it. -/
def advance (width : Nat) (stages : List Stage) : Option Int → List (List Value) →
    Except Error (Option Row) × Option Int × List (List Value)
  | position, [] => (.ok none, position, [])
  | position, record :: records =>
    match pass (following position) stages (rowOf width record) with
    | .error e => (.error e, following position, records)
    | .ok (some r) => (.ok (some r), following position, records)
    | .ok none => advance width stages (following position) records

/-- Hands out the next row.  The error behind the records comes once, and leaves the position as it
is. -/
def next (it : RecordIterator) : Except Error (Option Row) × RecordIterator :=
  let (row, position, pending) := advance it.width it.stages it.position it.pending
  match row, it.failure with
  | .ok none, some e => (.error e, { it with position, pending, failure := none })
  | row, _ => (row, { it with position, pending })

/-- Adds a stage behind the others. -/
def through (it : RecordIterator) (stage : Stage) : RecordIterator :=
  { it with stages := it.stages ++ [stage] }

/-- What is made of the rows that are handed out until the end or until the first error, with their
positions, and what is left behind it. -/
def drainFrom {α : Type} (width : Nat) (stages : List Stage) (visit : Row → Except Error α) :
    Option Int → List (List Value) →
      (List (Option Int × α) × Option Error) × Option Int × List (List Value)
  | position, [] => (([], none), position, [])
  | position, record :: records =>
    match pass (following position) stages (rowOf width record) with
    | .error e => (([], some e), following position, records)
    | .ok none => drainFrom width stages visit (following position) records
    | .ok (some r) =>
      match visit r with
      | .error e => (([], some e), following position, records)
      | .ok a =>
        let ((rest, failure), last) := drainFrom width stages visit (following position) records
        (((following position, a) :: rest, failure), last)

/-- Hands out rows with their positions, until the end or until the first error, and makes something
of each. -/
def drain {α : Type} (it : RecordIterator) (visit : Row → Except Error α) :
    (List (Option Int × α) × Option Error) × RecordIterator :=
  let ((items, failure), position, pending) :=
    drainFrom it.width it.stages visit it.position it.pending
  match failure with
  | some e => ((items, some e), { it with position, pending })
  | none => ((items, it.failure), { it with position, pending, failure := none })

end RecordIterator

/-- An iterator over the records of a batch; `start` is the position of the first one, if it is
known. -/
def Batch.iterate (b : Batch) (start : Option Int) : Except Error RecordIterator := do
  let (records, failure) ← b.recordBlocks
  .ok ⟨b.header.length, records, failure, start.map (· - 1), []⟩

end MergeOnRead
