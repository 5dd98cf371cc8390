import MergeOnRead.Read.Intake

/-!
# Batches

A batch is a table in memory: columns with names and types, and rows in order.  Its
records are the rows as they are handed out one by one.  Rows are cut into batches, and
records into blocks, in pieces of one size.

Only the years 1 to 9999 can be handed out.  Other days are possible in a batch; they
are noticed when the rows are shown, and block by block in the records.
-/

namespace MergeOnRead

/-- The pieces of a list, of which only the last one may be shorter than the size.  A size of zero
counts as one. -/
def chunks {α : Type} (size : Nat) (items : List α) : List (List α) :=
  cut items.length items
where
  /-- Cuts at most `count` pieces. -/
  cut : (count : Nat) → List α → List (List α)
    | _, [] => []
    | 0, _ => []
    | count + 1, items => items.take (max 1 size) :: cut count (items.drop (max 1 size))

/-- The name and the type of a column. -/
structure ColumnHeader where
  name : String
  type : ColumnType
  deriving DecidableEq, Repr

instance : Inhabited ColumnHeader := ⟨⟨"", default⟩⟩

/-- The columns that fields are read into. -/
def Field.headers (fields : List Field) : Except TypeError (List ColumnHeader) := do
  let columns ← Field.columns fields
  .ok (columns.map fun c => ⟨c.name, c.type⟩)

/-- A table in memory. -/
structure Batch where
  header : List ColumnHeader
  /-- The rows, each with one value per column. -/
  rows : List (List Value)
  /-- The rows behind these that are held together with them.  They are no part of the batch, but
  items of lists and maps are converted together with all that are held with them. -/
  behind : List (List Value) := []
  deriving DecidableEq, Repr

namespace Batch

instance : Inhabited Batch := ⟨{ header := [], rows := [] }⟩

/-- Puts columns side by side, with a number of rows. -/
def transpose : (count : Nat) → List (List Value) → List (List Value)
  | 0, _ => []
  | count + 1, columns =>
    columns.map (fun c => c.headD .null) :: transpose count (columns.map List.tail)

/-- The batch of rows of values, which are taken into the columns one column after the other. -/
def ofRows (header : List ColumnHeader) (rows : List (List Value)) : Except Error Batch := do
  let columns ← header.zipIdx.mapM fun (h, place) =>
    rows.mapM fun row => h.type.take (row.getD place .null)
  .ok { header, rows := transpose rows.length columns }

/-- The batch of rows of values in the columns of some fields. -/
def ofFields (fields : List Field) (rows : List (List Value)) : Except Error Batch := do
  let header ← liftError .type (Field.headers fields)
  ofRows header rows

/-- The batch of columns of values.  All of them are taken first; columns of different lengths make
no batch. -/
def ofColumns (columns : List (ColumnHeader × List Value)) : Except Error Batch := do
  let values ← columns.mapM fun (h, values) => values.mapM h.type.take
  let count := (values.headD []).length
  if values.all fun c => c.length == count then
    .ok { header := columns.map (·.1), rows := transpose count values }
  else .error .badColumn

/-- The number of rows. -/
def size (b : Batch) : Nat := b.rows.length

/-- The names of the columns. -/
def names (b : Batch) : List String := b.header.map (·.name)

/-! ## Columns -/

/-- The place of a column by index; a negative one counts from the last column. -/
def resolveIndex? (b : Batch) (index : Int) : Option Nat :=
  let n := b.header.length
  if 0 ≤ index then (if index < n then some index.toNat else none)
  else if -index ≤ n then some (n + index).toNat
  else none

/-- The index of the column with a name; `-1` when there is none, or more than one. -/
def indexOf (b : Batch) (name : String) : Int :=
  if b.names.count name = 1 then (b.names.idxOf name : Nat) else -1

/-- The items at some places, in that order. -/
def pick {α : Type} [Inhabited α] (places : List Nat) (xs : List α) : List α :=
  places.map fun i => xs.getD i default

/-- The place of a column by index.  There may be no such column, and a number may be too great for
an index at all. -/
def resolveIndex (b : Batch) (index : Int) : Except Error Nat :=
  if isIndex index then
    match b.resolveIndex? index with
    | some place => .ok place
    | none => .error (.raised .index)
  else .error (.raised .overflow)

/-- The batch of some of the columns.  An index out of range is an error. -/
def select (b : Batch) (indices : List Int) : Except Error Batch := do
  let places ← indices.mapM b.resolveIndex
  .ok { header := pick places b.header, rows := b.rows.map (pick places) }

/-- The values of the column at a place, converted to a type.  Lists and maps are followed by those
that are held behind them. -/
def convertHeld (b : Batch) (place : Nat) (type : ColumnType) : Except Error (List Value) :=
  let source := (b.header.getD place default).type
  let rows := if source.isFlat then b.rows else b.rows ++ b.behind
  source.convertAll type (rows.map fun row => row.getD place .null)

/-- The column of a name, converted to a type; the nulls of a column that has no name.  A name
that is absent or ambiguous stands for the last column. -/
def conformColumn (b : Batch) (name : Option String) (type : ColumnType) :
    Except Error (List Value) :=
  match name with
  | none => .ok (List.replicate b.size .null)
  | some name =>
    match b.resolveIndex? (b.indexOf name) with
    | none => .error (.raised .index)
    | some place => (b.convertHeld place type).map (List.take b.size)

/-- The batch with other columns: each is found by a name, or else null, and converted to the type
that is wanted.  There must be a name for every column; without columns there are no rows. -/
def conform (b : Batch) (names : List (Option String)) (header : List ColumnHeader) :
    Except Error Batch := do
  let columns ← (names.zip header).mapM fun (name, h) => b.conformColumn name h.type
  if names.length < header.length then .error (.raised .value)
  else .ok { header, rows := transpose (if header.isEmpty then 0 else b.size) columns }

/-! ## Rows -/

/-- The rows with some numbers, which are in ascending order. -/
def keep (b : Batch) (numbers : List Nat) : Batch :=
  { header := b.header, rows := keepFrom 0 numbers b.rows }
where
  /-- The rows with some numbers, when the first row has number `i`. -/
  keepFrom : Nat → List Nat → List (List Value) → List (List Value)
    | _, [], _ => []
    | _, _, [] => []
    | i, n :: ns, row :: rows =>
      if n = i then row :: keepFrom (i + 1) ns rows else keepFrom (i + 1) (n :: ns) rows

/-- Rows in which all days can be named. -/
def areDated (rows : List (List Value)) : Bool :=
  rows.all fun row => row.all (Value.every Scalar.isDated)

/-- Rows as they are handed out.  A day that cannot be named is too large for it. -/
def showRows (rows : List (List Value)) : Except Error (List (List Value)) :=
  if areDated rows then .ok rows else .error .overflow

/-- The rows as they are handed out. -/
def shown (b : Batch) : Except Error (List (List Value)) := showRows b.rows

/-- The rows of batches as they are handed out one batch after the other, up to the first batch that
cannot be shown.  The error that ended the batches, if any, comes last. -/
def showAll : List Batch → Option Error → List (List (List Value)) × Option Error
  | [], failure => ([], failure)
  | b :: bs, failure =>
    match b.shown with
    | .error e => ([], some e)
    | .ok rows =>
      let (more, failure) := showAll bs failure
      (rows :: more, failure)

/-- The names that columns have in records: an empty name is replaced by one made of the place. -/
def recordNames (b : Batch) : List String :=
  b.names.zipIdx.map fun (name, place) =>
    if name.isEmpty then "column_" ++ toString place else name

/-- The decoded rows.  Columns with equal names have none, and neither has a batch without
columns. -/
def decoded (b : Batch) : Except Error (List (List Value)) :=
  if b.recordNames.Nodup then
    if b.header.isEmpty then .ok []
    else .ok (b.rows.map fun row => (b.header.zip row).map fun (h, v) => h.type.decode v)
  else .error (.raised .duplicateColumn)

/-- The records of a batch, which are its decoded rows.  A day that cannot be named has no record.
-/
def records (b : Batch) : Except Error (List (List Value)) := do
  let rows ← b.decoded
  if areDated rows then .ok rows else .error (.raised .value)

/-- The number of records that are made at a time. -/
def blockSize : Nat := 512

/-- The records of a batch as far as they can be made one block after the other, and the error that
ends them, if there is one. -/
def recordBlocks (b : Batch) : Except Error (List (List Value) × Option Error) := do
  let rows ← b.decoded
  if areDated rows then .ok (rows, none)
  else .ok (((chunks blockSize rows).takeWhile areDated).flatten, some (.raised .value))

end Batch

end MergeOnRead
