import MergeOnRead.Read.Reader

/-!
# Sessions with a reader

The batches of a reader may be read in two ways, as tables and as iterators over their records, and
an iterator may be asked for its next row at any time, also after later batches were read and after
a call has failed.  A session is a sequence of such calls, with what each of them gave.
-/

namespace MergeOnRead

/-- An iterator with the answers that it has given so far: each row, and the position that the
iterator stated after it. -/
structure OpenIterator where
  iterator : RecordIterator
  answers : List (Except Error (Option Row) × Except Error Int)

/-- What came of a batch that was read. -/
inductive BatchRead where
  /-- There was none any more. -/
  | nothing
  | failed (e : Error)
  /-- It was read as a table. -/
  | table (b : Batch)
  /-- It was read as an iterator, which is kept. -/
  | records (o : OpenIterator)

/-- A reader with all that was read from it. -/
structure ReadSession where
  reader : Reader
  reads : List BatchRead

/-- What is called next. -/
inductive ReadCall where
  /-- A batch is read as a table. -/
  | table
  /-- A batch is read as an iterator over its records. -/
  | records
  /-- The iterator that an earlier call gave hands out its next row. -/
  | next (read : Nat)

/-- An iterator over records that has not been asked for a row. -/
def RecordIterator.opened (it : RecordIterator) : OpenIterator := ⟨it, []⟩

/-- The iterator is asked for its next row, and then for the position. -/
def OpenIterator.next (o : OpenIterator) : OpenIterator :=
  let (row, iterator) := o.iterator.next
  ⟨iterator, o.answers ++ [(row, iterator.lastPosition)]⟩

namespace BatchRead

/-- What came of a batch, if there was one and nothing failed. -/
def of {α : Type} (wrap : α → BatchRead) : Except Error (Option α) → BatchRead
  | .ok (some a) => wrap a
  | .ok none => .nothing
  | .error e => .failed e

/-- The iterator that is kept, if there is one, is asked for its next row. -/
def next : BatchRead → BatchRead
  | .records o => .records o.next
  | r => r

end BatchRead

namespace ReadSession

/-- Nothing has been read yet. -/
def start (reader : Reader) : ReadSession := ⟨reader, []⟩

/-- One call. -/
def step (s : ReadSession) : ReadCall → ReadSession
  | .table =>
    let (r, reader) := s.reader.readBatch
    ⟨reader, s.reads ++ [.of .table r]⟩
  | .records =>
    let (r, reader) := s.reader.readRecords
    ⟨reader, s.reads ++ [.of (fun it => .records it.opened) r]⟩
  | .next read => { s with reads := s.reads.modify read .next }

/-- Calls in order. -/
def run (s : ReadSession) (calls : List ReadCall) : ReadSession := calls.foldl step s

end ReadSession

end MergeOnRead
