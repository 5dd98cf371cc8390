import MergeOnRead.Read.Batch

/-!
# Streams of batches

A stream is what batch after batch comes to when it is read: a batch, or an error.  An
error ends only the reading of one batch; it is for the reader to go on or to stop.
-/

namespace MergeOnRead

/-- The outcomes of reading batch after batch, until there is none left. -/
abbrev BatchStream := List (Except Error Batch)

namespace BatchStream

/-- What readers of a file report in place of an error: that the file cannot be read when the
system failed, that it holds a malformed row when a value was the reason.  Errors of scans are
reported as they are, and so are all others. -/
def report (path : String) (e : Error) : Error :=
  if e.isScan then e
  else match e.kind with
    | .io => .scan .unreadable (some path)
    | .column | .conversion | .columnType | .value | .type | .endOfFile =>
      .scan (.malformedRow (e.message?.getD DecodeError.foreignText)) (some path)
    | _ => e

end BatchStream

end MergeOnRead
