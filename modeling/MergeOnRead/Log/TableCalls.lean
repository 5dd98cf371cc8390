import MergeOnRead.Log.Evolution
import MergeOnRead.Log.TableMemory

/-!
# Calls on one table

The calls of those who write to one table, in the order in which they happen.  Files and schema
changes are collected and committed, and a commit of files that failed may be tried again.  A commit
of a schema change happens in two steps: the number of the current schema is read, and then the
version behind it is committed.  Other calls may come between them.

As in memory, a call that fails leaves what it has written.
-/

namespace MergeOnRead

/-- The metadata of a table, with the changes under way. -/
structure TableSession where
  memory : TableMemory
  /-- The file changes, the first one first. -/
  changes : List FileChange
  /-- The schema changes, the first one first. -/
  updates : List SchemaChange
  /-- The versions that are about to be committed, in the order in which they were made. -/
  proposals : List TableSchema

/-- What is called. -/
inductive TableCall where
  | begin (kind : CommitKind)
  | addData (number : Nat) (file : DataFile)
  | addDeletes (number : Nat) (file : DeleteFile)
  /-- The file change with a number is committed. -/
  | commit (number : Nat)
  | beginUpdate
  | collect (number : Nat) (change : ColumnChange)
  /-- The schema change with a number reads which schema is current, and makes its version. -/
  | propose (number : Nat)
  /-- The version that was made with a number is committed. -/
  | commitProposal (number : Nat)
  | commitSchema (schema : TableSchema)

namespace TableSession

variable {α : Type}

/-- A table with one schema. -/
def start (schema : TableSchema) : TableSession := ⟨.start schema, [], [], []⟩

/-- Runs a program on the metadata. -/
def onMemory (program : Writing TableMemory α) : Writing TableSession α := fun s =>
  let (r, memory) := program s.memory
  (r, { s with memory })

/-- Commits the files of a change, which then knows its snapshot. -/
def commit (number : Nat) : Writing TableSession Unit := do
  if let some c := (← get).changes[number]? then
    if c.committed.isSome then throw (.log .alreadyCommitted)
    let snapshot ← onMemory (TableMemory.commitFiles c.kind c.data c.deletes)
    modify fun s =>
      { s with changes := s.changes.modify number fun c => { c with committed := some snapshot } }

/-- Makes the version of a schema change that is to be committed.  Without changes there is none. -/
def propose (number : Nat) : Writing TableSession Unit := do
  if let some c := (← get).updates[number]? then
    if c.changed then
      let current ← (← get).memory.schema
      modify fun s => { s with proposals := s.proposals ++ [c.proposal current] }

/-- Collects one more change of a schema. -/
def collect (number : Nat) (change : ColumnChange) : Writing TableSession Unit := do
  if let some c := (← get).updates[number]? then
    let c ← c.collect change
    modify fun s => { s with updates := s.updates.set number c }

/-- One call. -/
def perform : TableCall → Writing TableSession Unit
  | .begin kind => modify fun s => { s with changes := s.changes ++ [{ kind }] }
  | .addData number file =>
    modify fun s => { s with changes := s.changes.modify number (·.addData file) }
  | .addDeletes number file =>
    modify fun s => { s with changes := s.changes.modify number (·.addDeletes file) }
  | .commit number => commit number
  | .beginUpdate => do
    let current ← (← get).memory.schema
    modify fun s => { s with updates := s.updates ++ [⟨current, false⟩] }
  | .collect number change => collect number change
  | .propose number => propose number
  | .commitProposal number => do
    if let some schema := (← get).proposals[number]? then
      discard (onMemory (TableMemory.commitSchema schema))
  | .commitSchema schema => discard (onMemory (TableMemory.commitSchema schema))

/-- The table after a call, whether it failed or not. -/
def step (s : TableSession) (call : TableCall) : TableSession := (perform call s).2

/-- Calls in order. -/
def run (s : TableSession) (calls : List TableCall) : TableSession := calls.foldl step s

end TableSession

end MergeOnRead
