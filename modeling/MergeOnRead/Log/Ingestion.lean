import MergeOnRead.Log.Change

/-!
# File changes side by side

Several changes of files can be under way on one table.  Files are added to them one after
the other, and each is committed in the end, perhaps after attempts that failed.  The steps of
different changes may come in any order, and new versions of the schema may be committed
between them.
-/

namespace MergeOnRead

/-- A table with the file changes under way, the first one first. -/
structure Ingestion where
  log : TableLog
  changes : List FileChange

/-- A step of one of the file changes, or a commit of a schema. -/
inductive FileStep where
  | begin (kind : CommitKind)
  | addData (number : Nat) (file : DataFile)
  | addDeletes (number : Nat) (file : DeleteFile)
  | commit (number : Nat)
  | commitSchema (schema : TableSchema)

/-- A commit of files that went through: the number of the change, the change as it was then, and
the schema that was current. -/
structure FileCommit where
  number : Nat
  change : FileChange
  schema : TableSchema

namespace Ingestion

/-- A table with one schema. -/
def start (schema : TableSchema) : Ingestion := ⟨.start schema, []⟩

/-- One step.  A step that fails changes nothing. -/
def step (w : Ingestion) : FileStep → Ingestion
  | .begin kind => { w with changes := w.changes ++ [{ kind }] }
  | .addData number file =>
    { w with changes := w.changes.modify number (·.addData file) }
  | .addDeletes number file =>
    { w with changes := w.changes.modify number (·.addDeletes file) }
  | .commit number =>
    match w.changes[number]? with
    | none => w
    | some c =>
      match c.commit w.log with
      | .error _ => w
      | .ok (_, c, log) => ⟨log, w.changes.set number c⟩
  | .commitSchema schema =>
    match w.log.commitSchema schema with
    | .error _ => w
    | .ok log => { w with log }

/-- Steps in order. -/
def run (w : Ingestion) (steps : List FileStep) : Ingestion := steps.foldl step w

/-- The commit of files that a step makes, if it makes one. -/
def commit? (w : Ingestion) : FileStep → Option FileCommit
  | .commit number =>
    match w.changes[number]? with
    | none => none
    | some c =>
      match c.commit w.log with
      | .error _ => none
      | .ok _ => some ⟨number, c, w.log.schema⟩
  | _ => none

/-- The commits of files that steps make, in order. -/
def commits : Ingestion → List FileStep → List FileCommit
  | _, [] => []
  | w, e :: steps => (w.commit? e).toList ++ commits (w.step e) steps

end Ingestion

end MergeOnRead
