import MergeOnRead.Log.Evolution
import MergeOnRead.Log.Ingestion

/-!
# Tables in upkeep

Files and schema changes are committed to one table.  The file changes under way take their steps
beside the schema changes under way, and each kind sees what the other one has committed.
-/

namespace MergeOnRead

/-- A table with the changes under way. -/
structure Upkeep where
  log : TableLog
  changes : List FileChange
  updates : List SchemaUpdate

/-- A step of a file change or of a schema change. -/
inductive UpkeepStep where
  | begin (kind : CommitKind)
  | addData (number : Nat) (file : DataFile)
  | addDeletes (number : Nat) (file : DeleteFile)
  | commit (number : Nat)
  | schema (e : SchemaStep)

namespace Upkeep

/-- A table with one schema. -/
def start (schema : TableSchema) : Upkeep := ⟨.start schema, [], []⟩

/-- The table with its file changes. -/
def files (w : Upkeep) : Ingestion := ⟨w.log, w.changes⟩

/-- The table with its schema changes. -/
def schemas (w : Upkeep) : Evolution := ⟨w.log, w.updates⟩

/-- A step of a file change. -/
def stepFiles (w : Upkeep) (e : FileStep) : Upkeep :=
  let files := w.files.step e
  { w with log := files.log, changes := files.changes }

/-- A step of a schema change. -/
def stepSchemas (w : Upkeep) (e : SchemaStep) : Upkeep :=
  let schemas := w.schemas.step e
  { w with log := schemas.log, updates := schemas.updates }

/-- One step.  A step that fails changes nothing. -/
def step (w : Upkeep) : UpkeepStep → Upkeep
  | .begin kind => w.stepFiles (.begin kind)
  | .addData number file => w.stepFiles (.addData number file)
  | .addDeletes number file => w.stepFiles (.addDeletes number file)
  | .commit number => w.stepFiles (.commit number)
  | .schema e => w.stepSchemas e

/-- Steps in order. -/
def run (w : Upkeep) (steps : List UpkeepStep) : Upkeep := steps.foldl step w

/-- Schema changes are committed in turn: only the one that was begun last is committed, so that
the one before it was committed before, or never will be. -/
def InTurn : Upkeep → List UpkeepStep → Prop
  | _, [] => True
  | w, e :: steps =>
    (∀ number, e = .schema (.commit number) → w.updates.length ≤ number + 1) ∧
      InTurn (w.step e) steps

end Upkeep

end MergeOnRead
