import MergeOnRead.Log.Change

/-!
# Schema changes side by side

Several schema changes can be under way on one table.  Each begins with the schema that
is current at that time, collects its changes step by step, and is committed in the end
or now and then.  The steps of different changes may come in any order.
-/

namespace MergeOnRead

/-- One change of one column. -/
inductive ColumnChange where
  /-- The column becomes nullable. -/
  | relax (name : String)
  | add (name : String) (type : DataType)

/-- Collects one more change. -/
def SchemaChange.collect (c : SchemaChange) : ColumnChange → Except Error SchemaChange
  | .relax name => c.makeColumnOptional name
  | .add name type => c.addColumn name type

/-- A schema change under way. -/
structure SchemaUpdate where
  /-- The schema that it began with. -/
  base : TableSchema
  /-- What is to be committed. -/
  draft : SchemaChange
  /-- The changes that it has collected, the latest first. -/
  made : List ColumnChange

/-- Begins with the current schema. -/
def SchemaUpdate.start (log : TableLog) : SchemaUpdate := ⟨log.schema, .start log, []⟩

/-- A table with the schema changes under way, the first one first. -/
structure Evolution where
  log : TableLog
  updates : List SchemaUpdate

/-- A step of one of the schema changes. -/
inductive SchemaStep where
  | begin
  /-- The schema change with a number collects a change of a column. -/
  | collect (number : Nat) (change : ColumnChange)
  | commit (number : Nat)

namespace Evolution

/-- A table with one schema. -/
def start (schema : TableSchema) : Evolution := ⟨.start schema, []⟩

/-- One step.  A step that fails changes nothing. -/
def step (s : Evolution) : SchemaStep → Evolution
  | .begin => { s with updates := s.updates ++ [.start s.log] }
  | .collect number change =>
    match s.updates[number]? with
    | none => s
    | some u =>
      match u.draft.collect change with
      | .error _ => s
      | .ok draft =>
        { s with updates := s.updates.set number { u with draft, made := change :: u.made } }
  | .commit number =>
    match s.updates[number]? with
    | none => s
    | some u =>
      match u.draft.commit s.log with
      | .error _ => s
      | .ok (_, log) => { s with log }

/-- Steps in order. -/
def run (s : Evolution) (steps : List SchemaStep) : Evolution := steps.foldl step s

/-- Something holds of every step of a run, and of the state in which the step is taken. -/
def Always (P : Evolution → SchemaStep → Prop) : Evolution → List SchemaStep → Prop
  | _, [] => True
  | s, e :: steps => P s e ∧ Always P (s.step e) steps

end Evolution

end MergeOnRead
