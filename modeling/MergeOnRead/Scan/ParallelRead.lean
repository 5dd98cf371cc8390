import MergeOnRead.Deletes.CacheCalls
import MergeOnRead.Scan.TableTasks

/-!
# Several tasks at a time

A table that is read as a whole may have its tasks read by several workers.  The tasks stand in a
queue, and a worker that is free takes the first one.  A task gets the indexes of its delete files
one after the other, if they are kept from a cache that all tasks share; then it opens its data
file, and reads one batch after the other.  Steps of different tasks come in any order.

The results are collected in the order of the tasks.  As soon as one of them is an error, nothing
more is collected, and tasks that have not begun may be given up; but the read ends only when no
task is running.

`Table.MayRead` holds of everything that some order of the steps leads to.  One of these orders is
that of rounds, in each of which all tasks go on in turn (`Table.readInRounds`).
-/

namespace MergeOnRead

/-- How far a task has come. -/
inductive TaskPhase where
  | queued
  /-- It was given up before it began. -/
  | cancelled
  /-- It has the indexes of its first delete files. -/
  | loading (indexes : List DeleteIndex)
  /-- It has read some batches, and those of the reader are left. -/
  | reading (reader : Reader) (batches : List Batch)
  | ended (r : Except Error (List Batch))

namespace TaskPhase

def isQueued : TaskPhase → Bool
  | .queued => true
  | .cancelled | .loading _ | .reading _ _ | .ended _ => false

def isRunning : TaskPhase → Bool
  | .loading _ | .reading _ _ => true
  | .queued | .cancelled | .ended _ => false

/-- A task gets its next index. -/
def afterLoad (indexes : List DeleteIndex) : Except Error DeleteIndex → TaskPhase
  | .ok index => .loading (indexes ++ [index])
  | .error e => .ended (.error e)

/-- A task gets its reader. -/
def afterOpen : Except Error Reader → TaskPhase
  | .ok reader => .reading reader []
  | .error e => .ended (.error e)

/-- A task reads its next batch; one without rows is dropped. -/
def afterRead (reader : Reader) (batches : List Batch) : TaskPhase :=
  match reader.readBatch with
  | (.ok none, _) => .ended (.ok batches)
  | (.error e, _) => .ended (.error e)
  | (.ok (some b), reader) => .reading reader (batches ++ if b.size != 0 then [b] else [])

end TaskPhase

/-- What the call has ended with. -/
def CallPhase.answer? {α : Type} : CallPhase α → Option (Except Error α)
  | .served r | .ended _ _ r => some r
  | .looking | .missed | .waiting _ | .loading _ | .loaded _ _ | .settled _ _ => none

/-- A call goes on; when its loader runs, this ends with what it gives. -/
def CacheCalls.proceed {α : Type} (s : CacheCalls α) (key : Nat → Key) (call : Nat)
    (given : Except Error α) : CacheCalls α :=
  match s.phase call with
  | .loading _ => s.step key (.load call given)
  | _ => s.step key (.advance call)

/-- What is read, and by how many workers. -/
structure ReadJob where
  table : Table
  schema : TableSchema
  fields : List Field
  tasks : List ScanTask
  workers : Int

/-- A read of several tasks at a time. -/
structure ParallelRead where
  /-- The calls of the cache, if indexes are kept. -/
  calls : Option (CacheCalls DeleteIndex)
  /-- How far each task has come. -/
  phase : Nat → TaskPhase
  /-- The results of the first tasks. -/
  collected : List (List Batch)
  /-- What the read will end with. -/
  result : Option (Except Error (List Batch))

namespace ParallelRead

/-- All tasks stand in the queue. -/
def start (kept : KeptIndexes) : ParallelRead :=
  ⟨kept.map CacheCalls.start, fun _ => .queued, [], none⟩

/-- A task comes to another phase. -/
def move (s : ParallelRead) (task : Nat) (phase : TaskPhase) : ParallelRead :=
  { s with phase := fun k => if k = task then phase else s.phase k }

end ParallelRead

/-- What may happen next. -/
inductive ReadEvent where
  /-- A worker takes the first task of the queue, if it is free. -/
  | begin
  /-- A task takes its next step, unless it is not running or waits for something. -/
  | advance (task : Nat)
  /-- The next result is collected, if it is there. -/
  | collect
  /-- A task is given up, if it has not begun and an error was collected. -/
  | cancel (task : Nat)

namespace ReadJob

variable (j : ReadJob)

/-- The number of the call by which a task gets the index of one of its delete files. -/
def call (task file : Nat) : Nat := file * j.tasks.length + task

/-- The delete file that a call is about. -/
def fileOf? (call : Nat) : Option DeleteFile :=
  j.tasks[call % j.tasks.length]?.bind fun task => task.deletes[call / j.tasks.length]?

/-- The key of a call. -/
def key (call : Nat) : Key := (j.fileOf? call).elim default (·.cacheKey.key)

/-- A task takes a step to the index of its next delete file. -/
def getIndex (s : ParallelRead) (task : Nat) (f : DeleteFile) (indexes : List DeleteIndex) :
    ParallelRead :=
  let given := f.load j.table.source j.schema
  match s.calls with
  | none => s.move task (.afterLoad indexes given)
  | some calls =>
    let call := j.call task indexes.length
    match (calls.phase call).answer? with
    | some r => s.move task (.afterLoad indexes r)
    | none => { s with calls := some (calls.proceed j.key call given) }

/-- The next step of a task. -/
def advance (s : ParallelRead) (task : Nat) : ParallelRead :=
  match j.tasks[task]?, s.phase task with
  | some t, .loading indexes =>
    match t.deletes[indexes.length]? with
    | some f => j.getIndex s task f indexes
    | none => s.move task (.afterOpen (j.table.readerOver j.schema j.fields t.file indexes))
  | some _, .reading reader batches => s.move task (.afterRead reader batches)
  | _, _ => s

/-- The first task of the queue. -/
def first? (s : ParallelRead) : Option Nat :=
  (List.range j.tasks.length).find? fun k => (s.phase k).isQueued

/-- The number of tasks that are running. -/
def running (s : ParallelRead) : Nat :=
  ((List.range j.tasks.length).filter fun k => (s.phase k).isRunning).length

/-- The first task of the queue begins, unless all workers are busy. -/
def begin (s : ParallelRead) : ParallelRead :=
  match j.first? s with
  | some k => if j.running s < j.workers then s.move k (.loading []) else s
  | none => s

/-- The next result is collected. -/
def collect (s : ParallelRead) : ParallelRead :=
  if s.result.isSome then s
  else if s.collected.length = j.tasks.length then
    { s with result := some (.ok s.collected.flatten) }
  else match s.phase s.collected.length with
    | .ended (.ok bs) => { s with collected := s.collected ++ [bs] }
    | .ended (.error e) => { s with result := some (.error e) }
    | .queued | .cancelled | .loading _ | .reading _ _ => s

/-- A task is given up. -/
def cancel (s : ParallelRead) (task : Nat) : ParallelRead :=
  match s.result with
  | some (.error _) =>
    if task < j.tasks.length ∧ (s.phase task).isQueued then s.move task .cancelled else s
  | some (.ok _) | none => s

/-- One step. -/
def step (s : ParallelRead) : ReadEvent → ParallelRead
  | .begin => j.begin s
  | .advance task => j.advance s task
  | .collect => j.collect s
  | .cancel task => j.cancel s task

/-- Steps in order. -/
def run (s : ParallelRead) (events : List ReadEvent) : ParallelRead := events.foldl j.step s

/-- The result, when the read has ended: no task stands in the queue or is running. -/
def outcome? (s : ParallelRead) : Option (Except Error (List Batch)) :=
  if (List.range j.tasks.length).all fun k => !((s.phase k).isQueued || (s.phase k).isRunning) then
    s.result
  else none

/-! ## Rounds -/

/-- The steps of a round: workers begin with tasks, every task goes on, the next result is
collected, and tasks that have not begun may be given up. -/
def roundEvents : List ReadEvent :=
  let tasks := List.range j.tasks.length
  tasks.map (fun _ => .begin) ++ tasks.map .advance ++ .collect :: tasks.map .cancel

/-- One step, unless a task has opened its data file: then it reads to the end. -/
def turn (s : ParallelRead) (e : ReadEvent) : ParallelRead :=
  match e with
  | .advance task =>
    match s.phase task with
    | .reading reader _ => j.run s (List.replicate (reader.remaining + 1) e)
    | .queued | .cancelled | .loading _ | .ended _ => j.step s e
  | .begin | .collect | .cancel _ => j.step s e

/-- A round. -/
def round (s : ParallelRead) : ParallelRead := j.roundEvents.foldl j.turn s

/-- Goes on for some rounds, until the read has ended. -/
def finish : (rounds : Nat) → ParallelRead → Option (Except Error (List Batch) × ParallelRead)
  | 0, _ => none
  | rounds + 1, s =>
    match j.outcome? s with
    | some r => some (r, s)
    | none => finish rounds (j.round s)

/-- So many rounds are tried.  The call of a delete file takes six steps at most. -/
def rounds : Nat := 6 * (j.tasks.flatMap (·.deletes)).length + 9 * j.tasks.length + 2

/-- Reads all tasks in rounds.  Where tasks wait for ever, so does the read, for which `.blocked`
stands. -/
def finishAll (kept : KeptIndexes) : Except Error (List Batch) × KeptIndexes :=
  match j.finish j.rounds (.start kept) with
  | some (r, s) => (r, s.calls.map (·.cache))
  | none => (.error .blocked, kept)

end ReadJob

/-- What may be read of all tasks, if none fails: one worker reads them in order, and several
workers read them in any order. -/
def Table.MayRead (t : Table) (schema : TableSchema) (fields : List Field)
    (tasks : List ScanTask) (kept : KeptIndexes) (r : Except Error (List Batch)) : Prop :=
  match t.parallelism with
  | .error e => r = .error e
  | .ok workers =>
    let j : ReadJob := ⟨t, schema, fields, tasks, workers⟩
    if workers = 1 ∨ tasks.length ≤ 1 then
      r = (((tasks.mapM (t.readTask schema fields)).run kept).1).map List.flatten
    else ∃ events, j.outcome? (j.run (.start kept) events) = some r

/-- The batches of all tasks, if none fails.  Several workers read them in rounds. -/
def Table.readInRounds (t : Table) (schema : TableSchema) (fields : List Field)
    (tasks : List ScanTask) : Scanning (List Batch) := do
  let workers ← ExceptT.mk (pure t.parallelism)
  if workers = 1 ∨ tasks.length ≤ 1 then t.readAll schema fields tasks
  else (⟨t, schema, fields, tasks, workers⟩ : ReadJob).finishAll

end MergeOnRead
