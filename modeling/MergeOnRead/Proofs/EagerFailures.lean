import MergeOnRead.Proofs.FailingStreams
import MergeOnRead.Proofs.Preparation

/-!
# Failures are eager

A task fails while it is prepared, when its data file is opened, or while this is read
(`Table.FailsAt`).  Then reading rows ends with the error, behind the live rows of all tasks before
and, if the data file could be opened, some first live rows of the task itself; and reading the
table gives nothing but the same error (`Table.reads_or_ends`).  Until a task is prepared nobody
asks for its data file, and nobody asks for what comes behind it.

Strategy:

* `readerOver_outcome` is the step for one task that is opened: both ways come to its end, or both
  fail with one error (`Scan.Layers.Over.drains_or_fails`);
* `ReadsBoth` is what carries through the tasks before a failure, and `readsBoth_or_splits` finds
  the first one that fails;
* `readInOrder_append_run` and `readTable_run_of_fails` put the tasks before it and the failure
  together.

Rows are handed out through records, batches are not, so they fail alike only where all rows have
records (`Table.failsUnevenly_tornTables`).

One of the failures is a wait without an end: `.blocked` says that the build of an index is pending
and nobody goes on with it.  Where no build is pending at first and there is room for an entry,
nobody waits (`Table.loadIndex_run`).
-/

namespace MergeOnRead

/-- Steps that are the same for all items lead to the same results. -/
theorem Scanning.Runs.congr {α β : Type} {f g : α → Scanning β} {kept last : KeptIndexes}
    {xs : List α} {ys : List β} (h : Runs f kept xs ys last) (hsame : ∀ x ∈ xs, g x = f x) :
    Runs g kept xs ys last := by
  induction h with
  | nil => exact .nil
  | cons hfirst hrest ih =>
      refine .cons ?_ (ih fun x hx => hsame x (List.mem_cons_of_mem _ hx))
      rw [hsame _ (List.mem_cons_self ..), hfirst]

/-- A source hands out the rows of a file in order, whichever columns are opened and in whatever
batches, as far as no batch fails. -/
def RowSource.Begins (source : RowSource) (file : DataFile) (s : StoredRows) : Prop :=
  ∀ columns stream, columns.Nodup → columns ≠ [] →
    source file.path file.format columns = .ok stream → s.Begins columns 0 stream

namespace Table

variable {α : Type} {t u : Table} {schema : TableSchema} {fields : List Field} {task : ScanTask}
  {tasks before after : List ScanTask} {stored : DataFile → StoredRows}
  {kept mid last : KeptIndexes} {indexes : List DeleteIndex} {reader : Reader} {e : Error}
  {read : Reader → List α × Option Error}

/-! ## Tasks one after another -/

/-- Behind tasks that are read, reading goes on. -/
theorem readInOrder_append_run {parts : List (List α)}
    (h : Scanning.Runs (t.readWith schema fields read) kept before parts mid) :
    (t.readInOrder schema fields read (before ++ tasks)).run kept =
      (((parts.flatten ++ ((t.readInOrder schema fields read tasks).run mid).1.1),
        ((t.readInOrder schema fields read tasks).run mid).1.2),
        ((t.readInOrder schema fields read tasks).run mid).2) := by
  induction h with
  | nil => rfl
  | cons hfirst hrest ih =>
      obtain ⟨reader, hreader, hpart⟩ := readWith_run_eq_ok_iff.1 hfirst
      rw [List.cons_append, readInOrder_cons_run]
      simp only [hreader, hpart, ih, List.flatten_cons, List.append_assoc]

theorem readWith_run_eq_error_iff :
    (t.readWith schema fields read task).run kept = (.error e, last) ↔
      (t.taskReader schema fields task).run kept = (.error e, last) ∨
        ∃ reader, (t.taskReader schema fields task).run kept = (.ok reader, last) ∧
          (read reader).2 = some e := by
  rw [readWith, Scanning.run_bind_eq_error_iff]
  refine or_congr_right (exists_congr fun reader => ?_)
  simp only [Scanning.run_result_eq_error_iff]
  obtain ⟨found, failure⟩ := read reader
  cases failure <;> simp [and_comm]

/-- When tasks are read one at a time, the error is that of the first one that fails. -/
theorem readTable_run_of_fails {workers : Int} {parts : List (List Batch)}
    (hworkers : t.parallelism = .ok workers)
    (hone : workers = 1 ∨ (before ++ task :: after).length ≤ 1)
    (hruns : Scanning.Runs (t.readTask schema fields) kept before parts mid)
    (hfails : (t.readTask schema fields task).run mid = (.error e, last)) :
    (t.readTable schema fields (before ++ task :: after)).run kept = (.error e, last) := by
  have hread : ((before ++ task :: after).mapM (t.readTask schema fields)).run kept =
      (.error e, last) :=
    Scanning.run_mapM_eq_error_iff.2 ⟨before, task, after, parts, mid, rfl, hruns, hfails⟩
  refine Scanning.run_bind_of_error ?_
  rw [readAll, Scanning.run_bind_of_ok (Scanning.run_result_eq_ok_iff.2 ⟨hworkers, rfl⟩),
    if_pos hone]
  exact Scanning.run_bind_of_error hread

/-! ## What tasks rely on -/

/-- What a task relies on: its delete files are in order; as far as its data file can be read, the
rows of it are handed out, and they have records; and position deletes reach all of them. -/
structure Offers (t : Table) (schema : TableSchema) (fields : List Field)
    (stored : DataFile → StoredRows) (task : ScanTask) : Prop where
  checked : ∀ f ∈ task.deletes, f.check = .ok f
  begins : t.source.Begins task.file (stored task.file)
  fileNames : ∀ s, t.log.schemaById task.file.schemaId = .ok s → s.fieldNames.Nodup
  names : ∀ all,
    Scan.readFields schema task.file.path fields (task.deletes.flatMap (·.fieldIds)) = .ok all →
      (all.map (·.name)).Nodup
  recorded : ∀ all s,
    Scan.readFields schema task.file.path fields (task.deletes.flatMap (·.fieldIds)) = .ok all →
      t.log.schemaById task.file.schemaId = .ok s →
        (stored task.file).IsRecorded (task.deletes.flatMap (·.fieldIds)) s.fields all
  within : (∃ f ∈ task.deletes, f.content = .positionDeletes) →
    (stored task.file).count ≤ DeleteFilter.positionLimit

/-- The rows that some indexes leave of a task, in the order of its data file, each with its cells
for the fields that are asked for. -/
def liveOf (t : Table) (schema : TableSchema) (fields : List Field)
    (stored : DataFile → StoredRows) (job : ScanTask × List DeleteIndex) : List (List Value) :=
  match t.log.schemaById job.1.file.schemaId with
  | .ok fileSchema =>
    ((stored job.1.file).liveFrom job.2 job.1.file.path schema fileSchema.fields 0).map
      ((stored job.1.file).cells fileSchema.fields fields)
  | .error _ => []

/-- With the indexes that its delete files give anew, the live rows of a task are left. -/
theorem liveOf_eq_liveRows (hloads : task.deletes.mapM (·.load t.source schema) = .ok indexes) :
    t.liveOf schema fields stored (task, indexes) = t.liveRows schema fields stored task := by
  rw [liveOf, liveRows, hloads]
  cases t.log.schemaById task.file.schemaId <;> rfl

theorem flatMap_fieldIds_of_fits {fs : List DeleteFile}
    (h : List.Forall₂ (fun f i => DeleteIndex.Fits f i) fs indexes) :
    indexes.flatMap (·.fieldIds) = fs.flatMap (·.fieldIds) := by
  induction h with
  | nil => rfl
  | cons hfirst hrest ih => rw [List.flatMap_cons, List.flatMap_cons, hfirst.fieldIds, ih]

section Task

variable {projection : Option (List String)} (hids : schema.fieldIds.Nodup)
  (hfields : schema.fields ≠ []) (hmax : schema.fields.length ≤ maxIndex)
  (hproject : schema.project projection = .ok fields)
include hids hfields hmax hproject

section Opened

variable (htask : t.Offers schema fields stored task)
  (hfits : List.Forall₂ (fun f i => DeleteIndex.Fits f i) task.deletes indexes)
include htask hfits

/-- Both ways of reading a task that is opened come to its end and give what is left of it, or both
fail with the same error. -/
theorem readerOver_outcome (hreader : t.readerOver schema fields task.file indexes = .ok reader) :
    (∃ rows bs, reader.rows = (rows, none) ∧ liveBatches reader = (bs, none) ∧
      rows.map Row.toList = (t.liveOf schema fields stored (task, indexes)).map .ok) ∨
    ∃ rows bs e part, reader.rows = (rows, some e) ∧ liveBatches reader = (bs, some e) ∧
      rows.map Row.toList = part.map .ok ∧
        part <+: t.liveOf schema fields stored (task, indexes) := by
  obtain ⟨all, fileSchema, columns, stream, l, hopens, rfl⟩ := readerOver_eq_ok_iff.1 hreader
  have hresolved := hopens.resolved
  rw [flatMap_fieldIds_of_fits hfits] at hresolved
  -- A file of the task that is not one of position deletes is one of equality deletes, with ids.
  have hkeyed : ∀ index ∈ indexes, index.isPosition = false → index.fieldIds ≠ [] := by
    intro index hindex hposition
    obtain ⟨f, hf, hfit⟩ := exists_mem_of_forall₂ hfits hindex
    have hcheck := htask.checked f hf
    rw [hfit.fieldIds]
    intro hnone
    cases hcontent : f.content with
    | data => simp [DeleteFile.check, hcontent] at hcheck
    | positionDeletes => simp [hfit.isPosition.2 hcontent] at hposition
    | equalityDeletes => simp [DeleteFile.check, hcontent, hnone] at hcheck
  have hreaches : l.filter.positions = none ∨
      (stored task.file).count ≤ DeleteFilter.positionLimit := by
    by_cases hpositions : ∃ f ∈ task.deletes, f.content = .positionDeletes
    · exact .inr (htask.within hpositions)
    · refine .inl ?_
      obtain ⟨check, -, hcreate⟩ := hopens.filter
      obtain ⟨groups, -, hfilter⟩ := DeleteFilter.create_eq_ok hcreate
      rw [hfilter]
      refine DeleteFilter.mergePositions_eq_none fun index hindex => ?_
      obtain ⟨f, hf, hfit⟩ := exists_mem_of_forall₂ hfits hindex
      cases index with
      | positions path vectors => exact absurd ⟨f, hf, hfit.isPosition.1 rfl⟩ hpositions
      | equalities path ids keys => rfl
  obtain ⟨hidden, rfl, hnodup, hover⟩ := hopens.over_of_reaches hids hfields hmax hproject
    (htask.fileNames _ hopens.known) (htask.names _ hresolved) hreaches
  have hrecorded : (stored task.file).IsRecorded (indexes.flatMap (·.fieldIds)) fileSchema.fields
      (fields ++ hidden) := by
    rw [flatMap_fieldIds_of_fits hfits]
    exact htask.recorded _ _ hresolved hopens.known
  have hlive : t.liveOf schema fields stored (task, indexes) =
      ((stored task.file).liveFrom indexes task.file.path schema fileSchema.fields 0).map
        ((stored task.file).cells fileSchema.fields fields) := by
    rw [liveOf, hopens.known]
  have hbegins := htask.begins columns stream hover.distinct hover.opened hopens.opened
  rw [liveBatches, Reader.rows, Reader.batches, Scan.Layers.remaining_reader, hlive]
  rcases hover.drains_or_fails hnodup hkeyed hrecorded hbegins with
    ⟨rows, ds, hdrains, hreads⟩ | ⟨rows, e, hfails⟩
  · left
    rw [Scan.Layers.rowsWithin_reader_iff.2 hdrains, Scan.Layers.batchesWithin_reader_iff.2 hreads]
    obtain ⟨hrows, -, -⟩ :=
      hover.rows_and_batches (hbegins.delivers hreads.exists_ok) hdrains hreads
    exact ⟨rows, _, rfl, rfl, by rw [hrows, List.map_map]; rfl⟩
  · right
    obtain ⟨ds, hds⟩ := Scan.Layers.batchesWithin_of_fails hfails
    obtain ⟨part, hpart, hprefix⟩ := hover.prefix_of_fails hbegins hfails
    rw [Scan.Layers.rowsWithin_of_fails hfails, hds]
    exact ⟨rows, _, e, part, rfl, rfl, hpart, hprefix⟩

end Opened

end Task

/-! ## How a task fails -/

/-- What is done with a task when it fails. -/
inductive Stage where
  | preparing
  | opening
  | reading

/-- A task fails at a stage: it cannot be prepared, or its data file cannot be opened then, or one
of the ways to read this fails. -/
inductive FailsAt (t : Table) (schema : TableSchema) (fields : List Field) (task : ScanTask) :
    KeptIndexes → Stage → Error → KeptIndexes → Prop where
  | unprepared {kept last : KeptIndexes} {e : Error} :
      t.Unprepared schema fields task kept e last →
        FailsAt t schema fields task kept .preparing e last
  | unopened {kept last : KeptIndexes} {p : Scan.Prepared} {e : Error} :
      (t.prepare schema fields task).run kept = (.ok p, last) →
        t.openPrepared fields task.file p = .error e →
          FailsAt t schema fields task kept .opening e last
  | unread {kept last : KeptIndexes} {reader : Reader} {e : Error} :
      (t.taskReader schema fields task).run kept = (.ok reader, last) →
        reader.rows.2 = some e ∨ reader.batches.2 = some e →
          FailsAt t schema fields task kept .reading e last

theorem taskReader_run_eq_error_iff :
    (t.taskReader schema fields task).run kept = (.error e, last) ↔
      t.FailsAt schema fields task kept .preparing e last ∨
        t.FailsAt schema fields task kept .opening e last := by
  rw [taskReader_eq, Scanning.run_bind_eq_error_iff, prepare_run_eq_error_iff]
  simp only [Scanning.run_result_eq_error_iff]
  constructor
  · rintro (h | ⟨p, mid, hp, hopen, rfl⟩)
    · exact .inl (.unprepared h)
    · exact .inr (.unopened hp hopen)
  · rintro (h | h)
    · cases h with
      | unprepared h => exact .inl h
    · cases h with
      | unopened hp hopen => exact .inr ⟨_, _, hp, hopen, rfl⟩

variable {stage : Stage}

/-- Another table says the same about some tasks, and about another one as far as it comes to a
stage: of a task that cannot be prepared only the delete files count. -/
structure SameUpTo (t u : Table) (before : List ScanTask) (task : ScanTask) (stage : Stage) :
    Prop where
  log : u.log = t.log
  checksBounds : u.checksBounds = t.checksBounds
  parallelism : u.parallelism = t.parallelism
  deletes : ∀ other ∈ before ++ [task], ∀ f ∈ other.deletes,
    t.source.OpensAlike u.source f.path f.format
  files : ∀ other ∈ before, t.source.OpensAlike u.source other.file.path other.file.format
  file : stage ≠ .preparing → t.source.OpensAlike u.source task.file.path task.file.format

namespace SameUpTo

theorem refl (t : Table) (before : List ScanTask) (task : ScanTask) (stage : Stage) :
    t.SameUpTo t before task stage :=
  ⟨rfl, rfl, rfl, fun _ _ _ _ _ => rfl, fun _ _ _ => rfl, fun _ _ => rfl⟩

variable (h : t.SameUpTo u before task stage)
include h

theorem prepare_eq {other : ScanTask} (hother : other ∈ before ++ [task]) :
    u.prepare schema fields other = t.prepare schema fields other :=
  prepare_congr h.checksBounds (h.deletes other hother)

theorem taskReader_eq_of_mem {other : ScanTask} (hother : other ∈ before) :
    u.taskReader schema fields other = t.taskReader schema fields other := by
  rw [taskReader_eq, taskReader_eq, h.prepare_eq (List.mem_append_left _ hother),
    openPrepared_congr h.log (h.files other hother)]

/-- A task fails the same way. -/
theorem taskReader_run_eq (hfails : t.FailsAt schema fields task kept stage e last) :
    (u.taskReader schema fields task).run kept = (t.taskReader schema fields task).run kept := by
  have hprepare : u.prepare schema fields task = t.prepare schema fields task :=
    h.prepare_eq (List.mem_append_right before (List.mem_singleton_self task))
  rw [taskReader_eq, taskReader_eq, hprepare]
  cases stage with
  | preparing =>
      cases hfails with
      | unprepared hfails =>
          have hrun := prepare_run_eq_error_iff.2 hfails
          rw [Scanning.run_bind_of_error hrun, Scanning.run_bind_of_error hrun]
  | opening | reading => rw [openPrepared_congr h.log (h.file nofun)]

end SameUpTo

/-! ## One task -/

section Tasks

variable {projection : Option (List String)} (hids : schema.fieldIds.Nodup)
  (hfields : schema.fields ≠ []) (hmax : schema.fields.length ≤ maxIndex)
  (hproject : schema.project projection = .ok fields)
include hids hfields hmax hproject

/-- The outcome of a task that gets a reader. -/
theorem taskReader_outcome (htask : t.Offers schema fields stored task) (hkept : KeepsGiven kept)
    (hreader : (t.taskReader schema fields task).run kept = (.ok reader, last)) :
    KeepsGiven last ∧
      ((∃ rows bs, reader.rows = (rows, none) ∧ liveBatches reader = (bs, none) ∧
        rows.map Row.toList =
          ((t.loaded schema kept [task]).flatMap (t.liveOf schema fields stored)).map .ok) ∨
      ∃ rows bs e part, reader.rows = (rows, some e) ∧ liveBatches reader = (bs, some e) ∧
        rows.map Row.toList = part.map .ok ∧
          part <+: (t.loaded schema kept [task]).flatMap (t.liveOf schema fields stored)) := by
  obtain ⟨indexes, hindexes, hover⟩ := taskReader_run_eq_ok_iff.1 hreader
  obtain ⟨hfits, hlast⟩ := hkept.of_loadIndexes htask.checked hindexes
  have hloaded : (t.loaded schema kept [task]).flatMap (t.liveOf schema fields stored) =
      t.liveOf schema fields stored (task, indexes) := by
    simp [loaded, hindexes]
  rw [hloaded]
  exact ⟨hlast, readerOver_outcome hids hfields hmax hproject htask hfits hover⟩

/-- A task that fails ends both ways of reading it with the same error. -/
theorem FailsAt.outcome (htask : t.Offers schema fields stored task) (hkept : KeepsGiven kept)
    (h : t.FailsAt schema fields task kept stage e last) :
    ∃ rows part, rows.map Row.toList = part.map .ok ∧
      part <+: (t.loaded schema kept [task]).flatMap (t.liveOf schema fields stored) ∧
      (stage ≠ .reading → part = []) ∧
      ∀ u : Table, (u.taskReader schema fields task).run kept =
        (t.taskReader schema fields task).run kept →
          (∀ after, (u.rows schema fields (task :: after)).run kept = ((rows, some e), last)) ∧
          (u.readTask schema fields task).run kept = (.error e, last) := by
  have hunread : (t.taskReader schema fields task).run kept = (.error e, last) →
      ∀ u : Table, (u.taskReader schema fields task).run kept =
        (t.taskReader schema fields task).run kept →
          (∀ after, (u.rows schema fields (task :: after)).run kept = (([], some e), last)) ∧
          (u.readTask schema fields task).run kept = (.error e, last) := by
    intro herror u hu
    rw [herror] at hu
    refine ⟨fun after => ?_, ?_⟩
    · rw [rows, readInOrder_cons_run, hu]
    · rw [readTask_eq]
      exact readWith_run_eq_error_iff.2 (.inl hu)
  cases stage with
  | preparing =>
      have herror := taskReader_run_eq_error_iff.2 (.inl h)
      exact ⟨[], [], rfl, List.nil_prefix, fun _ => rfl, hunread herror⟩
  | opening =>
      have herror := taskReader_run_eq_error_iff.2 (.inr h)
      exact ⟨[], [], rfl, List.nil_prefix, fun _ => rfl, hunread herror⟩
  | reading =>
      cases h with
      | @unread _ reader _ hreader hfails =>
      have hbatches : reader.batches.2 = (liveBatches reader).2 := by
        rw [liveBatches]
      obtain ⟨-, ⟨rows, bs, hrows, hbs, -⟩ | ⟨rows, bs, e', part, hrows, hbs, hpart, hprefix⟩⟩ :=
        taskReader_outcome hids hfields hmax hproject htask hkept hreader
      · rw [hbatches, hrows, hbs] at hfails
        rcases hfails with hfails | hfails <;> cases hfails
      · obtain rfl : e' = e := by
          rw [hbatches, hrows, hbs] at hfails
          rcases hfails with hfails | hfails <;> exact Option.some.inj hfails
        refine ⟨rows, part, hpart, hprefix, fun hne => absurd rfl hne, fun u hu => ?_⟩
        rw [hreader] at hu
        refine ⟨fun after => ?_, ?_⟩
        · rw [Table.rows, readInOrder_cons_run, hu]
          simp only [hrows]
        · rw [readTask_eq]
          exact readWith_run_eq_error_iff.2 (.inr ⟨reader, hu, by rw [hbs]⟩)

end Tasks

/-! ## All tasks -/

/-- Tasks are read both ways without an error, and give the rows that are left of them. -/
structure ReadsBoth (t : Table) (schema : TableSchema) (fields : List Field)
    (stored : DataFile → StoredRows) (kept : KeptIndexes) (tasks : List ScanTask)
    (last : KeptIndexes) : Prop where
  rows : ∃ parts, Scanning.Runs (t.readWith schema fields Reader.rows) kept tasks parts last ∧
    parts.flatten.map Row.toList =
      ((t.loaded schema kept tasks).flatMap (t.liveOf schema fields stored)).map .ok
  batches : ∃ parts, Scanning.Runs (t.readTask schema fields) kept tasks parts last
  given : KeepsGiven last

theorem ReadsBoth.nil (h : KeepsGiven kept) : t.ReadsBoth schema fields stored kept [] kept :=
  ⟨⟨[], .nil, rfl⟩, ⟨[], .nil⟩, h⟩

theorem ReadsBoth.cons (hfirst : t.ReadsBoth schema fields stored kept [task] mid)
    (hrest : t.ReadsBoth schema fields stored mid tasks last) :
    t.ReadsBoth schema fields stored kept (task :: tasks) last := by
  obtain ⟨parts, hparts, hlive⟩ := hfirst.rows
  obtain ⟨more, hmore, hrestLive⟩ := hrest.rows
  obtain ⟨batchParts, hbatches⟩ := hfirst.batches
  obtain ⟨moreBatches, hmoreBatches⟩ := hrest.batches
  cases hparts with
  | cons hpart hnone =>
  cases hnone
  cases hbatches with
  | cons hbatch hnone =>
  cases hnone
  obtain ⟨reader, hreader, -⟩ := readWith_run_eq_ok_iff.1 hpart
  obtain ⟨indexes, hindexes, -⟩ := taskReader_run_eq_ok_iff.1 hreader
  refine ⟨⟨_, .cons hpart hmore, ?_⟩, ⟨_, .cons hbatch hmoreBatches⟩, hrest.given⟩
  simp only [loaded, hindexes, List.flatMap_cons, List.flatMap_nil, List.append_nil,
    List.flatten_cons, List.flatten_nil, List.map_append] at hlive ⊢
  rw [hlive, hrestLive]

/-- Where reading breaks off: some tasks are read, and leave a state behind in which the next task
fails. -/
structure Failure where
  before : List ScanTask
  kept : KeptIndexes
  task : ScanTask
  stage : Stage
  error : Error
  last : KeptIndexes

/-- Reading tasks breaks off. -/
structure SplitsAt (t : Table) (schema : TableSchema) (fields : List Field)
    (tasks : List ScanTask) (kept : KeptIndexes) (x : Failure) : Prop where
  tasks : ∃ after, tasks = x.before ++ x.task :: after
  before : ∃ rows, (t.rows schema fields x.before).run kept = ((rows, none), x.kept)
  fails : t.FailsAt schema fields x.task x.kept x.stage x.error x.last

/-- Reading tasks ends with the error of the task that fails.  Rows are handed out before, those of
the tasks before it and perhaps some of its own; a table is not.  What the source says about other
files does not matter. -/
structure EndsAt (t : Table) (schema : TableSchema) (fields : List Field)
    (stored : DataFile → StoredRows) (tasks : List ScanTask) (kept : KeptIndexes) (x : Failure) :
    Prop where
  rows : ∃ rows part, (t.rows schema fields tasks).run kept = ((rows, some x.error), x.last) ∧
    rows.map Row.toList =
      ((t.loaded schema kept x.before).flatMap (t.liveOf schema fields stored) ++ part).map .ok ∧
    part <+: (t.loaded schema x.kept [x.task]).flatMap (t.liveOf schema fields stored) ∧
    (x.stage ≠ .reading → part = [])
  table : (t.readTable schema fields tasks).run kept = (.error x.error, x.last)
  untouched : ∀ u : Table, t.SameUpTo u x.before x.task x.stage →
    (u.rows schema fields tasks).run kept = (t.rows schema fields tasks).run kept ∧
      (u.readTable schema fields tasks).run kept = (t.readTable schema fields tasks).run kept
  /-- If all indexes that are kept are those of this schema, the rows are those that the delete
  files leave. -/
  fresh : ∀ files, t.KeepsLoaded schema files kept →
    (∀ other ∈ x.before ++ [x.task], ∀ f ∈ other.deletes, f ∈ files) →
      (t.loaded schema kept x.before).flatMap (t.liveOf schema fields stored) =
          x.before.flatMap (t.liveRows schema fields stored) ∧
        (t.loaded schema x.kept [x.task]).flatMap (t.liveOf schema fields stored) <+:
          t.liveRows schema fields stored x.task

/-- What is read with the indexes that are loaded anew are the live rows. -/
theorem liveOf_loaded {files : List DeleteFile} {lists : List (List DeleteIndex)}
    (hkept : t.KeepsLoaded schema files kept)
    (hfiles : ∀ task ∈ tasks, ∀ f ∈ task.deletes, f ∈ files)
    (hruns : Scanning.Runs (fun task => t.loadIndexes schema task.deletes) kept tasks lists last) :
    (t.loaded schema kept tasks).flatMap (t.liveOf schema fields stored) =
      tasks.flatMap (t.liveRows schema fields stored) := by
  induction hruns with
  | nil => rfl
  | @cons kept mid last task is tasks lists hfirst hrest ih =>
      obtain ⟨hloads, hmid⟩ := hkept.of_loadIndexes (hfiles task (List.mem_cons_self ..)) hfirst
      have hlive := ih hmid.loaded fun other hother => hfiles other (List.mem_cons_of_mem _ hother)
      simp only [loaded, hfirst, List.flatMap_cons, liveOf_eq_liveRows hloads, hlive]

section Tasks

variable {projection : Option (List String)} (hids : schema.fieldIds.Nodup)
  (hfields : schema.fields ≠ []) (hmax : schema.fields.length ≤ maxIndex)
  (hproject : schema.project projection = .ok fields)
include hids hfields hmax hproject

/-- A task is read both ways, or it fails. -/
theorem readsBoth_or_fails (htask : t.Offers schema fields stored task) (hkept : KeepsGiven kept) :
    (∃ last, t.ReadsBoth schema fields stored kept [task] last) ∨
      ∃ stage e last, t.FailsAt schema fields task kept stage e last := by
  obtain ⟨r, mid, hrun⟩ : ∃ r mid, (t.taskReader schema fields task).run kept = (r, mid) :=
    ⟨_, _, rfl⟩
  cases r with
  | error e =>
      rcases taskReader_run_eq_error_iff.1 hrun with h | h
      · exact .inr ⟨_, _, _, h⟩
      · exact .inr ⟨_, _, _, h⟩
  | ok reader =>
      obtain ⟨hmid, ⟨rows, bs, hrows, hbs, hlive⟩ | ⟨rows, bs, e, part, hrows, -⟩⟩ :=
        taskReader_outcome hids hfields hmax hproject htask hkept hrun
      · refine .inl ⟨mid, ⟨[rows], .cons ?_ .nil, ?_⟩, ⟨[bs], .cons ?_ .nil⟩, hmid⟩
        · exact readWith_run_eq_ok_iff.2 ⟨reader, hrun, hrows⟩
        · rw [List.flatten_singleton, hlive]
        · rw [readTask_eq]
          exact readWith_run_eq_ok_iff.2 ⟨reader, hrun, hbs⟩
      · exact .inr ⟨_, _, _, .unread hrun (.inl (by rw [hrows]))⟩

/-- Tasks that are read as rows are read both ways. -/
theorem readsBoth_of_runs {parts : List (List Row)}
    (htasks : ∀ task ∈ tasks, t.Offers schema fields stored task) (hkept : KeepsGiven kept)
    (hruns : Scanning.Runs (t.readWith schema fields Reader.rows) kept tasks parts last) :
    t.ReadsBoth schema fields stored kept tasks last := by
  induction hruns with
  | nil => exact .nil hkept
  | @cons kept mid last task part tasks parts hfirst hrest ih =>
      have htask := htasks task (List.mem_cons_self ..)
      have hboth : t.ReadsBoth schema fields stored kept [task] mid := by
        rcases readsBoth_or_fails hids hfields hmax hproject htask hkept with
          ⟨mid', hboth⟩ | ⟨stage, e, mid', hfails⟩
        · obtain ⟨parts', hparts', -⟩ := hboth.rows
          obtain ⟨-, rfl⟩ := Scanning.Runs.unique (.cons hfirst .nil) hparts'
          exact hboth
        · obtain ⟨rows, -, -, -, -, hends⟩ :=
            hfails.outcome hids hfields hmax hproject htask hkept
          have hrows := readInOrder_run_eq_iff.2 ⟨_, .cons hfirst .nil, rfl⟩
          cases ((hends t rfl).1 []).symm.trans hrows
      exact hboth.cons (ih (fun other hother => htasks other (List.mem_cons_of_mem _ hother))
        hboth.given)

/-- All tasks are read both ways, or one of them is the first that fails. -/
theorem readsBoth_or_splits (htasks : ∀ task ∈ tasks, t.Offers schema fields stored task)
    (hkept : KeepsGiven kept) :
    (∃ last, t.ReadsBoth schema fields stored kept tasks last) ∨
      ∃ x, t.SplitsAt schema fields tasks kept x := by
  induction tasks generalizing kept with
  | nil => exact .inl ⟨kept, .nil hkept⟩
  | cons task tasks ih =>
      rcases readsBoth_or_fails hids hfields hmax hproject (htasks task (List.mem_cons_self ..))
        hkept with ⟨mid, hboth⟩ | ⟨stage, e, last, hfails⟩
      · rcases ih (fun other hother => htasks other (List.mem_cons_of_mem _ hother))
          hboth.given with ⟨last, hrest⟩ | ⟨x, hsplit⟩
        · exact .inl ⟨last, hboth.cons hrest⟩
        · obtain ⟨after, rfl⟩ := hsplit.tasks
          obtain ⟨rows, hrows⟩ := hsplit.before
          obtain ⟨parts, hparts, -⟩ := hboth.rows
          have hread : (t.rows schema fields ([task] ++ x.before)).run kept =
              ((parts.flatten ++ rows, none), x.kept) := by
            rw [Table.rows] at hrows ⊢
            rw [readInOrder_append_run hparts, hrows]
          exact .inr ⟨{ x with before := task :: x.before }, ⟨after, rfl⟩, ⟨_, hread⟩, hsplit.fails⟩
      · exact .inr ⟨⟨[], kept, task, stage, e, last⟩, ⟨tasks, rfl⟩, ⟨[], rfl⟩, hfails⟩

/-- **Failures are eager, and tasks are read as a whole or not at all.**  Let tasks be read one at a
time.  Either they are read without an error, both as rows and as a whole, or one of them is the
first that fails.  Then both ways of reading end with its error, and only rows are handed out before
it. -/
theorem reads_or_ends {workers : Int}
    (htasks : ∀ task ∈ tasks, t.Offers schema fields stored task) (hkept : KeepsGiven kept)
    (hworkers : t.parallelism = .ok workers) (hone : workers = 1 ∨ tasks.length ≤ 1) :
    ((∃ rows bs last, (t.rows schema fields tasks).run kept = ((rows, none), last) ∧
        (t.readAll schema fields tasks).run kept = (.ok bs, last)) ∨
      ∃ x, t.SplitsAt schema fields tasks kept x) ∧
    ∀ x, t.SplitsAt schema fields tasks kept x → t.EndsAt schema fields stored tasks kept x := by
  constructor
  · refine (readsBoth_or_splits hids hfields hmax hproject htasks hkept).imp ?_ id
    rintro ⟨last, hboth⟩
    obtain ⟨parts, hparts, -⟩ := hboth.rows
    obtain ⟨batchParts, hbatches⟩ := hboth.batches
    exact ⟨_, _, last, readInOrder_run_eq_iff.2 ⟨parts, hparts, rfl⟩,
      readAll_run_eq_ok_iff.2 ⟨workers, batchParts, hworkers, hbatches, rfl⟩⟩
  · rintro ⟨before, mid, task, stage, e, last⟩ ⟨⟨after, rfl⟩, ⟨rows, hrows⟩, hfails⟩
    obtain ⟨parts, hparts, -⟩ := readInOrder_run_eq_iff.1 hrows
    have hboth := readsBoth_of_runs hids hfields hmax hproject
      (fun other hother => htasks other (List.mem_append_left _ hother)) hkept hparts
    obtain ⟨parts, hparts, hlive⟩ := hboth.rows
    obtain ⟨batchParts, hbatches⟩ := hboth.batches
    obtain ⟨more, part, hmore, hprefix, hnone, hends⟩ := hfails.outcome hids hfields hmax hproject
      (htasks task (List.mem_append_right _ (List.mem_cons_self ..))) hboth.given
    -- The same holds for every table that says the same up to the failure.
    have hboth : ∀ u : Table, t.SameUpTo u before task stage →
        (u.rows schema fields (before ++ task :: after)).run kept =
            ((parts.flatten ++ more, some e), last) ∧
          (u.readTable schema fields (before ++ task :: after)).run kept = (.error e, last) := by
      intro u hu
      obtain ⟨hrowsOf, htaskOf⟩ := hends u (hu.taskReader_run_eq hfails)
      constructor
      · rw [Table.rows, readInOrder_append_run (hparts.congr fun other hother => ?_)]
        · have htail := hrowsOf after
          rw [Table.rows] at htail
          rw [htail]
        · rw [readWith, readWith, hu.taskReader_eq_of_mem hother]
      · refine readTable_run_of_fails (hu.parallelism.trans hworkers) hone
          (hbatches.congr fun other hother => ?_) htaskOf
        rw [readTask, readTask, hu.taskReader_eq_of_mem hother]
    obtain ⟨hrowsOf, htableOf⟩ := hboth t (.refl t before task stage)
    refine ⟨⟨_, part, hrowsOf, ?_, hprefix, hnone⟩, htableOf, fun u hu => ?_, ?_⟩
    · rw [List.map_append, hlive, hmore, List.map_append]
    · rw [hrowsOf, htableOf]
      exact hboth u hu
    · intro files hloaded hfiles
      obtain ⟨lists, hlists, -⟩ := runs_readWith_iff.1 hparts
      have hbefore : ∀ other ∈ before, ∀ f ∈ other.deletes, f ∈ files := fun other hother =>
        hfiles other (List.mem_append_left _ hother)
      obtain ⟨-, hmid⟩ := hloaded.of_loads hbefore hlists
      refine ⟨liveOf_loaded hloaded hbefore hlists, ?_⟩
      obtain ⟨r, last', hload⟩ : ∃ r last', (t.loadIndexes schema task.deletes).run mid =
          (r, last') := ⟨_, _, rfl⟩
      cases r with
      | error e => simp [loaded, hload]
      | ok indexes =>
          obtain ⟨hloads, -⟩ := hmid.loaded.of_loadIndexes
            (hfiles task (List.mem_append_right _ (List.mem_singleton_self task))) hload
          simp [loaded, hload, liveOf_eq_liveRows hloads]

end Tasks

/-! ## A file that is torn -/

theorem begins_noteTable {fileFields fields : List Field} {file : DataFile}
    (hrows : 1 ≤ (noteRows file).count) :
    (noteTable fileFields fields).source.Begins file (noteRows file) := by
  intro columns stream _ _ h
  cases h
  refine (StoredRows.delivers_divided (fun _ => rfl) ?_).begins
  change 0 + 1 + 0 + ((noteRows file).count - 1) = (noteRows file).count
  omega

/-- A table of notes with a file that is lost, and another one that is torn after its second row. -/
def tornTable (fileFields fields : List Field) : Table :=
  { noteTable fileFields fields with
    source := fun path format columns =>
      if path = "lost" then .error (.scan .missingFile (some path))
      else if path = "d1" then
        .ok [.ok ((noteRows (noteFile path 3)).batch columns 0 2),
          .error (.scan .unreadable (some path))]
      else (noteTable fileFields fields).source path format columns }

theorem begins_tornTable {fileFields fields : List Field} {path : String} {rowCount : Int}
    (hrows : 1 ≤ (noteRows (noteFile path rowCount)).count) :
    (tornTable fileFields fields).source.Begins (noteFile path rowCount)
      (noteRows (noteFile path rowCount)) := by
  intro columns stream hnodup hne h
  change (if path = "lost" then _ else if path = "d1" then _ else _) = _ at h
  split at h
  · cases h
  · split at h
    · rename_i hpath
      cases h
      subst hpath
      refine .more (StoredRows.holds_batch (fun _ => rfl) 2) (.failed ?_)
      rw [StoredRows.size_batch]
      change 0 + 2 ≤ 3
      omega
    · exact begins_noteTable hrows columns stream hnodup hne h

def tornTasks : List ScanTask :=
  [⟨noteFile "d2" 2, noteDeletes⟩, ⟨noteFile "d1" 3, [noteKeys]⟩, ⟨noteFile "lost" 1, []⟩]

theorem offers_tornTable {fileFields current fields all : List Field} {schema : TableSchema}
    {path : String} {rowCount : Int} {deletes : List DeleteFile}
    (hnames : (fileFields.map (·.name)).Nodup)
    (hchecked : ∀ f ∈ deletes, f.check = .ok f)
    (hrows : 1 ≤ (noteRows (noteFile path rowCount)).count ∧
      (noteRows (noteFile path rowCount)).count ≤ DeleteFilter.positionLimit)
    (hall : Scan.readFields schema path fields (deletes.flatMap (·.fieldIds)) = .ok all)
    (hallNames : (all.map (·.name)).Nodup)
    (hrecorded : (noteRows (noteFile path rowCount)).IsRecorded (deletes.flatMap (·.fieldIds))
      fileFields all) :
    (tornTable fileFields current).Offers schema fields noteRows
      ⟨noteFile path rowCount, deletes⟩ where
  checked := hchecked
  begins := begins_tornTable hrows.1
  fileNames s hs := by
    obtain rfl : s = ⟨0, fileFields, [], 3, []⟩ := (Except.ok.inj hs).symm
    exact hnames
  names all' hall' := by
    obtain rfl := Except.ok.inj (hall.symm.trans hall')
    exact hallNames
  recorded all' s hall' hs := by
    obtain rfl := Except.ok.inj (hall.symm.trans hall')
    obtain rfl : s = ⟨0, fileFields, [], 3, []⟩ := (Except.ok.inj hs).symm
    exact hrecorded
  within _ := hrows.2

/-- The first task is read, the second one hands out its first row, and the third one is not looked
at. -/
theorem reads_or_ends_tornTable :
    let t := tornTable [columnA, columnB] [renamedA, columnB, columnC]
    ∃ x, t.SplitsAt t.log.schema [columnC, renamedA] tornTasks noteStart x ∧
      x.before = [⟨noteFile "d2" 2, noteDeletes⟩] ∧ x.stage = .reading ∧
      x.error = .scan .unreadable (some "d1") ∧
      t.EndsAt t.log.schema [columnC, renamedA] noteRows tornTasks noteStart x := by
  intro t
  obtain ⟨rows, mid, hrows⟩ : ∃ rows mid, (t.rows t.log.schema [columnC, renamedA]
      [⟨noteFile "d2" 2, noteDeletes⟩]).run noteStart = ((rows, none), mid) :=
    exists_readInOrder_run (by decide +kernel)
  obtain ⟨reader, last, hreader⟩ : ∃ reader last, (t.taskReader t.log.schema [columnC, renamedA]
      ⟨noteFile "d1" 3, [noteKeys]⟩).run mid = (.ok reader, last) := by
    have hmid : mid = ((t.rows t.log.schema [columnC, renamedA]
        [⟨noteFile "d2" 2, noteDeletes⟩]).run noteStart).2 := by rw [hrows]
    exact Scanning.exists_run_eq_ok (by rw [hmid]; decide +kernel)
  have hfails : reader.rows.2 = some (.scan .unreadable (some "d1")) := by
    have hcomputed : ((t.taskReader t.log.schema [columnC, renamedA]
        ⟨noteFile "d1" 3, [noteKeys]⟩).run ((t.rows t.log.schema [columnC, renamedA]
          [⟨noteFile "d2" 2, noteDeletes⟩]).run noteStart).2).1.toOption.bind (·.rows.2) =
            some (.scan .unreadable (some "d1")) := by
      decide +kernel
    rwa [hrows, hreader] at hcomputed
  have hsplit : t.SplitsAt t.log.schema [columnC, renamedA] tornTasks noteStart
      ⟨[⟨noteFile "d2" 2, noteDeletes⟩], mid, ⟨noteFile "d1" 3, [noteKeys]⟩, .reading,
        .scan .unreadable (some "d1"), last⟩ :=
    ⟨⟨_, rfl⟩, ⟨rows, hrows⟩, .unread hreader (.inl hfails)⟩
  have hoffers : ∀ task ∈ tornTasks, t.Offers t.log.schema [columnC, renamedA] noteRows task := by
    have hchecked : ∀ f ∈ noteDeletes, f.check = .ok f := by
      simp [noteDeletes, notePositions, noteKeys, DeleteFile.check]
    intro task htask
    simp only [tornTasks, List.mem_cons, List.not_mem_nil, or_false] at htask
    rcases htask with rfl | rfl | rfl
    · exact offers_tornTable (by decide) hchecked (by decide) rfl (by decide)
        ⟨by decide, by decide, by decide⟩
    · exact offers_tornTable (by decide) (fun f hf => hchecked f (List.mem_cons_of_mem _ hf))
        (by decide) rfl (by decide) ⟨by decide, by decide, by decide⟩
    · exact offers_tornTable (by decide) (fun f hf => absurd hf List.not_mem_nil) (by decide) rfl
        (by decide) ⟨by decide, by decide, by decide⟩
  have hkept : KeepsGiven noteStart := by
    intro c hc e he
    cases hc
    cases he
  have hproject : t.log.schema.project (some ["c", "first"]) = .ok [columnC, renamedA] := rfl
  have hworkers : t.parallelism = .ok 1 := rfl
  exact ⟨_, hsplit, rfl, rfl, rfl, (reads_or_ends (by decide) (by decide) (by decide) hproject
    hoffers hkept hworkers (.inl rfl)).2 _ hsplit⟩

/-! ## Tables that fail unevenly

A row of a batch is handed out through a record, in which a column without a name is called after
its place, and without columns there is no record. -/

/-- Tasks of which different fields are read break off, and do not end as others do. -/
structure FailsUnevenly (t : Table) (schema : TableSchema) (fields : List Field)
    (stored : DataFile → StoredRows) (tasks : List ScanTask) : Prop where
  projects : schema.project none = .ok fields
  begins : ∀ task ∈ tasks, t.source.Begins task.file (stored task.file)
  names : ∀ task ∈ tasks, ∀ all, t.fieldsRead schema fields task = .ok all →
    (all.map (·.name)).Nodup
  not_endsAt : ∃ x, t.SplitsAt schema fields tasks none x ∧
    ¬t.EndsAt schema fields stored tasks none x

def unnamedA : Field := { columnA with name := "" }

def columnZero : Field := { columnB with name := "column_0" }

/-- Rows are not handed out, but the table is read. -/
theorem failsUnevenly_unnamed :
    (tornTable [columnA, columnB] [unnamedA, columnZero]).FailsUnevenly
      (noteSchema [unnamedA, columnZero]) [unnamedA, columnZero] noteRows plainTasks where
  projects := rfl
  begins task htask := by
    obtain rfl := List.mem_singleton.1 htask
    exact begins_tornTable (by decide)
  names task htask all hall := by
    obtain rfl := List.mem_singleton.1 htask
    cases hall
    decide
  not_endsAt := by
    let t := tornTable [columnA, columnB] [unnamedA, columnZero]
    obtain ⟨reader, last, hreader⟩ : ∃ reader last, (t.taskReader t.log.schema
        [unnamedA, columnZero] ⟨noteFile "d2" 2, []⟩).run none = (.ok reader, last) :=
      Scanning.exists_run_eq_ok (by decide +kernel)
    have hfails : reader.rows.2 = some (.raised .duplicateColumn) := by
      have hcomputed : ((t.taskReader t.log.schema [unnamedA, columnZero]
          ⟨noteFile "d2" 2, []⟩).run none).1.toOption.bind (·.rows.2) =
            some (.raised .duplicateColumn) := by
        decide +kernel
      rwa [hreader] at hcomputed
    refine ⟨⟨[], none, ⟨noteFile "d2" 2, []⟩, .reading, .raised .duplicateColumn, last⟩,
      ⟨⟨[], rfl⟩, ⟨[], rfl⟩, .unread hreader (.inl hfails)⟩, fun h => ?_⟩
    obtain ⟨table, last', htable⟩ : ∃ table last', (t.readTable t.log.schema
        [unnamedA, columnZero] plainTasks).run none = (.ok table, last') :=
      Scanning.exists_run_eq_ok (by decide +kernel)
    cases htable.symm.trans h.table

/-- A file behind two rows that are never handed out. -/
def lostTasks : List ScanTask := plainTasks ++ [⟨noteFile "lost" 1, []⟩]

theorem failsUnevenly_withoutFields :
    (tornTable [columnA, columnB] []).FailsUnevenly (noteSchema []) [] noteRows lostTasks where
  projects := rfl
  begins task htask := by
    simp only [lostTasks, plainTasks, List.singleton_append, List.mem_cons, List.not_mem_nil,
      or_false] at htask
    rcases htask with rfl | rfl <;> exact begins_tornTable (by decide)
  names task htask all hall := by
    simp only [lostTasks, plainTasks, List.singleton_append, List.mem_cons, List.not_mem_nil,
      or_false] at htask
    rcases htask with rfl | rfl <;> cases hall <;> exact .nil
  not_endsAt := by
    let t := tornTable [columnA, columnB] []
    obtain ⟨rows, last, hrows⟩ : ∃ rows last, (t.rows t.log.schema [] plainTasks).run none =
        ((rows, none), last) :=
      exists_readInOrder_run (by decide +kernel)
    obtain rfl : last = none := by
      have hlast : ((t.rows t.log.schema [] plainTasks).run none).2.isNone = true := by
        decide +kernel
      simpa [hrows] using hlast
    refine ⟨⟨plainTasks, none, ⟨noteFile "lost" 1, []⟩, .opening,
      .scan .missingFile (some "lost"), none⟩,
      ⟨⟨[], rfl⟩, ⟨rows, hrows⟩, .unopened rfl rfl⟩, fun h => ?_⟩
    obtain ⟨rows, part, hrows, hlive, -⟩ := h.rows
    have hnone : ((t.rows t.log.schema [] lostTasks).run none).1.1.length = 0 := by
      decide +kernel
    have hcount : ((t.loaded t.log.schema none plainTasks).flatMap
        (t.liveOf t.log.schema [] noteRows)).length = 2 := by
      decide +kernel
    have hlength := congrArg List.length hlive
    rw [List.length_map, List.length_map, List.length_append] at hlength
    change (t.rows t.log.schema [] lostTasks).run none = _ at hrows
    rw [hrows] at hnone
    change rows.length = ((t.loaded t.log.schema none plainTasks).flatMap
      (t.liveOf t.log.schema [] noteRows)).length + part.length at hlength
    dsimp only at hnone
    omega

/-- **Not every table fails evenly**: not one with a field that has no name and another one that is
called after its place, nor one without fields. -/
theorem failsUnevenly_tornTables :
    (tornTable [columnA, columnB] [unnamedA, columnZero]).FailsUnevenly
        (noteSchema [unnamedA, columnZero]) [unnamedA, columnZero] noteRows plainTasks ∧
      (tornTable [columnA, columnB] []).FailsUnevenly (noteSchema []) [] noteRows lostTasks :=
  ⟨failsUnevenly_unnamed, failsUnevenly_withoutFields⟩

end Table

end MergeOnRead
