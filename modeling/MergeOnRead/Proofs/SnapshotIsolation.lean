import MergeOnRead.Proofs.PlannedDeletes
import MergeOnRead.Scan.Table

/-!
# A snapshot stays what it is

Files and schemas that are committed later do not reach a snapshot that is there already: it is
planned and read as before.  `Ingestion.scan_isolated` says so of every state that a table can come
to and of all steps that follow.

Strategy:

* `TableLog.Keeps`: a later log answers as before whatever the earlier one has an answer to.  One
  lemma says so for each kind of commit (`keeps_addSchema`, `keeps_addSnapshot`: a new number is
  higher than all that are taken), and `Ingestion.keeps_run` for all later steps;
* `TableLog.ShowsAlike`: two logs agree on all that a scan of one snapshot takes from a log.  What
  is kept is shown alike, since a snapshot refers to no schema that is still to come
  (`Ingestion.Sound.showsAlike`);
* `Table.scan_congr`: a scan of a snapshot asks the log for nothing else.
-/

namespace MergeOnRead

/-! ## What later commits keep -/

namespace TableLog

variable {log later : TableLog}

/-- What a log has an answer to has the same answer in another one. -/
structure Keeps (log later : TableLog) : Prop where
  snapshot : ∀ {id s}, log.snapshot id = .ok s → later.snapshot id = .ok s
  schema : ∀ {id t}, log.schemaById id = .ok t → later.schemaById id = .ok t

theorem Keeps.refl (log : TableLog) : log.Keeps log := ⟨fun h => h, fun h => h⟩

theorem Keeps.trans {last : TableLog} (h : log.Keeps later) (h' : later.Keeps last) :
    log.Keeps last :=
  ⟨fun hs => h'.snapshot (h.snapshot hs), fun ht => h'.schema (h.schema ht)⟩

theorem schemaById_eq_ok_iff {id : Int} {t : TableSchema} :
    log.schemaById id = .ok t ↔ (log.schemas.find? fun s => s.id == id) = some t := by
  rw [schemaById]
  cases log.schemas.find? fun s => s.id == id <;> simp

theorem keeps_addSchema (h : log.schemas.Pairwise fun s t => t.id < s.id) {schema : TableSchema}
    (hnext : schema.id = log.schema.id + 1) :
    log.Keeps { log with schema, olderSchemas := log.schemas } where
  snapshot hs := hs
  schema {id t} ht := by
    have hfind := schemaById_eq_ok_iff.1 ht
    have hid : t.id = id := by simpa using List.find?_some hfind
    rw [← hid]
    refine schemaById_of_mem ?_ (List.mem_cons_of_mem _ (List.mem_of_find?_eq_some hfind))
    exact pairwise_schemas_addSchema h hnext

theorem keeps_addSnapshot {cs : List FileCommit} (h : Written log.snapshots cs) {s : Snapshot}
    (hid : s.id = cs.length + 1) : log.Keeps { log with snapshots := s :: log.snapshots } where
  snapshot {id u} hu := by
    rw [snapshot_eq_ok_iff] at hu ⊢
    have hfound : u.id = id := by simpa using List.find?_some hu
    obtain ⟨k, hk, hnumber⟩ := h.exists_id_eq (List.mem_of_find?_eq_some hu)
    have hne : s.id ≠ id := by omega
    rw [List.find?_cons_of_neg (by simpa using hne)]
    exact hu
  schema ht := ht

end TableLog

namespace Ingestion

variable {w : Ingestion} {cs : List FileCommit}

theorem Sound.keeps_step (hw : w.Sound cs) (e : FileStep) : w.log.Keeps (w.step e).log := by
  obtain ⟨-, hlog, -⟩ | ⟨schema, hnext, -, hstep⟩ | ⟨number, c, s, -, -, -, hs, -, hstep⟩ :=
    w.step_cases e
  · rw [hlog]
    exact .refl w.log
  · rw [hstep]
    exact TableLog.keeps_addSchema hw.numbered hnext
  · have hfollows := TableLog.follows_nextSnapshot hw.written number c
    rw [hstep]
    exact TableLog.keeps_addSnapshot hw.written (by rw [hs, hfollows.id]; simp)

theorem keeps_run (schema : TableSchema) (before after : List FileStep) :
    ((start schema).run before).log.Keeps ((start schema).run (before ++ after)).log := by
  induction after using List.reverseRecOn with
  | nil =>
      rw [List.append_nil]
      exact .refl _
  | append_singleton after e ih =>
      rw [← List.append_assoc, run_concat]
      exact ih.trans ((sound_commits schema (before ++ after)).keeps_step e)

end Ingestion

/-! ## What a scan takes from a log -/

namespace TableLog

/-- Two logs agree on what a scan of a snapshot takes from a log: the snapshot, its plan, the schema
it is read with, and the schemas of its data files. -/
structure ShowsAlike (log later : TableLog) (id : Int) (s : Snapshot) : Prop where
  snapshot : log.snapshot id = .ok s ∧ later.snapshot id = .ok s
  plan : ∀ admits order,
    Plan.make later (some id) admits order = Plan.make log (some id) admits order
  schema : later.schemaAt (some id) = log.schemaAt (some id)
  files : ∀ f ∈ s.dataFiles, later.schemaById f.schemaId = log.schemaById f.schemaId

end TableLog

theorem Ingestion.Sound.showsAlike {w : Ingestion} {cs : List FileCommit} (hw : w.Sound cs)
    {later : TableLog} (hkeeps : w.log.Keeps later) {id : Int} {s : Snapshot}
    (hs : w.log.snapshot id = .ok s) : w.log.ShowsAlike later id s := by
  have hlater := hkeeps.snapshot hs
  obtain ⟨k, c, -, -, hrecords⟩ := hw.exists_commit hs
  refine ⟨⟨hs, hlater⟩, fun admits order => ?_, ?_, fun f hf => ?_⟩
  · rw [Plan.make, Plan.make, Plan.makeWith, Plan.makeWith, hs, hlater]
  · rw [TableLog.schemaAt, TableLog.schemaAt, hs, hlater, ok_bind, ok_bind, hrecords.schema,
      hkeeps.schema hrecords.schema]
  · obtain ⟨t, ht⟩ := hrecords.resolves f hf
    rw [ht, hkeeps.schema ht]

/-! ## Scans -/

/-- A task has a data file of the snapshot and some of its delete files. -/
theorem Plan.mem_of_tasksOf {s : Snapshot} {admits : Option PartitionFilter}
    {order : SequenceOrder} {tasks : List ScanTask} (h : tasksOf s admits order = .ok tasks) :
    ∀ task ∈ tasks, task.file ∈ s.dataFiles ∧ ∀ f ∈ task.deletes, f ∈ s.deleteFiles := by
  intro task htask
  obtain ⟨deletes, hmake, h⟩ := bind_eq_ok_iff.1 h
  obtain ⟨planned, hplanned, h⟩ := bind_eq_ok_iff.1 h
  cases h
  obtain ⟨task?, hmem, rfl⟩ := List.mem_filterMap.1 htask
  obtain ⟨f, hf, hplan⟩ := (mem_iff_of_mapM_eq_ok hplanned).1 hmem
  rw [task?_eq] at hplan
  obtain ⟨isRead, -, hplan⟩ := bind_eq_ok_iff.1 hplan
  cases isRead with
  | false => cases hplan
  | true =>
      obtain ⟨candidates, hget, hplan⟩ := map_eq_ok_iff.1 hplan
      cases hplan
      have hitems : ∀ p ∈ s.deleteFiles.zipIdx.map
          fun d => ((⟨d.2, .ofValues d.1.partition⟩ : RowObject), d.1), p.2 ∈ s.deleteFiles :=
        List.forall_mem_map.2 fun d hd => List.fst_mem_of_mem_zipIdx hd
      have hcandidates := RowBuckets.forall_of_get hitems hmake hget
      exact ⟨List.fst_mem_of_mem_zipIdx hf,
        fun g hg => hcandidates g (List.mem_filter.1 hg).1⟩

theorem Scanning.lift_bind_congr {α β : Type} {r : Except Error α} {f g : α → Scanning β}
    (h : ∀ a, r = .ok a → f a = g a) :
    (ExceptT.mk (pure r) : Scanning α) >>= f = (ExceptT.mk (pure r) : Scanning α) >>= g := by
  cases r with
  | error e => rfl
  | ok a => exact h a rfl

namespace Table

variable {t : Table} {later : TableLog} {schema : TableSchema} {fields : List Field}

theorem taskReader_congr {task : ScanTask}
    (h : later.schemaById task.file.schemaId = t.log.schemaById task.file.schemaId) :
    ({ t with log := later } : Table).taskReader schema fields task =
      t.taskReader schema fields task := by
  have hover : ∀ indexes, ({ t with log := later } : Table).readerOver schema fields task.file
      indexes = t.readerOver schema fields task.file indexes := by
    intro indexes
    simp only [readerOver, h]
    rfl
  simp only [taskReader, hover]
  rfl

theorem readInOrder_congr {α : Type} {read : Reader → List α × Option Error}
    {tasks : List ScanTask} (h : ∀ task ∈ tasks,
      later.schemaById task.file.schemaId = t.log.schemaById task.file.schemaId) :
    ({ t with log := later } : Table).readInOrder schema fields read tasks =
      t.readInOrder schema fields read tasks := by
  induction tasks with
  | nil => rfl
  | cons task tasks ih =>
      rw [readInOrder, readInOrder, taskReader_congr (h task (List.mem_cons_self ..)),
        ih fun task' htask => h task' (List.mem_cons_of_mem _ htask)]

/-- Where two logs show a snapshot alike, it is scanned alike. -/
theorem scan_congr {id : Int} {s : Snapshot} (h : t.log.ShowsAlike later id s)
    (names : Option (List String)) :
    ({ t with log := later } : Table).scan (some id) names = t.scan (some id) names := by
  have hselection : ({ t with log := later } : Table).selection (some id) names =
      t.selection (some id) names := by
    rw [selection, selection, h.schema]
  rw [scan, scan, h.plan, hselection]
  refine Scanning.lift_bind_congr fun plan hplan => ?_
  have hrows : ∀ schema fields, ({ t with log := later } : Table).rows schema fields plan.tasks =
      t.rows schema fields plan.tasks := by
    intro schema fields
    refine readInOrder_congr fun task htask => h.files _ ?_
    rw [Plan.make_of_snapshot h.snapshot.1] at hplan
    obtain ⟨tasks, htasks, rfl⟩ := map_eq_ok_iff.1 hplan
    exact (Plan.mem_of_tasksOf (liftError_eq_ok_iff.1 htasks) task htask).1
  simp only [hrows]

end Table

/-- **Later commits do not reach a snapshot.**  Whatever files and schemas are committed after it,
and whatever commits fail, the snapshot is there as it was, and so are its plan for every filter and
every order of sequence numbers, its schema and the schemas of its data files; a scan of it gives
the same rows in the same order, or the same error. -/
theorem Ingestion.scan_isolated (schema : TableSchema) (before after : List FileStep) {id : Int}
    {s : Snapshot} (hs : ((start schema).run before).log.snapshot id = .ok s) :
    ((start schema).run before).log.ShowsAlike ((start schema).run (before ++ after)).log id s ∧
      ∀ (options : Options) (source : RowSource) (names : Option (List String))
        (kept : KeptIndexes),
        (Table.scan ⟨((start schema).run (before ++ after)).log, options, source⟩ (some id)
            names).run kept =
          (Table.scan ⟨((start schema).run before).log, options, source⟩ (some id) names).run
            kept := by
  have halike := (sound_commits schema before).showsAlike (keeps_run schema before after) hs
  refine ⟨halike, fun options source names kept => ?_⟩
  exact congrArg (·.run kept) (Table.scan_congr (t := ⟨_, options, source⟩) halike names)

/-! ## A deleted row -/

namespace Ingestion

/-- A schema with one column. -/
def columnSchema (id : Int) (name : String) : TableSchema :=
  ⟨id, [⟨1, name, .atomic "INT" true, none⟩], [], 1, []⟩

/-- A row is written. -/
def writingSteps : List FileStep := [.begin .append, .addData 0 (rowsOf "d" []), .commit 0]

/-- The column is renamed and the row is deleted, with another attempt to commit the deletes. -/
def deletingSteps : List FileStep :=
  [.commitSchema (columnSchema 1 "b"), .begin .rowDelta,
    .addDeletes 1 ⟨"e", "parquet", [], .equalityDeletes, 1, 0, [1], none, none⟩, .commit 1,
    .commit 1]

/-- Every file holds a row of ones. -/
def onesSource : RowSource := fun _ _ names =>
  .ok [.ok
    { header := names.map fun name => ⟨name, .flat (.int .w32)⟩
      rows := [names.map fun _ => .int 1] }]

theorem scan_isolated_deletingSteps :
    ∃ s, ((start (columnSchema 0 "a")).run writingSteps).log.snapshot 1 = .ok s ∧
      ((start (columnSchema 0 "a")).run writingSteps).log.ShowsAlike
        ((start (columnSchema 0 "a")).run (writingSteps ++ deletingSteps)).log 1 s ∧
      (Table.scan ⟨((start (columnSchema 0 "a")).run (writingSteps ++ deletingSteps)).log, .empty,
          onesSource⟩ (some 1) none).run none =
        (Table.scan ⟨((start (columnSchema 0 "a")).run writingSteps).log, .empty, onesSource⟩
          (some 1) none).run none := by
  have hsnapshot : ((start (columnSchema 0 "a")).run writingSteps).log.snapshot 1 = .ok _ := rfl
  obtain ⟨halike, hscan⟩ := scan_isolated _ writingSteps deletingSteps hsnapshot
  exact ⟨_, hsnapshot, halike, hscan .empty onesSource none none⟩

/-- The first snapshot still has the row, and the latest one does not. -/
example :
    let t : Table :=
      ⟨((start (columnSchema 0 "a")).run (writingSteps ++ deletingSteps)).log, .empty, onesSource⟩
    (t.scan (some 1) none).run none = (.ok ([.window (some [.int 1]) 0 1], none), none) ∧
      (t.scan none none).run none = (.ok ([], none), none) := by
  exact ⟨rfl, rfl⟩

end Ingestion

end MergeOnRead
