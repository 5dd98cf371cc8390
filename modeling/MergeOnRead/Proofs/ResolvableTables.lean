import MergeOnRead.Log.Upkeep
import MergeOnRead.Proofs.MissingFields
import MergeOnRead.Proofs.SnapshotIsolation
import MergeOnRead.Proofs.Evolution

/-!
# Committed tables stay resolvable

A commit of files checks key fields against the schema that is current then, but a read may use the
schema of any later snapshot, or the current one.  That no read misses a field rests on how schemas
grow: as long as schema changes are committed in turn, every schema extends those before it, and a
field that was there once is there ever after (`Upkeep.reads_resolve`).

`Upkeep.Sound` ties the schemas, the snapshots and the changes under way together.  There is one
lemma for each way in which the log can grow:

* `Sound.addSnapshot`: the delete files of a snapshot have their fields in its schema, those that
  come from the snapshot before it because its schema extends the older one;
* `Sound.addSchema`: only the schema change that was begun last is committed.  It began with the
  current schema, as nothing has been committed since but itself.

From there it goes over the steps (`Sound.run`), and from a sound state to the tasks of its
snapshots (`Sound.isResolvable`, `IsResolvable.finds`).
-/

namespace MergeOnRead

namespace TableSchema

variable {s t : TableSchema} {id : Int}

/-- In an extension an id leads to the same field, which may be nullable by now. -/
theorem Extends.findField? (hst : s.Extends t) (hs : s.WellNumbered)
    (hid : (s.findField? id).isSome) :
    ∃ f g, s.findField? id = some f ∧ t.findField? id = some g ∧ f.RelaxesTo g := by
  obtain ⟨f, hf⟩ := Option.isSome_iff_exists.1 hid
  obtain ⟨hmem, hfid⟩ := of_findLast?_eq_some hf
  obtain rfl : f.id = id := by simpa using hfid
  obtain ⟨g, hg, hfg⟩ := hst.keeps f hmem
  refine ⟨f, g, hf, ?_, hfg⟩
  have hfound := findLast?_id (hst.wellNumbered hs).nodup hg
  rwa [hfg.id_eq] at hfound

end TableSchema

theorem DeleteFile.KeyedBy.of_extends {f : DeleteFile} {s t : TableSchema} (h : f.KeyedBy s)
    (hst : s.Extends t) (hs : s.WellNumbered) : f.KeyedBy t := by
  intro id hid
  obtain ⟨-, g, -, hg, -⟩ := hst.findField? hs (h id hid)
  exact Option.isSome_iff_exists.2 ⟨g, hg⟩

namespace Upkeep

variable {w : Upkeep}

/-! ## The invariant -/

/-- The current schema extends all others, the delete files of a snapshot have their key fields in
its schema, and the schema change that was begun last extends the current schema. -/
structure Sound (w : Upkeep) : Prop where
  files : ∃ cs, w.files.Sound cs
  numbered : ∀ t ∈ w.log.schemas, t.WellNumbered
  extended : ∀ t ∈ w.log.schemas, t.Extends w.log.schema
  keyed : ∀ s ∈ w.log.snapshots, ∃ t ∈ w.log.schemas, t.id = s.schemaId ∧
    ∀ f ∈ s.deleteFiles, f.KeyedBy t
  last : ∀ u ∈ w.updates.getLast?, w.log.schema.Extends u.draft.schema

theorem sound_start {schema : TableSchema} (h : schema.WellNumbered) : (start schema).Sound where
  files := ⟨[], Ingestion.sound_start schema⟩
  numbered t ht := by
    obtain rfl : t = schema := by simpa [start, TableLog.start, TableLog.schemas] using ht
    exact h
  extended t ht := by
    obtain rfl : t = schema := by simpa [start, TableLog.start, TableLog.schemas] using ht
    exact .refl _
  keyed s hs := by cases hs
  last u hu := by cases hu

/-- A state with the same log is as sound as its latest schema change. -/
theorem Sound.of_same_log (hw : w.Sound) {w' : Upkeep} (hlog : w'.log = w.log)
    (hfiles : ∃ cs, w'.files.Sound cs)
    (hlast : ∀ u ∈ w'.updates.getLast?, w.log.schema.Extends u.draft.schema) : w'.Sound := by
  refine ⟨hfiles, ?_, ?_, ?_, ?_⟩ <;> rw [hlog]
  · exact hw.numbered
  · exact hw.extended
  · exact hw.keyed
  · exact hlast

/-- Files are committed. -/
theorem Sound.addSnapshot (hw : w.Sound) {number : Nat} {c : FileChange} {s : Snapshot}
    (hchange : w.changes[number]? = some c) (hopen : c.committed = none)
    (haccepted : w.log.refusal? c.data c.deletes = none)
    (hs : s = w.log.nextSnapshot c.kind c.data c.deletes) :
    Sound ⟨{ w.log with snapshots := s :: w.log.snapshots },
      w.changes.set number { c with committed := some s }, w.updates⟩ where
  files := by
    obtain ⟨cs, hcs⟩ := hw.files
    exact ⟨_, hcs.addSnapshot hchange hopen haccepted hs⟩
  numbered := hw.numbered
  extended := hw.extended
  keyed r hr := by
    rcases List.mem_cons.1 hr with rfl | hr
    · refine ⟨w.log.schema, List.mem_cons_self .., by rw [hs]; rfl, fun f hf => ?_⟩
      rw [hs] at hf
      rcases List.mem_append.1 hf with hf | hf
      · -- A file of the latest snapshot, whose schema the current one extends.
        cases hcurrent : w.log.current? with
        | none => simp [hcurrent] at hf
        | some parent =>
            rw [hcurrent] at hf
            obtain ⟨t, ht, -, hkeyed⟩ := hw.keyed parent (List.mem_of_head? hcurrent)
            exact (hkeyed f hf).of_extends (hw.extended t ht) (hw.numbered t ht)
      · obtain ⟨g, hg, rfl⟩ := List.mem_map.1 hf
        exact (TableLog.refusal?_eq_none_iff.1 haccepted).2 g hg
    · exact hw.keyed r hr
  last := hw.last

/-- The schema change that was begun last is committed. -/
theorem Sound.addSchema (hw : w.Sound) {u : SchemaUpdate} (hu : w.updates.getLast? = some u) :
    Sound { w with log := { w.log with
      schema := u.draft.proposal w.log.schema, olderSchemas := w.log.schemas } } := by
  have hextends : w.log.schema.Extends (u.draft.proposal w.log.schema) := (hw.last u hu).withId _
  have hcurrent : w.log.schema.WellNumbered := hw.numbered _ (List.mem_cons_self ..)
  exact
    { files := by
        obtain ⟨cs, hcs⟩ := hw.files
        exact ⟨cs, hcs.addSchema rfl⟩
      numbered := fun t ht => by
        rcases List.mem_cons.1 ht with rfl | ht
        · exact hextends.wellNumbered hcurrent
        · exact hw.numbered t ht
      extended := fun t ht => by
        rcases List.mem_cons.1 ht with rfl | ht
        · exact .refl _
        · exact (hw.extended t ht).trans hextends
      keyed := fun s hs => by
        obtain ⟨t, ht, hid, hkeyed⟩ := hw.keyed s hs
        exact ⟨t, List.mem_cons_of_mem _ ht, hid, hkeyed⟩
      last := fun v hv => by
        -- What was committed is the draft, apart from the number of its version.
        obtain rfl : u = v := Option.some.inj (hu.symm.trans hv)
        have hrefl := TableSchema.Extends.refl u.draft.schema
        exact ⟨hrefl.length_le, hrefl.kept, hrefl.added, hrefl.highest⟩ }

/-! ## Steps -/

/-- Steps of file changes commit no schema. -/
theorem schema_stepFiles {e : FileStep} (he : ∀ schema, e ≠ .commitSchema schema) :
    (w.files.step e).log.schema = w.log.schema := by
  cases e with
  | commitSchema schema => exact absurd rfl (he schema)
  | commit number =>
      rw [Ingestion.step]
      split
      · rfl
      · split
        · rfl
        · rename_i hcommit
          obtain ⟨-, -, -, -, hlog⟩ := FileChange.commit_eq_ok hcommit
          rw [hlog]
          rfl
  | _ => rfl

/-- A step of a file change leaves the log as it is, or commits the change. -/
theorem Sound.stepFiles (hw : w.Sound) {e : FileStep} (he : ∀ schema, e ≠ .commitSchema schema) :
    (w.stepFiles e).Sound := by
  obtain ⟨cs, hcs⟩ := hw.files
  obtain ⟨-, hlog, hcommitted⟩ | ⟨schema, hnext, -, hstep⟩ |
    ⟨number, c, s, hchange, hopen, haccepted, hs, -, hstep⟩ := w.files.step_cases e
  · exact hw.of_same_log hlog ⟨cs, hcs.of_same_log hlog hcommitted⟩ hw.last
  · have hsame := schema_stepFiles (w := w) he
    rw [hstep] at hsame
    have : schema.id = w.log.schema.id := congrArg TableSchema.id hsame
    have : schema.id = w.log.schema.id + 1 := hnext
    omega
  · have hcommit := hw.addSnapshot hchange hopen haccepted hs
    unfold Upkeep.stepFiles
    rw [hstep]
    exact hcommit

theorem Sound.stepSchemas (hw : w.Sound) {e : SchemaStep}
    (hturn : ∀ number, e = .commit number → w.updates.length ≤ number + 1) :
    (w.stepSchemas e).Sound := by
  have hunchanged : ∀ updates, (∀ u ∈ updates.getLast?, w.log.schema.Extends u.draft.schema) →
      Sound { w with updates } := fun updates hlast => hw.of_same_log rfl hw.files hlast
  cases e with
  | begin =>
      refine hunchanged _ fun u hu => ?_
      obtain rfl : SchemaUpdate.start w.log = u := by
        simpa [schemas, Evolution.step] using hu
      exact .refl _
  | collect number change =>
      unfold Upkeep.stepSchemas Evolution.step
      dsimp only [schemas]
      split
      · exact hw
      · rename_i u hu
        split
        · exact hw
        · rename_i draft hdraft
          refine hunchanged _ fun v hv => ?_
          -- Only the schema change that was begun last counts.
          rw [List.getLast?_eq_getElem?, List.length_set, List.getElem?_set] at hv
          split at hv
          · rename_i hnumber
            rw [hnumber] at hu
            split at hv
            · cases hv
              refine (hw.last u ?_).trans (SchemaChange.extends_of_collect hdraft)
              rw [List.getLast?_eq_getElem?]
              exact hu
            · cases hv
          · rw [← List.getLast?_eq_getElem?] at hv
            exact hw.last v hv
  | commit number =>
      unfold Upkeep.stepSchemas Evolution.step
      dsimp only [schemas]
      split
      · exact hw
      · rename_i u hu
        have hlast : w.updates.getLast? = some u := by
          have hlt := (List.getElem?_eq_some_iff.1 hu).1
          have hle := hturn number rfl
          rw [List.getLast?_eq_getElem?, ← hu]
          congr 1
          omega
        cases hchanged : u.draft.changed with
        | false =>
            rw [SchemaChange.commit_of_unchanged hchanged]
            exact hw
        | true =>
            rw [SchemaChange.commit_of_changed hchanged]
            exact hw.addSchema hlast

theorem Sound.step (hw : w.Sound) {e : UpkeepStep}
    (hturn : ∀ number, e = .schema (.commit number) → w.updates.length ≤ number + 1) :
    (w.step e).Sound := by
  cases e with
  | schema e => exact hw.stepSchemas fun number he => hturn number (by rw [he])
  | begin kind => exact hw.stepFiles fun schema => nofun
  | addData number file => exact hw.stepFiles fun schema => nofun
  | addDeletes number file => exact hw.stepFiles fun schema => nofun
  | commit number => exact hw.stepFiles fun schema => nofun

theorem Sound.run (hw : w.Sound) {steps : List UpkeepStep} (hturn : w.InTurn steps) :
    (w.run steps).Sound := by
  induction steps generalizing w with
  | nil => exact hw
  | cons e steps ih => exact ih (hw.step hturn.1) hturn.2

/-! ## Reads -/

/-- All that a snapshot refers to is there, in the schema that it was committed with and in the
current one. -/
structure IsResolvable (log : TableLog) (s : Snapshot) (own : TableSchema) : Prop where
  schemaAt : log.schemaAt (some s.id) = .ok own
  keyFields : ∀ f ∈ s.deleteFiles, ∀ id ∈ f.fieldIds, ∃ field current,
    own.findField? id = some field ∧ log.schema.findField? id = some current ∧
      field.RelaxesTo current
  fileSchemas : ∀ f ∈ s.dataFiles, ∃ t, log.schemaById f.schemaId = .ok t

theorem Sound.isResolvable (hw : w.Sound) {id : Int} {s : Snapshot}
    (hs : w.log.snapshot id = .ok s) : ∃ own, IsResolvable w.log s own := by
  obtain ⟨cs, hcs⟩ := hw.files
  have hfind := TableLog.snapshot_eq_ok_iff.1 hs
  have hid : s.id = id := by simpa using List.find?_some hfind
  have hmem : s ∈ w.log.snapshots := List.mem_of_find?_eq_some hfind
  obtain ⟨t, ht, htid, hkeyed⟩ := hw.keyed s hmem
  refine ⟨t, ?_, fun f hf i hi => ?_, fun f hf => ?_⟩
  · rw [TableLog.schemaAt, hid, hs, ok_bind, ← htid]
    exact TableLog.schemaById_of_mem hcs.numbered ht
  · exact (hw.extended t ht).findField? (hw.numbered t ht) (hkeyed f hf i hi)
  · exact TableLog.exists_schemaById_iff.2 (hcs.resolves s hmem f hf)

/-- The tasks of a snapshot find what they refer to. -/
theorem IsResolvable.finds {t : Table} {s : Snapshot} {own schema : TableSchema}
    (h : IsResolvable t.log s own) (hschema : schema = own ∨ schema = t.log.schema)
    {admits : Option Plan.PartitionFilter} {order : Plan.SequenceOrder} {tasks : List ScanTask}
    (htasks : Plan.tasksOf s admits order = .ok tasks) : ∀ task ∈ tasks, t.Finds schema task := by
  intro task htask
  obtain ⟨hfile, hdeletes⟩ := Plan.mem_of_tasksOf htasks task htask
  refine ⟨fun f hf id hid => ?_, h.fileSchemas _ hfile⟩
  obtain ⟨field, current, hfield, hcurrent, -⟩ := h.keyFields f (hdeletes f hf) id hid
  rcases hschema with rfl | rfl
  · exact Option.isSome_iff_exists.2 ⟨field, hfield⟩
  · exact Option.isSome_iff_exists.2 ⟨current, hcurrent⟩

/-- Tasks are read as rows, as batches and as a whole without missing a field or a schema. -/
structure ReadsResolve (t : Table) (schema : TableSchema) (fields : List Field)
    (tasks : List ScanTask) (kept : KeptIndexes) : Prop where
  rows : ∀ e ∈ ((t.rows schema fields tasks).run kept).1.2, ¬e.IsMissing
  batches : ∀ e ∈ ((t.batches schema fields tasks).run kept).1.2, ¬e.IsMissing
  table : ∀ e, ((t.readTable schema fields tasks).run kept).1 = .error e → ¬e.IsMissing

theorem readsResolve_of_finds {t : Table} {schema : TableSchema} {fields : List Field}
    {tasks : List ScanTask} {kept : KeptIndexes} (hsource : t.source.IsResolving)
    (hkept : KeepsGiven kept) (htasks : ∀ task ∈ tasks, t.Finds schema task) :
    ReadsResolve t schema fields tasks kept where
  rows := (Table.conserves_readInOrder hsource (fun _ hr => Reader.resolves_rowsWithin _ hr) htasks
    kept hkept).2
  batches := (Table.conserves_readInOrder hsource (fun _ hr => Table.failure_of_liveBatches hr)
    htasks kept hkept).2
  table := (Table.conserves_readTable hsource htasks kept hkept).2.1

/-- **Committed tables stay resolvable.**  After any commits of files, and of schema changes in
turn, the key fields of every delete file of every snapshot are in the schema of the snapshot and,
perhaps nullable by now, in the current one, and all its data files have their schemas.  So the
tasks of a snapshot can be read with either schema, with any projection and whatever indexes are
kept, without missing a field or a schema. -/
theorem reads_resolve {schema : TableSchema} (hids : (schema.fields.map (·.id)).Nodup)
    (hhighest : ∀ f ∈ schema.fields, f.id ≤ schema.highestFieldId) {steps : List UpkeepStep}
    (hturn : (start schema).InTurn steps) {log : TableLog}
    (hlog : ((start schema).run steps).log = log) {id : Int} {s : Snapshot}
    (hs : log.snapshot id = .ok s) :
    ∃ own, IsResolvable log s own ∧
      ∀ t : Table, t.log = log → t.source.IsResolving →
        ∀ admits order tasks, Plan.tasksOf s admits order = .ok tasks →
          ∀ picked, (∀ task ∈ picked, task ∈ tasks) →
            ∀ current, current = own ∨ current = log.schema →
              ∀ names fields, current.project names = .ok fields →
                ∀ kept, KeepsGiven kept → ReadsResolve t current fields picked kept := by
  have hsound := (sound_start ⟨hids, hhighest⟩).run hturn
  rw [← hlog] at hs ⊢
  obtain ⟨own, hown⟩ := hsound.isResolvable hs
  refine ⟨own, hown, ?_⟩
  intro t ht hsource admits order tasks htasks picked hpicked current hcurrent names fields hproject
    kept hkept
  rw [← ht] at hown hcurrent
  exact readsResolve_of_finds hsource hkept fun task htask =>
    hown.finds hcurrent htasks task (hpicked task htask)

/-! ## A column is added after a delete -/

def growingSchema : TableSchema :=
  ⟨0, [⟨1, "a", .atomic "INT" true, none⟩, ⟨2, "b", .atomic "INT" false, none⟩], [], 2, []⟩

/-- A delete by `b` is committed, then `b` is made nullable and `c` is added, after another schema
change was given up, and a delete by `c` is committed. -/
def growingSteps : List UpkeepStep :=
  [.begin .rowDelta,
    .addData 0 { path := "d.parquet", format := "parquet", partition := [], rowCount := 1 },
    .addDeletes 0 ⟨"e.parquet", "parquet", [], .equalityDeletes, 1, 0, [2], none, none⟩,
    .commit 0, .schema .begin, .schema .begin, .schema (.collect 1 (.relax "b")),
    .schema (.collect 1 (.add "c" (.atomic "INT" true))), .schema (.commit 1),
    .begin .rowDelta,
    .addDeletes 1 ⟨"g.parquet", "parquet", [], .equalityDeletes, 1, 0, [3], none, none⟩,
    .commit 1]

def growingLog : TableLog := ((start growingSchema).run growingSteps).log

/-- A table of the log, all of whose files hold a row of ones. -/
def growingTable : Table where
  log := growingLog
  options := .ofList []
  source _ _ names := .ok [.ok
    { header := names.map fun name => ⟨name, .flat (.int .w32)⟩
      rows := [names.map fun _ => .int 1] }]

theorem reads_resolve_growingSteps :
    (growingSchema.fields.map (·.id)).Nodup ∧
      (∀ f ∈ growingSchema.fields, f.id ≤ growingSchema.highestFieldId) ∧
      (start growingSchema).InTurn growingSteps ∧
      ∃ s tasks, growingLog.snapshot 1 = .ok s ∧ Plan.tasksOf s none Plan.notOlder = .ok tasks ∧
        tasks.length = 1 ∧
        ReadsResolve growingTable growingLog.schema growingLog.schema.fields tasks none := by
  have hids : (growingSchema.fields.map (·.id)).Nodup := by decide
  have hhighest : ∀ f ∈ growingSchema.fields, f.id ≤ growingSchema.highestFieldId := by decide
  have hturn : (start growingSchema).InTurn growingSteps := by
    refine ⟨nofun, nofun, nofun, nofun, nofun, nofun, nofun, nofun, ?_, nofun, nofun, nofun,
      trivial⟩
    intro number h
    cases h
    decide
  have hsource : growingTable.source.IsResolving := fun path format names =>
    ⟨.ok _, fun stream hstream item hitem => by
      cases hstream
      rw [List.mem_singleton.1 hitem]
      exact .ok _⟩
  obtain ⟨s, hs, tasks, htasks, hone⟩ : ∃ s, growingLog.snapshot 1 = .ok s ∧ ∃ tasks,
      Plan.tasksOf s none Plan.notOlder = .ok tasks ∧ tasks.length = 1 := ⟨_, rfl, _, rfl, rfl⟩
  obtain ⟨own, -, hreads⟩ := reads_resolve hids hhighest hturn rfl hs
  refine ⟨hids, hhighest, hturn, s, tasks, hs, htasks, hone, ?_⟩
  exact hreads growingTable rfl hsource none Plan.notOlder tasks htasks tasks (fun _ htask => htask)
    _ (.inr rfl) none _ rfl none fun c hc => absurd hc (Option.not_mem_none c)

end Upkeep

end MergeOnRead
